import Radiata.ForStd.Bytes
import Radiata.ForStd.Prog
import Radiata.ForStd.SortedMap

/-!
# A directory of files with faults

One flat directory, the calls a program makes on it, and two ways to execute them:
without faults, and under a schedule of faults that is consumed call by call. A
call that fails may have had no effect, part of its effect (a write), or all of
it. The trace of a program is the calls it makes with the fault of each.

A process that is stopped inside a call leaves the directory as it was, as it would
have become, or, in a write, with a front part written. In particular a rename is
atomic.

## Key results

- `FsProg.trace_bind`: the trace of a sequence is the traces of its parts
- `FsProg.exec_of_trace`: a program that meets no fault does what it does without
-/

/-- The files of the directory by name. -/
abbrev Files := SortedMap Bytes Bytes

/-- The error kinds a caller tells apart. -/
inductive FsError where
  | alreadyExists
  | notFound
  | permissionDenied
  | other
  deriving DecidableEq

inductive FsCall where
  | exists (name : Bytes)
  | createNew (name : Bytes)
  | writeAll (name bytes : Bytes)
  | syncAll (name : Bytes)
  | rename (source target : Bytes)
  | removeFile (name : Bytes)
  | readDir
  /-- Flushes the directory itself. -/
  | barrier
  deriving DecidableEq

/-- What a call answers. -/
@[reducible] def FsCall.Answer : FsCall → Type
  | .exists _ => Bool
  | .readDir => Except FsError (List Bytes)
  | _ => Except FsError Unit

/-- A program on the directory. -/
abbrev FsProg (α : Type) := Prog FsCall FsCall.Answer α

/-! ## The calls as programs -/

namespace Fs

abbrev fileExists (name : Bytes) : FsProg Bool := Prog.perform (FsCall.exists name)
abbrev createNew (name : Bytes) : FsProg (Except FsError Unit) :=
  Prog.perform (FsCall.createNew name)
abbrev writeAll (name bytes : Bytes) : FsProg (Except FsError Unit) :=
  Prog.perform (FsCall.writeAll name bytes)
abbrev syncAll (name : Bytes) : FsProg (Except FsError Unit) := Prog.perform (FsCall.syncAll name)
abbrev rename (source target : Bytes) : FsProg (Except FsError Unit) :=
  Prog.perform (FsCall.rename source target)
abbrev removeFile (name : Bytes) : FsProg (Except FsError Unit) :=
  Prog.perform (FsCall.removeFile name)
abbrev readDir : FsProg (Except FsError (List Bytes)) := Prog.perform FsCall.readDir
abbrev barrier : FsProg (Except FsError Unit) := Prog.perform FsCall.barrier

end Fs

/-! ## Calls without faults -/

namespace FsCall

/-- The answer and the files after a call without a fault. -/
def perform : (call : FsCall) → Files → call.Answer × Files
  | .exists name, files => (files.contains name, files)
  | .createNew name, files =>
    if files.contains name then (.error .alreadyExists, files) else (.ok (), files.insert name [])
  | .writeAll name bytes, files =>
    match files.get name with
    | some old => (.ok (), files.insert name (old ++ bytes))
    | none => (.error .notFound, files)
  | .syncAll _, files => (.ok (), files)
  | .rename source target, files =>
    match files.get source with
    | some bytes => (.ok (), (files.erase source).insert target bytes)
    | none => (.error .notFound, files)
  | .removeFile name, files =>
    if files.contains name then (.ok (), files.erase name) else (.error .notFound, files)
  | .readDir, files => (.ok (files.toList.map Prod.fst), files)
  | .barrier, files => (.ok (), files)

/-- The states a process may be stopped in inside a call. -/
inductive Inside : FsCall → Files → Files → Prop where
  | write {name bytes old : Bytes} {files : Files} (count : Nat) (h : files.get name = some old) :
      Inside (.writeAll name bytes) files (files.insert name (old ++ bytes.take count))

end FsCall

namespace Fs

/-- A file that is not there is created empty. -/
theorem run_createNew {name : Bytes} {files : Files} (h : files.get name = none) :
    Prog.run FsCall.perform (createNew name) files = (.ok (), files.insert name []) := by
  show FsCall.perform (.createNew name) files = _
  simp only [FsCall.perform, SortedMap.contains, h, Option.isSome_none, Bool.false_eq_true,
    ↓reduceIte]

/-- A file that is there is not created again. -/
theorem run_createNew_of_some {name bytes : Bytes} {files : Files} (h : files.get name = some bytes) :
    Prog.run FsCall.perform (createNew name) files = (.error .alreadyExists, files) := by
  show FsCall.perform (.createNew name) files = _
  simp only [FsCall.perform, SortedMap.contains, h, Option.isSome_some, ↓reduceIte]

theorem run_writeAll {name bytes old : Bytes} {files : Files} (h : files.get name = some old) :
    Prog.run FsCall.perform (writeAll name bytes) files
      = (.ok (), files.insert name (old ++ bytes)) := by
  show FsCall.perform (.writeAll name bytes) files = _
  simp only [FsCall.perform, h]

theorem run_rename {source target bytes : Bytes} {files : Files}
    (h : files.get source = some bytes) :
    Prog.run FsCall.perform (rename source target) files
      = (.ok (), (files.erase source).insert target bytes) := by
  show FsCall.perform (.rename source target) files = _
  simp only [FsCall.perform, h]

theorem run_removeFile {name bytes : Bytes} {files : Files} (h : files.get name = some bytes) :
    Prog.run FsCall.perform (removeFile name) files = (.ok (), files.erase name) := by
  show FsCall.perform (.removeFile name) files = _
  simp only [FsCall.perform, SortedMap.contains, h, Option.isSome_some, ↓reduceIte]

end Fs

/-- A process without faults stopped in the directory `files'`. -/
abbrev FsProg.Cut {α : Type} (p : FsProg α) (files files' : Files) : Prop :=
  Prog.Cut FsCall.perform FsCall.Inside p files files'

/-! ## Calls with faults -/

/-- The fault of a call: it works, it reports an error after writing `written` bytes at
    most, or it reports an error after having had its effect. -/
inductive Fault where
  | none
  | failed (error : FsError) (written : Nat)
  | failedAfter (error : FsError)
  deriving DecidableEq

/-- The answer that reports an error. A test of existence has no error to report. -/
def FsCall.failure (error : FsError) : (call : FsCall) → call.Answer
  | .exists _ => false
  | .createNew _ => .error error
  | .writeAll _ _ => .error error
  | .syncAll _ => .error error
  | .rename _ _ => .error error
  | .removeFile _ => .error error
  | .readDir => .error error
  | .barrier => .error error

/-- The answer of a call under a fault. -/
def FsCall.answer (call : FsCall) (fault : Fault) (files : Files) : call.Answer :=
  match fault with
  | .none => (call.perform files).1
  | .failed error _ => call.failure error
  | .failedAfter error => call.failure error

/-- The directory and the faults to come. -/
structure FsWorld where
  files : Files
  faults : List Fault

namespace FsWorld

/-- The fault of the next call. -/
def fault (world : FsWorld) : Fault := world.faults.headD .none

/-- The files a call under a fault leaves. -/
def filesAfter (call : FsCall) (fault : Fault) (files : Files) : Files :=
  match fault with
  | .none => (call.perform files).2
  | .failedAfter _ => (call.perform files).2
  | .failed _ written =>
    match call with
    | .writeAll name bytes => (FsCall.perform (.writeAll name (bytes.take written)) files).2
    | _ => files

/-- A call under the next fault of the schedule. -/
def handle (call : FsCall) (world : FsWorld) : call.Answer × FsWorld :=
  (call.answer world.fault world.files,
    ⟨filesAfter call world.fault world.files, world.faults.tail⟩)

end FsWorld

namespace FsProg

variable {α β : Type}

/-- Executes a program under the faults of the world. -/
abbrev exec (p : FsProg α) (world : FsWorld) : α × FsWorld :=
  Prog.run FsWorld.handle p world

/-- The calls of an execution with the fault of each, newest first. -/
def trace : FsProg α → FsWorld → List (FsCall × Fault)
  | .done _, _ => []
  | .call request resume, world =>
    trace (resume (world.handle request).1) (world.handle request).2 ++ [(request, world.fault)]

@[simp] theorem trace_pure (value : α) (world : FsWorld) :
    trace (pure value : FsProg α) world = [] := rfl

@[simp] theorem trace_perform (call : FsCall) (world : FsWorld) :
    trace (Prog.perform call) world = [(call, world.fault)] := rfl

/-- The trace of a sequence: that of the second part before that of the first. -/
theorem trace_bind (p : FsProg α) (f : α → FsProg β) (world : FsWorld) :
    trace (p >>= f) world = trace (f (exec p world).1) (exec p world).2 ++ trace p world := by
  induction p generalizing world with
  | done value => exact (List.append_nil _).symm
  | call request resume ih =>
    show trace (resume _ >>= f) _ ++ _ = _
    rw [ih, List.append_assoc]
    rfl

/-- A call without a fault. -/
theorem handle_of_fault (call : FsCall) {world : FsWorld} (h : world.fault = .none) :
    (world.handle call).1 = (call.perform world.files).1 ∧
      (world.handle call).2.files = (call.perform world.files).2 := by
  simp only [FsWorld.handle, h]
  exact ⟨rfl, rfl⟩

/-- A program that meets no fault does what it does without. -/
theorem exec_of_trace {p : FsProg α} {world : FsWorld}
    (h : ∀ entry ∈ p.trace world, entry.2 = .none) :
    (p.exec world).1 = (Prog.run FsCall.perform p world.files).1 ∧
      (p.exec world).2.files = (Prog.run FsCall.perform p world.files).2 := by
  induction p generalizing world with
  | done value => exact ⟨rfl, rfl⟩
  | call request resume ih =>
    have hfault : world.fault = .none := h (request, world.fault)
      (List.mem_append_right _ (List.mem_singleton.mpr rfl))
    obtain ⟨hanswer, hfiles⟩ := handle_of_fault request hfault
    have hlater : ∀ entry ∈ trace (resume (world.handle request).1) (world.handle request).2,
        entry.2 = .none :=
      fun entry hentry => h entry (List.mem_append_left _ hentry)
    have hrest := ih (world.handle request).1 hlater
    rw [hfiles, hanswer] at hrest
    show (exec (resume (world.handle request).1) (world.handle request).2).1 = _ ∧
      (exec (resume (world.handle request).1) (world.handle request).2).2.files = _
    rw [hanswer]
    exact hrest

end FsProg
