import Radiata.Spec.JsonNames

/-!
# What a commit does to the directory

The calls of a commit on the directory, seen through its generations. Everything but
the rename works on temporary names and leaves the generations as they are, whatever
fails and wherever the process is stopped; the rename adds the complete document
under its final name, or nothing.

## Key results

- `run_writeCommit`: a commit without faults is committed and adds its generation
- `cut_writeCommit`: a stopped commit has added its generation completely or not at all
- `Writes.writeAndRename`: what a write under faults leaves
-/

namespace Radiata

/-! ## Generations of a directory -/

/-- The directories hold the same generations. -/
def SameGenerations (files files' : Files) : Prop :=
  ∀ name, (generationOf name).isSome = true → files'.get name = files.get name

/-- The second directory holds the generations of the first and the file `added`. -/
def AddsGeneration (added bytes : Bytes) (files files' : Files) : Prop :=
  ∀ name, (generationOf name).isSome = true →
    files'.get name = if name = added then some bytes else files.get name

theorem SameGenerations.refl (files : Files) : SameGenerations files files := fun _ _ => rfl

theorem SameGenerations.trans {a b c : Files} (hab : SameGenerations a b)
    (hbc : SameGenerations b c) : SameGenerations a c :=
  fun name h => (hbc name h).trans (hab name h)

variable {bytes : Bytes}

theorem SameGenerations.adds {added : Bytes} {a b c : Files} (hab : SameGenerations a b)
    (hbc : AddsGeneration added bytes b c) : AddsGeneration added bytes a c := by
  intro name h
  rw [hbc name h, hab name h]

theorem AddsGeneration.same {added : Bytes} {a b c : Files} (hab : AddsGeneration added bytes a b)
    (hbc : SameGenerations b c) :
    AddsGeneration added bytes a c :=
  fun name h => (hbc name h).trans (hab name h)

theorem SameGenerations.insert {name : Bytes} (h : generationOf name = none) (files : Files)
    (bytes : Bytes) : SameGenerations files (files.insert name bytes) := by
  intro other hother
  refine SortedMap.get_insert_ne _ _ ?_
  rintro rfl
  rw [h] at hother
  cases hother

theorem SameGenerations.erase {name : Bytes} (h : generationOf name = none) (files : Files) :
    SameGenerations files (files.erase name) := by
  intro other hother
  refine SortedMap.get_erase_ne _ ?_
  rintro rfl
  rw [h] at hother
  cases hother

/-- A call that changes no generation: it is no rename, and the name it changes is not the
    name of one. -/
def Harmless : FsCall → Prop
  | .createNew name => generationOf name = none
  | .writeAll name _ => generationOf name = none
  | .removeFile name => generationOf name = none
  | .rename _ _ => False
  | _ => True

variable {call : FsCall}

theorem Harmless.perform (h : Harmless call) (files : Files) :
    SameGenerations files (call.perform files).2 := by
  cases call with
  | createNew name =>
    simp only [FsCall.perform]
    split
    · exact .refl files
    · exact .insert h files []
  | writeAll name bytes =>
    simp only [FsCall.perform]
    split
    · exact .insert h files _
    · exact .refl files
  | removeFile name =>
    simp only [FsCall.perform]
    split
    · exact .erase h files
    · exact .refl files
  | rename source target => exact h.elim
  | _ => exact .refl files

variable {files files' : Files}

theorem Harmless.inside (h : Harmless call) (hinside : call.Inside files files') :
    SameGenerations files files' := by
  cases hinside with
  | write count hget => exact .insert h files _

theorem Harmless.handle (h : Harmless call) (world : FsWorld) :
    SameGenerations world.files (world.handle call).2.files := by
  show SameGenerations world.files
    (FsWorld.filesAfter call world.fault world.files)
  cases world.fault with
  | none => exact h.perform world.files
  | failedAfter error => exact h.perform world.files
  | failed error written =>
    cases call with
    | writeAll name bytes =>
      -- a front part of the bytes has been written
      have hfront : Harmless (.writeAll name (bytes.take written)) := h
      exact hfront.perform world.files
    | _ => exact .refl world.files

section Harmless

variable {α : Type} {p : FsProg α} (hp : p.All Harmless)

include hp

theorem run_harmless (files : Files) :
    SameGenerations files (Prog.run FsCall.perform p files).2 :=
  hp.run_invariant (I := SameGenerations files)
    (fun _ s hcall hs => hs.trans (hcall.perform s)) (.refl files)

theorem exec_harmless (world : FsWorld) :
    SameGenerations world.files (FsProg.exec p world).2.files :=
  hp.run_invariant (I := fun w : FsWorld => SameGenerations world.files w.files)
    (fun _ w hcall hw => hw.trans (hcall.handle w)) (.refl world.files)

theorem cut_harmless {files files' : Files} (hcut : p.Cut files files') :
    SameGenerations files files' :=
  hp.cut_invariant (I := SameGenerations files)
    (fun _ s hcall hs => hs.trans (hcall.perform s))
    (fun _ _ _ hcall hinside hs => hs.trans (hcall.inside hinside)) (.refl files) hcut

end Harmless

/-! ## The parts of a commit that change no generation -/

theorem directoryBarrier_harmless : directoryBarrier.All Harmless :=
  Prog.All.bind (Prog.All.perform trivial) (fun _ => Prog.All.pure _)

theorem commitBarrier_harmless (storage : JsonStorage) :
    storage.commitBarrier.All Harmless := by
  unfold JsonStorage.commitBarrier
  split
  · exact directoryBarrier_harmless
  · exact Prog.All.pure _

theorem removeTempFiles_harmless (names : List Bytes) : (removeTempFiles names).All Harmless := by
  induction names with
  | nil => exact Prog.All.pure _
  | cons name names ih =>
    unfold removeTempFiles
    split
    · rename_i htemp
      refine Prog.All.bind (Prog.All.perform (generationOf_of_isTemp htemp)) ?_
      intro answer
      cases answer with
      | error e => exact Prog.All.pure _
      | ok _ => exact ih
    · exact ih

theorem cleanupTempFiles_harmless : cleanupTempFiles.All Harmless := by
  refine Prog.All.bind (Prog.All.perform trivial) ?_
  intro answer
  cases answer with
  | error e => exact Prog.All.pure _
  | ok names => exact removeTempFiles_harmless names

theorem settle_harmless [DnsName] (storage : JsonStorage) (transaction : StoreTransaction)
    (plan : CommitPlan) : (storage.settle transaction plan).All Harmless := by
  refine (commitBarrier_harmless storage).bind ?_
  intro barrierResult
  refine cleanupTempFiles_harmless.bind ?_
  intro cleanup
  cases cleanup with
  | error e => exact Prog.All.pure _
  | ok _ =>
    refine (commitBarrier_harmless storage).bind ?_
    intro _
    cases barrierResult with
    | error e => exact Prog.All.pure _
    | ok _ => exact Prog.All.pure _

/-! ## Without faults -/

/-- Removing the temporary files of a list of files that are there. -/
theorem run_removeTempFiles {names : List Bytes} (hnodup : names.Nodup)
    (hthere : ∀ name ∈ names, ∃ bytes, files.get name = some bytes) :
    (Prog.run FsCall.perform (removeTempFiles names) files).1 = .ok () := by
  induction names generalizing files with
  | nil => rfl
  | cons name names ih =>
    rw [List.nodup_cons] at hnodup
    have hrest : ∀ other ∈ names, ∃ bytes, files.get other = some bytes :=
      fun other hother => hthere other (List.mem_cons_of_mem name hother)
    unfold removeTempFiles
    split
    · obtain ⟨bytes, hbytes⟩ := hthere name (List.mem_cons_self ..)
      rw [Prog.run_bind, Fs.run_removeFile hbytes]
      refine ih hnodup.2 ?_
      intro other hother
      have hne : other ≠ name := fun heq => hnodup.1 (heq ▸ hother)
      rw [SortedMap.get_erase_ne _ hne]
      exact hrest other hother
    · exact ih hnodup.2 hrest

theorem run_cleanupTempFiles (files : Files) :
    (Prog.run FsCall.perform cleanupTempFiles files).1 = .ok () := by
  refine run_removeTempFiles files.nodup_keys ?_
  intro name hname
  exact Option.isSome_iff_exists.mp ((files.mem_keys name).mp hname)

theorem run_commitBarrier (storage : JsonStorage) (files : Files) :
    Prog.run FsCall.perform storage.commitBarrier files = (.ok (), files) := by
  unfold JsonStorage.commitBarrier
  split <;> rfl

/-- Without faults the transaction is committed once it has been renamed. -/
theorem run_settle [DnsName] (storage : JsonStorage) (transaction : StoreTransaction)
    (plan : CommitPlan) (files : Files) :
    (Prog.run FsCall.perform (storage.settle transaction plan) files).1
      = (.ok (.committed plan.receipt), plan.head) := by
  unfold JsonStorage.settle
  simp only [Prog.run_bind, run_commitBarrier, run_cleanupTempFiles]
  rfl

variable {temp : Bytes}

/-- Writing the temporary file and renaming it. -/
theorem run_writeTemp (final bytes : Bytes) (hempty : files.get temp = some []) :
    Prog.run FsCall.perform (writeTemp temp final bytes) files
      = (.ok (), ((files.insert temp bytes).erase temp).insert final bytes) := by
  unfold writeTemp
  rw [Prog.run_bind, Fs.run_writeAll hempty]
  exact Fs.run_rename (SortedMap.get_insert_self ..)

/-- Without faults the document is renamed to its final name, stale temporary file or not. -/
theorem run_writeAndRename (htemp : generationOf temp = none) (final bytes : Bytes)
    (files : Files) :
    (Prog.run FsCall.perform (writeAndRename temp final bytes) files).1 = .ok () ∧
      AddsGeneration final bytes files
        (Prog.run FsCall.perform (writeAndRename temp final bytes) files).2 := by
  -- the write from a directory without the temporary file
  have hfirst : ∀ files : Files,
      (Prog.run FsCall.perform (writeTemp temp final bytes) (files.insert temp [])).1 = .ok () ∧
        AddsGeneration final bytes files
          (Prog.run FsCall.perform (writeTemp temp final bytes) (files.insert temp [])).2 := by
    intro files
    rw [run_writeTemp final bytes (SortedMap.get_insert_self ..)]
    refine ⟨rfl, ?_⟩
    intro name hname
    have hne : name ≠ temp := by
      rintro rfl
      rw [htemp] at hname
      cases hname
    rw [SortedMap.get_insert, SortedMap.get_erase_ne _ hne, SortedMap.get_insert_ne _ _ hne,
      SortedMap.get_insert_ne _ _ hne]
    split <;> simp_all
  unfold writeAndRename
  cases hget : files.get temp with
  | none =>
    rw [writeAttempts, Prog.run_bind, Fs.run_createNew hget]
    exact hfirst files
  | some stale =>
    rw [writeAttempts, Prog.run_bind, Fs.run_createNew_of_some hget]
    simp only [and_self, ↓reduceIte]
    rw [Prog.run_bind, Fs.run_removeFile hget]
    simp only
    rw [writeAttempts, Prog.run_bind, Fs.run_createNew (SortedMap.get_erase_self ..)]
    obtain ⟨hok, hadds⟩ := hfirst (files.erase temp)
    exact ⟨hok, (SameGenerations.erase htemp files).adds hadds⟩

/-- A commit without faults is committed and adds its generation. -/
theorem run_writeCommit [DnsName] (storage : JsonStorage) (head : Head)
    (transaction : StoreTransaction) {plan : CommitPlan}
    (htemp : generationOf plan.tempName = none) (hnew : files.get plan.finalName = none) :
    (Prog.run FsCall.perform (storage.writeCommit head transaction plan) files).1
        = (.ok (.committed plan.receipt), plan.head) ∧
      AddsGeneration plan.finalName plan.documentBytes files
        (Prog.run FsCall.perform (storage.writeCommit head transaction plan) files).2 := by
  obtain ⟨hok, hadds⟩ := run_writeAndRename htemp plan.finalName plan.documentBytes files
  have hexists : Prog.run FsCall.perform (Fs.fileExists plan.finalName) files = (false, files) := by
    show (files.contains plan.finalName, files) = _
    rw [SortedMap.contains, hnew]
    rfl
  unfold JsonStorage.writeCommit
  rw [Prog.run_bind, hexists]
  simp only [Bool.false_eq_true, ↓reduceIte, Prog.run_bind, hok]
  exact ⟨run_settle storage transaction plan _,
    hadds.same (run_harmless (settle_harmless storage transaction plan) _)⟩

/-! ## Stopped processes -/

/-- The rename of a complete temporary file adds the generation. -/
theorem AddsGeneration.of_rename {final : Bytes} (htemp : generationOf temp = none)
    (files : Files) : AddsGeneration final bytes files ((files.erase temp).insert final bytes) := by
  intro name hname
  rw [SortedMap.get_insert, SameGenerations.erase htemp files name hname]
  split <;> simp_all

/-- A process stopped around a call that changes no generation. -/
theorem cut_call (hcut : FsProg.Cut (Prog.perform call) files files') (h : Harmless call) :
    SameGenerations files files' :=
  cut_harmless (Prog.All.perform h) hcut

theorem cut_writeTemp {final : Bytes} (htemp : generationOf temp = none)
    (hempty : files.get temp = some []) (hcut : (writeTemp temp final bytes).Cut files files') :
    SameGenerations files files' ∨ AddsGeneration final bytes files files' := by
  have hwritten : SameGenerations files (files.insert temp bytes) := .insert htemp files bytes
  unfold writeTemp at hcut
  rcases Prog.cut_bind hcut with hwrite | hcut
  · exact .inl (cut_call hwrite htemp)
  · rw [Fs.run_writeAll hempty, List.nil_append] at hcut
    rcases Prog.cut_bind hcut with hsync | hcut
    · exact .inl (hwritten.trans (cut_call hsync trivial))
    · -- the rename is atomic
      have hrename : (Fs.rename temp final).Cut (files.insert temp bytes) files' := hcut
      rcases Prog.cut_perform hrename with rfl | hinside | hrenamed
      · exact .inl hwritten
      · cases hinside
      · have hresult := @Fs.run_rename temp final bytes (files.insert temp bytes)
          (SortedMap.get_insert_self ..)
        have hfiles : files' = ((files.insert temp bytes).erase temp).insert final bytes :=
          hrenamed.trans (congrArg Prod.snd hresult)
        rw [hfiles]
        exact .inr (hwritten.adds (.of_rename htemp _))

/-- A write that is stopped has renamed the complete document or changed no generation. -/
theorem cut_writeAndRename {final : Bytes} (htemp : generationOf temp = none)
    (hcut : (writeAndRename temp final bytes).Cut files files') :
    SameGenerations files files' ∨ AddsGeneration final bytes files files' := by
  -- an attempt that finds no temporary file
  have hattempt : ∀ files : Files,
      (writeTemp temp final bytes).Cut (files.insert temp []) files' →
      SameGenerations files files' ∨ AddsGeneration final bytes files files' := by
    intro files hcut
    have hcreated : SameGenerations files (files.insert temp []) := .insert htemp files []
    rcases cut_writeTemp htemp (SortedMap.get_insert_self ..) hcut with hsame | hadds
    · exact .inl (hcreated.trans hsame)
    · exact .inr (hcreated.adds hadds)
  unfold writeAndRename at hcut
  rw [writeAttempts] at hcut
  rcases Prog.cut_bind hcut with hcreate | hcut
  · exact .inl (cut_call hcreate htemp)
  · cases hget : files.get temp with
    | none =>
      rw [Fs.run_createNew hget] at hcut
      exact hattempt files hcut
    | some stale =>
      rw [Fs.run_createNew_of_some hget] at hcut
      simp only [and_self, ↓reduceIte] at hcut
      have herased : SameGenerations files (files.erase temp) := .erase htemp files
      rcases Prog.cut_bind hcut with hremove | hcut
      · exact .inl (cut_call hremove htemp)
      · rw [Fs.run_removeFile hget] at hcut
        simp only at hcut
        rw [writeAttempts] at hcut
        rcases Prog.cut_bind hcut with hcreate | hcut
        · exact .inl (herased.trans (cut_call hcreate htemp))
        · rw [Fs.run_createNew (SortedMap.get_erase_self ..)] at hcut
          rcases hattempt (files.erase temp) hcut with hsame | hadds
          · exact .inl (herased.trans hsame)
          · exact .inr (herased.adds hadds)

/-- A commit that is stopped has added its generation completely or not at all. -/
theorem cut_writeCommit [DnsName] {storage : JsonStorage} {head : Head}
    {transaction : StoreTransaction} {plan : CommitPlan}
    (htemp : generationOf plan.tempName = none)
    (hcut : (storage.writeCommit head transaction plan).Cut files files') :
    SameGenerations files files' ∨
      AddsGeneration plan.finalName plan.documentBytes files files' := by
  unfold JsonStorage.writeCommit at hcut
  rcases Prog.cut_bind hcut with hexists | hcut
  · exact .inl (cut_call hexists trivial)
  · have hfiles : (Prog.run FsCall.perform (Fs.fileExists plan.finalName) files).2 = files := rfl
    rw [hfiles] at hcut
    split at hcut
    · rw [Prog.cut_pure hcut]
      exact .inl (.refl files)
    · obtain ⟨hok, hadds⟩ :=
        run_writeAndRename htemp plan.finalName plan.documentBytes files
      rcases Prog.cut_bind hcut with hwrite | hsettle
      · exact cut_writeAndRename htemp hwrite
      · rw [hok] at hsettle
        exact .inr (hadds.same (cut_harmless (settle_harmless storage transaction plan) hsettle))

/-! ## Faults -/

/-- What a write under faults leaves: an error with the generations as they were, the new
    generation with its rename as the last call, or a rename that failed after its effect. -/
inductive WriteEffect (temp final bytes : Bytes) (files files' : Files)
    (trace : List (FsCall × Fault)) (result : Except FsError Unit) : Prop where
  | failed (e : FsError) (hresult : result = .error e) (hsame : SameGenerations files files')
  | renamed (older : List (FsCall × Fault)) (hresult : result = .ok ())
      (hadds : AddsGeneration final bytes files files')
      (htrace : trace = (.rename temp final, .none) :: older)
  | lost (e : FsError) (hmem : (.rename temp final, .failedAfter e) ∈ trace)

/-- The effect of a program that writes a generation. -/
def Writes (temp final bytes : Bytes) (p : FsProg (Except FsError Unit)) (world : FsWorld) : Prop :=
  WriteEffect temp final bytes world.files (p.exec world).2.files (p.trace world) (p.exec world).1

section Writes

variable {temp final bytes : Bytes}

variable {world : FsWorld}

/-- A call that changes no generation, before a program that writes one. -/
theorem Writes.bind {call : FsCall} (hcall : Harmless call)
    {f : call.Answer → FsProg (Except FsError Unit)}
    (h : Writes temp final bytes (f (world.handle call).1) (world.handle call).2) :
    Writes temp final bytes (Prog.perform call >>= f) world := by
  have hsame := hcall.handle world
  show WriteEffect temp final bytes world.files _ _ _
  rw [FsProg.trace_bind]
  cases h with
  | failed e hresult hfiles => exact .failed e hresult (hsame.trans hfiles)
  | renamed older hresult hadds htrace =>
    refine .renamed (older ++ [(call, world.fault)]) hresult (hsame.adds hadds) ?_
    exact congrArg (· ++ [(call, world.fault)]) htrace
  | lost e hmem => exact .lost e (List.mem_append_left _ hmem)

/-- A program that only fails and changes no generation. -/
theorem Writes.of_harmless {p : FsProg (Except FsError Unit)} (hp : p.All Harmless) {e : FsError}
    (he : (p.exec world).1 = .error e) :
    Writes temp final bytes p world :=
  .failed e he (exec_harmless hp world)

/-- A call without a fault answers as the directory does; with one it reports an error. -/
theorem handle_cases (call : FsCall) (world : FsWorld) :
    (world.handle call).1 = (call.perform world.files).1 ∧
        (world.handle call).2.files = (call.perform world.files).2 ∨
      ∃ e, (world.handle call).1 = call.failure e := by
  cases hfault : world.fault with
  | none => exact .inl (FsProg.handle_of_fault call hfault)
  | failed e written | failedAfter e =>
    refine .inr ⟨e, ?_⟩
    show call.answer world.fault world.files = _
    rw [hfault]
    rfl

/-- The rename of a complete temporary file. -/
theorem Writes.rename (htemp : generationOf temp = none)
    (hget : world.files.get temp = some bytes) :
    Writes temp final bytes (Fs.rename temp final) world := by
  have htrace : (Fs.rename temp final).trace world = [(.rename temp final, world.fault)] := rfl
  cases hfault : world.fault with
  | none =>
    rw [hfault] at htrace
    have hclean : ∀ entry ∈ (Fs.rename temp final).trace world, entry.2 = .none := by
      rw [htrace]
      simp
    obtain ⟨hanswer, hfiles⟩ := FsProg.exec_of_trace hclean
    rw [Fs.run_rename hget] at hanswer hfiles
    rw [Writes, hanswer, hfiles]
    exact .renamed [] rfl (.of_rename htemp _) htrace
  | failed e written =>
    have hanswer : (FsProg.exec (Fs.rename temp final) world).1 = .error e := by
      show FsCall.answer (.rename temp final) world.fault world.files = _
      rw [hfault]
      rfl
    have hfiles : (FsProg.exec (Fs.rename temp final) world).2.files = world.files := by
      show FsWorld.filesAfter (.rename temp final) world.fault world.files = _
      rw [hfault]
      rfl
    rw [Writes, hanswer, hfiles]
    exact .failed e rfl (.refl _)
  | failedAfter e =>
    refine .lost e ?_
    rw [htrace, hfault]
    exact List.mem_singleton.mpr rfl

/-- After a failed write the temporary file is removed and the error reported. -/
theorem Writes.abandon (htemp : generationOf temp = none) (e : FsError) (world : FsWorld) :
    Writes temp final bytes (writeTemp.abandon temp e) world := by
  have hremove : Harmless (.removeFile temp) := htemp
  exact .of_harmless (Prog.All.bind (Prog.All.perform hremove) (fun _ => Prog.All.pure _)) rfl

/-- Filling the temporary file that has just been created, and renaming it. -/
theorem Writes.writeTemp (htemp : generationOf temp = none)
    (hempty : world.files.get temp = some []) :
    Writes temp final bytes (writeTemp temp final bytes) world := by
  unfold Radiata.writeTemp
  refine Writes.bind (show Harmless (.writeAll temp bytes) from htemp) ?_
  rcases handle_cases (.writeAll temp bytes) world with ⟨hanswer, hfiles⟩ | ⟨e, hanswer⟩
  · -- the file now holds the document
    have hwrite := @Fs.run_writeAll temp bytes [] world.files hempty
    rw [hanswer.trans (congrArg Prod.fst hwrite)]
    have hget : (world.handle (.writeAll temp bytes)).2.files.get temp = some bytes := by
      rw [hfiles.trans (congrArg Prod.snd hwrite)]
      exact SortedMap.get_insert_self ..
    refine Writes.bind (show Harmless (.syncAll temp) from trivial) ?_
    rcases handle_cases (.syncAll temp) (world.handle (.writeAll temp bytes)).2 with
      ⟨hsync, hkept⟩ | ⟨e, hsync⟩
    · rw [hsync]
      refine Writes.rename htemp ?_
      rw [hkept]
      exact hget
    · rw [hsync]
      exact Writes.abandon htemp e _
  · rw [hanswer]
    exact Writes.abandon htemp e _

/-- The attempts to create the temporary file. -/
theorem Writes.writeAttempts (htemp : generationOf temp = none) (attempt remaining : Nat)
    (world : FsWorld) :
    Writes temp final bytes (writeAttempts temp final bytes attempt remaining) world := by
  induction remaining generalizing attempt world with
  | zero => exact .of_harmless (Prog.All.pure _) (e := .alreadyExists) rfl
  | succ remaining ih =>
    unfold Radiata.writeAttempts
    refine Writes.bind (show Harmless (.createNew temp) from htemp) ?_
    cases hanswer : (world.handle (.createNew temp)).1 with
    | ok created =>
      -- the call worked, so the file is there and empty
      rcases handle_cases (.createNew temp) world with ⟨hperform, hfiles⟩ | ⟨e, hfailed⟩
      · refine Writes.writeTemp htemp ?_
        cases hget : world.files.get temp with
        | none =>
          rw [hfiles.trans (congrArg Prod.snd (Fs.run_createNew hget))]
          exact SortedMap.get_insert_self ..
        | some stale =>
          have hexists := congrArg Prod.fst (Fs.run_createNew_of_some hget)
          rw [hanswer] at hperform
          exact absurd (hperform.trans hexists) (by simp)
      · rw [hanswer] at hfailed
        cases hfailed
    | error e =>
      dsimp only
      split
      · refine Writes.bind (show Harmless (.removeFile temp) from htemp) ?_
        cases ((world.handle (.createNew temp)).2.handle (.removeFile temp)).1 with
        | error e => exact .of_harmless (Prog.All.pure _) (e := e) rfl
        | ok removed => exact ih _ _
      · exact .of_harmless (Prog.All.pure _) (e := e) rfl

theorem Writes.writeAndRename (htemp : generationOf temp = none) (world : FsWorld) :
    Writes temp final bytes (writeAndRename temp final bytes) world :=
  Writes.writeAttempts htemp 0 2 world

end Writes

end Radiata
