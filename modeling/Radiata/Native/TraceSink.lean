import Radiata.ForStd.System
import Radiata.ForStd.Trace
import Radiata.Native.Retention

/-!
# The live-record counter

`TraceSink` of `src/routing/trace.rs` and `trace_retention_sweep` of `src/runtime/supervisor.rs`:
a process counts the trace records it has stored, takes off what its sweeps answer, and begins
no sweep while the count is zero. The records are in a store that outlives the process.

A persistence task stores its record by one commit and counts it when the commit has answered:
at once, or after other steps. The supervisor runs one sweep at a time; every call of it is a
step of its own. The counter does not wrap.
-/

namespace Radiata

variable [DnsName]

/-- A sweep that has begun: the calls it has made, and the rest of it. -/
structure RunningSweep where
  now : SystemTime
  terminalCap : Nat
  retention : Duration
  trace : List (Exchange (PassCall EntryKey StoreValue) PassCall.Answer (Store EntryKey StoreValue))
  program : Prog (PassCall EntryKey StoreValue) PassCall.Answer (Except Error Nat)
  traced : Prog.Traced PassAnswers (sweepTraces now terminalCap retention).run trace program

/-- `trace_retention_sweep`, where it calls `sweep` -/
def RunningSweep.start (now : SystemTime) (terminalCap : Nat) (retention : Duration) :
    RunningSweep :=
  ⟨now, terminalCap, retention, [], (sweepTraces now terminalCap retention).run, .nil _⟩

/-- The next call of a sweep. -/
def RunningSweep.advance (sweep : RunningSweep) {request : PassCall EntryKey StoreValue}
    {resume : request.Answer → Prog (PassCall EntryKey StoreValue) PassCall.Answer (Except Error Nat)}
    {answer : request.Answer} {before after : Store EntryKey StoreValue}
    (hprogram : sweep.program = .call request resume)
    (hanswer : PassAnswers request before answer after) : RunningSweep where
  now := sweep.now
  terminalCap := sweep.terminalCap
  retention := sweep.retention
  trace := sweep.trace ++ [⟨request, before, answer, after⟩]
  program := resume answer
  traced := (hprogram ▸ sweep.traced).concat hanswer

/-- The running process. -/
structure TraceProcess where
  /-- `live_records` -/
  live : Nat
  /-- The tasks whose record is stored and not yet counted. -/
  counting : Nat
  sweep : Option RunningSweep

namespace TraceProcess

/-- The process as `runtime/supervisor.rs` starts it. -/
def start : TraceProcess := ⟨0, 0, none⟩

/-- `TraceSink::record` after `put_trace` -/
def record (process : TraceProcess) : Result Unit → TraceProcess
  | .ok () => { process with live := process.live + 1 }
  | .error _ => process

/-- `trace_retention_sweep` after `sweep` -/
def finishSweep (process : TraceProcess) : Result Nat → TraceProcess
  | .ok removed => { process with live := process.live - removed, sweep := none }
  | .error _ => { process with sweep := none }

end TraceProcess

/-- A node: its store, and the process, if it runs. -/
structure TraceNode where
  store : Store EntryKey StoreValue
  process : Option TraceProcess

/-- The commit of `put_trace` -/
def putTrace (store : Store EntryKey StoreValue) (key : EntryKey) (value : StoreValue) :
    Store EntryKey StoreValue :=
  store.apply ⟨store.revision, [.put key (store.lookup key) value]⟩

inductive TraceEvent where
  | start
  | stop
  /-- Others write: `terminate_stale`, and who writes other records. -/
  | others
  /-- A record is stored and counted. -/
  | recorded (key : EntryKey)
  /-- A record is stored, and is to be counted. -/
  | stored (key : EntryKey)
  | counted
  | recordFailed
  /-- A record is stored, but the outcome of its commit is unknown. -/
  | recordLost (key : EntryKey)
  | sweepBegins
  | sweepCalls
  | sweepEnds (result : Result Nat)

namespace TraceNode

inductive Step (s : TraceNode) : TraceEvent → TraceNode → Prop where
  | start : Step s .start ⟨s.store, some .start⟩
  | stop : Step s .stop ⟨s.store, none⟩
  | others (store : Store EntryKey StoreValue) :
      (∀ key, inTraces key = true → (store.lookup key).isSome → (s.store.lookup key).isSome) →
      Step s .others ⟨store, s.process⟩
  | recorded {process : TraceProcess} {key : EntryKey} (value : StoreValue) :
      s.process = some process → inTraces key = true →
      Step s (.recorded key) ⟨putTrace s.store key value, some (process.record (.ok ()))⟩
  | stored {process : TraceProcess} {key : EntryKey} (value : StoreValue) :
      s.process = some process → inTraces key = true →
      Step s (.stored key) ⟨putTrace s.store key value,
        some { process with counting := process.counting + 1 }⟩
  | counted {process : TraceProcess} {counting : Nat} :
      s.process = some process → process.counting = counting + 1 →
      Step s .counted ⟨s.store, some ({ process with counting := counting }.record (.ok ()))⟩
  | recordFailed {process : TraceProcess} (error : Error) : s.process = some process →
      Step s .recordFailed ⟨s.store, some (process.record (.error error))⟩
  | recordLost {process : TraceProcess} {key : EntryKey} (value : StoreValue) :
      s.process = some process → inTraces key = true →
      Step s (.recordLost key)
        ⟨putTrace s.store key value, some (process.record (.error commitUnknown))⟩
  | sweepBegins {process : TraceProcess} (now : SystemTime) (terminalCap : Nat)
      (retention : Duration) :
      s.process = some process → process.sweep = none → process.live ≠ 0 →
      Step s .sweepBegins
        ⟨s.store, some { process with sweep := some (.start now terminalCap retention) }⟩
  | sweepCalls {process : TraceProcess} {sweep : RunningSweep}
      {request : PassCall EntryKey StoreValue}
      {resume : request.Answer → Prog (PassCall EntryKey StoreValue) PassCall.Answer (Except Error Nat)}
      {answer : request.Answer} {store : Store EntryKey StoreValue} :
      s.process = some process → process.sweep = some sweep →
      (hprogram : sweep.program = .call request resume) →
      (hanswer : PassAnswers request s.store answer store) →
      Step s .sweepCalls
        ⟨store, some { process with sweep := some (sweep.advance hprogram hanswer) }⟩
  | sweepEnds {process : TraceProcess} {sweep : RunningSweep} {result : Result Nat} :
      s.process = some process → process.sweep = some sweep → sweep.program = .done result →
      Step s (.sweepEnds result) ⟨s.store, some (process.finishSweep result)⟩

/-- The runs in which every step is allowed, from a store of whatever content. -/
def runs (allowed : TraceNode → TraceEvent → Prop) : TransitionSystem TraceNode where
  init := fun s => s.process = none
  next := fun s t => ∃ event, allowed s event ∧ Step s event t

end TraceNode

end Radiata
