import Radiata.ForStd.SortedMap
import Radiata.ForStd.System
import Radiata.Native.Packet

/-!
# Waiting for admission

`run_outbound` (`src/session/stream.rs`) registers a `PendingAck::Wait` under the trace of its
packet, queues the open frame and waits for the answer. The map of a session is keyed by the
trace alone. An entry is taken by an acknowledgement (`resolve_ack`), by a send whose open frame
was not queued (`withdraw_pending`), by `retire` and by the teardown of `run_session`; a dropped
entry fails its wait.

Each critical section on the map is a step. An acknowledgement carries the number of the open
frame it answers, which the wire does not have: the code goes by the trace. `signals` lists what
became of the notifier of a send.
-/

namespace Radiata

/-- What happened to the notifier of a wait. -/
inductive WaitSignal where
  /-- `resolve_ack`, for the acknowledgement of that number. -/
  | acknowledged (number : Nat)
  /-- `withdraw_pending` by some send. -/
  | withdrawn (sender : Nat)
  /-- Dropped when some send put its own entry in the place of this one. -/
  | overwritten (sender : Nat)
  | retired
  | tornDown
  deriving DecidableEq

/-- Where a `run_outbound` is. -/
inductive SendPhase where
  | started
  /-- It has seen the session alive. -/
  | checked
  /-- Its entry is in the map and its open frame is to be queued. -/
  | registered
  /-- Its open frame is queued. -/
  | awaiting
  | ended
  deriving DecidableEq

/-- A `run_outbound` up to the admission. -/
structure OutboundSend where
  trace : TraceId
  phase : SendPhase
  opened : Bool
  signals : List WaitSignal
  deriving DecidableEq

/-- The send has registered and was not yet told anything. -/
def OutboundSend.Waiting (send : OutboundSend) : Prop :=
  (send.phase = .registered ∨ send.phase = .awaiting) ∧ send.signals = []

/-- An acknowledgement, and the open frame that the peer answers with it. -/
structure WaitAck where
  trace : TraceId
  status : AckStatus
  answers : Option Nat

/-- How far the end of a session has come. -/
inductive SessionPhase where
  | running
  /-- The reader has ended. -/
  | stopped
  /-- The teardown has drained the map. -/
  | drained
  deriving DecidableEq

/-- A session with its sends and the acknowledgements of its peer, of which `read` have arrived. -/
structure AdmissionSystem where
  alive : Bool
  phase : SessionPhase
  pending : SortedMap TraceId Nat
  sends : List OutboundSend
  acks : List WaitAck
  read : Nat

inductive AdmissionAction where
  | call
  | check (i : Nat)
  | register (i : Nat)
  | opened (i : Nat)
  | withdraw (i : Nat)
  | wake (i : Nat)
  | answer
  | acknowledge
  | retire
  | stop
  | drain

namespace AdmissionSystem

def init : AdmissionSystem := ⟨true, .running, .empty, [], [], 0⟩

/-- A send goes on. -/
def setPhase (s : AdmissionSystem) (i : Nat) (phase : SendPhase) : AdmissionSystem :=
  { s with sends := s.sends.modify i fun send => { send with phase } }

/-- The notifier of a send is used or dropped. -/
def signal (s : AdmissionSystem) (i : Nat) (cause : WaitSignal) : AdmissionSystem :=
  { s with sends := s.sends.modify i fun send => { send with signals := send.signals ++ [cause] } }

/-- `HashMap::remove` of a trace, with what becomes of the entry. -/
def take (s : AdmissionSystem) (trace : TraceId) (cause : WaitSignal) : AdmissionSystem :=
  match s.pending.get trace with
  | none => s
  | some i => { s.signal i cause with pending := s.pending.erase trace }

/-- The registration of `run_outbound`, with the bound `pending_admissions`. -/
def register (limit : Nat) (s : AdmissionSystem) (i : Nat) (trace : TraceId) : AdmissionSystem :=
  if limit ≤ s.pending.toList.length then s.setPhase i .ended
  else
    let s := s.take trace (.overwritten i)
    { s.setPhase i .registered with pending := s.pending.insert trace i }

/-- The map is drained. -/
def drainAll (s : AdmissionSystem) (cause : WaitSignal) : AdmissionSystem :=
  { s with
    pending := .empty
    sends := s.sends.mapIdx fun i send =>
      if s.pending.get send.trace = some i then { send with signals := send.signals ++ [cause] }
      else send }

/-- The steps of the sends, of the peer and of the end of the session. -/
inductive Step (limit : Nat) (s : AdmissionSystem) : AdmissionAction → AdmissionSystem → Prop where
  | call (trace : TraceId) :
      Step limit s .call { s with sends := s.sends ++ [⟨trace, .started, false, []⟩] }
  | check (i : Nat) (send : OutboundSend) :
      s.sends[i]? = some send → send.phase = .started →
      Step limit s (.check i) (s.setPhase i (if s.alive then .checked else .ended))
  | register (i : Nat) (send : OutboundSend) :
      s.sends[i]? = some send → send.phase = .checked →
      Step limit s (.register i) (s.register limit i send.trace)
  | opened (i : Nat) (send : OutboundSend) :
      s.sends[i]? = some send → send.phase = .registered →
      Step limit s (.opened i) { s with sends := s.sends.modify i fun send =>
        { send with phase := .awaiting, opened := true } }
  /-- The open frame is not encoded or not queued. -/
  | withdraw (i : Nat) (send : OutboundSend) :
      s.sends[i]? = some send → send.phase = .registered →
      Step limit s (.withdraw i) ((s.take send.trace (.withdrawn i)).setPhase i .ended)
  | wake (i : Nat) (send : OutboundSend) :
      s.sends[i]? = some send → send.phase = .awaiting → send.signals ≠ [] →
      Step limit s (.wake i) (s.setPhase i .ended)
  /-- The peer answers an open frame that was queued. -/
  | answer (i : Nat) (send : OutboundSend) (status : AckStatus) :
      s.sends[i]? = some send → send.opened = true →
      Step limit s .answer { s with acks := s.acks ++ [⟨send.trace, status, some i⟩] }
  /-- The peer sends an acknowledgement that answers nothing. -/
  | unasked (trace : TraceId) (status : AckStatus) :
      Step limit s .answer { s with acks := s.acks ++ [⟨trace, status, none⟩] }
  | acknowledge (ack : WaitAck) :
      s.phase = .running → s.acks[s.read]? = some ack →
      Step limit s .acknowledge { s.take ack.trace (.acknowledged s.read) with read := s.read + 1 }
  | retire : Step limit s .retire { s.drainAll .retired with alive := false }
  | stop : s.phase = .running → Step limit s .stop { s with alive := false, phase := .stopped }
  | drain : s.phase = .stopped → Step limit s .drain { s.drainAll .tornDown with phase := .drained }

/-- The runs of a session. -/
def runs (limit : Nat) : TransitionSystem AdmissionSystem where
  init := fun s => s = init
  next := fun s t => ∃ action, Step limit s action t

end AdmissionSystem

end Radiata
