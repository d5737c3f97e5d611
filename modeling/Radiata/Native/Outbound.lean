import Radiata.Native.Packet
import Radiata.Native.SessionQueue

/-!
# The body pump of an outbound stream

`run_outbound` (`src/session/stream.rs`) after the admission: the chunks of the body are
pulled one by one, encoded and sent to the frame queue of the session, followed by an end
frame. Every send is a call of `send` on the queue, which other tasks of the node use too.
The answers of the body are not fixed beforehand; a step takes any of them.

`enqueued` and `yielded` record the frames whose `send` returned and the answers of the
body. The durable trace and the events are left out.
-/

namespace Radiata

/-- `RouteState` -/
inductive RouteState where
  | selecting
  | routing
  | streaming
  | delivered
  | failed (kind : ErrorKind)
  deriving DecidableEq, Repr

/-- The largest `u64`, at which `saturating_add` stays. -/
def maxU64 : Nat := 2 ^ 64 - 1

/-- An answer of `PacketBody::next_chunk`. -/
inductive BodyItem where
  | chunk (bytes : Bytes)
  | done
  | failed (kind : ErrorKind)
  deriving DecidableEq

/-- Where the pump is. A send is known by the index of its call. -/
inductive PumpState where
  | pulling
  | sendingChunk (call forwarded : Nat)
  | sendingEnd (call : Nat)
  | finished (state : RouteState)
  deriving DecidableEq

/-- The call the pump waits for. -/
def PumpState.call : PumpState → Option Nat
  | sendingChunk call _ => some call
  | sendingEnd call => some call
  | _ => none

structure Pump where
  system : QueueSystem
  state : PumpState
  sequence : Nat
  bytesForwarded : Nat
  yielded : List BodyItem
  enqueued : List SessionFrame

namespace Pump

/-- The pump calls `send`. -/
def send (s : Pump) (frame : SessionFrame) (state : PumpState) : Pump :=
  { s with
    system := { s.system with calls := s.system.calls ++ [.start .once frame] }
    state := state }

/-- The pump takes the next answer of the body. -/
def pull (trace : TraceId) (s : Pump) (item : BodyItem) : Pump :=
  let s := { s with yielded := s.yielded ++ [item] }
  match item with
  | .chunk bytes =>
    if bytes.length > maxChunkBytes then { s with state := .finished (.failed .invalidInput) }
    else
      let encoded := encodeChunk ⟨trace, UInt64.ofNat s.sequence, bytes⟩
      let s := { s with sequence := min (s.sequence + 1) maxU64 }
      match encoded with
      | .error error => { s with state := .finished (.failed error.kind) }
      | .ok body => s.send ⟨.chunk, body⟩ (.sendingChunk s.system.calls.length bytes.length)
  | .done =>
    match encodeEnd ⟨trace⟩ with
    | .error error => { s with state := .finished (.failed error.kind) }
    | .ok body => s.send ⟨.end, body⟩ (.sendingEnd s.system.calls.length)
  | .failed kind => { s with state := .finished (.failed kind) }

/-- The pump goes on after its call has ended. -/
def resume (s : Pump) (frame : SessionFrame) : SendOutcome → Pump
  | .enqueued =>
    let s := { s with enqueued := s.enqueued ++ [frame] }
    match s.state with
    | .sendingChunk _ forwarded =>
      { s with state := .pulling, bytesForwarded := min (s.bytesForwarded + forwarded) maxU64 }
    | _ => { s with state := .finished .delivered }
  | _ => { s with state := .finished (.failed .streamInterrupted) }

/-- The steps of a session queue with the pump of one stream. A pump that is dropped takes no
    further step, so the calls that are dropped are those of other tasks. -/
inductive Step (limits : QueueLimits) (trace : TraceId) (s : Pump) : Pump → Prop where
  | queue (system : QueueSystem) :
      QueueSystem.Step limits s.system system →
      (∀ call frame, s.state.call = some call →
        system.calls[call]? ≠ some (.finished frame .cancelled)) →
      Step limits trace s { s with system := system }
  | pull (item : BodyItem) : s.state = .pulling → Step limits trace s (s.pull trace item)
  | resume (call : Nat) (frame : SessionFrame) (outcome : SendOutcome) :
      s.state.call = some call → s.system.calls[call]? = some (.finished frame outcome) →
      Step limits trace s (s.resume frame outcome)

/-- The runs of a pump that starts on any state of its queue. -/
def runs (limits : QueueLimits) (trace : TraceId) : TransitionSystem Pump where
  init := fun s => ∃ system, (QueueSystem.runs limits).Reachable system ∧
    s = ⟨system, .pulling, 0, 0, [], []⟩
  next := Step limits trace

/-- A step in which the reservation of the pump, if it is made, finds room in the queue or
    finds the queue closed. -/
def RoomToSend (limits : QueueLimits) (s t : Pump) : Prop :=
  ∀ call frame, s.state.call = some call → s.system.calls[call]? = some (.start .once frame) →
    t.system.calls[call]? ≠ s.system.calls[call]? →
    s.system.queue.HasRoom limits frame.size ∨ s.system.queue.closed = true

end Pump

end Radiata
