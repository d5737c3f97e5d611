import Radiata.ForStd.List
import Radiata.ForStd.System
import Radiata.Native.Identity

/-!
# The outbound queue of a session

`src/session/stream.rs`: a session's frames go through a bounded `tokio` channel whose
budget (frames and encoded bytes) is kept in counters of its own. `BoundedSender` takes a
reservation before it pushes, `BoundedReceiver` gives it back after it pops, and a sender
whose push is refused gives it back itself.

Every call of `try_send`, `send` and `send_waiting` is a program counter; a step of the
system is one critical section, one channel operation or one counter update of some call.
The channel is a queue of `max_count` places that refuses pushes once its receiver is gone;
`tokio` drops the unread frames together with the receiver. A future is dropped only where it
is suspended: while it waits for a release, or at `inner.send(frame).await`. That await can be
pending before the frame is pushed, for a place in the channel or because the task has used up
its cooperative budget. Neither drop gives a reservation back.

The frames of a process are shorter than `usize::MAX` together, so the counters are natural
numbers and `saturating_add` is an addition. The `admit` mutex is never poisoned.
-/

namespace Radiata

/-- `PacketKind` -/
inductive PacketKind where
  | «open»
  | chunk
  | «end»
  | ack
  deriving DecidableEq, Repr

/-- One framed outbound session message. -/
structure SessionFrame where
  kind : PacketKind
  body : Bytes
  deriving DecidableEq

/-- The admission overhead of one queued frame beyond its body bytes. -/
def frameOverhead : Nat := 16

/-- What a frame takes of the byte budget. -/
def SessionFrame.size (frame : SessionFrame) : Nat := frameOverhead + frame.body.length

/-- The limits of a queue: `queue_messages` and `queue_bytes`. -/
structure QueueLimits where
  maxCount : Nat
  maxBytes : Nat

/-- `QueueState` with its channel. `receiving` is the frame a `recv` has popped and not yet
    accounted for; `pushed` and `received` record what went in and what came out, and `lost` the
    frames whose reservation nobody gives back any more. -/
structure SessionQueue where
  count : Nat
  bytes : Nat
  channel : List SessionFrame
  closed : Bool
  receiving : Option SessionFrame
  pushed : List SessionFrame
  received : List SessionFrame
  lost : List SessionFrame

namespace SessionQueue

/-- A new queue. -/
def empty : SessionQueue := ⟨0, 0, [], false, none, [], [], []⟩

/-- The check of `reserve`. -/
def HasRoom (limits : QueueLimits) (queue : SessionQueue) (size : Nat) : Prop :=
  queue.count < limits.maxCount ∧ queue.bytes + size ≤ limits.maxBytes

instance (limits : QueueLimits) (queue : SessionQueue) (size : Nat) :
    Decidable (HasRoom limits queue size) := inferInstanceAs (Decidable (_ ∧ _))

/-- `reserve`: `none` means saturated. -/
def reserve (limits : QueueLimits) (queue : SessionQueue) (size : Nat) : Option SessionQueue :=
  if HasRoom limits queue size then
    some { queue with count := queue.count + 1, bytes := queue.bytes + size }
  else none

/-- `release` -/
def release (queue : SessionQueue) (size : Nat) : SessionQueue :=
  { queue with count := queue.count - 1, bytes := queue.bytes - size }

/-- A place in the channel is taken. -/
def push (queue : SessionQueue) (frame : SessionFrame) : SessionQueue :=
  { queue with channel := queue.channel ++ [frame], pushed := queue.pushed ++ [frame] }

/-- Frames are dropped without a release. -/
def lose (queue : SessionQueue) (frames : List SessionFrame) : SessionQueue :=
  { queue with lost := queue.lost ++ frames }

/-- The receiver is dropped, and `tokio` drops what it has not read. -/
def dropReceiver (queue : SessionQueue) : SessionQueue :=
  { queue.lose queue.channel with channel := [], closed := true }

end SessionQueue

/-- The three ways to send a frame. -/
inductive SendMode where
  /-- `try_send` -/
  | attempt
  /-- `send` -/
  | once
  /-- `send_waiting` -/
  | waiting
  deriving DecidableEq

/-- How a call ended. -/
inductive SendOutcome where
  | enqueued
  /-- `Error::overloaded`, or nothing at all for `try_send` -/
  | saturated
  /-- `Error::shutting_down` -/
  | shutDown
  | cancelled
  deriving DecidableEq

/-- The program counter of a call. -/
inductive SendCallState where
  | start (mode : SendMode) (frame : SessionFrame)
  /-- The reservation is taken and the frame is to be pushed. -/
  | reserved (mode : SendMode) (frame : SessionFrame)
  /-- The push waits for a place in the channel. -/
  | blocked (mode : SendMode) (frame : SessionFrame)
  /-- The push was refused and the reservation is to be given back. -/
  | releasing (frame : SessionFrame)
  /-- `send_waiting` was refused and looks whether the queue is closed. -/
  | checking (frame : SessionFrame)
  /-- `send_waiting` waits for a release or its backstop. -/
  | sleeping (frame : SessionFrame)
  | finished (frame : SessionFrame) (outcome : SendOutcome)
  deriving DecidableEq

namespace SendCallState

/-- The frame a call holds a reservation for. -/
def holds : SendCallState → Option SessionFrame
  | reserved _ frame => some frame
  | blocked _ frame => some frame
  | releasing frame => some frame
  | _ => none

/-- The reservations of a call. -/
def heldCount (call : SendCallState) : Nat := call.holds.elim 0 fun _ => 1

/-- The reserved bytes of a call. -/
def heldBytes (call : SendCallState) : Nat := call.holds.elim 0 SessionFrame.size

/-- The future of a call is suspended at an await. `try_send` has none. -/
def suspended : SendCallState → Option SessionFrame
  | reserved .once frame => some frame
  | reserved .waiting frame => some frame
  | blocked _ frame => some frame
  | sleeping frame => some frame
  | _ => none

end SendCallState

/-- A queue with all calls made on it. -/
structure QueueSystem where
  queue : SessionQueue
  calls : List SendCallState

namespace QueueSystem

/-- Call `i` goes on as `call`. -/
def setCall (s : QueueSystem) (i : Nat) (call : SendCallState) : QueueSystem :=
  { s with calls := s.calls.set i call }

/-- The steps of a queue with the given limits. -/
inductive Step (limits : QueueLimits) (s : QueueSystem) : QueueSystem → Prop where
  | call (mode : SendMode) (frame : SessionFrame) :
      Step limits s { s with calls := s.calls ++ [.start mode frame] }
  | reserve (i : Nat) (mode : SendMode) (frame : SessionFrame) (queue : SessionQueue) :
      s.calls[i]? = some (.start mode frame) → s.queue.reserve limits frame.size = some queue →
      Step limits s { s.setCall i (.reserved mode frame) with queue := queue }
  /-- A saturated queue refuses `try_send` and `send` at once. -/
  | refuse (i : Nat) (mode : SendMode) (frame : SessionFrame) :
      s.calls[i]? = some (.start mode frame) → s.queue.reserve limits frame.size = none →
      mode ≠ .waiting → Step limits s (s.setCall i (.finished frame .saturated))
  | refuseWaiting (i : Nat) (frame : SessionFrame) :
      s.calls[i]? = some (.start .waiting frame) → s.queue.reserve limits frame.size = none →
      Step limits s (s.setCall i (.checking frame))
  | checkClosed (i : Nat) (frame : SessionFrame) :
      s.calls[i]? = some (.checking frame) → s.queue.closed = true →
      Step limits s (s.setCall i (.finished frame .shutDown))
  | checkOpen (i : Nat) (frame : SessionFrame) :
      s.calls[i]? = some (.checking frame) → s.queue.closed = false →
      Step limits s (s.setCall i (.sleeping frame))
  | wake (i : Nat) (frame : SessionFrame) :
      s.calls[i]? = some (.sleeping frame) → Step limits s (s.setCall i (.start .waiting frame))
  | push (i : Nat) (mode : SendMode) (frame : SessionFrame) :
      s.calls[i]? = some (.reserved mode frame) ∨ s.calls[i]? = some (.blocked mode frame) →
      s.queue.closed = false → s.queue.channel.length < limits.maxCount →
      Step limits s { s.setCall i (.finished frame .enqueued) with queue := s.queue.push frame }
  | pushClosed (i : Nat) (mode : SendMode) (frame : SessionFrame) :
      s.calls[i]? = some (.reserved mode frame) ∨ s.calls[i]? = some (.blocked mode frame) →
      s.queue.closed = true → Step limits s (s.setCall i (.releasing frame))
  /-- `mpsc::Sender::try_send` on a full channel. -/
  | pushFull (i : Nat) (frame : SessionFrame) :
      s.calls[i]? = some (.reserved .attempt frame) → limits.maxCount ≤ s.queue.channel.length →
      Step limits s (s.setCall i (.releasing frame))
  /-- `mpsc::Sender::send` on a full channel. -/
  | block (i : Nat) (mode : SendMode) (frame : SessionFrame) :
      s.calls[i]? = some (.reserved mode frame) → mode ≠ .attempt → s.queue.closed = false →
      limits.maxCount ≤ s.queue.channel.length →
      Step limits s (s.setCall i (.blocked mode frame))
  | release (i : Nat) (frame : SessionFrame) :
      s.calls[i]? = some (.releasing frame) →
      Step limits s { s.setCall i (.finished frame .shutDown) with
        queue := s.queue.release frame.size }
  /-- The future of a suspended call is dropped; what it holds is not given back. -/
  | cancel (i : Nat) (call : SendCallState) (frame : SessionFrame) :
      s.calls[i]? = some call → call.suspended = some frame →
      Step limits s { s.setCall i (.finished frame .cancelled) with
        queue := s.queue.lose call.holds.toList }
  | pop (frame : SessionFrame) (rest : List SessionFrame) :
      s.queue.closed = false → s.queue.receiving = none → s.queue.channel = frame :: rest →
      Step limits s { s with queue := { s.queue with channel := rest, receiving := some frame } }
  | account (frame : SessionFrame) :
      s.queue.receiving = some frame →
      Step limits s { s with queue := { s.queue.release frame.size with
        receiving := none, received := s.queue.received ++ [frame] } }
  /-- The receiver is dropped at its await. -/
  | dropReceiver :
      s.queue.receiving = none → Step limits s { s with queue := s.queue.dropReceiver }

/-- A step that drops neither a receiver with unread frames nor a call that holds a reservation. -/
def ReturnsAll (s t : QueueSystem) : Prop :=
  (s.queue.closed = false → t.queue.closed = true → s.queue.channel = []) ∧
    ∀ (i : Nat) (call : SendCallState) (frame : SessionFrame), s.calls[i]? = some call →
      call.holds ≠ none → t.calls[i]? ≠ some (.finished frame .cancelled)

/-- The runs of a queue. -/
def runs (limits : QueueLimits) : TransitionSystem QueueSystem where
  init := fun s => s = ⟨.empty, []⟩
  next := Step limits

end QueueSystem

end Radiata
