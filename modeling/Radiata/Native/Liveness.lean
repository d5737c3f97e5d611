import Radiata.Native.WallTime

/-!
# Session liveness

`src/session/stream.rs`: the liveness observer of a session wakes at every tick, reads the
clock, the mark of the last activity and the pending acknowledgements, and either returns,
which ends the session, or sends a keepalive ping.

The mark is kept by the read loop. `next_message` (`src/transport/connection.rs`) skips pings
and pongs without returning and only stamps a pong; the read loop compares that stamp with
the one it has seen when its own loop turns.

Clock readings are UNIX seconds, as `clock_seconds` gives them; the source only subtracts
them, and saturates.
-/

namespace Radiata

/-- `Duration::as_secs` -/
def Duration.asSecs (duration : Duration) : Nat := duration.nanos / nanosPerSecond

/-- `Duration::is_zero` -/
def Duration.isZero (duration : Duration) : Bool := duration.nanos = 0

/-- A pending acknowledgement; a waiting one knows since when it waits. -/
inductive PendingAck where
  | wait (queuedAt : Nat)
  | relay
  deriving DecidableEq

def PendingAck.queuedAt : PendingAck → Option Nat
  | wait queuedAt => some queuedAt
  | relay => none

/-- The durations of a session policy that the observer is given. -/
structure LivenessPolicy where
  idleTimeout : Duration
  keepaliveInterval : Duration
  keepaliveTimeout : Duration

/-- What one turn of the observer reads. -/
structure LivenessReading where
  now : Nat
  last : Nat
  pending : List PendingAck

/-- The branch on which the observer returned. -/
inductive LivenessClose where
  | idle
  | keepalive
  deriving DecidableEq

/-- The observer between two turns; a `lastPing` of zero stands for no ping. -/
inductive LivenessObserver where
  | running (lastPing : Nat)
  | returned (cause : LivenessClose)
  deriving DecidableEq

namespace LivenessPolicy

/-- `holds_session` -/
def holdsSession (policy : LivenessPolicy) (reading : LivenessReading) : Bool :=
  if reading.pending.isEmpty then false
  else
    match (reading.pending.filterMap PendingAck.queuedAt).min? with
    | some oldest => reading.now - oldest < policy.idleTimeout.asSecs
    -- Hops that are only forwarded hold the session without a deadline.
    | none => true

/-- The test of the idle branch. -/
def idleDue (policy : LivenessPolicy) (reading : LivenessReading) : Bool :=
  !policy.idleTimeout.isZero && !policy.holdsSession reading &&
    policy.idleTimeout.asSecs ≤ reading.now - reading.last

/-- The test of the keepalive branch. -/
def keepaliveDue (policy : LivenessPolicy) (lastPing : Nat) (reading : LivenessReading) : Bool :=
  !policy.keepaliveInterval.isZero && lastPing != 0 &&
    policy.keepaliveTimeout.asSecs ≤ reading.now - lastPing &&
    policy.keepaliveTimeout.asSecs ≤ reading.now - reading.last

/-- The test for the next ping. -/
def pingDue (policy : LivenessPolicy) (lastPing : Nat) (reading : LivenessReading) : Bool :=
  !policy.keepaliveInterval.isZero &&
    policy.keepaliveInterval.asSecs ≤ reading.now - lastPing

end LivenessPolicy

namespace LivenessObserver

/-- One turn of the loop of `liveness_observer`. With neither an idle timeout nor a keepalive
    interval no test succeeds, which is the observer that never resolves. -/
def turn (policy : LivenessPolicy) (observer : LivenessObserver) (reading : LivenessReading) :
    LivenessObserver :=
  match observer with
  | returned cause => returned cause
  | running lastPing =>
    if policy.idleDue reading then returned .idle
    else if policy.keepaliveDue lastPing reading then returned .keepalive
    else if policy.pingDue lastPing reading then running reading.now
    else running lastPing

/-- A turn sends a ping. -/
def pings (policy : LivenessPolicy) (observer : LivenessObserver) (reading : LivenessReading) :
    Bool :=
  match observer with
  | returned _ => false
  | running lastPing =>
    !policy.idleDue reading && !policy.keepaliveDue lastPing reading &&
      policy.pingDue lastPing reading

/-- The observer after its first `n` turns. -/
def after (policy : LivenessPolicy) (readings : Nat → LivenessReading) : Nat → LivenessObserver
  | 0 => running 0
  | n + 1 => (after policy readings n).turn policy (readings n)

end LivenessObserver

/-! ## The session around the observer -/

/-- What the stream of the web socket hands to `next_message`. -/
inductive WsItem where
  /-- A binary message within the limits; the read loop goes on after it or ends. -/
  | message (serves : Bool)
  | ping
  /-- A pong, with the host seconds at which it is seen. -/
  | pong (stamp : Nat)
  /-- The end of the stream, an error, or an item that is not accepted. -/
  | ended
  deriving DecidableEq

/-- Where the read loop stands. -/
inductive ReaderPhase where
  | reflecting
  | receiving
  | ended
  deriving DecidableEq

/-- The clock of a session, the marks its tasks share and the tasks. -/
structure LiveSession where
  clock : Nat
  lastActivity : Nat
  pongLastSeen : Nat
  lastPongSeen : Nat
  reader : ReaderPhase
  observer : LivenessObserver
  deriving DecidableEq

/-- What happens next: the clock shows another time, the read loop turns, the stream yields an
    item or the observer wakes. -/
inductive LiveEvent where
  | clock (now : Nat)
  | reflect
  | item (item : WsItem)
  | wake (pending : List PendingAck)
  deriving DecidableEq

namespace LiveSession

/-- The marks as `run_session` and `read_loop` set them up. -/
def start (now pongLastSeen : Nat) : LiveSession :=
  ⟨now, now, pongLastSeen, pongLastSeen, .reflecting, .running 0⟩

/-- The tasks of the session still run: the first one to end takes the others with it. -/
def live (session : LiveSession) : Bool :=
  session.reader != .ended &&
    match session.observer with
    | .running _ => true
    | .returned _ => false

/-- The top of the loop of `read_loop`. -/
def reflect (session : LiveSession) : LiveSession :=
  if session.pongLastSeen ≠ session.lastPongSeen then
    { session with
      lastPongSeen := session.pongLastSeen
      lastActivity := session.clock
      reader := .receiving }
  else { session with reader := .receiving }

/-- One turn of the loop of `next_message`, and what the read loop does with its answer. -/
def receive (session : LiveSession) : WsItem → LiveSession
  | .message serves =>
    { session with
      lastActivity := session.clock
      reader := if serves then .reflecting else .ended }
  | .ping => session
  | .pong stamp => { session with pongLastSeen := stamp }
  | .ended => { session with reader := .ended }

/-- What the observer reads when it wakes. -/
def reading (session : LiveSession) (pending : List PendingAck) : LivenessReading :=
  ⟨session.clock, session.lastActivity, pending⟩

def step (policy : LivenessPolicy) (session : LiveSession) (event : LiveEvent) : LiveSession :=
  if !session.live then session
  else
    match event with
    | .clock now => { session with clock := now }
    | .reflect => if session.reader = .reflecting then session.reflect else session
    | .item item => if session.reader = .receiving then session.receive item else session
    | .wake pending =>
      { session with observer := session.observer.turn policy (session.reading pending) }

/-- A session from its start through a list of events. -/
def run (policy : LivenessPolicy) (now pongLastSeen : Nat) (events : List LiveEvent) :
    LiveSession :=
  events.foldl (step policy) (start now pongLastSeen)

end LiveSession

end Radiata
