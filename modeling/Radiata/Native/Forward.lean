import Radiata.ForStd.SortedMap
import Radiata.ForStd.System
import Radiata.Native.Packet
import Radiata.Native.SessionQueue

/-!
# Forwarding

`src/session/forward.rs`, and what the serving task of a session (`src/session/stream.rs`) does with
it: a node holds a hop for each trace that it forwards, under the trace alone. The sessions of the
node share the table of hops. A session reads one frame after the other, and the handler of a frame
may wait for the route policy, for the lock of a hop or for room in a queue; when the session ends,
the handler is dropped where it waits, and the hops that the peer of the session has fed are closed.

Between two waits a handler is one step. The choice of the next hop and the check of the envelope
are the answer that a handler waits for, and a queue answers that it took a frame or is closed.
-/

namespace Radiata

/-- A session of the node with a peer. A peer may have had other sessions. -/
structure PeerSession where
  number : Nat
  peer : NodeId
  deriving DecidableEq

/-- `ForwardingHop`, with the sessions for their queues and a number for its lock. -/
structure ForwardingHop where
  upstream : PeerSession
  downstream : PeerSession
  upstreamPeer : NodeId
  relayLock : Nat
  deriving DecidableEq

/-- `PendingAck`, without the time of a wait. -/
inductive AckWaiter where
  | wait
  | relay (upstream : PeerSession)
  deriving DecidableEq

/-- What `select_next_hop` and the check of the envelope come to. -/
inductive HopChoice where
  | rejected
  /-- Forward to a node, with its session if that is alive. -/
  | continues (session : Option PeerSession)

/-- `MAX_PENDING_ADMISSIONS` -/
def maxPendingAdmissions : Nat := 256

/-- A frame that was put on the queue of a next hop. -/
structure RelayedFrame where
  trace : TraceId
  hop : ForwardingHop
  kind : PacketKind
  deriving DecidableEq

/-! ## Handlers -/

/-- Where the task of a session is. -/
inductive ForwardTask where
  /-- `open` waits for the route policy. -/
  | selecting (session : PeerSession) (trace : TraceId)
  /-- `relay_open` waits for the queue of the next hop. -/
  | sendingOpen (session : PeerSession) (trace : TraceId) (downstream : PeerSession)
  /-- `relay_open` goes on behind its last wait. -/
  | registering (session : PeerSession) (trace : TraceId) (downstream : PeerSession)
  | chunkLocking (session : PeerSession) (trace : TraceId) (hop : ForwardingHop)
  /-- `relay_chunk` waits for the queue and holds the lock. -/
  | chunkSending (session : PeerSession) (trace : TraceId) (hop : ForwardingHop)
  | endLocking (session : PeerSession) (trace : TraceId) (hop : ForwardingHop)
  | endSending (session : PeerSession) (trace : TraceId) (hop : ForwardingHop)
  /-- The session has ended; `close_for_peer` is next. -/
  | draining (session : PeerSession)
  | closing (session : PeerSession) (candidates : List TraceId)
  | closeLocking (session : PeerSession) (trace : TraceId) (hop : ForwardingHop)
      (candidates : List TraceId)
  | closeSending (session : PeerSession) (trace : TraceId) (hop : ForwardingHop)
      (candidates : List TraceId)
  deriving DecidableEq

namespace ForwardTask

def session : ForwardTask → PeerSession
  | selecting session _ | sendingOpen session _ _ | registering session _ _
  | chunkLocking session _ _ | chunkSending session _ _ | endLocking session _ _
  | endSending session _ _ | draining session | closing session _ | closeLocking session _ _ _
  | closeSending session _ _ _ => session

/-- The session has ended and closes its hops. -/
def isTeardown : ForwardTask → Bool
  | draining .. | closing .. | closeLocking .. | closeSending .. => true
  | _ => false

/-- An Open that has been let through and has not registered its hop. -/
def isQueuing : ForwardTask → Bool
  | sendingOpen .. | registering .. => true
  | _ => false

/-- The handler can be dropped: it waits. -/
def isWaiting : ForwardTask → Bool
  | registering .. => false
  | _ => true

/-- The lock that the handler holds while it waits. -/
def holds : ForwardTask → Option Nat
  | chunkSending _ _ hop => some hop.relayLock
  | _ => none

end ForwardTask

/-! ## What the handlers share -/

/-- The table of hops and the waits for acknowledgements. `relayed` and `registered` are a record of
    what was queued and of the hops there have been. -/
structure ForwardShared where
  table : SortedMap TraceId ForwardingHop
  pending : PeerSession → SortedMap TraceId AckWaiter
  /-- The locks that were made. -/
  locks : Nat
  relayed : List RelayedFrame
  registered : List (TraceId × ForwardingHop)

namespace ForwardShared

/-- `remove_pending`, and what `resolve_ack` does to the table of its session. -/
def removePending (shared : ForwardShared) (session : PeerSession) (trace : TraceId) :
    ForwardShared :=
  { shared with
    pending := fun other =>
      if other = session then (shared.pending other).erase trace else shared.pending other }

def insertPending (shared : ForwardShared) (session : PeerSession) (trace : TraceId)
    (waiter : AckWaiter) : ForwardShared :=
  { shared with
    pending := fun other =>
      if other = session then (shared.pending other).insert trace waiter
      else shared.pending other }

/-- The waits of a session that ends or is retired are drained. -/
def drainPending (shared : ForwardShared) (session : PeerSession) : ForwardShared :=
  { shared with pending := fun other => if other = session then .empty else shared.pending other }

/-- `take` -/
def take (shared : ForwardShared) (trace : TraceId) : ForwardShared :=
  { shared with table := shared.table.erase trace }

/-- `open` behind the answer of the policy, and `relay_open` up to its wait: the session to send to,
    or the status for the upstream holder. -/
def checkOpen (capacity : Nat) (shared : ForwardShared) (trace : TraceId) :
    HopChoice → Except AckStatus PeerSession
  | .rejected => .error .unsupported
  | .continues next =>
    if capacity ≤ shared.table.size then .error .overloaded
    else match next with
      | none => .error .failed
      | some downstream =>
        if shared.table.contains trace then .error .unsupported
        else if (shared.pending downstream).contains trace then .error .unsupported
        else if maxPendingAdmissions ≤ (shared.pending downstream).size then .error .overloaded
        else .ok downstream

/-- `register` of a hop with a new lock, for a trace that has none. -/
def register (shared : ForwardShared) (trace : TraceId) (upstream downstream : PeerSession) :
    ForwardShared :=
  let hop : ForwardingHop := ⟨upstream, downstream, upstream.peer, shared.locks⟩
  { shared with
    table := shared.table.insert trace hop
    locks := shared.locks + 1
    registered := shared.registered ++ [(trace, hop)] }

/-- A frame is put on the queue of the next hop. -/
def relay (shared : ForwardShared) (trace : TraceId) (hop : ForwardingHop) (kind : PacketKind) :
    ForwardShared :=
  { shared with relayed := shared.relayed ++ [⟨trace, hop, kind⟩] }

/-- The traces that `close_for_peer` finds. -/
def candidates (shared : ForwardShared) (peer : NodeId) : List TraceId :=
  (shared.table.toList.filter fun entry => entry.2.upstreamPeer = peer).map Prod.fst

end ForwardShared

open ForwardShared (checkOpen)

/-- A handler goes on to its next wait, or to its end. `free` are the locks that nobody holds. -/
inductive ForwardTask.Goes (capacity : Nat) (free : Nat → Prop) (s : ForwardShared) :
    ForwardTask → ForwardShared → Option ForwardTask → Prop where
  | refuse {session trace choice status} : checkOpen capacity s trace choice = .error status →
      Goes capacity free s (.selecting session trace) s none
  | queue {session trace choice downstream} : checkOpen capacity s trace choice = .ok downstream →
      Goes capacity free s (.selecting session trace)
        (s.insertPending downstream trace (.relay session))
        (some (.sendingOpen session trace downstream))
  /-- The frame does not encode, or the queue is closed. -/
  | unsent {session trace downstream} :
      Goes capacity free s (.sendingOpen session trace downstream)
        (s.removePending downstream trace) none
  | sent {session trace downstream} :
      Goes capacity free s (.sendingOpen session trace downstream) s
        (some (.registering session trace downstream))
  | register {session trace downstream} : s.table.get trace = none →
      Goes capacity free s (.registering session trace downstream)
        (s.register trace session downstream) none
  | conflict {session trace downstream hop} : s.table.get trace = some hop →
      Goes capacity free s (.registering session trace downstream)
        (s.removePending downstream trace) none
  | chunkGone {session trace hop} : free hop.relayLock → s.table.get trace = none →
      Goes capacity free s (.chunkLocking session trace hop) s none
  | chunkLocked {session trace hop current} : free hop.relayLock →
      s.table.get trace = some current →
      Goes capacity free s (.chunkLocking session trace hop) s
        (some (.chunkSending session trace hop))
  | chunkSent {session trace hop} :
      Goes capacity free s (.chunkSending session trace hop) (s.relay trace hop .chunk) none
  /-- `fail_hop`: the queue is closed. -/
  | chunkFailed {session trace hop} :
      Goes capacity free s (.chunkSending session trace hop) (s.take trace) none
  | endGone {session trace hop} : free hop.relayLock → s.table.get trace = none →
      Goes capacity free s (.endLocking session trace hop) s none
  /-- `relay_end` takes the hop and gives the lock back before it waits for the queue. -/
  | endTaken {session trace hop current} : free hop.relayLock → s.table.get trace = some current →
      Goes capacity free s (.endLocking session trace hop) (s.take trace)
        (some (.endSending session trace current))
  | endSent {session trace hop} :
      Goes capacity free s (.endSending session trace hop) (s.relay trace hop .end) none
  | endFailed {session trace hop} : Goes capacity free s (.endSending session trace hop) s none
  | list {session} :
      Goes capacity free s (.draining session) s
        (some (.closing session (s.candidates session.peer)))
  | skip {session trace rest} : s.table.get trace = none →
      Goes capacity free s (.closing session (trace :: rest)) s (some (.closing session rest))
  | close {session trace rest hop} : s.table.get trace = some hop →
      Goes capacity free s (.closing session (trace :: rest)) s
        (some (.closeLocking session trace hop rest))
  | closed {session} : Goes capacity free s (.closing session []) s none
  | closeGone {session trace hop rest} : free hop.relayLock → s.table.get trace = none →
      Goes capacity free s (.closeLocking session trace hop rest) s (some (.closing session rest))
  | closeTaken {session trace hop current rest} : free hop.relayLock →
      s.table.get trace = some current →
      Goes capacity free s (.closeLocking session trace hop rest) (s.take trace)
        (some (.closeSending session trace current rest))
  | closeSent {session trace hop rest} :
      Goes capacity free s (.closeSending session trace hop rest) (s.relay trace hop .end)
        (some (.closing session rest))
  | closeUnsent {session trace hop rest} :
      Goes capacity free s (.closeSending session trace hop rest) s (some (.closing session rest))

/-! ## Nodes -/

/-- A node that forwards. -/
structure ForwardNode extends ForwardShared where
  tasks : List ForwardTask
  /-- The sessions that do not read any more. -/
  ended : List PeerSession

namespace ForwardNode

/-- The session can read its next frame. -/
def Reads (node : ForwardNode) (session : PeerSession) : Prop :=
  session ∉ node.ended ∧ ∀ task ∈ node.tasks, task.session ≠ session

/-- Nobody holds the lock. -/
def Free (node : ForwardNode) (lock : Nat) : Prop := ∀ task ∈ node.tasks, task.holds ≠ some lock

instance instDecidableReads (node : ForwardNode) (session : PeerSession) :
    Decidable (node.Reads session) :=
  inferInstanceAs (Decidable (_ ∧ ∀ task ∈ node.tasks, task.session ≠ session))

instance instDecidableFree (node : ForwardNode) (lock : Nat) : Decidable (node.Free lock) :=
  inferInstanceAs (Decidable (∀ task ∈ node.tasks, task.holds ≠ some lock))

inductive Step (capacity : Nat) (s : ForwardNode) : ForwardNode → Prop where
  /-- A routed Open for another node is read. -/
  | opens {session : PeerSession} (trace : TraceId) : s.Reads session →
      Step capacity s { s with tasks := s.tasks ++ [.selecting session trace] }
  | reads_chunk {session : PeerSession} {trace : TraceId} {hop : ForwardingHop} :
      s.Reads session → s.table.get trace = some hop →
      Step capacity s { s with tasks := s.tasks ++ [.chunkLocking session trace hop] }
  | reads_end {session : PeerSession} {trace : TraceId} {hop : ForwardingHop} :
      s.Reads session → s.table.get trace = some hop →
      Step capacity s { s with tasks := s.tasks ++ [.endLocking session trace hop] }
  | goes {before after : List ForwardTask} {task : ForwardTask} {shared : ForwardShared}
      {next : Option ForwardTask} : s.tasks = before ++ task :: after →
      task.Goes capacity s.Free s.toForwardShared shared next →
      Step capacity s
        { s with toForwardShared := shared, tasks := before ++ next.toList ++ after }
  /-- `resolve_ack`, or the wait of an Open of the node itself is over. -/
  | resolves (session : PeerSession) (trace : TraceId) :
      Step capacity s { s with toForwardShared := s.removePending session trace }
  /-- `run_outbound` registers the wait of an Open of the node itself. -/
  | submits {session : PeerSession} (trace : TraceId) :
      (s.pending session).size < maxPendingAdmissions →
      Step capacity s { s with toForwardShared := s.insertPending session trace .wait }
  /-- `retire`: the session is replaced. -/
  | retires (session : PeerSession) :
      Step capacity s { s with toForwardShared := s.drainPending session }
  /-- A session that waits for its next frame, or in the handler of one, ends. -/
  | ends (session : PeerSession) : session ∉ s.ended →
      (∀ task ∈ s.tasks, task.session = session → task.isWaiting = true) →
      Step capacity s
        { s with
          toForwardShared := s.drainPending session
          tasks := (s.tasks.filter fun task => task.session ≠ session) ++ [.draining session]
          ended := session :: s.ended }

/-- The node before it has forwarded anything. -/
def start : ForwardNode := ⟨⟨.empty, fun _ => .empty, 0, [], []⟩, [], []⟩

/-- The runs of a node. -/
def runs (capacity : Nat) : TransitionSystem ForwardNode where
  init := fun s => s = start
  next := Step capacity

end ForwardNode

end Radiata
