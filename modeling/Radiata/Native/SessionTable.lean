import Radiata.ForStd.System
import Radiata.Native.Identity

/-!
# Registration of sessions

`src/session/stream.rs`: an authenticated connection is registered by `run_session` in the
session table of its node under the id of its peer. A live previous session competes with
the new one: of two connections dialed by different sides the one of the smaller node id is
kept, of two dialed by the same side the newer one. The loser is retired or, when it is the
new one, dropped at once.

A link is a pair of nodes with the connections between them. Each end registers its
connections in an order of its own, and a session ends when it was retired or when the
other end has dropped the connection. Session ids, frames and streams play no part in the
choice and are left out here.
-/

namespace Radiata

/-- `DialDirection` -/
inductive DialDirection where
  | outgoing
  | incoming
  deriving DecidableEq, Repr

/-- `keep_connection`: the connection dialed by the smaller node id wins. -/
def keepConnection (localId peer : NodeId) : DialDirection → Bool
  | .outgoing => localId < peer
  | .incoming => peer < localId

/-- The two ends of a link. -/
inductive Side where
  | left
  | right
  deriving DecidableEq, Repr

def Side.other : Side → Side
  | .left => .right
  | .right => .left

/-- An authenticated connection and the side that dialed it. -/
structure Connection where
  number : Nat
  dialer : Side
  deriving DecidableEq, Repr

/-- The direction of a connection as one of its ends sees it. -/
def Connection.direction (connection : Connection) (side : Side) : DialDirection :=
  if connection.dialer = side then .outgoing else .incoming

/-- `SessionEntry`: its connection, the direction and the generation. -/
structure SessionEntry where
  connection : Connection
  direction : DialDirection
  generation : Nat
  deriving DecidableEq, Repr

/-- The largest generation, `u64::MAX`. -/
def maxGeneration : Nat := 2 ^ 64 - 1

/-- What one end keeps for its peer: the table entry, the connections whose `alive` flag is
    set, those whose `run_session` is past the registration, and those it has dropped. -/
structure SessionEnd where
  entry : Option SessionEntry
  alive : List Connection
  serving : List Connection
  dropped : List Connection

namespace SessionEnd

def empty : SessionEnd := ⟨none, [], [], []⟩

/-- Whether a new connection replaces the registered one. -/
def replaces (localId peer : NodeId) (node : SessionEnd) (direction : DialDirection) : Bool :=
  match node.entry with
  | none => true
  | some previous =>
    -- Only a live previous session competes.
    if previous.connection ∉ node.alive then true
    else
      let keepExisting := keepConnection localId peer previous.direction
      let keepNew := keepConnection localId peer direction
      if keepExisting ≠ keepNew then keepNew else true

/-- The generation of the next entry: `saturating_add`. -/
def nextGeneration (node : SessionEnd) : Nat :=
  (node.entry.map fun previous => min (previous.generation + 1) maxGeneration).getD 1

/-- `retire` of the previous entry: its flag is cleared. -/
def retirePrevious (node : SessionEnd) : List Connection :=
  (node.entry.map fun previous => node.alive.filter (· ≠ previous.connection)).getD node.alive

/-- The registration of `run_session`. -/
def register (localId peer : NodeId) (node : SessionEnd) (connection : Connection)
    (direction : DialDirection) : SessionEnd :=
  if node.replaces localId peer direction then
    { node with
      entry := some ⟨connection, direction, node.nextGeneration⟩
      alive := connection :: node.retirePrevious
      serving := connection :: node.serving }
  else { node with dropped := connection :: node.dropped }

/-- The teardown of `run_session`: an entry that is not alive is removed, whoever owns it. -/
def teardown (node : SessionEnd) (connection : Connection) : SessionEnd :=
  let alive := node.alive.filter (· ≠ connection)
  { entry := node.entry.filter fun current => current.connection ∈ alive
    alive := alive
    serving := node.serving.filter (· ≠ connection)
    dropped := connection :: node.dropped }

end SessionEnd

/-- Both ends with the connections they still have to register. -/
structure Link where
  node : Side → SessionEnd
  todo : Side → List Connection

namespace Link

/-- The session of a connection has a reason to end: it was retired here, or the other end
    has dropped the connection. -/
def Ending (s : Link) (side : Side) (connection : Connection) : Prop :=
  connection ∈ (s.node side).serving ∧
    (connection ∉ (s.node side).alive ∨ connection ∈ (s.node side.other).dropped)

/-- The end `side` registers the next connection of its order. -/
def register (ids : Side → NodeId) (s : Link) (side : Side) (connection : Connection)
    (rest : List Connection) : Link where
  node := Function.update s.node side
    ((s.node side).register (ids side) (ids side.other) connection (connection.direction side))
  todo := Function.update s.todo side rest

/-- The end `side` tears a session down. -/
def teardown (s : Link) (side : Side) (connection : Connection) : Link :=
  { s with node := Function.update s.node side ((s.node side).teardown connection) }

/-- The steps of a link between the nodes `ids`. -/
inductive Step (ids : Side → NodeId) (s : Link) : Link → Prop where
  | register (side : Side) (connection : Connection) (rest : List Connection) :
      s.todo side = connection :: rest → Step ids s (s.register ids side connection rest)
  | teardown (side : Side) (connection : Connection) :
      s.Ending side connection → Step ids s (s.teardown side connection)

/-- The runs in which the ends register their connections in the given orders. -/
def runs (ids : Side → NodeId) (orders : Side → List Connection) : TransitionSystem Link where
  init := fun s => s = ⟨fun _ => .empty, orders⟩
  next := Step ids

/-- All registrations are processed and every connection that an end retired or refused is
    closed at both ends. -/
def Settled (s : Link) : Prop :=
  (∀ side, s.todo side = []) ∧ ∀ side connection, ¬ s.Ending side connection

/-- Both tables hold a live entry, and the entries are the ends of one connection. -/
def Agree (s : Link) : Prop :=
  ∃ connection, ∀ side, ((s.node side).entry.map SessionEntry.connection) = some connection ∧
    connection ∈ (s.node side).alive

end Link

end Radiata
