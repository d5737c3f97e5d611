import Radiata.ForStd.System
import Radiata.Native.Identity

/-!
# Route envelopes

`src/routing.rs`: the routing envelope of a packet, its projection onto an open frame and the
checks every receiving node makes before it forwards. `src/session/forward.rs` and
`admit_open` (`src/session/stream.rs`) call `receive` with the peer that the session has
authenticated; the destination never consults a next-hop policy.

An open frame carries the protocol tag and the metadata of the packet beside the route; they
are relayed unchanged and are a parameter here. The hop budget is a natural number, since it
only ever decreases.
-/

namespace Radiata

open Except (rejectIf)

/-- `HopState`: what a routed open frame carries of the envelope. -/
structure HopState where
  current : NodeId
  visited : List NodeId
  remainingHops : Nat
  deriving DecidableEq

/-- `OpenFrame`, with the protocol and the metadata as its content. -/
structure OpenFrame (κ : Type) where
  traceId : TraceId
  source : NodeId
  destination : NodeId
  content : κ
  route : Option HopState
  deriving DecidableEq

/-- `RouteContext` -/
structure RouteContext where
  traceId : TraceId
  source : NodeId
  destination : NodeId
  current : NodeId
  visited : List NodeId
  remainingHops : Nat
  deriving DecidableEq

/-- `RouteProgress` -/
inductive RouteProgress where
  | arrive
  | «continue» (nextHop : NodeId) (context : RouteContext)
  deriving DecidableEq

namespace RouteContext

/-- `RouteContext::new` -/
def new (traceId : TraceId) (source destination : NodeId) (maxHops : Nat) : RouteContext :=
  ⟨traceId, source, destination, source, [], maxHops⟩

/-- `hop_state` -/
def hopState (context : RouteContext) : HopState :=
  ⟨context.current, context.visited, context.remainingHops⟩

/-- `from_frame`: a frame without a route is a direct delivery of its source. -/
def fromFrame (traceId : TraceId) (source destination : NodeId) : Option HopState → RouteContext
  | some route => ⟨traceId, source, destination, route.current, route.visited, route.remainingHops⟩
  | none => new traceId source destination 1

/-- `forward` -/
def forward (context : RouteContext) (localId : NodeId) : RouteContext :=
  { context with
    current := localId
    visited := context.visited ++ [context.current]
    remainingHops := context.remainingHops - 1 }

/-- `receive` -/
def receive (context : RouteContext) (localId peer : NodeId)
    (chooseNext : RouteContext → Result NodeId) : Result RouteProgress := do
  rejectIf (context.current = localId ∨ localId ∈ context.visited) (.conflict "route loop")
  rejectIf (¬ context.visited.Nodup) (.conflict "route loop")
  rejectIf (context.visited.head?.any (· ≠ context.source)) (.invalidInput "route chain")
  rejectIf (context.current ≠ peer) (.notTrusted "route holder")
  if context.destination = localId then .ok .arrive
  else do
    rejectIf (context.remainingHops = 0) (.resourceExhausted "route hops")
    let nextHop ← chooseNext context
    rejectIf (nextHop = localId ∨ nextHop = context.current ∨ nextHop = context.source
      ∨ nextHop ∈ context.visited) (.conflict "route loop")
    return .continue nextHop (context.forward localId)

end RouteContext

/-! ## The way of a packet -/

/-- Where a routed packet is. -/
inductive RoutePosition (κ : Type) where
  /-- The open frame is under way to `receiver` on a session authenticated as `peer`. -/
  | sent (peer receiver : NodeId) (frame : OpenFrame κ)
  | arrived (node : NodeId) (context : RouteContext)
  | failed (node : NodeId) (error : Error)
  deriving DecidableEq

/-- A packet on its way with the nodes that have held it. -/
structure RouteRun (κ : Type) where
  holders : List NodeId
  position : RoutePosition κ
  deriving DecidableEq

namespace RouteRun

variable {κ : Type}

/-- The origin sends its envelope to the first hop (`run_outbound`). -/
def start (traceId : TraceId) (source destination : NodeId) (maxHops : Nat) (content : κ)
    (firstHop : NodeId) : RouteRun κ where
  holders := [source]
  position := .sent source firstHop ⟨traceId, source, destination, content,
    some (RouteContext.new traceId source destination maxHops).hopState⟩

/-- What the receiver does with the frame. `choose` is the decision of each node: its next-hop
    policy, or any reason for which the node does not relay. -/
def receive (choose : NodeId → RouteContext → Result NodeId) (holders : List NodeId)
    (peer receiver : NodeId) (frame : OpenFrame κ) : RouteRun κ :=
  let envelope := RouteContext.fromFrame frame.traceId frame.source frame.destination frame.route
  match envelope.receive receiver peer (choose receiver) with
  | .error error => ⟨holders, .failed receiver error⟩
  | .ok .arrive => ⟨holders ++ [receiver], .arrived receiver envelope⟩
  | .ok (.continue nextHop context) =>
    ⟨holders ++ [receiver], .sent receiver nextHop { frame with route := some context.hopState }⟩

/-- The next step; a packet that arrived or failed has none. -/
def next (choose : NodeId → RouteContext → Result NodeId) (run : RouteRun κ) : Option (RouteRun κ) :=
  match run.position with
  | .sent peer receiver frame => some (receive choose run.holders peer receiver frame)
  | .arrived _ _ => none
  | .failed _ _ => none

/-- The runs of a packet. -/
def runs (choose : NodeId → RouteContext → Result NodeId) (origin : RouteRun κ) :
    TransitionSystem (RouteRun κ) where
  init := fun run => run = origin
  next := fun run run' => run.next choose = some run'

end RouteRun

end Radiata
