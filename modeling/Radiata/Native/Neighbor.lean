import Radiata.ForStd.Cycle
import Radiata.Native.Identity

/-!
# Neighbor plans

`src/membership/neighbor.rs`: the neighbors a node keeps connections to are the next members after
it, in the order of their ids.
-/

namespace Radiata

/-- The loop of `plan_neighbors` over the rest of the cycle. It ends only by counting, so the
    turns it may take are bounded here; `none` is a loop that has not ended. -/
def collectNeighbors (ring : List NodeId) (localNode : NodeId) (target : Nat) :
    Nat → List NodeId → List NodeId → Option (List NodeId)
  | 0, _, _ => none
  | turns + 1, cursor, neighbors =>
    match ring.cycleNext cursor with
    | none => some neighbors
    | some (next, rest) =>
      if next = localNode then collectNeighbors ring localNode target turns rest neighbors
      else if next ∈ neighbors then collectNeighbors ring localNode target turns rest neighbors
      else if target ≤ (neighbors ++ [next]).length then some (neighbors ++ [next])
      else collectNeighbors ring localNode target turns rest (neighbors ++ [next])

/-- `usize::clamp` -/
def clamp (value low high : Nat) : Nat := max low (min value high)

/-- `plan_neighbors` -/
def planNeighbors (turns : Nat) (localNode : NodeId) (members : Finset NodeId) (degree : Nat) :
    Option (List NodeId) :=
  let degree := clamp degree 1 64
  if localNode ∉ members then some []
  else
    let available := members.card - 1
    let target := min degree available
    if target = 0 then some []
    else
      let ring := members.sort (· ≤ ·)
      let position := ring.idxOf localNode
      let cursor := ring.cycleDrop (position + 1) ring
      collectNeighbors ring localNode target turns cursor []

end Radiata
