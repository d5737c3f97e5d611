import Radiata.Native.Neighbor

/-!
# Neighbor plans form a ring

## Key results

- `collectNeighbors_append`: the loop over members that are not yet among the neighbors
- `planNeighbors_eq`: a plan has the next members in cyclic order
- `neighbor_plans_form_ring`: the plans of all members connect them
-/

namespace Radiata

/-- The loop takes up fresh members until it has enough. -/
theorem collectNeighbors_append (ring rest : List NodeId) (turns : Nat)
    {fresh neighbors : List NodeId} {localNode : NodeId} {target : Nat}
    (hlocal : localNode ∉ fresh) (hnodup : (neighbors ++ fresh).Nodup)
    (hopen : neighbors.length < target) :
    collectNeighbors ring localNode target (turns + fresh.length) (fresh ++ rest) neighbors =
      if target ≤ (neighbors ++ fresh).length then some ((neighbors ++ fresh).take target)
      else collectNeighbors ring localNode target turns rest (neighbors ++ fresh) := by
  induction fresh generalizing neighbors with
  | nil => simp [Nat.not_le.mpr hopen]
  | cons next fresh ih =>
    rw [List.mem_cons, not_or] at hlocal
    have hnew : next ∉ neighbors := by
      intro hmem
      exact (List.nodup_append.mp hnodup).2.2 next hmem next (List.mem_cons_self ..) rfl
    rw [List.length_cons, ← Nat.add_assoc, List.cons_append, collectNeighbors, List.cycleNext]
    simp only [if_neg (Ne.symm hlocal.1), if_neg hnew]
    have hsplit : neighbors ++ next :: fresh = (neighbors ++ [next]) ++ fresh := by simp
    by_cases henough : target ≤ (neighbors ++ [next]).length
    · -- This member was the last one needed.
      have hlength : (neighbors ++ [next]).length = target := by
        rw [List.length_append, List.length_singleton] at henough ⊢
        omega
      rw [if_pos henough, hsplit, List.length_append, if_pos (by omega), ← hlength,
        List.take_left]
    · rw [if_neg henough, hsplit]
      rw [hsplit] at hnodup
      exact ih hlocal.2 hnodup (Nat.not_le.mp henough)

/-- At the end of a round the iterator starts over. -/
theorem collectNeighbors_nil {ring neighbors : List NodeId} {localNode : NodeId}
    {target turns : Nat} :
    collectNeighbors ring localNode target turns [] neighbors =
      collectNeighbors ring localNode target turns ring neighbors := by
  cases turns with
  | zero => rfl
  | succ turns => cases ring with
    | nil => rfl
    | cons first rest => rfl

/-- A plan has the next members after the node, as many as the degree asks for and there are. -/
theorem planNeighbors_eq {turns degree : Nat} {localNode : NodeId} {members : Finset NodeId}
    (hlocal : localNode ∈ members) (hturns : members.card ≤ turns) :
    planNeighbors turns localNode members degree =
      some ((members.cyclicAfter localNode).take (min (clamp degree 1 64) (members.card - 1))) := by
  generalize htarget : min (clamp degree 1 64) (members.card - 1) = target
  unfold planNeighbors
  simp only [not_not.mpr hlocal, if_false, htarget]
  split
  · rename_i hzero
    rw [hzero]
    rfl
  rename_i hpositive
  -- The members before and after the node.
  have hring := Finset.sort_eq_append_cons hlocal
  generalize hbefore : (members.filter (· < localNode)).sort (· ≤ ·) = before at hring
  generalize hafter : (members.filter (localNode < ·)).sort (· ≤ ·) = after at hring
  have hcycle : members.cyclicAfter localNode = after ++ before := by
    rw [Finset.cyclicAfter, hbefore, hafter]
  have hnodup := members.nodup_cyclicAfter localNode
  have hothers : localNode ∉ after ++ before := by
    rw [← hcycle, Finset.mem_cyclicAfter]
    exact fun h => h.2 rfl
  have hlength : (after ++ before).length = members.card - 1 := by
    rw [← hcycle, Finset.length_cyclicAfter hlocal]
  rw [hcycle] at hnodup ⊢
  rw [List.mem_append, not_or] at hothers
  have hposition : (members.sort (· ≤ ·)).idxOf localNode = before.length := by
    rw [hring, List.idxOf_append_of_notMem hothers.2, List.idxOf_cons_self]
    rfl
  have hcursor : (members.sort (· ≤ ·)).cycleDrop
      ((members.sort (· ≤ ·)).idxOf localNode + 1) (members.sort (· ≤ ·)) = after := by
    have hdrop := List.cycleDrop_append (members.sort (· ≤ ·)) (before ++ [localNode]) after
    rw [List.append_assoc, List.singleton_append, ← hring] at hdrop
    rw [hposition]
    simpa using hdrop
  have henough : target ≤ (after ++ before).length := by
    rw [hlength, ← htarget]
    exact Nat.min_le_right ..
  -- One round suffices: first the members after the node, then those before it.
  obtain ⟨spare, hspare⟩ : ∃ spare, turns = spare + before.length + after.length := by
    refine ⟨turns - (before.length + after.length), ?_⟩
    rw [List.length_append] at hlength
    omega
  have hfirst : collectNeighbors (members.sort (· ≤ ·)) localNode target
      (spare + before.length + after.length) (after ++ []) [] = _ :=
    collectNeighbors_append _ [] _ hothers.1 (List.Nodup.of_append_left hnodup)
      (Nat.pos_of_ne_zero hpositive)
  rw [List.append_nil, List.nil_append] at hfirst
  rw [hcursor, hspare, hfirst]
  by_cases hwrap : target ≤ after.length
  · rw [if_pos hwrap, List.take_append_of_le_length hwrap]
  · have hsecond := collectNeighbors_append (members.sort (· ≤ ·)) (localNode :: after) spare
      hothers.2 hnodup (Nat.not_le.mp hwrap)
    rw [← hring, if_pos henough] at hsecond
    rw [if_neg hwrap, collectNeighbors_nil, hsecond]

/-- An edge of the neighbor graph: the plan of `node`, with a degree of its own, has `peer`. -/
def PlansNeighbor (members : Finset NodeId) (degree : NodeId → Nat) (node peer : NodeId) : Prop :=
  ∃ neighbors, planNeighbors members.card node members (degree node) = some neighbors ∧
    peer ∈ neighbors

theorem plansNeighbor_of_head {members : Finset NodeId} {degree : NodeId → Nat}
    {node next : NodeId} (hnode : node ∈ members)
    (hnext : (members.cyclicAfter node).head? = some next) :
    PlansNeighbor members degree node next := by
  refine ⟨_, planNeighbors_eq hnode (Nat.le_refl _), ?_⟩
  have hlength := Finset.length_cyclicAfter hnode
  cases hcycle : members.cyclicAfter node with
  | nil =>
    rw [hcycle] at hnext
    cases hnext
  | cons first rest =>
    rw [hcycle] at hnext hlength
    cases hnext
    -- The clamped degree takes at least the first member.
    have hclamp : 1 ≤ clamp (degree node) 1 64 := Nat.le_max_left ..
    rw [List.length_cons] at hlength
    obtain ⟨count, hcount⟩ := Nat.exists_eq_add_of_le'
      (show 1 ≤ min (clamp (degree node) 1 64) (members.card - 1) by omega)
    rw [hcount, List.take_succ_cons]
    exact List.mem_cons_self ..

/-- For every member set, member and degree, a loop that may take as many turns as there are
    members ends with the next members in cyclic order, as many as the clamped degree allows and
    there are others: without the node itself and without duplicates. Whatever the degrees, the
    plans of all members connect every member with every other one. -/
theorem neighbor_plans_form_ring (members : Finset NodeId) :
    (∀ localNode ∈ members, ∀ degree turns, members.card ≤ turns →
      ∃ neighbors, planNeighbors turns localNode members degree = some neighbors ∧
        neighbors = (members.cyclicAfter localNode).take
          (min (clamp degree 1 64) (members.card - 1)) ∧
        neighbors.length = min (clamp degree 1 64) (members.card - 1) ∧
        localNode ∉ neighbors ∧ neighbors.Nodup) ∧
    ∀ degree : NodeId → Nat, ∀ node ∈ members, ∀ peer ∈ members,
      Relation.ReflTransGen (PlansNeighbor members degree) node peer := by
  constructor
  · intro localNode hlocal degree turns hturns
    refine ⟨_, planNeighbors_eq hlocal hturns, rfl, ?_, ?_, ?_⟩
    · rw [List.length_take, Finset.length_cyclicAfter hlocal]
      omega
    · intro hmem
      exact (Finset.mem_cyclicAfter.mp (List.mem_of_mem_take hmem)).2 rfl
    · exact (members.nodup_cyclicAfter localNode).sublist (List.take_sublist ..)
  · intro degree node hnode peer hpeer
    exact Finset.reflTransGen_of_head_cyclicAfter
      (fun node hnode next hnext => plansNeighbor_of_head hnode hnext) hnode hpeer

end Radiata
