import Mathlib.Data.Finset.Sort
import Mathlib.Logic.Relation

/-!
# Ordered cycles

The elements of a finite set of a linear order, read as a cycle: in ascending order, and from the
last to the first again. An iterator over such a cycle starts over when it has reached the end.

## Key results

- `Finset.sort_eq_append_cons`: the sorted list around one of its elements
- `Finset.reflTransGen_of_head_cyclicAfter`: edges to the next elements connect all elements
-/

/-- The next element of an iterator over `ring` that starts over at its end, and the elements that
    are left of this round. -/
def List.cycleNext {α : Type} (ring : List α) : List α → Option (α × List α)
  | next :: rest => some (next, rest)
  | [] => ring.head?.map (·, ring.tail)

/-- The iterator after `n` elements. -/
def List.cycleDrop {α : Type} (ring : List α) : Nat → List α → List α
  | 0, cursor => cursor
  | n + 1, cursor =>
    match ring.cycleNext cursor with
    | some (_, rest) => ring.cycleDrop n rest
    | none => cursor

theorem List.cycleDrop_append {α : Type} (ring skipped rest : List α) :
    ring.cycleDrop skipped.length (skipped ++ rest) = rest := by
  induction skipped with
  | nil => rfl
  | cons next skipped ih => exact ih

namespace Finset

variable {α : Type} [LinearOrder α]

/-- The other elements of a set in the order in which they come after `a`. -/
def cyclicAfter (s : Finset α) (a : α) : List α :=
  (s.filter (a < ·)).sort (· ≤ ·) ++ (s.filter (· < a)).sort (· ≤ ·)

variable {s : Finset α}

theorem mem_cyclicAfter {a b : α} : b ∈ s.cyclicAfter a ↔ b ∈ s ∧ b ≠ a := by
  simp only [cyclicAfter, List.mem_append, mem_sort, mem_filter, ← and_or_left]
  rw [← lt_or_lt_iff_ne, or_comm]

theorem nodup_cyclicAfter (s : Finset α) (a : α) : (s.cyclicAfter a).Nodup := by
  apply List.Nodup.append (sort_nodup ..) (sort_nodup ..)
  intro b hafter hbefore
  simp only [mem_sort, mem_filter] at hafter hbefore
  exact lt_asymm hafter.2 hbefore.2

theorem length_cyclicAfter {a : α} (ha : a ∈ s) :
    (s.cyclicAfter a).length = s.card - 1 := by
  have hset : (s.cyclicAfter a).toFinset = s.erase a := by
    ext b
    rw [List.mem_toFinset, mem_cyclicAfter, mem_erase, and_comm]
  rw [← List.toFinset_card_of_nodup (nodup_cyclicAfter s a), hset, card_erase_of_mem ha]

/-- The sorted list has the elements before `a`, then `a`, then those after it. -/
theorem sort_eq_append_cons {a : α} (ha : a ∈ s) :
    s.sort (· ≤ ·) = (s.filter (· < a)).sort (· ≤ ·) ++ a :: (s.filter (a < ·)).sort (· ≤ ·) := by
  have hperm : (s.sort (· ≤ ·)).Perm
      ((s.filter (· < a)).sort (· ≤ ·) ++ a :: (s.filter (a < ·)).sort (· ≤ ·)) := by
    rw [List.perm_ext_iff_of_nodup (sort_nodup ..)]
    · intro b
      simp only [List.mem_append, List.mem_cons, mem_sort, mem_filter]
      grind
    · rw [List.nodup_append]
      simp only [List.nodup_cons, sort_nodup, mem_sort, mem_filter, List.mem_cons]
      grind
  apply hperm.eq_of_pairwise (fun _ _ _ _ => le_antisymm) (pairwise_sort ..)
  rw [List.pairwise_append, List.pairwise_cons]
  simp only [pairwise_sort, mem_sort, mem_filter, List.mem_cons]
  grind

/-- Edges to the next greater element connect an element to all greater ones. -/
private theorem reflTransGen_of_lt {edge : α → α → Prop}
    (hnext : ∀ a ∈ s, ∀ b, (s.cyclicAfter a).head? = some b → edge a b) {a b : α} (ha : a ∈ s)
    (hb : b ∈ s) (hab : a < b) : Relation.ReflTransGen edge a b := by
  generalize hn : (s.filter (a < ·)).card = n
  induction n using Nat.strong_induction_on generalizing a with
  | _ n ih =>
    cases hsort : (s.filter (a < ·)).sort (· ≤ ·) with
    | nil =>
      have hmem : b ∈ (s.filter (a < ·)).sort (· ≤ ·) := by simp [hb, hab]
      rw [hsort] at hmem
      cases hmem
    | cons c rest =>
      have hc : c ∈ (s.filter (a < ·)).sort (· ≤ ·) := by simp [hsort]
      rw [mem_sort, mem_filter] at hc
      have hedge : edge a c := hnext a ha c (by simp [cyclicAfter, hsort])
      have hmem : b ∈ (s.filter (a < ·)).sort (· ≤ ·) := by simp [hb, hab]
      rw [hsort, List.mem_cons] at hmem
      cases hmem with
      | inl heq => exact heq ▸ .single hedge
      | inr hmem =>
        have hcb : c ≤ b := by
          have hsorted := pairwise_sort (s.filter (a < ·)) (· ≤ ·)
          rw [hsort, List.pairwise_cons] at hsorted
          exact hsorted.1 b hmem
        have hnodup : c ∉ rest := by
          have hnodup := sort_nodup (s.filter (a < ·)) (· ≤ ·)
          rw [hsort, List.nodup_cons] at hnodup
          exact hnodup.1
        have hlt : c < b := lt_of_le_of_ne hcb fun heq => hnodup (heq ▸ hmem)
        have hless : (s.filter (c < ·)).card < n := by
          rw [← hn]
          apply card_lt_card
          rw [ssubset_iff]
          refine ⟨c, by simp, fun d hd => ?_⟩
          rw [mem_insert, mem_filter] at hd
          rw [mem_filter]
          cases hd with
          | inl heq => exact heq ▸ hc
          | inr hd => exact ⟨hd.1, hc.2.trans hd.2⟩
        exact (ih _ hless hc.1 hlt rfl).head hedge

/-- Edges to the next elements, from the greatest to the least one, connect all elements. -/
theorem reflTransGen_of_head_cyclicAfter {edge : α → α → Prop}
    (hnext : ∀ a ∈ s, ∀ b, (s.cyclicAfter a).head? = some b → edge a b) {a b : α} (ha : a ∈ s)
    (hb : b ∈ s) : Relation.ReflTransGen edge a b := by
  have hup : ∀ {c d}, c ∈ s → d ∈ s → c ≤ d → Relation.ReflTransGen edge c d := by
    intro c d hc hd hcd
    obtain rfl | hlt := eq_or_lt_of_le hcd
    · exact .refl
    · exact reflTransGen_of_lt hnext hc hd hlt
  -- Up to the greatest element, and from the least one on.
  have hlast := s.max'_mem ⟨a, ha⟩
  have hfirst := s.min'_mem ⟨a, ha⟩
  refine (hup ha hlast (s.le_max' a ha)).trans (.trans ?_ (hup hfirst hb (s.min'_le b hb)))
  by_cases hone : s.max' ⟨a, ha⟩ = s.min' ⟨a, ha⟩
  · rw [hone]
  apply Relation.ReflTransGen.single
  apply hnext _ hlast
  have hlt : s.min' ⟨a, ha⟩ < s.max' ⟨a, ha⟩ :=
    lt_of_le_of_ne (s.min'_le _ hlast) (Ne.symm hone)
  have hafter : s.filter (s.max' ⟨a, ha⟩ < ·) = ∅ :=
    filter_eq_empty_iff.mpr fun c hc => not_lt.mpr (s.le_max' c hc)
  have hcons : s.filter (· < s.max' ⟨a, ha⟩) = insert (s.min' ⟨a, ha⟩)
      (s.filter (fun c => c < s.max' ⟨a, ha⟩ ∧ c ≠ s.min' ⟨a, ha⟩)) := by
    ext c
    rw [mem_insert, mem_filter, mem_filter]
    grind
  rw [cyclicAfter, hafter, sort_empty, List.nil_append, hcons, sort_insert]
  · rfl
  · intro c hc
    exact s.min'_le c (mem_filter.mp hc).1
  · simp

end Finset
