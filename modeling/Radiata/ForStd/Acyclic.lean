import Mathlib.Data.Finset.Card
import Mathlib.Logic.Relation

/-!
# Acyclic relations

A relation without cycles over finitely many points has a rank that falls along every
edge, which is what a depth-first search needs to succeed. A point from which every
descent ends is on no cycle, which is what a search that succeeded has shown.
-/

namespace Relation

variable {α : Type} {r : α → α → Prop}

/-- A point from which every descent ends is on no cycle. -/
theorem not_transGen_self_of_acc {a : α} (h : Acc (fun b a => r a b) a) : ¬ TransGen r a a := by
  induction h with
  | intro a _ ih =>
    intro hcycle
    -- the next point of a cycle is on the same cycle
    obtain ⟨b, hab, hba⟩ := TransGen.head'_iff.mp hcycle
    exact ih b hab (TransGen.tail' hba hab)

/-- A relation without cycles into finitely many points has a rank. -/
theorem exists_rank_of_acyclic (points : Finset α) (hpoints : ∀ a b, r a b → b ∈ points)
    (hacyclic : ∀ a, ¬ TransGen r a a) : ∃ rank : α → Nat, ∀ a b, r a b → rank b < rank a := by
  classical
  -- the rank counts the points below
  refine ⟨fun a => (points.filter fun c => TransGen r a c).card, fun a b hab => ?_⟩
  apply Finset.card_lt_card
  rw [Finset.ssubset_iff_of_subset]
  · refine ⟨b, ?_, ?_⟩
    · exact Finset.mem_filter.mpr ⟨hpoints a b hab, .single hab⟩
    · intro hb
      exact hacyclic b (Finset.mem_filter.mp hb).2
  · intro c hc
    obtain ⟨hmem, hbc⟩ := Finset.mem_filter.mp hc
    exact Finset.mem_filter.mpr ⟨hmem, .head hab hbc⟩

end Relation
