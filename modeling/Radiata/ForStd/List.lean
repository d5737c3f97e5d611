import Mathlib.Algebra.GroupWithZero.Nat
import Mathlib.Algebra.Order.BigOperators.Group.List
import Mathlib.Algebra.Order.Group.Nat
import Mathlib.Data.List.Forall2
import Mathlib.Data.List.Sort

/-!
# List lemmas

Tests over the adjacent pairs of a list (the windows of length two), the
duplicate test that sorts a list and compares neighbours, filters over distinct
images, and partners in related lists.
-/

namespace List

variable {α : Type}

/-- Whether every adjacent pair is related. -/
def allAdjacent (r : α → α → Bool) : List α → Bool
  | a :: b :: rest => r a b && allAdjacent r (b :: rest)
  | _ => true

theorem allAdjacent_iff_isChain (r : α → α → Bool) (l : List α) :
    l.allAdjacent r = true ↔ l.IsChain (fun a b => r a b = true) := by
  induction l with
  | nil => simp [allAdjacent]
  | cons a l ih =>
    cases l with
    | nil => simp [allAdjacent]
    | cons b rest => simp [allAdjacent, ih]

/-- An adjacent test with a transitive relation is a pairwise test. -/
theorem allAdjacent_iff_pairwise (r : α → α → Bool)
    (htrans : ∀ a b c, r a b = true → r b c = true → r a c = true) (l : List α) :
    l.allAdjacent r = true ↔ l.Pairwise (fun a b => r a b = true) := by
  have : Trans (fun a b => r a b = true) (fun a b => r a b = true) (fun a b => r a b = true) :=
    ⟨fun hab hbc => htrans _ _ _ hab hbc⟩
  rw [allAdjacent_iff_isChain, isChain_iff_pairwise]

/-- A list sorted by a key without equal neighbours is strictly sorted. -/
theorem pairwise_lt_of_allAdjacent {κ : Type} [LinearOrder κ] (key : α → κ) {r : α → α → Bool}
    (hr : ∀ a b, r a b = true → key a ≠ key b) {l : List α}
    (hsorted : l.Pairwise (fun a b => key a ≤ key b)) (hadj : l.allAdjacent r = true) :
    l.Pairwise (fun a b => key a < key b) := by
  have hchain : l.IsChain (fun a b => key a < key b) := by
    rw [allAdjacent_iff_isChain] at hadj
    induction l with
    | nil => exact .nil
    | cons a l ih =>
      cases l with
      | nil => exact .singleton a
      | cons b rest =>
        rw [pairwise_cons] at hsorted
        rw [isChain_cons_cons] at hadj ⊢
        refine ⟨lt_of_le_of_ne (hsorted.1 b (mem_cons_self ..)) ?_, ih hsorted.2 hadj.2⟩
        exact hr a b hadj.1
  have : Trans (fun a b : α => key a < key b) (fun a b => key a < key b) (fun a b => key a < key b) :=
    ⟨fun hab hbc => lt_trans hab hbc⟩
  exact isChain_iff_pairwise.mp hchain

/-- Sorting and comparing neighbours detects exactly the lists with a repetition. -/
theorem allAdjacent_insertionSort_iff_nodup [LinearOrder α] (r : α → α → Bool)
    (hr : ∀ a b, r a b = true ↔ a ≠ b) (l : List α) :
    (l.insertionSort (· ≤ ·)).allAdjacent r = true ↔ l.Nodup := by
  have hsorted := pairwise_insertionSort (· ≤ ·) l
  rw [← (perm_insertionSort (· ≤ ·) l).nodup_iff]
  constructor
  · intro hadj
    have hlt := pairwise_lt_of_allAdjacent id (fun a b h => (hr a b).mp h) hsorted hadj
    exact hlt.imp ne_of_lt
  · intro hnodup
    rw [allAdjacent_iff_isChain]
    exact (hnodup.imp (fun h => (hr _ _).mpr h)).isChain

/-- Where the images under `f` differ, one element has the image of a member. -/
theorem filter_eq_singleton_of_nodup_map {β : Type} [DecidableEq β] {f : α → β} {l : List α}
    {a : α} (hnodup : (l.map f).Nodup) (ha : a ∈ l) : l.filter (fun x => f x = f a) = [a] := by
  induction l with
  | nil => cases ha
  | cons b l ih =>
    rw [map_cons, nodup_cons] at hnodup
    rcases mem_cons.mp ha with rfl | ha
    · have hnone : l.filter (fun x => f x = f a) = [] := by
        rw [filter_eq_nil_iff]
        intro x hx heq
        exact hnodup.1 (mem_map.mpr ⟨x, hx, by simpa using heq⟩)
      rw [filter_cons_of_pos (by simp), hnone]
    · have hne : f b ≠ f a := fun heq => hnodup.1 (heq ▸ mem_map_of_mem ha)
      rw [filter_cons_of_neg (by simpa using hne), ih hnodup.2 ha]

/-- An element of the second of two related lists has a partner in the first. -/
theorem Forall₂.exists_of_mem_right {β : Type} {R : α → β → Prop} {as : List α} {bs : List β}
    (h : Forall₂ R as bs) {b : β} (hb : b ∈ bs) : ∃ a ∈ as, R a b := by
  induction h with
  | nil => cases hb
  | cons hab _ ih =>
    rcases mem_cons.mp hb with rfl | hb
    · exact ⟨_, mem_cons_self .., hab⟩
    · obtain ⟨a, ha, hab⟩ := ih hb
      exact ⟨a, mem_cons_of_mem _ ha, hab⟩

/-- A list is mapped back to the list it came from exactly where each element is. -/
theorem Forall₂.map_eq_iff {β : Type} {R : α → β → Prop} {as : List α} {bs : List β}
    (h : Forall₂ R as bs) {g : β → α} {P : α → Prop} (hg : ∀ a b, R a b → (g b = a ↔ P a)) :
    bs.map g = as ↔ ∀ a ∈ as, P a := by
  induction h with
  | nil => simp
  | cons hab _ ih => simp [hg _ _ hab, ih]

/-- Related lists look alike at every index to functions that agree on related elements. -/
theorem Forall₂.getElem?_map_eq {β γ : Type} {R : α → β → Prop} {as : List α} {bs : List β}
    (h : Forall₂ R as bs) {f : α → γ} {g : β → γ} (hfg : ∀ a b, R a b → f a = g b) (i : Nat) :
    as[i]?.map f = bs[i]?.map g := by
  induction h generalizing i with
  | nil => rfl
  | cons hab _ ih =>
    cases i with
    | zero => simp [hfg _ _ hab]
    | succ i => simpa using ih i

/-- In a list where every element after one that fails `q` fails too, the elements
    up to the first failure are all those that satisfy `q`. -/
theorem takeWhile_eq_filter {q : α → Bool} {l : List α}
    (h : l.Pairwise (fun a b => q b = true → q a = true)) : l.takeWhile q = l.filter q := by
  induction l with
  | nil => rfl
  | cons a l ih =>
    rw [pairwise_cons] at h
    by_cases ha : q a = true
    · rw [takeWhile_cons_of_pos ha, filter_cons_of_pos ha, ih h.2]
    · rw [takeWhile_cons_of_neg ha, filter_cons_of_neg ha]
      symm
      rw [filter_eq_nil_iff]
      intro b hb hqb
      exact ha (h.1 b hb hqb)

/-- The first entry of a key is the entry of that key, where keys are distinct. -/
theorem find?_fst_eq_some_iff {κ ν : Type} [DecidableEq κ] {l : List (κ × ν)} {k : κ} {v : ν}
    (hnodup : (l.map Prod.fst).Nodup) :
    (l.find? fun e => e.1 = k).map Prod.snd = some v ↔ (k, v) ∈ l := by
  induction l with
  | nil => simp
  | cons e l ih =>
    rw [map_cons, nodup_cons] at hnodup
    rw [find?_cons]
    by_cases hk : e.1 = k
    · have habsent : (k, v) ∉ l := fun hmem => hnodup.1 (hk ▸ mem_map_of_mem hmem)
      rw [decide_eq_true hk, mem_cons]
      constructor
      · intro hsome
        exact Or.inl (Prod.ext hk.symm (Option.some.inj hsome).symm)
      · intro hmem
        rcases hmem with rfl | hmem
        · rfl
        · exact absurd hmem habsent
    · rw [decide_eq_false hk, mem_cons, ih hnodup.2]
      constructor
      · exact Or.inr
      · intro hmem
        rcases hmem with rfl | hmem
        · exact absurd rfl hk
        · exact hmem

/-! ## Replacing an element -/

theorem mem_set_self {α : Type} {l : List α} {i : Nat} {old new : α} (h : l[i]? = some old) :
    new ∈ l.set i new := by
  have hlt : i < l.length := (List.getElem?_eq_some_iff.mp h).1
  exact List.mem_of_getElem? (List.getElem?_set_self hlt)

/-- An element stays in the list, or it is the one that was replaced. -/
theorem mem_set_or_eq {α : Type} {l : List α} {i : Nat} {old new a : α} (h : l[i]? = some old)
    (ha : a ∈ l) : a ∈ l.set i new ∨ a = old := by
  obtain ⟨j, hj⟩ := List.mem_iff_getElem?.mp ha
  by_cases heq : j = i
  · subst heq
    rw [h] at hj
    exact Or.inr (Option.some.inj hj).symm
  · refine Or.inl (List.mem_of_getElem? (i := j) ?_)
    rw [List.getElem?_set_ne (Ne.symm heq)]
    exact hj

/-- Replacing an element moves a sum by the difference of the two summands. -/
theorem sum_map_set {α : Type} {l : List α} {i : Nat} {old : α} (h : l[i]? = some old) (f : α → Nat)
    (new : α) : ((l.set i new).map f).sum + f old = (l.map f).sum + f new := by
  induction l generalizing i with
  | nil => cases h
  | cons a l ih =>
    cases i with
    | zero =>
      cases h
      simp only [List.set_cons_zero, List.map_cons, List.sum_cons]
      omega
    | succ i =>
      have hrest := ih (i := i) h
      simp only [List.set_cons_succ, List.map_cons, List.sum_cons]
      omega

/-- Where every summand is at most another one, the sums are equal only if all of them are. -/
theorem sum_map_le_iff {α : Type} {f g : α → Nat} {l : List α} (h : ∀ a ∈ l, f a ≤ g a) :
    (l.map g).sum ≤ (l.map f).sum ↔ ∀ a ∈ l, g a ≤ f a := by
  induction l with
  | nil => simp
  | cons a l ih =>
    have hfirst := h a List.mem_cons_self
    have hrest := fun b hb => h b (List.mem_cons_of_mem a hb)
    have hle : (l.map f).sum ≤ (l.map g).sum := List.sum_le_sum hrest
    rw [List.map_cons, List.map_cons, List.sum_cons, List.sum_cons, List.forall_mem_cons,
      ← ih hrest]
    omega

/-- An element of a joined list is the separator or an element of a part. -/
theorem mem_intercalate_singleton {α : Type} {a separator : α} {parts : List (List α)}
    (h : a ∈ [separator].intercalate parts) : a = separator ∨ ∃ part ∈ parts, a ∈ part := by
  induction parts with
  | nil => cases h
  | cons part parts ih =>
    cases parts with
    | nil => exact .inr ⟨part, mem_cons_self .., by simpa using h⟩
    | cons next parts =>
      rw [intercalate_cons_cons, mem_append, mem_append] at h
      rcases h with (h | h) | h
      · exact .inr ⟨part, mem_cons_self .., h⟩
      · exact .inl (mem_singleton.mp h)
      · rcases ih h with hsep | ⟨other, hother, hmem⟩
        · exact .inl hsep
        · exact .inr ⟨other, mem_cons_of_mem _ hother, hmem⟩

/-- A list with one element at most. -/
theorem eq_of_mem_of_length_le_one {l : List α} {a b : α} (h : l.length ≤ 1) (ha : a ∈ l)
    (hb : b ∈ l) : a = b := by
  match l with
  | [] => cases ha
  | [c] => rw [mem_singleton.mp ha, mem_singleton.mp hb]
  | _ :: _ :: _ => simp at h

/-- What is projected from what a partial function keeps is among what is projected. -/
theorem sublist_map_filterMap {β γ : Type} {f : α → Option β} {g : β → γ} {k : α → γ}
    (h : ∀ a b, f a = some b → g b = k a) (l : List α) :
    ((l.filterMap f).map g).Sublist (l.map k) := by
  induction l with
  | nil => exact .slnil
  | cons a l ih =>
    cases hf : f a with
    | none =>
      rw [filterMap_cons_none hf]
      exact ih.cons _
    | some b =>
      rw [filterMap_cons_some hf, map_cons, map_cons, h a b hf]
      exact ih.cons_cons _

/-- What is inserted behind the first elements does not come among them. -/
theorem take_orderedInsert (r : α → α → Prop) [DecidableRel r] (a : α) (n : Nat) (l : List α) :
    (l.orderedInsert r a).take n = ((l.take n).orderedInsert r a).take n := by
  induction l generalizing n with
  | nil => simp
  | cons b l ih =>
    cases n with
    | zero => simp
    | succ n =>
      rw [take_succ_cons, orderedInsert_cons, orderedInsert_cons]
      split
      · cases n with
        | zero => simp
        | succ n => simp [take_take]
      · rw [take_succ_cons, take_succ_cons, ih]

/-! ## Lowest elements -/

/-- Some elements of a list, with keys not above those of the others. -/
structure Lowest {α κ : Type} [LE κ] (key : α → κ) (chosen l : List α) : Prop where
  subset : chosen ⊆ l
  nodup : chosen.Nodup
  le : ∀ a ∈ chosen, ∀ b ∈ l, b ∉ chosen → key a ≤ key b

section Lowest

variable {κ : Type} [LinearOrder κ] {key : α → κ} {chosen l : List α}

theorem Lowest.of_perm {l' : List α} (h : Lowest key chosen l) (hperm : l.Perm l') :
    Lowest key chosen l' :=
  ⟨fun _ ha => hperm.subset (h.subset ha), h.nodup,
    fun a ha b hb hnot => h.le a ha b (hperm.mem_iff.mpr hb) hnot⟩

/-- The first ones of a sorted list of the lowest elements are the lowest. -/
theorem Lowest.take (h : Lowest key chosen l)
    (hsorted : chosen.Pairwise fun a b => key a ≤ key b) (n : Nat) :
    Lowest key (chosen.take n) l where
  subset := fun _ ha => h.subset (List.mem_of_mem_take ha)
  nodup := h.nodup.sublist (List.take_sublist n chosen)
  le := by
    intro a ha b hb hnot
    by_cases hmem : b ∈ chosen
    · rw [← List.take_append_drop n chosen, List.mem_append] at hmem
      rw [← List.take_append_drop n chosen, List.pairwise_append] at hsorted
      exact hsorted.2.2 a ha b (hmem.resolve_left hnot)
    · exact h.le a (List.mem_of_mem_take ha) b hb hmem

/-- All elements are the lowest. -/
theorem Lowest.refl (h : l.Nodup) : Lowest key l l :=
  ⟨fun _ ha => ha, h, fun _ _ _ hb hnot => absurd hb hnot⟩

/-- The first ones of a sorted list are its lowest elements. -/
theorem lowest_take_insertionSort (hnodup : l.Nodup) (n : Nat) :
    Lowest key ((l.insertionSort fun a b => key a ≤ key b).take n) l := by
  have hperm := perm_insertionSort (fun a b => key a ≤ key b) l
  have hsorted : (l.insertionSort fun a b => key a ≤ key b).Pairwise fun a b => key a ≤ key b := by
    have : Std.Total (fun a b : α => key a ≤ key b) := ⟨fun a b => le_total (key a) (key b)⟩
    have : IsTrans α (fun a b : α => key a ≤ key b) := ⟨fun _ _ _ => le_trans⟩
    exact pairwise_insertionSort (fun a b => key a ≤ key b) l
  have hall : Lowest key (l.insertionSort fun a b => key a ≤ key b) l :=
    (Lowest.refl (hperm.nodup_iff.mpr hnodup)).of_perm hperm
  exact hall.take hsorted n

/-- Two choices of the same elements have one length. -/
theorem Lowest.length_eq {other : List α} (h : Lowest key chosen l) (h' : Lowest key other l)
    (hsame : ∀ a ∈ l, a ∈ chosen ↔ a ∈ other) : chosen.length = other.length := by
  have hperm : chosen.Perm other := by
    rw [List.perm_ext_iff_of_nodup h.nodup h'.nodup]
    intro a
    constructor
    · intro ha
      exact (hsame a (h.subset ha)).mp ha
    · intro ha
      exact (hsame a (h'.subset ha)).mpr ha
  exact hperm.length_eq

end Lowest

end List
