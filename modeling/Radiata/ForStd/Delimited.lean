import Radiata.ForStd.Bytes

/-!
# Delimited pairs

A list of pairs of texts is written with a separator after each first and each second component.
The first components are free of both separators; where the second ones are not, a second component
can hold the text of further pairs, and different lists have the same text.

## Key results

- `Regroups.delimited_eq`: merging neighbours keeps the text
- `exists_regroups`: lists of one text are groupings of one list of pairs
-/

namespace Bytes

/-- The text of a list of pairs, with `mid` after each key and `stop` after each value. -/
def delimited (mid stop : UInt8) (pairs : List (Bytes × Bytes)) : Bytes :=
  pairs.flatMap fun pair => pair.1 ++ mid :: (pair.2 ++ [stop])

/-- What a value holds where further pairs are merged into it. -/
def swallowed (mid stop : UInt8) (pairs : List (Bytes × Bytes)) : Bytes :=
  pairs.flatMap fun pair => stop :: (pair.1 ++ mid :: pair.2)

/-- `groups` has one pair for each group of neighbours of `pairs`: the first one of the group, with
    the others in its value. -/
inductive Regroups (mid stop : UInt8) : List (Bytes × Bytes) → List (Bytes × Bytes) → Prop
  | nil : Regroups mid stop [] []
  | group {pairs groups} (key value : Bytes) (others : List (Bytes × Bytes))
      (rest : Regroups mid stop pairs groups) :
      Regroups mid stop ((key, value) :: (others ++ pairs))
        ((key, value ++ swallowed mid stop others) :: groups)

variable {mid stop : UInt8}

theorem delimited_cons (key value : Bytes) (pairs : List (Bytes × Bytes)) :
    delimited mid stop ((key, value) :: pairs) =
      key ++ mid :: (value ++ stop :: delimited mid stop pairs) := by
  simp [delimited]

theorem swallowed_append_stop (pairs : List (Bytes × Bytes)) :
    swallowed mid stop pairs ++ [stop] = stop :: delimited mid stop pairs := by
  induction pairs with
  | nil => rfl
  | cons pair pairs ih =>
    simp only [swallowed, delimited, List.flatMap_cons] at ih ⊢
    rw [List.append_assoc, ih]
    simp

variable {pairs groups : List (Bytes × Bytes)}

theorem Regroups.delimited_eq (h : Regroups mid stop pairs groups) :
    delimited mid stop pairs = delimited mid stop groups := by
  induction h with
  | nil => rfl
  | @group pairs groups key value others rest ih =>
    have hothers : swallowed mid stop others ++ [stop] = stop :: delimited mid stop others :=
      swallowed_append_stop others
    simp only [delimited, List.flatMap_cons, List.flatMap_append] at ih hothers ⊢
    rw [List.append_assoc value, hothers, ih]
    simp

/-- The first pair of a grouping can take one more pair in front. -/
theorem Regroups.prepend {key value key' value' : Bytes}
    (h : Regroups mid stop pairs ((key', value') :: groups)) :
    Regroups mid stop ((key, value) :: pairs)
      ((key, value ++ stop :: (key' ++ mid :: value')) :: groups) := by
  cases h with
  | group _ first others rest =>
    have hgroup := Regroups.group key value ((key', first) :: others) rest
    simpa [swallowed] using hgroup

/-- A pair in front that is a group of its own. -/
theorem Regroups.keep (h : Regroups mid stop pairs groups) (key value : Bytes) :
    Regroups mid stop ((key, value) :: pairs) ((key, value) :: groups) := by
  have hgroup := Regroups.group key value [] h
  simpa [swallowed] using hgroup

/-- Only the empty list has no groups. -/
theorem Regroups.nil_iff (h : Regroups mid stop pairs groups) :
    pairs = [] ↔ groups = [] := by
  cases h <;> simp

/-- The keys of a list of pairs are free of the separators. -/
def KeysFree (mid stop : UInt8) (pairs : List (Bytes × Bytes)) : Prop :=
  ∀ pair ∈ pairs, mid ∉ pair.1 ∧ stop ∉ pair.1

/-- A text that holds a key in front of its end holds the whole key. -/
private theorem eq_append_of_key {key rest text rest' : Bytes} (hmid : mid ≠ stop)
    (hkey : stop ∉ key) (h : key ++ mid :: rest = text ++ stop :: rest') :
    ∃ inner, text = key ++ mid :: inner ∧ rest = inner ++ stop :: rest' := by
  rw [List.append_eq_append_iff] at h
  cases h with
  | inl h =>
    obtain ⟨inner, htext, hrest⟩ := h
    cases inner with
    | nil =>
      rw [List.nil_append, List.cons.injEq] at hrest
      exact absurd hrest.1 hmid
    | cons byte inner =>
      rw [List.cons_append, List.cons.injEq] at hrest
      exact ⟨inner, by rw [htext, hrest.1], hrest.2⟩
  | inr h =>
    obtain ⟨inner, hwhole, hrest⟩ := h
    cases inner with
    | nil =>
      rw [List.nil_append, List.cons.injEq] at hrest
      exact absurd hrest.1.symm hmid
    | cons byte inner =>
      -- The end would be a letter of the key.
      rw [List.cons_append, List.cons.injEq] at hrest
      refine absurd ?_ hkey
      rw [hwhole, hrest.1]
      simp

/-- The first value of one list holds the first value of the other one, and the rest of the text is
    that of two shorter lists. -/
private theorem shorter_of_delimited_eq {x : Bytes} {pairs' : List (Bytes × Bytes)}
    (hmid : mid ≠ stop) (hfree : KeysFree mid stop pairs)
    (h : stop :: delimited mid stop pairs = x ++ stop :: delimited mid stop pairs') :
    x = [] ∧ delimited mid stop pairs = delimited mid stop pairs' ∨
    ∃ key value inner rest, pairs = (key, value) :: rest ∧ x = stop :: (key ++ mid :: inner) ∧
      delimited mid stop ((key, value) :: rest) = delimited mid stop ((key, inner) :: pairs') := by
  cases x with
  | nil =>
    rw [List.nil_append, List.cons.injEq] at h
    exact Or.inl ⟨rfl, h.2⟩
  | cons byte x =>
    right
    rw [List.cons_append, List.cons.injEq] at h
    obtain ⟨rfl, h⟩ := h
    cases pairs with
    | nil => simp [delimited] at h
    | cons pair rest =>
      obtain ⟨key, value⟩ := pair
      rw [delimited_cons] at h
      obtain ⟨inner, hx, hrest⟩ := eq_append_of_key hmid (hfree _ (List.mem_cons_self ..)).2 h
      refine ⟨key, value, inner, rest, rfl, by rw [hx], ?_⟩
      rw [delimited_cons, delimited_cons, hrest]

theorem KeysFree.tail {pair : Bytes × Bytes} (h : KeysFree mid stop (pair :: pairs)) :
    KeysFree mid stop pairs :=
  fun other hother => h other (List.mem_cons_of_mem _ hother)

theorem KeysFree.cons {key value : Bytes} (hmid : mid ∉ key) (hstop : stop ∉ key)
    (h : KeysFree mid stop pairs) :
    KeysFree mid stop ((key, value) :: pairs) := by
  intro pair hpair
  cases List.mem_cons.mp hpair with
  | inl heq => exact heq ▸ ⟨hmid, hstop⟩
  | inr hpair => exact h pair hpair

/-- The common list where the first value of one list goes on in the other one. -/
private theorem exists_regroups_of_append {key value x : Bytes} {rest rest' : List (Bytes × Bytes)}
    (hmid : mid ≠ stop) (hfree : KeysFree mid stop rest) (hfree' : KeysFree mid stop rest')
    (h : stop :: delimited mid stop rest = x ++ stop :: delimited mid stop rest')
    (ih : ∀ groups groups', groups.length + groups'.length < rest.length + rest'.length + 2 →
      KeysFree mid stop groups → KeysFree mid stop groups' →
      delimited mid stop groups = delimited mid stop groups' →
      ∃ pairs, Regroups mid stop pairs groups ∧ Regroups mid stop pairs groups') :
    ∃ pairs, Regroups mid stop pairs ((key, value) :: rest) ∧
      Regroups mid stop pairs ((key, value ++ x) :: rest') := by
  cases shorter_of_delimited_eq hmid hfree h with
  | inl hsame =>
    obtain ⟨rfl, hrest⟩ := hsame
    obtain ⟨pairs, hpairs, hpairs'⟩ := ih rest rest' (by omega) hfree hfree' hrest
    rw [List.append_nil]
    exact ⟨(key, value) :: pairs, hpairs.keep key value, hpairs'.keep key value⟩
  | inr hlonger =>
    -- The value has swallowed the next pair of the other list.
    obtain ⟨next, nextValue, inner, tail, rfl, rfl, hrest⟩ := hlonger
    have hnext := hfree _ (List.mem_cons_self ..)
    obtain ⟨pairs, hpairs, hpairs'⟩ := ih _ ((next, inner) :: rest')
      (by simp only [List.length_cons]; omega) hfree (hfree'.cons hnext.1 hnext.2) hrest
    exact ⟨(key, value) :: pairs, hpairs.keep key value, hpairs'.prepend⟩

/-- Lists of the same text are groupings of one list. The induction is on the number of pairs. -/
theorem exists_regroups {groups' : List (Bytes × Bytes)} (hmid : mid ≠ stop)
    (hfree : KeysFree mid stop groups) (hfree' : KeysFree mid stop groups')
    (h : delimited mid stop groups = delimited mid stop groups') :
    ∃ pairs, Regroups mid stop pairs groups ∧ Regroups mid stop pairs groups' := by
  induction hn : groups.length + groups'.length using Nat.strong_induction_on
    generalizing groups groups' with
  | _ n ih =>
    cases groups with
    | nil =>
      cases groups' with
      | nil => exact ⟨[], .nil, .nil⟩
      | cons pair rest => simp [delimited] at h
    | cons pair rest =>
      cases groups' with
      | nil => simp [delimited] at h
      | cons pair' rest' =>
        obtain ⟨key, value⟩ := pair
        obtain ⟨key', value'⟩ := pair'
        rw [delimited_cons, delimited_cons] at h
        obtain ⟨hkey, hvalues⟩ := append_cons_inj_of_notMem (hfree _ (List.mem_cons_self ..)).1
          (hfree' _ (List.mem_cons_self ..)).1 h
        obtain rfl : key = key' := hkey
        rw [List.length_cons, List.length_cons] at hn
        rw [List.append_eq_append_iff] at hvalues
        cases hvalues with
        | inl hlonger =>
          obtain ⟨x, hvalue, hrest⟩ := hlonger
          rw [hvalue]
          exact exists_regroups_of_append hmid hfree.tail hfree'.tail hrest
            fun first second hless hfirst hsecond heq =>
              ih _ (by omega) hfirst hsecond heq rfl
        | inr hlonger =>
          obtain ⟨x, hvalue, hrest⟩ := hlonger
          rw [hvalue]
          obtain ⟨pairs, hpairs', hpairs⟩ := exists_regroups_of_append hmid hfree'.tail hfree.tail
            hrest fun first second hless hfirst hsecond heq =>
              ih _ (by omega) hfirst hsecond heq rfl
          exact ⟨pairs, hpairs, hpairs'⟩

end Bytes
