import Mathlib.Data.List.Lex
import Mathlib.Data.List.Nodup
import Mathlib.Order.Lattice
import Mathlib.Order.Monotone.Basic

/-!
# Ordered finite maps

`SortedMap κ ν` is a finite map kept as the list of its entries in strictly
ascending key order, the order in which an ordered container (a B-tree map, an
ordered table of a database) iterates. The `sorted` field carries the order, so
two maps with the same lookups are equal and an iteration is a property of the
map alone.

## Key results

- `SortedMap.ext_get`: a map is determined by its lookups
- `SortedMap.get_insert` / `SortedMap.get_erase`: lookups after an update
- `SortedMap.insert_perm` / `SortedMap.perm_of_get`: the entries after an update
- `SortedMap.map_insert` / `SortedMap.map_erase`: updates commute with a
  strictly monotone renaming of the keys
-/

/-- A finite map from `κ` to `ν`, as its entries in ascending key order. -/
structure SortedMap (κ ν : Type) [LinearOrder κ] where
  toList : List (κ × ν)
  sorted : toList.Pairwise (fun a b => a.1 < b.1)

namespace SortedMap

variable {κ ν : Type} [LinearOrder κ]

instance [DecidableEq ν] : DecidableEq (SortedMap κ ν) := fun a b =>
  decidable_of_iff (a.toList = b.toList) <| by
    constructor
    · intro h
      cases a; cases b; simp_all
    · intro h; rw [h]

/-- The map without entries. -/
def empty : SortedMap κ ν := ⟨[], List.Pairwise.nil⟩

instance : Inhabited (SortedMap κ ν) := ⟨empty⟩

/-- The value stored under `k`. -/
def get (m : SortedMap κ ν) (k : κ) : Option ν :=
  (m.toList.find? (fun e => e.1 = k)).map Prod.snd

/-- Whether a value is stored under `k`. -/
def contains (m : SortedMap κ ν) (k : κ) : Bool := (m.get k).isSome

/-- Insertion into a sorted entry list, replacing an entry of the same key. -/
def insertList (k : κ) (v : ν) : List (κ × ν) → List (κ × ν)
  | [] => [(k, v)]
  | e :: rest =>
    if k < e.1 then (k, v) :: e :: rest
    else if e.1 = k then (k, v) :: rest
    else e :: insertList k v rest

private theorem mem_insertList (k : κ) (v : ν) (l : List (κ × ν))
    (hs : l.Pairwise (fun a b => a.1 < b.1)) (x : κ × ν) :
    x ∈ insertList k v l ↔ x = (k, v) ∨ (x ∈ l ∧ x.1 ≠ k) := by
  induction l with
  | nil => simp [insertList]
  | cons e rest ih =>
    rw [List.pairwise_cons] at hs
    have hrest : ∀ y ∈ rest, e.1 < y.1 := hs.1
    simp only [insertList]
    split
    · rename_i hlt
      -- every remaining key is above `k`, so none of them is `k`
      have hne : ∀ y ∈ e :: rest, y.1 ≠ k := by
        intro y hy
        rcases List.mem_cons.mp hy with rfl | hy
        · exact ne_of_gt hlt
        · exact ne_of_gt (lt_trans hlt (hrest y hy))
      constructor
      · intro hx
        rcases List.mem_cons.mp hx with h | h
        · exact Or.inl h
        · exact Or.inr ⟨h, hne x h⟩
      · rintro (h | ⟨h, _⟩)
        · exact List.mem_cons.mpr (Or.inl h)
        · exact List.mem_cons.mpr (Or.inr h)
    · split
      · rename_i heq
        have hne : ∀ y ∈ rest, y.1 ≠ k := fun y hy => ne_of_gt (heq ▸ hrest y hy)
        simp only [List.mem_cons]
        constructor
        · rintro (h | h)
          · exact Or.inl h
          · exact Or.inr ⟨Or.inr h, hne x h⟩
        · rintro (h | ⟨rfl | h, hk⟩)
          · exact Or.inl h
          · exact absurd heq hk
          · exact Or.inr h
      · rename_i hne
        rw [List.mem_cons, ih hs.2, List.mem_cons]
        constructor
        · rintro (rfl | h | ⟨h, hk⟩)
          · exact Or.inr ⟨Or.inl rfl, hne⟩
          · exact Or.inl h
          · exact Or.inr ⟨Or.inr h, hk⟩
        · rintro (h | ⟨h | h, hk⟩)
          · exact Or.inr (Or.inl h)
          · exact Or.inl h
          · exact Or.inr (Or.inr ⟨h, hk⟩)

private theorem insertList_sorted (k : κ) (v : ν) (l : List (κ × ν))
    (hs : l.Pairwise (fun a b => a.1 < b.1)) :
    (insertList k v l).Pairwise (fun a b => a.1 < b.1) := by
  induction l with
  | nil => simp [insertList]
  | cons e rest ih =>
    have hs' := hs
    rw [List.pairwise_cons] at hs
    simp only [insertList]
    split
    · rename_i hlt
      refine List.pairwise_cons.mpr ⟨?_, hs'⟩
      intro y hy
      rcases List.mem_cons.mp hy with rfl | hy
      · exact hlt
      · exact lt_trans hlt (hs.1 y hy)
    · split
      · rename_i heq
        exact List.pairwise_cons.mpr ⟨fun y hy => heq ▸ hs.1 y hy, hs.2⟩
      · rename_i hnlt hne
        refine List.pairwise_cons.mpr ⟨?_, ih hs.2⟩
        intro y hy
        rcases (mem_insertList k v rest hs.2 y).mp hy with rfl | ⟨hy, _⟩
        · exact lt_of_le_of_ne (not_lt.mp hnlt) hne
        · exact hs.1 y hy

/-- Store `v` under `k`, replacing any value stored there. -/
def insert (m : SortedMap κ ν) (k : κ) (v : ν) : SortedMap κ ν :=
  ⟨insertList k v m.toList, insertList_sorted k v m.toList m.sorted⟩

/-- Forget the value stored under `k`. -/
def erase (m : SortedMap κ ν) (k : κ) : SortedMap κ ν :=
  ⟨m.toList.filter (fun e => e.1 ≠ k), m.sorted.filter _⟩

/-- The entries with a key at or above `lo`, in ascending order. -/
def entriesFrom (m : SortedMap κ ν) (lo : κ) : List (κ × ν) :=
  m.toList.filter (fun e => lo ≤ e.1)

/-! ## Lookups -/

theorem nodup_toList (m : SortedMap κ ν) : m.toList.Nodup := by
  refine m.sorted.imp ?_
  intro a b h hab
  rw [hab] at h
  exact lt_irrefl _ h

theorem nodup_keys (m : SortedMap κ ν) : (m.toList.map Prod.fst).Nodup := by
  rw [List.Nodup, List.pairwise_map]
  exact m.sorted.imp ne_of_lt

theorem eq_of_mem_of_fst_eq (m : SortedMap κ ν) {a b : κ × ν}
    (ha : a ∈ m.toList) (hb : b ∈ m.toList) (h : a.1 = b.1) : a = b :=
  List.inj_on_of_nodup_map m.nodup_keys ha hb h

/-- An entry is in the iteration exactly when the lookup of its key finds it. -/
theorem mem_toList_iff (m : SortedMap κ ν) (k : κ) (v : ν) :
    (k, v) ∈ m.toList ↔ m.get k = some v := by
  constructor
  · intro hmem
    have hsome : (m.toList.find? (fun e => e.1 = k)).isSome := by
      rw [List.find?_isSome]; exact ⟨(k, v), hmem, by simp⟩
    obtain ⟨e, he⟩ := Option.isSome_iff_exists.mp hsome
    have hek : e.1 = k := by simpa using List.find?_some he
    have heq : e = (k, v) := m.eq_of_mem_of_fst_eq (List.mem_of_find?_eq_some he) hmem hek
    simp [get, he, heq]
  · intro hget
    simp only [get, Option.map_eq_some_iff] at hget
    obtain ⟨e, he, rfl⟩ := hget
    have hek : e.1 = k := by simpa using List.find?_some he
    have hmem := List.mem_of_find?_eq_some he
    rw [← hek]
    exact hmem

theorem mem_keys (m : SortedMap κ ν) (k : κ) :
    k ∈ m.toList.map Prod.fst ↔ (m.get k).isSome = true := by
  rw [List.mem_map, Option.isSome_iff_exists]
  constructor
  · rintro ⟨⟨k', v⟩, hmem, rfl⟩
    exact ⟨v, (mem_toList_iff m _ _).mp hmem⟩
  · rintro ⟨v, hget⟩
    exact ⟨(k, v), (mem_toList_iff m _ _).mpr hget, rfl⟩

theorem get_eq_none_iff (m : SortedMap κ ν) (k : κ) :
    m.get k = none ↔ ∀ e ∈ m.toList, e.1 ≠ k := by
  simp [get]

theorem contains_iff (m : SortedMap κ ν) (k : κ) :
    m.contains k = true ↔ ∃ v, m.get k = some v := by
  simp [contains, Option.isSome_iff_exists]

/-- A map is determined by its lookups. -/
theorem ext_get {m m' : SortedMap κ ν} (h : ∀ k, m.get k = m'.get k) : m = m' := by
  have hperm : m.toList.Perm m'.toList := by
    rw [List.perm_ext_iff_of_nodup m.nodup_toList m'.nodup_toList]
    intro ⟨k, v⟩
    rw [mem_toList_iff, mem_toList_iff, h]
  have heq : m.toList = m'.toList := by
    refine hperm.eq_of_pairwise ?_ m.sorted m'.sorted
    intro a b _ _ hab hba
    exact absurd hab (lt_asymm hba)
  cases m; cases m'
  simp_all

@[simp] theorem get_empty (k : κ) : (empty : SortedMap κ ν).get k = none := rfl

theorem get_insert (m : SortedMap κ ν) (k k' : κ) (v : ν) :
    (m.insert k v).get k' = if k' = k then some v else m.get k' := by
  apply Option.ext
  intro w
  rw [← mem_toList_iff]
  simp only [insert, mem_insertList k v m.toList m.sorted, Prod.mk.injEq]
  split
  · rename_i heq
    subst heq
    simp [eq_comm]
  · rename_i hne
    simp [hne, mem_toList_iff]

theorem get_erase (m : SortedMap κ ν) (k k' : κ) :
    (m.erase k).get k' = if k' = k then none else m.get k' := by
  apply Option.ext
  intro w
  rw [← mem_toList_iff]
  simp only [erase, List.mem_filter, mem_toList_iff, decide_eq_true_eq]
  split
  · rename_i heq
    simp [heq]
  · rename_i hne
    simp [hne]

@[simp] theorem get_insert_self (m : SortedMap κ ν) (k : κ) (v : ν) :
    (m.insert k v).get k = some v := by
  rw [get_insert, if_pos rfl]

@[simp] theorem get_erase_self (m : SortedMap κ ν) (k : κ) : (m.erase k).get k = none := by
  rw [get_erase, if_pos rfl]

variable {k : κ}

theorem get_insert_ne (m : SortedMap κ ν) {k' : κ} (v : ν) (h : k' ≠ k) :
    (m.insert k v).get k' = m.get k' := by
  rw [get_insert, if_neg h]

theorem get_erase_ne (m : SortedMap κ ν) {k' : κ} (h : k' ≠ k) :
    (m.erase k).get k' = m.get k' := by
  rw [get_erase, if_neg h]

/-! ## Entries after an update -/

theorem insert_perm (m : SortedMap κ ν) (k : κ) (v : ν) :
    (m.insert k v).toList.Perm ((k, v) :: (m.erase k).toList) := by
  have hnot : (k, v) ∉ (m.erase k).toList := by
    rw [mem_toList_iff, get_erase_self]; simp
  rw [List.perm_ext_iff_of_nodup (nodup_toList _)
    (List.nodup_cons.mpr ⟨hnot, nodup_toList _⟩)]
  intro x
  simp only [insert, mem_insertList k v m.toList m.sorted, erase, List.mem_cons,
    List.mem_filter, decide_eq_true_eq]

theorem perm_of_get (m : SortedMap κ ν) {v : ν} (h : m.get k = some v) :
    m.toList.Perm ((k, v) :: (m.erase k).toList) := by
  have hnot : (k, v) ∉ (m.erase k).toList := by
    rw [mem_toList_iff, get_erase_self]; simp
  rw [List.perm_ext_iff_of_nodup (nodup_toList _)
    (List.nodup_cons.mpr ⟨hnot, nodup_toList _⟩)]
  intro ⟨k', v'⟩
  rw [List.mem_cons, mem_toList_iff, mem_toList_iff, get_erase, Prod.mk.injEq]
  split
  · rename_i heq
    simp [heq, h, eq_comm]
  · rename_i hne
    simp [hne]

theorem erase_of_get_none (m : SortedMap κ ν) (h : m.get k = none) : m.erase k = m := by
  apply ext_get
  intro k'
  rw [get_erase]
  split
  · rename_i heq
    rw [heq, h]
  · rfl

/-- A later insertion under the same key replaces an earlier one. -/
theorem insert_insert (m : SortedMap κ ν) (k : κ) (v w : ν) :
    (m.insert k v).insert k w = m.insert k w := by
  apply ext_get
  intro k'
  rw [get_insert, get_insert, get_insert]
  split <;> rfl

/-- Lookups after a row of insertions whose values depend on the keys alone. -/
theorem erase_insert (m : SortedMap κ ν) (k : κ) (v : ν) : (m.insert k v).erase k = m.erase k := by
  apply ext_get
  intro k'
  by_cases h : k' = k
  · simp [h]
  · rw [get_erase_ne _ h, get_erase_ne _ h, get_insert_ne _ v h]

theorem get_foldl_insert (f : κ → ν) (keys : List κ) (m : SortedMap κ ν) (k : κ) :
    (keys.foldl (fun m k => m.insert k (f k)) m).get k = if k ∈ keys then some (f k) else m.get k := by
  induction keys generalizing m with
  | nil => simp
  | cons key keys ih =>
    rw [List.foldl_cons, ih, get_insert]
    by_cases hmem : k ∈ keys
    · rw [if_pos hmem, if_pos (List.mem_cons_of_mem key hmem)]
    · rw [if_neg hmem]
      by_cases heq : k = key
      · rw [if_pos heq, if_pos (by simp [heq]), heq]
      · rw [if_neg heq, if_neg (by simp [heq, hmem])]

/-- What a row of insertions stores under a key is one of the values, or was there. -/
theorem mem_of_get_foldl_insert {key : ν → κ} {values : List ν} {m : SortedMap κ ν} {v : ν}
    (h : (values.foldl (fun m v => m.insert (key v) v) m).get k = some v) :
    (v ∈ values ∧ key v = k) ∨ m.get k = some v := by
  induction values generalizing m with
  | nil => exact Or.inr h
  | cons value values ih =>
    rw [List.foldl_cons] at h
    rcases ih h with ⟨hmem, hkey⟩ | hget
    · exact Or.inl ⟨List.mem_cons_of_mem value hmem, hkey⟩
    · rw [get_insert] at hget
      split at hget
      · rename_i heq
        cases hget
        exact Or.inl ⟨List.mem_cons_self .., heq.symm⟩
      · exact Or.inr hget

theorem isSome_get_foldl_insert {key : ν → κ} {values : List ν} {m : SortedMap κ ν}
    (h : (∃ v ∈ values, key v = k) ∨ (m.get k).isSome = true) :
    ((values.foldl (fun m v => m.insert (key v) v) m).get k).isSome = true := by
  induction values generalizing m with
  | nil =>
    rcases h with ⟨v, hv, -⟩ | h
    · cases hv
    · exact h
  | cons value values ih =>
    rw [List.foldl_cons]
    refine ih ?_
    rw [get_insert]
    rcases h with ⟨v, hv, rfl⟩ | h
    · rcases List.mem_cons.mp hv with rfl | hv
      · exact Or.inr (by rw [if_pos rfl]; rfl)
      · exact Or.inl ⟨v, hv, rfl⟩
    · refine Or.inr ?_
      split
      · rfl
      · exact h

/-- An entry above all others comes last. -/
theorem toList_insert_of_lt (m : SortedMap κ ν) (v : ν) (h : ∀ e ∈ m.toList, e.1 < k) :
    (m.insert k v).toList = m.toList ++ [(k, v)] := by
  show insertList k v m.toList = _
  generalize m.toList = l at h
  induction l with
  | nil => rfl
  | cons e l ih =>
    have he : e.1 < k := h e (List.mem_cons_self ..)
    rw [insertList, if_neg (not_lt.mpr (le_of_lt he)), if_neg (ne_of_lt he),
      ih (fun f hf => h f (List.mem_cons_of_mem e hf)), List.cons_append]

/-! ## Counting keys -/

/-- The number of entries whose key satisfies `p`. -/
def countKeys (m : SortedMap κ ν) (p : κ → Bool) : Nat := m.toList.countP (fun e => p e.1)

@[simp] theorem countKeys_empty (p : κ → Bool) : (empty : SortedMap κ ν).countKeys p = 0 := rfl

theorem countKeys_erase_of_some (m : SortedMap κ ν) {v : ν} (p : κ → Bool) (h : m.get k = some v) :
    (m.erase k).countKeys p + (if p k then 1 else 0) = m.countKeys p := by
  rw [countKeys, countKeys, (m.perm_of_get h).countP_eq, List.countP_cons]

theorem countKeys_insert_of_none (m : SortedMap κ ν) (v : ν) (p : κ → Bool) (h : m.get k = none) :
    (m.insert k v).countKeys p = m.countKeys p + (if p k then 1 else 0) := by
  rw [countKeys, countKeys, (m.insert_perm k v).countP_eq, List.countP_cons, m.erase_of_get_none h]

theorem countKeys_insert_of_some (m : SortedMap κ ν) {w : ν} (v : ν) (p : κ → Bool)
    (h : m.get k = some w) : (m.insert k v).countKeys p = m.countKeys p := by
  rw [countKeys, (m.insert_perm k v).countP_eq, List.countP_cons,
    ← m.countKeys_erase_of_some p h, countKeys]

theorem countKeys_eq_zero_iff (m : SortedMap κ ν) (p : κ → Bool) :
    m.countKeys p = 0 ↔ ∀ k v, m.get k = some v → p k = false := by
  rw [countKeys, List.countP_eq_zero]
  constructor
  · intro h k v hget
    simpa using h (k, v) ((m.mem_toList_iff k v).mpr hget)
  · rintro h ⟨k, v⟩ hmem
    simpa using h k v ((m.mem_toList_iff k v).mp hmem)

/-! ## Size -/

/-- The number of entries. -/
def size (m : SortedMap κ ν) : Nat := m.toList.length

@[simp] theorem size_empty : (empty : SortedMap κ ν).size = 0 := rfl

theorem size_erase_of_some (m : SortedMap κ ν) {v : ν} (h : m.get k = some v) :
    (m.erase k).size + 1 = m.size := by
  rw [size, size, (m.perm_of_get h).length_eq, List.length_cons]

theorem size_erase_le (m : SortedMap κ ν) (k : κ) : (m.erase k).size ≤ m.size :=
  List.length_filter_le ..

theorem size_insert_of_none (m : SortedMap κ ν) (v : ν) (h : m.get k = none) :
    (m.insert k v).size = m.size + 1 := by
  rw [size, (m.insert_perm k v).length_eq, List.length_cons, m.erase_of_get_none h, size]

theorem size_insert_of_some (m : SortedMap κ ν) {w : ν} (v : ν) (h : m.get k = some w) :
    (m.insert k v).size = m.size := by
  rw [size, (m.insert_perm k v).length_eq, List.length_cons, ← m.size_erase_of_some h, size]

/-- Lookups after a row of erasures. -/
theorem get_foldl_erase (keys : List κ) (m : SortedMap κ ν) (k : κ) :
    (keys.foldl erase m).get k = if k ∈ keys then none else m.get k := by
  induction keys generalizing m with
  | nil => simp
  | cons key keys ih =>
    rw [List.foldl_cons, ih, get_erase]
    by_cases hmem : k ∈ keys
    · simp [hmem]
    · by_cases heq : k = key
      · simp [heq]
      · simp [heq, hmem]

theorem size_foldl_erase_le (keys : List κ) (m : SortedMap κ ν) :
    (keys.foldl erase m).size ≤ m.size := by
  induction keys generalizing m with
  | nil => exact Nat.le_refl _
  | cons key keys ih => exact (ih _).trans (size_erase_le m key)

/-! ## Renaming keys -/

variable {κ' ν' : Type} [LinearOrder κ']

/-- Rename the keys by a strictly monotone function and the values by any function. -/
def map (m : SortedMap κ ν) (f : κ → κ') (hf : StrictMono f) (g : ν → ν') : SortedMap κ' ν' :=
  ⟨m.toList.map (fun e => (f e.1, g e.2)), by
    rw [List.pairwise_map]
    exact m.sorted.imp (fun h => hf h)⟩

variable {f : κ → κ'}

theorem get_map (m : SortedMap κ ν) (hf : StrictMono f) (g : ν → ν') (k : κ) :
    (m.map f hf g).get (f k) = (m.get k).map g := by
  apply Option.ext
  intro w
  rw [← mem_toList_iff]
  simp only [map, List.mem_map, Prod.mk.injEq, Prod.exists, mem_toList_iff, Option.map_eq_some_iff]
  constructor
  · rintro ⟨k', v, hv, hk, rfl⟩
    rw [← hf.injective hk]
    exact ⟨v, hv, rfl⟩
  · rintro ⟨v, hv, rfl⟩
    exact ⟨k, v, hv, rfl, rfl⟩

theorem get_map_of_notMem_range (m : SortedMap κ ν) (hf : StrictMono f) (g : ν → ν') {k' : κ'}
    (hk : ∀ k, f k ≠ k') : (m.map f hf g).get k' = none := by
  rw [get_eq_none_iff]
  intro e he
  simp only [map, List.mem_map] at he
  obtain ⟨e', _, rfl⟩ := he
  exact hk e'.1

theorem map_insert (m : SortedMap κ ν) (hf : StrictMono f) (g : ν → ν') (k : κ) (v : ν) :
    (m.insert k v).map f hf g = (m.map f hf g).insert (f k) (g v) := by
  apply ext_get
  intro k'
  by_cases h : ∃ k₀, f k₀ = k'
  · obtain ⟨k₀, rfl⟩ := h
    rw [get_map, get_insert, get_insert, get_map]
    by_cases hk : k₀ = k
    · simp [hk]
    · simp [hk, hf.injective.ne hk]
  · have hne : ∀ k₀, f k₀ ≠ k' := fun k₀ hk₀ => h ⟨k₀, hk₀⟩
    rw [get_map_of_notMem_range _ hf g hne, get_insert, if_neg (Ne.symm (hne k)),
      get_map_of_notMem_range _ hf g hne]

theorem map_erase (m : SortedMap κ ν) (hf : StrictMono f) (g : ν → ν') (k : κ) :
    (m.erase k).map f hf g = (m.map f hf g).erase (f k) := by
  apply ext_get
  intro k'
  by_cases h : ∃ k₀, f k₀ = k'
  · obtain ⟨k₀, rfl⟩ := h
    rw [get_map, get_erase, get_erase, get_map]
    by_cases hk : k₀ = k
    · simp [hk]
    · simp [hk, hf.injective.ne hk]
  · have hne : ∀ k₀, f k₀ ≠ k' := fun k₀ hk₀ => h ⟨k₀, hk₀⟩
    rw [get_map_of_notMem_range _ hf g hne, get_erase, if_neg (Ne.symm (hne k)),
      get_map_of_notMem_range _ hf g hne]

@[simp] theorem map_empty (hf : StrictMono f) (g : ν → ν') :
    (empty : SortedMap κ ν).map f hf g = empty := rfl

end SortedMap
