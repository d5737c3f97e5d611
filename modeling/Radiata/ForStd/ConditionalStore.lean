import Mathlib.Data.List.AList
import Mathlib.Data.List.Perm.Subperm

/-!
# Conditional stores

A store keeps values under keys and counts its revisions. A transaction names the revision it
was prepared at and a list of operations on distinct keys; each operation expects a value, or
none, under its key. The store accepts a transaction whose revision is the current one and
whose expectations hold, and then applies all of its operations.

## Key results

- `Store.lookup_apply`: what an accepted transaction leaves under a key
- `Store.mem_scan`, `Store.scan_apply`: what a scan returns
-/

/-- An operation on the value under a key; `none` expects that there is no value. -/
inductive StoreAction (κ ν : Type) where
  | check (key : κ) (expected : Option ν)
  | put (key : κ) (expected : Option ν) (value : ν)
  | delete (key : κ) (expected : ν)
  deriving DecidableEq

namespace StoreAction

variable {κ ν : Type}

def key : StoreAction κ ν → κ
  | check key _ => key
  | put key _ _ => key
  | delete key _ => key

def expected : StoreAction κ ν → Option ν
  | check _ expected => expected
  | put _ expected _ => expected
  | delete _ expected => some expected

/-- What the operation leaves under its key. -/
def result : StoreAction κ ν → Option ν
  | check _ expected => expected
  | put _ _ value => some value
  | delete _ _ => none

end StoreAction

/-- Operations to be applied together at a revision. -/
structure StoreBatch (κ ν : Type) where
  base : Nat
  actions : List (StoreAction κ ν)
  deriving DecidableEq

namespace StoreBatch

variable {κ ν : Type}

/-- The keys of the operations. -/
def keys (batch : StoreBatch κ ν) : List κ := batch.actions.map StoreAction.key

end StoreBatch

/-- The values under their keys, and the number of the revision. -/
structure Store (κ ν : Type) where
  revision : Nat
  entries : AList fun _ : κ => ν

namespace Store

variable {κ ν : Type} [DecidableEq κ]

def lookup (store : Store κ ν) (key : κ) : Option ν := store.entries.lookup key

/-- The values under the keys that satisfy `p`. -/
def scan (store : Store κ ν) (p : κ → Bool) : List (κ × ν) :=
  (store.entries.entries.filter fun entry => p entry.1).map fun entry => (entry.1, entry.2)

variable {store : Store κ ν} {p : κ → Bool}

theorem mem_scan {key : κ} {value : ν} :
    (key, value) ∈ store.scan p ↔ store.lookup key = some value ∧ p key = true := by
  unfold scan lookup
  rw [List.mem_map]
  constructor
  · rintro ⟨entry, hentry, heq⟩
    obtain ⟨hmem, hp⟩ := List.mem_filter.mp hentry
    cases heq
    exact ⟨AList.mem_lookup_iff.mpr hmem, hp⟩
  · rintro ⟨hlookup, hp⟩
    exact ⟨⟨key, value⟩, List.mem_filter.mpr ⟨AList.mem_lookup_iff.mp hlookup, hp⟩, rfl⟩

omit [DecidableEq κ] in
theorem nodup_scan (store : Store κ ν) (p : κ → Bool) : (store.scan p).Nodup := by
  unfold scan
  refine List.Nodup.map ?_ (List.Nodup.filter _ (List.NodupKeys.nodup store.entries.nodupKeys))
  rintro ⟨key, value⟩ ⟨key', value'⟩ h
  cases h
  rfl

/-- No key that satisfies `p` has a value. -/
theorem scan_eq_nil (h : ∀ key, p key = true → store.lookup key = none) : store.scan p = [] := by
  rw [List.eq_nil_iff_forall_not_mem]
  rintro ⟨key, value⟩ hmem
  obtain ⟨hlookup, hp⟩ := mem_scan.mp hmem
  rw [h key hp] at hlookup
  cases hlookup

/-- One key that satisfies `p` has a value. -/
theorem scan_eq_singleton {key : κ} {value : ν} (hp : p key = true)
    (hlookup : store.lookup key = some value)
    (hother : ∀ other, p other = true → other ≠ key → store.lookup other = none) :
    store.scan p = [(key, value)] := by
  rw [← List.perm_singleton, List.perm_ext_iff_of_nodup (store.nodup_scan p) (List.nodup_singleton _)]
  rintro ⟨other, value'⟩
  rw [mem_scan, List.mem_singleton, Prod.mk.injEq]
  constructor
  · rintro ⟨hvalue, hother'⟩
    by_cases heq : other = key
    · subst heq
      rw [hlookup] at hvalue
      exact ⟨rfl, (Option.some.inj hvalue).symm⟩
    · rw [hother other hother' heq] at hvalue
      cases hvalue
  · rintro ⟨rfl, rfl⟩
    exact ⟨hlookup, hp⟩

omit [DecidableEq κ] in
/-- The keys of a scan are distinct. -/
theorem nodup_keys_scan (store : Store κ ν) (p : κ → Bool) : ((store.scan p).map Prod.fst).Nodup := by
  have hkeys : ((store.entries.entries.filter fun entry => p entry.1).map Sigma.fst).Nodup :=
    List.Nodup.sublist (List.filter_sublist.map _) store.entries.nodupKeys
  unfold scan
  rw [List.map_map]
  exact hkeys

/-- A scan that finds no key outside a list. -/
theorem length_scan_le_of_keys {keys : List κ}
    (h : ∀ key, p key = true → (store.lookup key).isSome = true → key ∈ keys) :
    (store.scan p).length ≤ keys.length := by
  rw [← List.length_map Prod.fst]
  refine (List.subperm_of_subset (store.nodup_keys_scan p) ?_).length_le
  intro key hmem
  obtain ⟨⟨key, value⟩, hentry, rfl⟩ := List.mem_map.mp hmem
  obtain ⟨hlookup, hp⟩ := mem_scan.mp hentry
  exact h key hp (by rw [hlookup]; rfl)

/-- A scan of records that are all among those of another one. -/
theorem length_scan_le {entries : List (κ × ν)}
    (h : ∀ key value, store.lookup key = some value → p key = true → (key, value) ∈ entries) :
    (store.scan p).length ≤ entries.length := by
  refine (List.subperm_of_subset (store.nodup_scan p) ?_).length_le
  rintro ⟨key, value⟩ hmem
  obtain ⟨hlookup, hp⟩ := mem_scan.mp hmem
  exact h key value hlookup hp

theorem length_scan_congr {store' : Store κ ν}
    (h : ∀ key, p key = true → store.lookup key = store'.lookup key) :
    (store.scan p).length = (store'.scan p).length := by
  refine Nat.le_antisymm ?_ ?_
  · refine length_scan_le fun key value hlookup hp => mem_scan.mpr ⟨?_, hp⟩
    rw [← h key hp]
    exact hlookup
  · refine length_scan_le fun key value hlookup hp => mem_scan.mpr ⟨?_, hp⟩
    rw [h key hp]
    exact hlookup

/-- The effect of an operation. -/
def perform (entries : AList fun _ : κ => ν) : StoreAction κ ν → AList fun _ : κ => ν
  | .check _ _ => entries
  | .put key _ value => entries.insert key value
  | .delete key _ => entries.erase key

variable {entries : AList fun _ : κ => ν} {action : StoreAction κ ν}

theorem lookup_perform_of_ne {key : κ} (h : key ≠ action.key) :
    (perform entries action).lookup key = entries.lookup key := by
  cases action with
  | check other expected => rfl
  | put other expected value => exact AList.lookup_insert_ne h
  | delete other expected => exact AList.lookup_erase_ne h

theorem lookup_perform (h : entries.lookup action.key = action.expected) :
    (perform entries action).lookup action.key = action.result := by
  cases action with
  | check key expected => exact h
  | put key expected value => exact AList.lookup_insert _
  | delete key expected => exact AList.lookup_erase _ _

/-- The store after a transaction. -/
def apply (store : Store κ ν) (batch : StoreBatch κ ν) : Store κ ν :=
  ⟨store.revision + 1, batch.actions.foldl perform store.entries⟩

@[simp] theorem revision_apply (store : Store κ ν) (batch : StoreBatch κ ν) :
    (store.apply batch).revision = store.revision + 1 := rfl

theorem filter_eraseP_of_disjoint {α : Type} {p q : α → Bool} (h : ∀ a, q a = true → p a = false)
    (l : List α) : (l.eraseP q).filter p = l.filter p := by
  induction l with
  | nil => rfl
  | cons a l ih =>
    by_cases hq : q a = true
    · rw [List.eraseP_cons_of_pos hq, List.filter_cons_of_neg (by rw [h a hq]; exact Bool.false_ne_true)]
    · rw [List.eraseP_cons_of_neg hq, List.filter_cons, List.filter_cons, ih]

/-- Operations on other keys leave a scan as it is. -/
theorem scan_perform {revision : Nat} (h : p action.key = false) :
    (⟨revision, perform entries action⟩ : Store κ ν).scan p = (⟨revision, entries⟩ : Store κ ν).scan p := by
  have hdisjoint : ∀ entry : Sigma fun _ : κ => ν,
      decide (action.key = entry.1) = true → p entry.1 = false := by
    intro entry hentry
    rw [← of_decide_eq_true hentry]
    exact h
  have herase : (List.kerase action.key entries.entries).filter (fun entry => p entry.1) =
      entries.entries.filter fun entry => p entry.1 := filter_eraseP_of_disjoint hdisjoint _
  unfold scan
  refine congrArg (List.map fun entry : (_ : κ) × ν => (entry.1, entry.2)) ?_
  cases action with
  | check key expected => rfl
  | put key expected value =>
    show (List.kinsert key value entries.entries).filter _ = _
    rw [List.kinsert_def, List.filter_cons_of_neg (by rw [show p key = false from h]; exact Bool.false_ne_true)]
    exact herase
  | delete key expected => exact herase

variable {batch : StoreBatch κ ν}

theorem scan_apply (h : ∀ action ∈ batch.actions, p action.key = false) :
    (store.apply batch).scan p = store.scan p := by
  show (⟨store.revision, batch.actions.foldl perform store.entries⟩ : Store κ ν).scan p =
    (⟨store.revision, store.entries⟩ : Store κ ν).scan p
  generalize store.entries = entries
  generalize batch.actions = actions at h
  induction actions generalizing entries with
  | nil => rfl
  | cons action rest ih =>
    rw [List.foldl_cons, ih _ fun other hother => h other (List.mem_cons_of_mem _ hother),
      scan_perform (h action List.mem_cons_self)]

variable [DecidableEq ν]

/-- The revision and every expectation match. -/
def accepts (store : Store κ ν) (batch : StoreBatch κ ν) : Bool :=
  decide (batch.base = store.revision) &&
    batch.actions.all fun action => decide (store.lookup action.key = action.expected)

theorem accepts_iff :
    store.accepts batch = true ↔ batch.base = store.revision ∧
      ∀ action ∈ batch.actions, store.lookup action.key = action.expected := by
  simp [accepts]

omit [DecidableEq ν] in
/-- A key without an operation keeps its value. -/
theorem lookup_apply_of_notMem {key : κ} (h : key ∉ batch.keys) :
    (store.apply batch).lookup key = store.lookup key := by
  unfold StoreBatch.keys at h
  show (batch.actions.foldl perform store.entries).lookup key = store.entries.lookup key
  generalize batch.actions = actions at h
  generalize store.entries = entries
  induction actions generalizing entries with
  | nil => rfl
  | cons action rest ih =>
    simp only [List.map_cons, List.mem_cons, not_or] at h
    rw [List.foldl_cons, ih h.2, lookup_perform_of_ne h.1]

/-- The value under the key of an operation, after a transaction on distinct keys. -/
theorem lookup_apply_of_mem (haccepts : store.accepts batch = true) (hnodup : batch.keys.Nodup)
    (haction : action ∈ batch.actions) :
    (store.apply batch).lookup action.key = action.result := by
  have hexpected := (accepts_iff.mp haccepts).2
  unfold StoreBatch.keys at hnodup
  show (batch.actions.foldl perform store.entries).lookup action.key = action.result
  change ∀ action ∈ batch.actions, store.entries.lookup action.key = action.expected at hexpected
  generalize batch.actions = actions at haction hnodup hexpected
  generalize store.entries = entries at hexpected
  induction actions generalizing entries with
  | nil => cases haction
  | cons first rest ih =>
    rw [List.map_cons, List.nodup_cons] at hnodup
    rw [List.foldl_cons]
    rcases List.mem_cons.mp haction with rfl | hrest
    · -- The later operations are on other keys.
      have hkeep : (apply ⟨0, perform entries action⟩ ⟨0, rest⟩).lookup action.key =
          (perform entries action).lookup action.key := lookup_apply_of_notMem hnodup.1
      exact hkeep.trans (lookup_perform (hexpected action List.mem_cons_self))
    · refine ih hrest hnodup.2 _ fun other hother => ?_
      rw [lookup_perform_of_ne]
      · exact hexpected other (List.mem_cons_of_mem _ hother)
      · intro heq
        exact hnodup.1 (heq ▸ List.mem_map_of_mem hother)

/-- What is under a key after a transaction: the value an operation put there, or what was there
    before. -/
theorem lookup_apply (haccepts : store.accepts batch = true) (hnodup : batch.keys.Nodup) (key : κ) :
    (∃ action ∈ batch.actions, action.key = key ∧ store.lookup key = action.expected ∧
      (store.apply batch).lookup key = action.result) ∨
    key ∉ batch.keys ∧ (store.apply batch).lookup key = store.lookup key := by
  by_cases hmem : key ∈ batch.keys
  · obtain ⟨action, haction, rfl⟩ := List.mem_map.mp hmem
    exact Or.inl ⟨action, haction, rfl, (accepts_iff.mp haccepts).2 action haction,
      lookup_apply_of_mem haccepts hnodup haction⟩
  · exact Or.inr ⟨hmem, lookup_apply_of_notMem hmem⟩

/-- What operations leave under a key with the value `before`. -/
def updated (actions : List (StoreAction κ ν)) (before : Option ν) (key : κ) : Option ν :=
  match actions.find? fun action => decide (action.key = key) with
  | some action => action.result
  | none => before

omit [DecidableEq ν] in
theorem updated_nil (before : Option ν) (key : κ) :
    updated ([] : List (StoreAction κ ν)) before key = before := rfl

omit [DecidableEq ν] in
theorem updated_cons (action : StoreAction κ ν) (actions : List (StoreAction κ ν))
    (before : Option ν) (key : κ) : updated (action :: actions) before key =
      if action.key = key then action.result else updated actions before key := by
  unfold updated
  rw [List.find?_cons]
  by_cases h : action.key = key <;> simp [h]

omit [DecidableEq ν] in
theorem updated_of_notMem {actions : List (StoreAction κ ν)} {key : κ}
    (h : ∀ action ∈ actions, action.key ≠ key) (before : Option ν) :
    updated actions before key = before := by
  unfold updated
  rw [List.find?_eq_none.mpr]
  intro action haction
  simpa using h action haction

theorem lookup_apply_eq (haccepts : store.accepts batch = true) (hnodup : batch.keys.Nodup)
    (key : κ) :
    (store.apply batch).lookup key = updated batch.actions (store.lookup key) key := by
  unfold updated
  split
  · rename_i action hfind
    have hkey : action.key = key := by simpa using List.find?_some hfind
    rw [← hkey]
    exact lookup_apply_of_mem haccepts hnodup (List.mem_of_find?_eq_some hfind)
  · rename_i hfind
    refine lookup_apply_of_notMem fun hmem => ?_
    obtain ⟨action, haction, hkey⟩ := List.mem_map.mp hmem
    exact List.find?_eq_none.mp hfind action haction (decide_eq_true hkey)

/-! ## Deletions -/

omit [DecidableEq ν] in
/-- The keys of a scan. -/
theorem mem_keys_scan {key : κ} :
    key ∈ (store.scan p).map Prod.fst ↔ (store.lookup key).isSome = true ∧ p key = true := by
  rw [List.mem_map]
  constructor
  · rintro ⟨⟨other, value⟩, hmem, rfl⟩
    obtain ⟨hlookup, hp⟩ := mem_scan.mp hmem
    exact ⟨Option.isSome_iff_exists.mpr ⟨value, hlookup⟩, hp⟩
  · rintro ⟨hsome, hp⟩
    obtain ⟨value, hlookup⟩ := Option.isSome_iff_exists.mp hsome
    exact ⟨(key, value), mem_scan.mpr ⟨hlookup, hp⟩, rfl⟩

/-- A transaction of deletions takes as many entries out of a scan as it has operations. -/
theorem length_scan_apply_deletes (haccepts : store.accepts batch = true)
    (hnodup : batch.keys.Nodup) (hdeletes : ∀ action ∈ batch.actions,
      p action.key = true ∧ ∃ key value, action = .delete key value) :
    ((store.apply batch).scan p).length + batch.actions.length = (store.scan p).length := by
  have hgone : ∀ key ∈ batch.keys, (store.apply batch).lookup key = none := by
    intro key hkey
    obtain ⟨action, haction, rfl⟩ := List.mem_map.mp hkey
    rw [lookup_apply_of_mem haccepts hnodup haction]
    obtain ⟨-, other, value, rfl⟩ := hdeletes action haction
    rfl
  have hperm : (((store.apply batch).scan p).map Prod.fst ++ batch.keys).Perm
      ((store.scan p).map Prod.fst) := by
    rw [List.perm_ext_iff_of_nodup _ (store.nodup_keys_scan p)]
    · intro key
      rw [List.mem_append, mem_keys_scan, mem_keys_scan]
      by_cases hkey : key ∈ batch.keys
      · obtain ⟨action, haction, rfl⟩ := List.mem_map.mp hkey
        obtain ⟨hp, other, value, rfl⟩ := hdeletes action haction
        have hstored := (accepts_iff.mp haccepts).2 _ haction
        simp [hkey, hp, hstored, StoreAction.expected]
      · simp [hkey, lookup_apply_of_notMem hkey]
    · refine List.nodup_append.mpr ⟨(store.apply batch).nodup_keys_scan p, hnodup, ?_⟩
      rintro key hscanned other hkey rfl
      have hsome := (mem_keys_scan.mp hscanned).1
      rw [hgone key hkey] at hsome
      cases hsome
  have hlength := hperm.length_eq
  rw [List.length_append, List.length_map, List.length_map, StoreBatch.keys, List.length_map]
    at hlength
  exact hlength

end Store
