import Radiata.Native.Reference

/-!
# Applying the operations of a transaction

The operations of a transaction act on distinct entries, so each key ends with
what its one operation wrote, and conditions checked against the state before the
transaction hold at the moment each operation is applied.

## Key results

- `get_applyOperations_of_written`: the value a write leaves
- `countKeys_applyOperations`: how a transaction changes the number of entries
  under a family of keys
-/

namespace Radiata

variable [DnsName]

/-- What an operation leaves at `k`, if it writes there. -/
def StoreOperation.written (k : EntryKey) : StoreOperation → Option (Option StoreValue)
  | .put namespaceTag key _ value => if k = ⟨namespaceTag, key⟩ then some (some value) else none
  | .delete namespaceTag key _ => if k = ⟨namespaceTag, key⟩ then some none else none
  | _ => none

/-- The operation puts a new entry under a key of `p`. -/
def StoreOperation.addsKey (p : EntryKey → Bool) : StoreOperation → Bool
  | .put namespaceTag key .absent _ => p ⟨namespaceTag, key⟩
  | _ => false

/-- The operation deletes an entry under a key of `p`. -/
def StoreOperation.removesKey (p : EntryKey → Bool) : StoreOperation → Bool
  | .delete namespaceTag key _ => p ⟨namespaceTag, key⟩
  | _ => false

variable {op : StoreOperation}

theorem StoreOperation.identity_of_written {k : EntryKey} {w : Option StoreValue}
    (h : op.written k = some w) : op.identity = .key k := by
  cases op with
  | check _ _ _ => cases h
  | forgetReceipt _ _ => cases h
  | put namespaceTag key expected value | delete namespaceTag key expected =>
    simp only [written] at h
    split at h
    · rename_i heq; rw [heq]; rfl
    · cases h

theorem get_applyOperation (m : Entries) (op : StoreOperation) (k : EntryKey) :
    (applyOperation m op).get k = (op.written k).getD (m.get k) := by
  cases op with
  | check _ _ _ => rfl
  | forgetReceipt _ _ => rfl
  | put namespaceTag key expected value =>
    simp only [applyOperation, SortedMap.get_insert, StoreOperation.written]
    split <;> rfl
  | delete namespaceTag key expected =>
    simp only [applyOperation, SortedMap.get_erase, StoreOperation.written]
    split <;> rfl

variable {ops : List StoreOperation}

/-- A key no operation writes keeps its value. -/
theorem get_applyOperations_of_not_written {k : EntryKey} (m : Entries)
    (h : ∀ op ∈ ops, op.written k = none) :
    (ops.foldl applyOperation m).get k = m.get k := by
  induction ops generalizing m with
  | nil => rfl
  | cons op ops ih =>
    rw [List.foldl_cons, ih _ (fun o ho => h o (List.mem_cons_of_mem op ho)), get_applyOperation,
      h op (List.mem_cons_self ..)]
    rfl

/-- A key some operation writes ends with what that operation wrote. -/
theorem get_applyOperations_of_written {k : EntryKey} {w : Option StoreValue} (m : Entries)
    (hnodup : (ops.map StoreOperation.identity).Nodup) (hmem : op ∈ ops)
    (hw : op.written k = some w) : (ops.foldl applyOperation m).get k = w := by
  induction ops generalizing m with
  | nil => cases hmem
  | cons o ops ih =>
    rw [List.map_cons, List.nodup_cons] at hnodup
    rw [List.foldl_cons]
    rcases List.mem_cons.mp hmem with rfl | hmem
    · -- the remaining operations act on other entries
      rw [get_applyOperations_of_not_written, get_applyOperation, hw]
      · rfl
      · intro o' ho'
        cases hw' : o'.written k with
        | none => rfl
        | some w' =>
          have hmem' := List.mem_map_of_mem (f := StoreOperation.identity) ho'
          rw [StoreOperation.identity_of_written hw', ← StoreOperation.identity_of_written hw]
            at hmem'
          exact absurd hmem' hnodup.1
    · exact ih _ hnodup.2 hmem

/-! ## Conditions -/

variable {m : Entries} {r : Receipts} {namespaceTag : StoreNamespace}

variable {key : StoreKey}

theorem conditionMatches_put_absent {value : StoreValue} :
    conditionMatches m r (.put namespaceTag key .absent value) = true ↔
      m.get ⟨namespaceTag, key⟩ = none := by
  simp only [conditionMatches, expectationMatches]
  cases m.get ⟨namespaceTag, key⟩ <;> simp

theorem conditionMatches_check_absent :
    conditionMatches m r (.check namespaceTag key .absent) = true ↔
      m.get ⟨namespaceTag, key⟩ = none := by
  simp only [conditionMatches, expectationMatches]
  cases m.get ⟨namespaceTag, key⟩ <;> simp

theorem exists_of_conditionMatches_put_exact {digest : Digest} {value : StoreValue}
    (h : conditionMatches m r (.put namespaceTag key (.exact digest) value) = true) :
    ∃ old, m.get ⟨namespaceTag, key⟩ = some old := by
  simp only [conditionMatches, expectationMatches] at h
  cases hget : m.get ⟨namespaceTag, key⟩ with
  | none => rw [hget] at h; cases h
  | some old => exact ⟨old, rfl⟩

theorem exists_of_conditionMatches_delete {digest : Digest}
    (h : conditionMatches m r (.delete namespaceTag key digest) = true) :
    ∃ old, m.get ⟨namespaceTag, key⟩ = some old := by
  simp only [conditionMatches] at h
  cases hget : m.get ⟨namespaceTag, key⟩ with
  | none => rw [hget] at h; cases h
  | some old => exact ⟨old, rfl⟩

/-- Applying an operation leaves the condition of an operation on another entry. -/
theorem conditionMatches_applyOperation {op' : StoreOperation} (h : op'.identity ≠ op.identity) :
    conditionMatches (applyOperation m op) r op' = conditionMatches m r op' := by
  have hget : ∀ k, op'.identity = .key k → (applyOperation m op).get k = m.get k := by
    intro k hk
    rw [get_applyOperation]
    cases hw : op.written k with
    | none => rfl
    | some w => exact absurd (hk.trans (StoreOperation.identity_of_written hw).symm) h
  cases op' with
  | check _ _ _ | put _ _ _ _ | delete _ _ _ => simp only [conditionMatches, hget _ rfl]
  | forgetReceipt _ _ => rfl

/-! ## Counting -/

/-- One operation whose condition holds changes the number of entries under `p` by
    what it adds or removes. -/
theorem countKeys_applyOperation (p : EntryKey → Bool) (h : conditionMatches m r op = true) :
    (applyOperation m op).countKeys p + (if op.removesKey p then 1 else 0) =
      m.countKeys p + (if op.addsKey p then 1 else 0) := by
  cases op with
  | check _ _ _ => rfl
  | forgetReceipt _ _ => rfl
  | put namespaceTag key expected value =>
    cases expected with
    | absent =>
      have hcount := m.countKeys_insert_of_none value p (conditionMatches_put_absent.mp h)
      simp only [applyOperation, hcount, StoreOperation.removesKey, StoreOperation.addsKey]
      by_cases hp : p ⟨namespaceTag, key⟩ = true <;> simp [hp]
    | exact digest =>
      obtain ⟨old, hold⟩ := exists_of_conditionMatches_put_exact h
      simp only [applyOperation, m.countKeys_insert_of_some value p hold,
        StoreOperation.removesKey, StoreOperation.addsKey]
      simp
  | delete namespaceTag key expected =>
    obtain ⟨old, hold⟩ := exists_of_conditionMatches_delete h
    have hcount := m.countKeys_erase_of_some p hold
    simp only [applyOperation, ← hcount, StoreOperation.removesKey, StoreOperation.addsKey]
    by_cases hp : p ⟨namespaceTag, key⟩ = true <;> simp [hp]

/-- A transaction whose conditions hold changes the number of entries under `p` by
    what its operations add and remove. -/
theorem countKeys_applyOperations (p : EntryKey → Bool)
    (hnodup : (ops.map StoreOperation.identity).Nodup)
    (hcond : ∀ op ∈ ops, conditionMatches m r op = true) :
    (ops.foldl applyOperation m).countKeys p + ops.countP (·.removesKey p) =
      m.countKeys p + ops.countP (·.addsKey p) := by
  induction ops generalizing m with
  | nil => rfl
  | cons op ops ih =>
    rw [List.map_cons, List.nodup_cons] at hnodup
    have hop := countKeys_applyOperation p (hcond op (List.mem_cons_self ..))
    have hrest := ih (m := applyOperation m op) hnodup.2 (by
      intro o ho
      rw [conditionMatches_applyOperation]
      · exact hcond o (List.mem_cons_of_mem op ho)
      · intro heq
        exact hnodup.1 (heq ▸ List.mem_map_of_mem ho))
    rw [List.foldl_cons, List.countP_cons, List.countP_cons]
    omega

end Radiata
