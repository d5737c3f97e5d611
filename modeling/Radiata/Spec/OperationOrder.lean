import Radiata.Native.SerdeJson
import Radiata.Spec.ApplyCorrect
import Radiata.Spec.JsonCommit
import Radiata.Spec.RedbCommitUnknown

/-!
# The order of the operations of a transaction

The operations of a transaction act on distinct entries and receipts. So the condition of each of
them may be checked before all or just before it is applied, and in whatever order they are
applied, they leave the same entries and the same receipts. What is not the same is the receipt
of the transaction itself: it carries the digest of the operations in their order.

## Key results

- `applyOperation_comm`, `forgetOperation_comm`: operations on different things
- `conditionMatches_apply`: an operation leaves the conditions of the others
- `checkedInTurn_eq_all`: conditions checked in turn
- `operation_order_irrelevant`
-/

namespace Radiata

variable [DnsName]

/-! ## Receipts -/

/-- What an operation on a receipt leaves there. -/
def StoreOperation.spares (operation : StoreOperation) (before : Option CommitReceipt) :
    Option CommitReceipt :=
  match operation with
  | .forgetReceipt _ expected =>
    if before.any fun receipt => receipt.operationDigest == expected then none else before
  | .check _ _ _ | .put _ _ _ _ | .delete _ _ _ => before

theorem get_forgetOperation (receipts : Receipts) (operation : StoreOperation)
    (target : TransactionId) :
    (forgetOperation receipts operation).get target =
      if operation.identity = .receipt target then operation.spares (receipts.get target)
      else receipts.get target := by
  cases operation with
  | forgetReceipt target' expected =>
    simp only [forgetOperation, StoreOperation.identity, StoreOperation.spares,
      StoreOperationIdentity.receipt.injEq]
    by_cases htarget : target' = target
    · subst htarget
      split
      · simp
      · simp
    · rw [if_neg htarget]
      split
      · exact SortedMap.get_erase_ne receipts (Ne.symm htarget)
      · rfl
  | _ => simp [forgetOperation, StoreOperation.spares]

variable {a b : StoreOperation}

/-- Forgetting a receipt leaves the condition of an operation on another one. -/
theorem conditionMatches_forgetOperation {entries : Entries} {receipts : Receipts}
    (h : b.identity ≠ a.identity) :
    conditionMatches entries (forgetOperation receipts a) b =
      conditionMatches entries receipts b := by
  cases b with
  | forgetReceipt target expected =>
    simp only [conditionMatches]
    rw [get_forgetOperation, if_neg fun ha => h ha.symm]
  | _ => rfl

/-! ## Operations on distinct identities -/

/-- What an operation writes, an operation on something else does not. -/
theorem written_eq_none (h : a.identity ≠ b.identity) {key : EntryKey} {value : Option StoreValue}
    (hwritten : a.written key = some value) : b.written key = none := by
  cases hother : b.written key with
  | none => rfl
  | some other =>
    have hsame := (StoreOperation.identity_of_written hwritten).trans
      (StoreOperation.identity_of_written hother).symm
    exact absurd hsame h

theorem applyOperation_comm (h : a.identity ≠ b.identity) (entries : Entries) :
    applyOperation (applyOperation entries a) b =
      applyOperation (applyOperation entries b) a := by
  refine SortedMap.ext_get fun key => ?_
  simp only [get_applyOperation]
  cases hwritten : a.written key with
  | none => rfl
  | some value =>
    rw [written_eq_none h hwritten]
    rfl

theorem forgetOperation_comm (h : a.identity ≠ b.identity) (receipts : Receipts) :
    forgetOperation (forgetOperation receipts a) b =
      forgetOperation (forgetOperation receipts b) a := by
  refine SortedMap.ext_get fun target => ?_
  simp only [get_forgetOperation]
  by_cases ha : a.identity = .receipt target
  · have hb : b.identity ≠ .receipt target := fun hb => h (ha.trans hb.symm)
    rw [if_neg hb, if_neg hb]
  · rw [if_neg ha, if_neg ha]

/-- An operation leaves the conditions of the others as they are. -/
theorem conditionMatches_apply (h : a.identity ≠ b.identity) (applied : Applied) :
    conditionMatches (applied.apply a).entries (applied.apply a).receipts b =
      conditionMatches applied.entries applied.receipts b := by
  obtain ⟨hentries, hreceipts⟩ := foldl_applied [a] applied
  change (applied.apply a).entries = applyOperation applied.entries a at hentries
  change (applied.apply a).receipts = forgetOperation applied.receipts a at hreceipts
  rw [hentries, hreceipts, conditionMatches_forgetOperation (Ne.symm h),
    conditionMatches_applyOperation (Ne.symm h)]

/-- Each condition is checked just before its operation is applied. -/
def Applied.checkedInTurn (applied : Applied) : List StoreOperation → Bool
  | [] => true
  | operation :: rest =>
    conditionMatches applied.entries applied.receipts operation &&
      (applied.apply operation).checkedInTurn rest

variable {operations : List StoreOperation}

/-- Conditions checked in turn say what they say before the first operation. -/
theorem checkedInTurn_eq_all (h : (operations.map StoreOperation.identity).Nodup)
    (applied : Applied) :
    applied.checkedInTurn operations =
      operations.all (conditionMatches applied.entries applied.receipts) := by
  induction operations generalizing applied with
  | nil => rfl
  | cons operation rest ih =>
    rw [List.map_cons, List.nodup_cons] at h
    rw [Applied.checkedInTurn, List.all_cons, ih h.2]
    have hrest : rest.all (conditionMatches (applied.apply operation).entries
        (applied.apply operation).receipts) =
          rest.all (conditionMatches applied.entries applied.receipts) := by
      rw [Bool.eq_iff_iff, List.all_eq_true, List.all_eq_true]
      refine forall₂_congr fun other hother => ?_
      have hne : operation.identity ≠ other.identity := fun heq =>
        h.1 (heq ▸ List.mem_map_of_mem hother)
      rw [conditionMatches_apply hne]
    rw [hrest]

/-- The apply loop, in any order. -/
theorem foldl_apply_perm {permuted : List StoreOperation}
    (h : (operations.map StoreOperation.identity).Nodup) (hperm : permuted.Perm operations)
    (applied : Applied) :
    (permuted.foldl Applied.apply applied).entries =
        (operations.foldl Applied.apply applied).entries ∧
      (permuted.foldl Applied.apply applied).receipts =
        (operations.foldl Applied.apply applied).receipts := by
  obtain ⟨hentries, hreceipts⟩ := foldl_applied operations applied
  obtain ⟨hentries', hreceipts'⟩ := foldl_applied permuted applied
  rw [hentries, hreceipts, hentries', hreceipts']
  -- Two operations of the list are the same one or act on different things.
  have hdistinct : ∀ a ∈ permuted, ∀ b ∈ permuted, a = b ∨ a.identity ≠ b.identity := by
    intro a ha b hb
    by_cases hidentity : a.identity = b.identity
    · exact .inl (List.inj_on_of_nodup_map h (hperm.mem_iff.mp ha) (hperm.mem_iff.mp hb) hidentity)
    · exact .inr hidentity
  constructor
  · refine hperm.foldl_eq' (fun a ha b hb entries => ?_) _
    rcases hdistinct a ha b hb with rfl | hne
    · rfl
    · exact applyOperation_comm hne entries
  · refine hperm.foldl_eq' (fun a ha b hb receipts => ?_) _
    rcases hdistinct a ha b hb with rfl | hne
    · rfl
    · exact forgetOperation_comm hne receipts

/-! ## Commits -/

/-- A list that makes a transaction makes one in any order. -/
theorem StoreTransaction.new_perm {id : TransactionId} {baseRevision : StoreRevision}
    {permuted : List StoreOperation} {transaction : StoreTransaction}
    (hnew : StoreTransaction.new id baseRevision operations = .ok transaction)
    (hperm : permuted.Perm operations) :
    StoreTransaction.new id baseRevision permuted =
      .ok ⟨id, digestStoreOperations baseRevision permuted, baseRevision, permuted⟩ := by
  obtain ⟨hne, hnodup, -⟩ := StoreTransaction.new_eq_ok.mp hnew
  refine StoreTransaction.new_eq_ok.mpr ⟨?_, ?_, rfl⟩
  · rintro rfl
    exact hne hperm.nil_eq.symm
  · exact (hperm.map StoreOperation.identity).nodup_iff.mpr hnodup

/-- The operations of a transaction in another order: the conditions, the entries and the
    receipts they lead to are the same, but for the receipt of the transaction, which carries the
    digest of the operations in their order. -/
theorem operation_order_irrelevant [SerdeJson] {id : TransactionId} {baseRevision : StoreRevision}
    {operations permuted : List StoreOperation} {transaction : StoreTransaction}
    (hnew : StoreTransaction.new id baseRevision operations = .ok transaction)
    (hperm : permuted.Perm operations) :
    ∃ reordered, StoreTransaction.new id baseRevision permuted = .ok reordered ∧
      ∀ head : Head,
        (reordered.operations.all (conditionMatches head.entries head.receipts) =
          transaction.operations.all (conditionMatches head.entries head.receipts)) ∧
        (head.applied reordered).entries = (head.applied transaction).entries ∧
        (head.applied reordered).receipts = (head.applied transaction).receipts ∧
        (⟨head.entries, head.receipts, []⟩ : Applied).checkedInTurn transaction.operations =
          transaction.operations.all (conditionMatches head.entries head.receipts) ∧
        ∀ (storage : JsonStorage) (plan plan' : CommitPlan),
          storage.prepareCommit head transaction = .ok (.write plan) →
          storage.prepareCommit head reordered = .ok (.write plan') →
            plan'.head.entries = plan.head.entries ∧
            plan'.head.receipts = plan.head.receipts.insert id
              ⟨id, reordered.operationDigest, plan.receipt.committedRevision⟩ := by
  obtain ⟨-, hnodup, htransaction⟩ := StoreTransaction.new_eq_ok.mp hnew
  refine ⟨_, StoreTransaction.new_perm hnew hperm, fun head => ?_⟩
  subst htransaction
  obtain ⟨hentries, hreceipts⟩ :=
    foldl_apply_perm hnodup hperm ⟨head.entries, head.receipts, []⟩
  refine ⟨?_, hentries, hreceipts, checkedInTurn_eq_all hnodup _, ?_⟩
  · exact hperm.all_eq
  · intro storage plan plan' hplan hplan'
    have hplanned := planned_of_prepareCommit hplan
    have hplanned' := planned_of_prepareCommit hplan'
    -- Both plans are for the generation after that of the head.
    have hgeneration : plan'.head.generation = plan.head.generation :=
      Option.some.inj (hplanned'.next.symm.trans hplanned.next)
    have hstate := hplanned.state
    have hstate' := hplanned'.state
    rw [← Head.applied_eq] at hstate hstate'
    have hplanEntries := congrArg ReferenceState.entries hstate
    have hplanEntries' := congrArg ReferenceState.entries hstate'
    have hplanReceipts := congrArg ReferenceState.receipts hstate
    have hplanReceipts' := congrArg ReferenceState.receipts hstate'
    constructor
    · exact hplanEntries'.trans (hentries.trans hplanEntries.symm)
    · refine hplanReceipts'.trans ?_
      refine Eq.trans ?_ (congrArg (fun receipts : Receipts => receipts.insert id
        ⟨id, digestStoreOperations baseRevision permuted, plan.receipt.committedRevision⟩)
        hplanReceipts.symm)
      rw [hplanned.receipt, SortedMap.insert_insert, hgeneration]
      exact congrArg (fun receipts : Receipts => receipts.insert id _) hreceipts

/-! ## A sample -/

/-- Two keys are expected to be absent. -/
def sampleChecks : List (@StoreOperation .hostNames) :=
  letI := DnsName.hostNames
  [.check sampleTag ⟨[1]⟩ .absent, .check sampleTag ⟨[2]⟩ .absent]

omit [DnsName] in
theorem sampleChecks_reversed :
    letI := DnsName.hostNames
    ∃ reordered, StoreTransaction.new default (.ofGeneration 0) sampleChecks.reverse = .ok reordered ∧
      reordered.operations.all (conditionMatches .empty .empty) = true := by
  let _ := DnsName.hostNames
  let _ := SerdeJson.compact
  have hnew : StoreTransaction.new default (.ofGeneration 0) sampleChecks =
      .ok ⟨default, digestStoreOperations (.ofGeneration 0) sampleChecks, .ofGeneration 0,
        sampleChecks⟩ := StoreTransaction.new_eq_ok.mpr ⟨by decide, by decide, rfl⟩
  obtain ⟨reordered, hreordered, hsame⟩ :=
    operation_order_irrelevant hnew sampleChecks.reverse_perm
  refine ⟨reordered, hreordered, ?_⟩
  rw [(hsame ⟨0, ⟨List.replicate 32 0, by decide⟩, ⟨List.replicate 16 0, rfl⟩, .empty, .empty, 0⟩).1]
  decide

omit [DnsName] in
/-- A new store commits what expects keys to be absent. -/
theorem commit_fresh {operations : List (@StoreOperation .hostNames)}
    (h : letI := DnsName.hostNames
      operations.all (conditionMatches .empty .empty) = true) :
    letI := DnsName.hostNames
    ∀ transaction : StoreTransaction, transaction = ⟨default,
        digestStoreOperations (.ofGeneration 0) operations, .ofGeneration 0, operations⟩ →
      (ReferenceState.fresh 0).commit transaction =
        (.ok (.committed (ReferenceState.receiptAt transaction 1)),
          (ReferenceState.fresh 0).apply transaction 1) := by
  let _ := DnsName.hostNames
  rintro transaction rfl
  have haccepts : (ReferenceState.fresh 0).accepts ⟨default,
      digestStoreOperations (.ofGeneration 0) operations, .ofGeneration 0, operations⟩ = true := by
    simp only [ReferenceState.accepts, StoreTransaction.computedOperationDigest,
      ReferenceState.fresh, h, BEq.rfl, Bool.and_self]
  rw [ReferenceState.commit_of_none rfl, haccepts]
  rfl

omit [DnsName] in
/-- The receipt of a committed transaction carries a digest that depends on the order. -/
theorem sampleChecks_receipts_ne :
    letI := DnsName.hostNames
    ∃ transaction reordered,
      StoreTransaction.new default (.ofGeneration 0) sampleChecks = .ok transaction ∧
      StoreTransaction.new default (.ofGeneration 0) sampleChecks.reverse = .ok reordered ∧
      ((ReferenceState.fresh 0).commit transaction).1 =
        .ok (.committed (ReferenceState.receiptAt transaction 1)) ∧
      ((ReferenceState.fresh 0).commit reordered).1 =
        .ok (.committed (ReferenceState.receiptAt reordered 1)) ∧
      ((ReferenceState.fresh 0).commit transaction).2.receipts ≠
        ((ReferenceState.fresh 0).commit reordered).2.receipts := by
  let _ := DnsName.hostNames
  have hdigest : digestStoreOperations (.ofGeneration 0) sampleChecks ≠
      digestStoreOperations (.ofGeneration 0) sampleChecks.reverse := by decide +kernel
  refine ⟨_, _, StoreTransaction.new_eq_ok.mpr ⟨by decide, by decide, rfl⟩,
    StoreTransaction.new_eq_ok.mpr ⟨by decide, by decide, rfl⟩, ?_⟩
  rw [commit_fresh (by decide) _ rfl, commit_fresh (by decide) _ rfl]
  refine ⟨rfl, rfl, fun h => hdigest ?_⟩
  have hreceipt := congrArg (fun receipts : Receipts => receipts.get default) h
  simp only [ReferenceState.apply, SortedMap.get_insert_self, Option.some.injEq] at hreceipt
  exact congrArg CommitReceipt.operationDigest hreceipt

end Radiata
