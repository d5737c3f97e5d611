import Radiata.Native.Receipt

/-!
# The reference store

`src/storage/contract/reference.rs`: the in-memory store the storage contract is
stated against. Its revision is the big-endian generation counter; a commit
replays the receipt of a known transaction, and otherwise applies the operations
exactly when the digest, the base revision and every condition match.
-/

namespace Radiata

variable [DnsName]

structure ReferenceState where
  generation : UInt64
  entries : Entries
  receipts : Receipts
  deriving DecidableEq

/-- The effect of an operation on the entries. -/
def applyOperation (entries : Entries) : StoreOperation → Entries
  | .check _ _ _ => entries
  | .put namespaceTag key _ value => entries.insert ⟨namespaceTag, key⟩ value
  | .delete namespaceTag key _ => entries.erase ⟨namespaceTag, key⟩
  | .forgetReceipt _ _ => entries

/-- The effect of an operation on the receipts. -/
def forgetOperation (receipts : Receipts) : StoreOperation → Receipts
  | .forgetReceipt transaction expectedOperationDigest =>
    if (receipts.get transaction).any
        (fun receipt => receipt.operationDigest == expectedOperationDigest) then
      receipts.erase transaction
    else receipts
  | _ => receipts

namespace ReferenceState

/-- A store with no entries and no receipts. -/
def fresh (generation : UInt64) : ReferenceState := ⟨generation, .empty, .empty⟩

/-- The digest, the base revision and every condition of the transaction match. -/
def accepts (state : ReferenceState) (transaction : StoreTransaction) : Bool :=
  transaction.operationDigest == transaction.computedOperationDigest
    && transaction.baseRevision == .ofGeneration state.generation
    && transaction.operations.all (conditionMatches state.entries state.receipts)

/-- The receipt of a transaction committed as generation `generation`. -/
def receiptAt (transaction : StoreTransaction) (generation : UInt64) : CommitReceipt :=
  ⟨transaction.id, transaction.operationDigest, .ofGeneration generation⟩

/-- The state after applying the transaction as generation `generation`. -/
def apply (state : ReferenceState) (transaction : StoreTransaction) (generation : UInt64) :
    ReferenceState where
  generation := generation
  entries := transaction.operations.foldl applyOperation state.entries
  receipts := (transaction.operations.foldl forgetOperation state.receipts).insert
    transaction.id (receiptAt transaction generation)

/-- `reference_commit` -/
def commit (state : ReferenceState) (transaction : StoreTransaction) :
    Result CommitOutcome × ReferenceState :=
  match state.receipts.get transaction.id with
  | some receipt =>
    if receipt.operationDigest = transaction.operationDigest then (.ok (.committed receipt), state)
    else (.ok .conflict, state)
  | none =>
    if transaction.operationDigest ≠ transaction.computedOperationDigest then
      (.ok .conflict, state)
    else if transaction.baseRevision ≠ .ofGeneration state.generation then
      (.ok .conflict, state)
    else if ¬ transaction.operations.all (conditionMatches state.entries state.receipts) then
      (.ok .conflict, state)
    else
      match checkedAdd state.generation 1 with
      | none => (.error (.provider .resourceExhausted .storageCommit), state)
      | some generation =>
        (.ok (.committed (receiptAt transaction generation)), state.apply transaction generation)

/-- `ReferenceStorage::reconcile` -/
def reconcile (state : ReferenceState) (transaction : TransactionId) (digest : Digest) :
    ReconcileOutcome :=
  match state.receipts.get transaction with
  | some receipt => if receipt.operationDigest = digest then .committed receipt else .digestConflict
  | none => .aborted

/-- `ReferenceStorage::snapshot` -/
def snapshot (state : ReferenceState) : StoreSnapshot :=
  ⟨.ofGeneration state.generation, state.entries⟩

end ReferenceState

end Radiata
