import Radiata.ForStd.System
import Radiata.Native.Pending
import Radiata.Native.Reference

/-!
# Runs of the receipt engine

A run takes snapshots, prepares transactions from them with the seven builders,
and commits prepared transactions, in any order and any number of times. The
store is any conforming conditional store: it answers a known id from its receipt,
refuses a transaction whose digest, base revision or conditions do not match, and
otherwise applies it or fails without applying it. The reference store is one.

## Key results

- `ReferenceState.commit_conforming`: the reference store conforms
- `ConformingCommit.cases`: what a conforming commit does
-/

namespace Radiata

variable [DnsName]

/-! ## Calls -/

/-- A call of a builder, with what it is given besides the snapshot. -/
inductive EngineCall where
  | prepareTransaction (id : TransactionId) (baseRevision : StoreRevision)
      (callerOperations : List StoreOperation)
  | prepareTransactionWithReceiptChanges (id : TransactionId)
      (callerOperations : List StoreOperation) (changes : List ReceiptReferenceChange)
  | prepareJournaledTransaction (id : TransactionId) (purpose : Bytes)
      (callerOperations : List StoreOperation) (changes : List ReceiptReferenceChange)
  | addReceiptReference (target : ReceiptIdentity) (token : ReceiptReferenceToken)
      (operationId : TransactionId)
  | removeReceiptReference (target : ReceiptIdentity) (token : ReceiptReferenceToken)
      (operationId : TransactionId)
  | cleanupReceipt (receiptRetention : Duration) (now : SystemTime) (target : ReceiptIdentity)
      (operationId : TransactionId)
  | cleanupPending (purpose : Bytes) (operationId : TransactionId)
  deriving DecidableEq

/-- The transaction a builder submits, if it submits one. -/
def Attempt.submitted {ω : Type} : Result (Attempt ω) → Option PreparedTransaction
  | .ok (.submit prepared _) => some prepared
  | _ => none

/-- The transaction a call prepares from a snapshot, if it prepares one. -/
def EngineCall.prepares (snapshot : StoreSnapshot) : EngineCall → Option PreparedTransaction
  | .prepareTransaction id baseRevision callerOperations =>
    (Radiata.prepareTransaction id baseRevision callerOperations).toOption
  | .prepareTransactionWithReceiptChanges id callerOperations changes =>
    (Radiata.prepareTransactionWithReceiptChanges snapshot id callerOperations changes).toOption
  | .prepareJournaledTransaction id purpose callerOperations changes =>
    (Radiata.prepareJournaledTransaction snapshot id purpose callerOperations changes).toOption
  | .addReceiptReference target token operationId =>
    Attempt.submitted (Radiata.addReceiptReference snapshot target token operationId)
  | .removeReceiptReference target token operationId =>
    Attempt.submitted (Radiata.removeReceiptReference snapshot target token operationId)
  | .cleanupReceipt receiptRetention now target operationId =>
    Attempt.submitted (Radiata.cleanupReceipt snapshot receiptRetention now target operationId)
  | .cleanupPending purpose operationId =>
    Attempt.submitted (Radiata.cleanupPending snapshot purpose operationId)

/-- The receipt, retention interval and clock reading of a receipt cleanup. -/
structure Cleanup where
  target : TransactionId
  retention : Duration
  now : SystemTime
  deriving DecidableEq

def EngineCall.cleanup : EngineCall → Option Cleanup
  | .cleanupReceipt receiptRetention now target _ =>
    some ⟨target.transaction, receiptRetention, now⟩
  | _ => none

/-! ## Conforming stores -/

/-- An answer that leaves open whether the transaction was applied. -/
def Unsettled : Result CommitOutcome → Prop
  | .ok (.unknown _ _) => True
  | .ok _ => False
  | .error _ => True

/-- A commit of a conforming conditional store. An accepted transaction is applied or
    fails without being applied, and in both cases the answer may be unsettled. A new transaction
    that could have been applied may be answered with a conflict. -/
inductive ConformingCommit (s : ReferenceState) (transaction : StoreTransaction) :
    Result CommitOutcome → ReferenceState → Prop where
  | replayed {receipt : CommitReceipt} (hknown : s.receipts.get transaction.id = some receipt)
      (hdigest : receipt.operationDigest = transaction.operationDigest) :
      ConformingCommit s transaction (.ok (.committed receipt)) s
  | repeated {receipt : CommitReceipt} (hknown : s.receipts.get transaction.id = some receipt)
      (hdigest : receipt.operationDigest ≠ transaction.operationDigest) :
      ConformingCommit s transaction (.ok .conflict) s
  | refused (hnew : s.receipts.get transaction.id = none) :
      ConformingCommit s transaction (.ok .conflict) s
  | applied {generation : UInt64} {outcome : Result CommitOutcome}
      (hnew : s.receipts.get transaction.id = none) (haccepts : s.accepts transaction = true)
      (hgeneration : checkedAdd s.generation 1 = some generation)
      (houtcome : outcome = .ok (.committed (ReferenceState.receiptAt transaction generation)) ∨
        Unsettled outcome) :
      ConformingCommit s transaction outcome (s.apply transaction generation)
  | failed {outcome : Result CommitOutcome} (hnew : s.receipts.get transaction.id = none)
      (haccepts : s.accepts transaction = true)
      (houtcome : outcome = .ok .aborted ∨ Unsettled outcome) :
      ConformingCommit s transaction outcome s

/-- The reference store conforms. -/
theorem ReferenceState.commit_conforming (s : ReferenceState) (transaction : StoreTransaction) :
    ConformingCommit s transaction (s.commit transaction).1 (s.commit transaction).2 := by
  cases hknown : s.receipts.get transaction.id with
  | some receipt =>
    simp only [commit, hknown]
    split
    · rename_i hdigest; exact .replayed hknown hdigest
    · rename_i hdigest; exact .repeated hknown hdigest
  | none =>
    simp only [commit, hknown]
    split
    · exact .refused hknown
    split
    · exact .refused hknown
    split
    · exact .refused hknown
    · rename_i hdigest hbase hcond
      have haccepts : s.accepts transaction = true := by
        rw [not_not] at hdigest hbase hcond
        simp only [accepts, ← hdigest, hbase, hcond, beq_self_eq_true, Bool.and_self]
      split
      · exact .failed hknown haccepts (.inr trivial)
      · rename_i hgeneration
        exact .applied hknown haccepts hgeneration (.inl rfl)

/-- A conforming commit leaves the store or applies an accepted transaction. -/
theorem ConformingCommit.cases {s t : ReferenceState} {transaction : StoreTransaction}
    {outcome : Result CommitOutcome} (h : ConformingCommit s transaction outcome t) :
    t = s ∨ ∃ generation, t = s.apply transaction generation ∧
      generation.toNat = s.generation.toNat + 1 ∧
      s.receipts.get transaction.id = none ∧ s.accepts transaction = true := by
  cases h with
  | applied hnew haccepts hgeneration _ =>
    exact .inr ⟨_, rfl, by simpa using checkedAdd_eq_some.mp hgeneration, hnew, haccepts⟩
  | _ => exact .inl rfl

/-! ## Runs -/

/-- A prepared transaction with the call and the snapshot it came from. -/
structure Submission where
  call : EngineCall
  snapshot : StoreSnapshot
  prepared : PreparedTransaction

/-- One commit of a run. -/
structure CommitRecord where
  submission : Submission
  before : ReferenceState
  outcome : Result CommitOutcome
  after : ReferenceState

namespace CommitRecord

def transaction (r : CommitRecord) : StoreTransaction := r.submission.prepared.transaction

def id (r : CommitRecord) : TransactionId := r.transaction.id

/-- The transaction was applied to the entries. -/
def Applied (r : CommitRecord) : Prop := r.after ≠ r.before

/-- The commit forgot the receipt of `t`. -/
def Forgets (t : TransactionId) (r : CommitRecord) : Prop :=
  r.Applied ∧ ∃ digest, .forgetReceipt t digest ∈ r.transaction.operations

end CommitRecord

/-- The state of a run: the store, the snapshots taken, the transactions prepared and
    the commits made, newest first. -/
structure Engine where
  store : ReferenceState
  snapshots : List StoreSnapshot
  submissions : List Submission
  log : List CommitRecord

namespace Engine

inductive Step : Engine → Engine → Prop where
  | takeSnapshot {s} : Step s { s with snapshots := s.store.snapshot :: s.snapshots }
  | prepare {s} {call : EngineCall} {snapshot : StoreSnapshot} {prepared : PreparedTransaction}
      (hsnapshot : snapshot ∈ s.snapshots) (hprepares : call.prepares snapshot = some prepared) :
      Step s { s with submissions := ⟨call, snapshot, prepared⟩ :: s.submissions }
  | commit {s} {submission : Submission} {outcome : Result CommitOutcome} {after : ReferenceState}
      (hsubmission : submission ∈ s.submissions)
      (hcommit : ConformingCommit s.store submission.prepared.transaction outcome after) :
      Step s { s with store := after, log := ⟨submission, s.store, outcome, after⟩ :: s.log }

/-- A run starts on a fresh store. -/
def Fresh (s : Engine) : Prop :=
  (∃ generation, s.store = .fresh generation) ∧ s.snapshots = [] ∧ s.submissions = [] ∧ s.log = []

def system : TransitionSystem Engine := ⟨Fresh, Step⟩

end Engine

end Radiata
