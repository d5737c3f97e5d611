import Radiata.ForStd.Concurrent
import Radiata.Native.MetadataRecord

/-!
# Programs over the metadata store

The operations of the identity layer are asynchronous functions over one `MetadataStore` and one
key provider. Here they are programs: a call takes a snapshot, prepares a transaction, enters or
leaves the commit slot of the store, or asks a provider. This file has the calls, the functions
of `src/storage/mod.rs` and `src/storage/pending.rs` that the identity layer uses, and the shared
functions of `src/identity/lifecycle.rs`.

Transaction ids are drawn at random and never twice, so an id stands for the id with its digest.
The store behind the slot is any conforming conditional store. The future of an operation may be
dropped while it waits for the provider (`none`), and then the provider may or may not have done
its work.
-/

namespace Radiata

/-! ## State -/

structure RecordTransaction where
  id : TransactionId
  batch : StoreBatch MetadataKey MetadataRecord
  deriving DecidableEq

/-- `CommitState` -/
inductive CommitSlot where
  | ready
  | frozen (pending : TransactionId) (journalProven providerCallActive : Bool)
  deriving DecidableEq

/-- What is durable, with the transactions that were applied to it and those prepared so far. -/
structure Disk where
  store : RecordStore
  receipts : List RecordTransaction
  prepared : List RecordTransaction

structure NodeStore where
  slot : CommitSlot
  disk : Disk

/-! ## Calls -/

/-- `CommitOutcome` -/
inductive StoreOutcome where
  | committed
  | aborted
  | conflict
  | unknown
  deriving DecidableEq

/-- `ReconcileOutcome` -/
inductive StoreReconcile where
  | committed
  | aborted
  | digestConflict
  | unknown
  deriving DecidableEq

structure CreatedKey where
  handle : KeyHandle
  publicKey : PublicKey
  deriving DecidableEq

inductive KeyCreateState where
  | present (created : CreatedKey)
  | absent
  | unknown

inductive KeyDeleteState where
  | present
  | absent
  | unknown
  deriving DecidableEq

inductive NodeCall where
  | snapshot
  /-- `TransactionId::generate` and the builder of the transaction. -/
  | prepare (base : Nat) (actions : List RecordAction) (journal : Option JournalPurpose)
  | beginCommit (transaction : TransactionId)
  | providerCommit (transaction : RecordTransaction)
  /-- `own` is the transaction whose outcome the caller asks for; the source takes the one the
      store is frozen on. -/
  | beginReconcile (own : Option TransactionId)
  | providerReconcile (transaction : TransactionId)
  | finishReady
  | finishFrozen
  | dropProviderCall
  | freezeJournaled (transaction : TransactionId)
  | isReady
  | generateNode
  | generateOperation
  | sign (handle : KeyHandle) (message : Bytes)
  | createKey (operation : KeyOperationId)
  | reconcileCreate (operation : KeyOperationId)
  | publicKey (handle : KeyHandle)
  | deleteKey (operation : KeyOperationId) (handle : KeyHandle)
  | reconcileDelete (operation : KeyOperationId) (handle : KeyHandle)

namespace NodeCall

@[reducible] def Answer : NodeCall → Type
  | snapshot => Result RecordStore
  | prepare _ _ _ => Result RecordTransaction
  | beginCommit _ => Result Unit
  | providerCommit _ => Option (Result StoreOutcome)
  | beginReconcile _ => Result (TransactionId × Bool)
  | providerReconcile _ => Option (Result StoreReconcile)
  | finishReady => Unit
  | finishFrozen => Result Unit
  | dropProviderCall => Unit
  | freezeJournaled _ => Result Unit
  | isReady => Bool
  | generateNode => Result NodeId
  | generateOperation => Result KeyOperationId
  | sign _ _ => Result Signature
  | createKey _ => Result KeyCreateState
  | reconcileCreate _ => Result KeyCreateState
  | publicKey _ => Result PublicKey
  | deleteKey _ _ => Result KeyDeleteState
  | reconcileDelete _ _ => Result KeyDeleteState

/-- The calls before which a future can be dropped. -/
def isAwait : NodeCall → Bool
  | snapshot => true
  | beginCommit _ => true
  | beginReconcile _ => true
  | sign _ _ => true
  | createKey _ => true
  | reconcileCreate _ => true
  | publicKey _ => true
  | deleteKey _ _ => true
  | reconcileDelete _ _ => true
  | _ => false

/-- A single call. -/
def perform (call : NodeCall) : Prog NodeCall Answer call.Answer := Prog.perform call

end NodeCall

/-! ## Answers -/

/-- The journal record of a prepared transaction. -/
def journalAction (id : TransactionId) : Option JournalPurpose → List RecordAction
  | none => []
  | some purpose => [.put (.pendingTransaction purpose) none (.pendingTransaction id)]

/-- What a builder makes of the caller's operations. -/
def prepared (id : TransactionId) (base : Nat) (actions : List RecordAction)
    (journal : Option JournalPurpose) : RecordTransaction :=
  ⟨id, base, actions ++ journalAction id journal⟩

namespace Disk

/-- The transaction is applied. -/
def applied (disk : Disk) (transaction : RecordTransaction) : Disk :=
  { disk with
    store := disk.store.apply transaction.batch
    receipts := transaction :: disk.receipts }

/-- An answer that leaves open whether the transaction was applied. -/
def Unsettled : Option (Result StoreOutcome) → Prop
  | none => True
  | some (.ok .unknown) => True
  | some (.ok _) => False
  | some (.error _) => True

/-- A commit of a conforming conditional store, which may leave any transaction unapplied. -/
inductive Commits (disk : Disk) (transaction : RecordTransaction) :
    Option (Result StoreOutcome) → Disk → Prop where
  | replayed : transaction ∈ disk.receipts → Commits disk transaction (some (.ok .committed)) disk
  | refused : Commits disk transaction (some (.ok .conflict)) disk
  | applied (answer : Option (Result StoreOutcome)) :
      transaction ∉ disk.receipts → disk.store.accepts transaction.batch = true →
      answer = some (.ok .committed) ∨ Unsettled answer →
      Commits disk transaction answer (disk.applied transaction)
  | failed (answer : Option (Result StoreOutcome)) :
      answer = some (.ok .aborted) ∨ Unsettled answer → Commits disk transaction answer disk

/-- A reconciliation of a conforming conditional store. -/
inductive Reconciles (disk : Disk) (id : TransactionId) : Option (Result StoreReconcile) → Prop where
  | committed (transaction : RecordTransaction) : transaction ∈ disk.receipts →
      transaction.id = id → Reconciles disk id (some (.ok .committed))
  | aborted : (∀ transaction ∈ disk.receipts, transaction.id ≠ id) →
      Reconciles disk id (some (.ok .aborted))
  | unknown : Reconciles disk id (some (.ok .unknown))
  | failed (error : Error) : Reconciles disk id (some (.error error))
  | dropped : Reconciles disk id none

end Disk

/-- What a call may answer, and the state after it. The key provider answers anything. -/
def NodeCall.answers : (call : NodeCall) → NodeStore → call.Answer → NodeStore → Prop
  | .snapshot, s, answer, t => t = s ∧ (answer = .ok s.disk.store ∨ ∃ error, answer = .error error)
  | .prepare base actions journal, s, answer, t =>
    (∃ error, answer = .error error ∧ t = s) ∨
      ∃ id, (∀ transaction ∈ s.disk.prepared, transaction.id ≠ id) ∧
        (prepared id base actions journal).batch.keys.Nodup ∧
        answer = .ok (prepared id base actions journal) ∧
        t = { s with disk := { s.disk with
          prepared := prepared id base actions journal :: s.disk.prepared } }
  | .beginCommit id, s, answer, t =>
    match s.slot with
    | .ready => answer = .ok () ∧ t = { s with slot := .frozen id false true }
    | .frozen _ _ _ => answer = .error (.notReady "metadata storage commit") ∧ t = s
  | .providerCommit transaction, s, answer, t =>
    t.slot = s.slot ∧ s.disk.Commits transaction answer t.disk
  | .beginReconcile _, s, answer, t =>
    match s.slot with
    | .frozen id journalProven false =>
      answer = .ok (id, journalProven) ∧ t = { s with slot := .frozen id journalProven true }
    | _ => answer = .error (.notReady "metadata storage reconcile") ∧ t = s
  | .providerReconcile id, s, answer, t => t = s ∧ s.disk.Reconciles id answer
  | .finishReady, s, _, t => t = { s with slot := .ready }
  | .finishFrozen, s, answer, t =>
    match s.slot with
    | .frozen id journalProven _ =>
      answer = .ok () ∧ t = { s with slot := .frozen id journalProven false }
    | .ready => answer = .error (.internal "metadata storage commit state") ∧ t = s
  | .dropProviderCall, s, _, t =>
    match s.slot with
    | .frozen id journalProven _ => t = { s with slot := .frozen id journalProven false }
    | .ready => t = s
  | .freezeJournaled id, s, answer, t =>
    match s.slot with
    | .ready => answer = .ok () ∧ t = { s with slot := .frozen id true false }
    | .frozen pending _ providerCallActive =>
      if pending = id then answer = .ok () ∧ t = { s with slot := .frozen id true providerCallActive }
      else answer = .error (.notReady "metadata storage journal recovery") ∧ t = s
  | .isReady, s, answer, t => t = s ∧ answer = decide (s.slot = .ready)
  | _, s, _, t => t = s

/-- The process starts again: the store is opened anew. -/
def NodeStore.Restarts (s t : NodeStore) : Prop := t = { s with slot := .ready }

/-! ## The metadata store -/

abbrev NodeM (α : Type) := ExceptT Error (Prog NodeCall NodeCall.Answer) α

namespace NodeM

def snapshot : NodeM RecordStore := ExceptT.mk (NodeCall.perform .snapshot)

def prepare (base : Nat) (actions : List RecordAction) (journal : Option JournalPurpose) :
    NodeM RecordTransaction := ExceptT.mk (NodeCall.perform (.prepare base actions journal))

def beginCommit (id : TransactionId) : NodeM Unit := ExceptT.mk (NodeCall.perform (.beginCommit id))

def providerCommit (transaction : RecordTransaction) : NodeM (Option (Result StoreOutcome)) :=
  ExceptT.lift (NodeCall.perform (.providerCommit transaction))

def beginReconcile (own : Option TransactionId) : NodeM (TransactionId × Bool) :=
  ExceptT.mk (NodeCall.perform (.beginReconcile own))

def providerReconcile (id : TransactionId) : NodeM (Option (Result StoreReconcile)) :=
  ExceptT.lift (NodeCall.perform (.providerReconcile id))

def finishReady : NodeM Unit := ExceptT.lift (NodeCall.perform .finishReady)

def dropProviderCall : NodeM Unit := ExceptT.lift (NodeCall.perform .dropProviderCall)

def freezeJournaled (id : TransactionId) : NodeM Unit :=
  ExceptT.mk (NodeCall.perform (.freezeJournaled id))

def isReady : NodeM Bool := ExceptT.lift (NodeCall.perform .isReady)

def generateNode : NodeM NodeId := ExceptT.mk (NodeCall.perform .generateNode)

def generateOperation : NodeM KeyOperationId := ExceptT.mk (NodeCall.perform .generateOperation)

def sign (handle : KeyHandle) (message : Bytes) : NodeM Signature :=
  ExceptT.mk (NodeCall.perform (.sign handle message))

def createKey (operation : KeyOperationId) : NodeM KeyCreateState :=
  ExceptT.mk (NodeCall.perform (.createKey operation))

def reconcileCreate (operation : KeyOperationId) : NodeM KeyCreateState :=
  ExceptT.mk (NodeCall.perform (.reconcileCreate operation))

def publicKey (handle : KeyHandle) : NodeM PublicKey := ExceptT.mk (NodeCall.perform (.publicKey handle))

def deleteKey (operation : KeyOperationId) (handle : KeyHandle) : NodeM KeyDeleteState :=
  ExceptT.mk (NodeCall.perform (.deleteKey operation handle))

def reconcileDelete (operation : KeyOperationId) (handle : KeyHandle) : NodeM KeyDeleteState :=
  ExceptT.mk (NodeCall.perform (.reconcileDelete operation handle))

/-- A `Result` as a step of a program. -/
def ofResult {α : Type} (result : Result α) : NodeM α := ExceptT.mk (pure result)

end NodeM

open NodeM

/-- Any number of operations on one store. -/
def nodeSchedule {Λ α : Type} (operation : Λ → NodeM α) (starts : Λ → NodeStore → List Λ → Prop) :
    Schedule Λ NodeCall NodeCall.Answer (Result α) NodeStore where
  program := fun label => (operation label).run
  answers := NodeCall.answers
  starts := starts
  interruptible := fun call => call.isAwait = true
  resets := NodeStore.Restarts

/-- `finish_frozen`; an error drops the guard. -/
def finishFrozenSlot : NodeM Unit := do
  match ← ExceptT.lift (NodeCall.perform .finishFrozen) with
  | .ok () => return ()
  | .error error =>
    dropProviderCall
    throw error

/-- `MetadataStore::commit` -/
def commitRecords (transaction : RecordTransaction) : NodeM StoreOutcome := do
  beginCommit transaction.id
  match ← providerCommit transaction with
  | none =>
    dropProviderCall
    throw ⟨.cancelled, "metadata storage commit"⟩
  | some (.ok .unknown) =>
    finishFrozenSlot
    return .unknown
  | some (.ok outcome) =>
    finishReady
    return outcome
  | some (.error error) =>
    if error.kind = .commitUnknown then finishFrozenSlot else finishReady
    throw error

/-- `MetadataStore::reconcile` -/
def reconcileRecords (own : Option TransactionId) : NodeM StoreReconcile := do
  let (pending, journalProven) ← beginReconcile own
  match ← providerReconcile pending with
  | none =>
    dropProviderCall
    throw ⟨.cancelled, "metadata storage reconcile"⟩
  | some (.ok .committed) =>
    finishReady
    return .committed
  | some (.ok .aborted) =>
    if journalProven then
      finishFrozenSlot
      throw (.provider .storageCorrupt .storageReconcile)
    finishReady
    return .aborted
  | some (.ok outcome) =>
    finishFrozenSlot
    return outcome
  | some (.error error) =>
    finishFrozenSlot
    throw error

def reconcileCorrupt : Error := .provider .storageCorrupt .storageReconcile
def reconcileUnknown : Error := .provider .commitUnknown .storageReconcile
def discoveryCorrupt : Error := .provider .storageCorrupt .storageSnapshot

/-- `reconcile_if_frozen` -/
def reconcileFrozen : NodeM Unit := do
  if ← isReady then return ()
  match ← reconcileRecords none with
  | .committed => return ()
  | .aborted => return ()
  | .digestConflict => throw reconcileCorrupt
  | .unknown => throw reconcileUnknown

/-- `recover_pending` -/
def recoverPending (purpose : JournalPurpose) : NodeM (Option TransactionId) := do
  let snapshot ← snapshot
  match snapshot.lookup (.pendingTransaction purpose) with
  | none => return none
  | some stored =>
    let id ← ofResult (Except.okOr discoveryCorrupt stored.asPendingTransaction)
    freezeJournaled id
    return some id

/-- `PendingCleanupOutcome` -/
inductive JournalCleanup where
  | applied
  | absent
  | aborted
  | conflict
  | unknown (id : TransactionId)
  deriving DecidableEq

/-- `cleanup_pending` -/
def cleanupJournal (purpose : JournalPurpose) : NodeM JournalCleanup := do
  let snapshot ← snapshot
  match snapshot.lookup (.pendingTransaction purpose) with
  | none => return .absent
  | some stored =>
    let _ ← ofResult (Except.okOr discoveryCorrupt stored.asPendingTransaction)
    let transaction ← prepare snapshot.revision [.delete (.pendingTransaction purpose) stored] none
    match ← commitRecords transaction with
    | .committed => return .applied
    | .aborted => return .aborted
    | .conflict => return .conflict
    | .unknown => return .unknown transaction.id

/-! ## Shared functions of the lifecycle -/

/-- One iteration of `cleanup_pending_exact`, with what follows an abort. -/
def cleanupPendingOnce (purpose : JournalPurpose) (context : String) (retry : NodeM Unit) :
    NodeM Unit := do
  match ← cleanupJournal purpose with
  | .applied => return ()
  | .absent => return ()
  | .conflict => throw (.conflict context)
  | .aborted => retry
  | .unknown id =>
    match ← reconcileRecords (some id) with
    | .committed => return ()
    | .aborted => retry
    | .digestConflict => throw reconcileCorrupt
    | .unknown => throw reconcileUnknown

/-- `cleanup_pending_exact`: at most two attempts. -/
def cleanupPendingExact (purpose : JournalPurpose) (context : String) : NodeM Unit :=
  cleanupPendingOnce purpose context
    (cleanupPendingOnce purpose context (throw (.conflict context)))

def reconcileRecoveredJournal (id : TransactionId) : NodeM Unit := do
  match ← reconcileRecords (some id) with
  | .committed => return ()
  | .aborted => throw reconcileCorrupt
  | .digestConflict => throw reconcileCorrupt
  | .unknown => throw reconcileUnknown

def recoverJournalPrologue (purpose : JournalPurpose) (context : String) : NodeM Bool := do
  match ← recoverPending purpose with
  | some id =>
    reconcileRecoveredJournal id
    cleanupPendingExact purpose context
    return true
  | none =>
    reconcileFrozen
    return false

inductive CommitWithReconcile where
  | committed
  | aborted
  deriving DecidableEq

/-- What `commit_with_reconcile` makes of the outcome of the commit. -/
def settleCommit (transaction : RecordTransaction) : StoreOutcome → NodeM CommitWithReconcile
  | .committed => return .committed
  | .aborted => return .aborted
  | .conflict => return .aborted
  | .unknown => do
    match ← reconcileRecords (some transaction.id) with
    | .committed => return .committed
    | .aborted => return .aborted
    | .digestConflict => throw reconcileCorrupt
    | .unknown => throw reconcileUnknown

def commitWithReconcile (transaction : RecordTransaction) : NodeM CommitWithReconcile := do
  let outcome ← commitRecords transaction
  settleCommit transaction outcome

/-- `discover_local_identity` -/
def discoverLocalIdentity (snapshot : RecordStore) : Result (Option LocalIdentityV1) :=
  match snapshot.lookup .localIdentity with
  | none => .ok none
  | some stored => do
    let record ← Except.okOr discoveryCorrupt stored.asLocalIdentity
    return some record

/-- The keys of the genesis namespace. -/
def MetadataKey.isClusterGenesis : MetadataKey → Bool
  | .clusterGenesis _ => true
  | _ => false

/-- `local_cluster` on a snapshot. -/
def localCluster (snapshot : RecordStore) : Result (Option LocalClusterPointerV1) :=
  match snapshot.lookup .localClusterPointer with
  | none => .ok none
  | some stored => do
    let pointer ← Except.okOr discoveryCorrupt stored.asLocalClusterPointer
    return some pointer

/-- `existing_cluster` on its snapshot. -/
def existingCluster [Ed25519] (snapshot : RecordStore) : Result (Option ClusterGenesisV1) := do
  let some pointer ← localCluster snapshot | return none
  match snapshot.scan MetadataKey.isClusterGenesis with
  | [(key, stored)] =>
    let genesis ← Except.okOr discoveryCorrupt stored.asClusterGenesis
    let () ← genesis.verify.mapError fun _ => discoveryCorrupt
    Except.rejectIf (key ≠ .clusterGenesis genesis.cluster ∨ genesis.cluster ≠ pointer.cluster ∨
      genesis.digest ≠ pointer.genesisDigest) discoveryCorrupt
    let value ← Except.okOr discoveryCorrupt (snapshot.lookup (.identityBinding genesis.creator))
    let binding ← Except.okOr discoveryCorrupt value.asIdentityBinding
    Except.rejectIf (binding.node ≠ genesis.creator ∨ binding.publicKey ≠ genesis.creatorKey)
      discoveryCorrupt
    return some genesis
  | _ => throw discoveryCorrupt

end Radiata
