import Radiata.ForStd.Prog
import Radiata.Native.Receipt

/-!
# The redb storage adapter

`src/storage/redb/store.rs`: one table of entries keyed by
`namespace ++ 0x00 ++ key`, one table of receipts keyed by the transaction text, and
one meta table with the generation counter. A commit is one write transaction.

The `redb` crate is the set of calls a commit makes on it, with the errors the adapter
tells apart. A database is an atomic ordered byte-string map: a write transaction
works on a copy of the tables that its commit publishes. Read transactions do not fail
here, and neither does joining the blocking task.
-/

namespace Radiata

/-! ## Calls and errors of the crate -/

inductive RedbTable where
  | entriesTable
  | receiptsTable
  | metaTable
  deriving DecidableEq

/-- `std::io::ErrorKind` -/
inductive IoErrorKind where
  | permissionDenied
  | other
  deriving DecidableEq

/-- `redb::StorageError`. It and the errors below are non-exhaustive in the crate. -/
inductive StorageError where
  | corrupted
  | valueTooLarge
  | io (kind : IoErrorKind)
  | previousIo
  | other
  deriving DecidableEq

/-- `redb::CommitError` -/
inductive CommitError where
  | storage (error : StorageError)
  | other
  deriving DecidableEq

/-- `redb::SetDurabilityError` -/
inductive SetDurabilityError where
  | persistentSavepointModified
  | other
  deriving DecidableEq

/-- `redb::TransactionError` -/
inductive TransactionError where
  | storage (error : StorageError)
  | other
  deriving DecidableEq

/-- `redb::TableError` -/
inductive TableError where
  | tableDoesNotExist
  | tableTypeMismatch
  | typeDefinitionChanged
  | storage (error : StorageError)
  | tableIsMultimap
  | tableIsNotMultimap
  | tableExists
  | other
  deriving DecidableEq

/-- A call of a write transaction. -/
inductive RedbCall where
  | beginWrite
  | setDurability
  | openTable (table : RedbTable)
  | get (table : RedbTable) (key : Bytes)
  | insert (table : RedbTable) (key value : Bytes)
  | remove (table : RedbTable) (key : Bytes)
  | commit
  deriving DecidableEq

namespace RedbCall

@[reducible] def Err : RedbCall → Type
  | beginWrite => TransactionError
  | setDurability => SetDurabilityError
  | openTable _ => TableError
  | get _ _ => StorageError
  | insert _ _ _ => StorageError
  | remove _ _ => StorageError
  | commit => CommitError

@[reducible] def Value : RedbCall → Type
  | get _ _ => Option Bytes
  | _ => Unit

@[reducible] def Answer (call : RedbCall) : Type := Except call.Err call.Value

end RedbCall

/-- A fallible part of a commit. -/
abbrev RedbM (α : Type) := ExceptT Error (Prog RedbCall RedbCall.Answer) α

/-- A call followed by `map_err`. -/
def RedbCall.attempt (call : RedbCall) (mapError : call.Err → Error) : RedbM call.Value :=
  ExceptT.mk (Prog.perform call >>= fun answer => pure (answer.mapError mapError))

/-! ## Error mapping -/

def mapStorageError (error : StorageError) (context : ProviderErrorContext) : Error :=
  let kind := match error with
    | .corrupted => ProviderErrorKind.storageCorrupt
    | .valueTooLarge => .resourceExhausted
    | .io .permissionDenied => .permissionDenied
    | .io .other => .io
    | .previousIo => .io
    | .other => .internal
  .provider kind context

def mapCommitError (error : CommitError) (context : ProviderErrorContext) : Error :=
  match error with
  | .storage storage => mapStorageError storage context
  | .other => .provider .io context

def mapDurabilityError (error : SetDurabilityError) (context : ProviderErrorContext) : Error :=
  match error with
  | .persistentSavepointModified => .provider .storageCorrupt context
  | .other => .provider .io context

def mapTransactionError (error : TransactionError) (context : ProviderErrorContext) : Error :=
  match error with
  | .storage storage => mapStorageError storage context
  | .other => .provider .internal context

def mapTableError (error : TableError) (context : ProviderErrorContext) : Error :=
  match error with
  | .tableDoesNotExist | .tableTypeMismatch | .typeDefinitionChanged =>
    .provider .storageCorrupt context
  | .storage storage => mapStorageError storage context
  | .tableIsMultimap | .tableIsNotMultimap | .tableExists => .provider .io context
  | .other => .provider .io context

/-! ## Keys and values -/

def revisionMetaKey : Bytes := Bytes.utf8 "revision"
def receiptValueBytes : Nat := 40

def compositePrefix [DnsName] (namespaceTag : StoreNamespace) (keyPrefix : Bytes) : Bytes :=
  namespaceTag.asStr ++ 0 :: keyPrefix

def compositeKey [DnsName] (namespaceTag : StoreNamespace) (key : StoreKey) : Bytes :=
  namespaceTag.asStr ++ 0 :: key.asBytes

/-- `u64::from_be_bytes` of an 8-byte slice. -/
def decodeRevision (bytes : Bytes) : Result UInt64 :=
  if bytes.length = 8 then .ok (UInt64.ofNat (Bytes.ofBE bytes))
  else .error (.invalidInput "redb store revision")

def encodeReceipt (digest : Digest) (generation : UInt64) : Bytes :=
  digest.asBytes ++ u64ToBEBytes generation

/-- The match of `current_generation` on the stored counter. -/
def decodeGeneration : Option Bytes → Result UInt64
  | some bytes => decodeRevision bytes
  | none => .ok 0

/-- The match of `read_receipt` on the stored value. -/
def decodeReceipt (transaction : TransactionId) : Option Bytes → Result (Option CommitReceipt)
  | none => .ok none
  | some bytes =>
    -- of the 40 bytes the first 32 are the digest; the slice conversion cannot fail after this
    if h : bytes.length = receiptValueBytes then do
      let digest : Digest := ⟨bytes.take 32, by rw [List.length_take, h]; rfl⟩
      let generation ← decodeRevision (bytes.drop 32)
      let revision ← StoreRevision.new (u64ToBEBytes generation)
      return some ⟨transaction, digest, revision⟩
    else .error (.provider .storageCorrupt .storageReconcile)

/-! ## Commit -/

section Commit

variable [DnsName]

def currentGeneration (context : ProviderErrorContext) : RedbM UInt64 := do
  let stored ← RedbCall.attempt (.get .metaTable revisionMetaKey) (mapStorageError · context)
  ExceptT.mk (pure (decodeGeneration stored))

def readReceipt (transaction : TransactionId) : RedbM (Option CommitReceipt) := do
  let stored ← RedbCall.attempt (.get .receiptsTable transaction.asStr)
    (mapStorageError · .storageReconcile)
  ExceptT.mk (pure (decodeReceipt transaction stored))

/-- `entries.get` of the write transaction, as an owned value. -/
def readEntry (namespaceTag : StoreNamespace) (key : StoreKey) : RedbM (Option StoreValue) := do
  let stored ← RedbCall.attempt (.get .entriesTable (compositeKey namespaceTag key))
    (mapStorageError · .storageCommit)
  return stored.map StoreValue.mk

def expectationMatchesTable (namespaceTag : StoreNamespace) (key : StoreKey)
    (expected : StoreExpectation) : RedbM Bool := do
  let stored ← readEntry namespaceTag key
  return expectationMatches stored expected

/-- The match of the condition loop. -/
def conditionMatchesTable : StoreOperation → RedbM Bool
  | .check namespaceTag key expected => expectationMatchesTable namespaceTag key expected
  | .put namespaceTag key expected _ => expectationMatchesTable namespaceTag key expected
  | .delete namespaceTag key expected => do
    let stored ← readEntry namespaceTag key
    return stored.any (fun value => value.digest == expected)
  | .forgetReceipt forgotten expectedOperationDigest => do
    let receipt ← readReceipt forgotten
    return receipt.any (fun receipt => receipt.operationDigest == expectedOperationDigest)

/-- The condition loop: it stops at the first operation that does not match. -/
def checkConditions : List StoreOperation → RedbM Bool
  | [] => pure true
  | operation :: operations => do
    let holds ← conditionMatchesTable operation
    if holds then checkConditions operations else pure false

/-- The match of the apply loop. A receipt is removed whatever its digest. -/
def applyToTables : StoreOperation → RedbM Unit
  | .check _ _ _ => pure ()
  | .put namespaceTag key _ value =>
    RedbCall.attempt (.insert .entriesTable (compositeKey namespaceTag key) value.asBytes)
      (mapStorageError · .storageCommit)
  | .delete namespaceTag key _ =>
    RedbCall.attempt (.remove .entriesTable (compositeKey namespaceTag key))
      (mapStorageError · .storageCommit)
  | .forgetReceipt forgotten _ =>
    RedbCall.attempt (.remove .receiptsTable forgotten.asStr) (mapStorageError · .storageCommit)

/-- The apply loop. -/
def applyAllToTables : List StoreOperation → RedbM Unit
  | [] => pure ()
  | operation :: operations => do
    applyToTables operation
    applyAllToTables operations

/-- How the block before `write.commit()` ends: with an early return, or with the
    receipt of the transaction it has staged. -/
inductive Staged where
  | settled (outcome : CommitOutcome)
  | receipt (receipt : CommitReceipt)
  deriving DecidableEq

/-- The part of the block after every condition has matched. -/
def stageOperations (transaction : StoreTransaction) (generation : UInt64) :
    RedbM CommitReceipt := do
  match checkedAdd generation 1 with
  | none => throw (.provider .resourceExhausted .storageCommit)
  | some nextGeneration =>
    applyAllToTables transaction.operations
    RedbCall.attempt (.insert .metaTable revisionMetaKey (u64ToBEBytes nextGeneration))
      (mapStorageError · .storageCommit)
    let revision ← ExceptT.mk (pure (StoreRevision.new (u64ToBEBytes nextGeneration)))
    RedbCall.attempt (.insert .receiptsTable transaction.id.asStr
      (encodeReceipt transaction.operationDigest nextGeneration)) (mapStorageError · .storageCommit)
    return ⟨transaction.id, transaction.operationDigest, revision⟩

/-- The part of the block for a transaction without a receipt. -/
def stageFresh (transaction : StoreTransaction) : RedbM Staged := do
  if transaction.operationDigest ≠ transaction.computedOperationDigest then
    return .settled .conflict
  else
    let generation ← currentGeneration .storageCommit
    if transaction.baseRevision.asBytes ≠ u64ToBEBytes generation then
      return .settled .conflict
    else
      let holds ← checkConditions transaction.operations
      if holds then
        let receipt ← stageOperations transaction generation
        return .receipt receipt
      else return .settled .conflict

/-- `commit_blocking` up to `write.commit()`. -/
def stage (transaction : StoreTransaction) : RedbM Staged := do
  RedbCall.attempt .beginWrite (mapTransactionError · .storageCommit)
  RedbCall.attempt .setDurability (mapDurabilityError · .storageCommit)
  RedbCall.attempt (.openTable .entriesTable) (mapTableError · .storageCommit)
  RedbCall.attempt (.openTable .receiptsTable) (mapTableError · .storageCommit)
  RedbCall.attempt (.openTable .metaTable) (mapTableError · .storageCommit)
  -- an existing receipt for the same transaction is authoritative
  match ← readReceipt transaction.id with
  | some existing =>
    return .settled (if existing.operationDigest = transaction.operationDigest then
      .committed existing else .conflict)
  | none => stageFresh transaction

def commitBlocking (transaction : StoreTransaction) : RedbM CommitOutcome := do
  match ← stage transaction with
  | .settled outcome => return outcome
  | .receipt receipt =>
    RedbCall.attempt .commit (mapCommitError · .storageCommit)
    return .committed receipt

end Commit

/-! ## The database -/

structure RedbTables where
  entries : SortedMap Bytes Bytes
  receipts : SortedMap Bytes Bytes
  metadata : SortedMap Bytes Bytes
  deriving DecidableEq

namespace RedbTables

def read (tables : RedbTables) : RedbTable → SortedMap Bytes Bytes
  | .entriesTable => tables.entries
  | .receiptsTable => tables.receipts
  | .metaTable => tables.metadata

def modify (tables : RedbTables) (f : SortedMap Bytes Bytes → SortedMap Bytes Bytes) :
    RedbTable → RedbTables
  | .entriesTable => { tables with entries := f tables.entries }
  | .receiptsTable => { tables with receipts := f tables.receipts }
  | .metaTable => { tables with metadata := f tables.metadata }

/-- What opening a database does to its tables. -/
def initializeTables (tables : RedbTables) : RedbTables :=
  if (tables.metadata.get revisionMetaKey).isNone then
    tables.modify (·.insert revisionMetaKey (u64ToBEBytes 0)) .metaTable
  else tables

/-- The tables of a new database. -/
def fresh : RedbTables := initializeTables ⟨.empty, .empty, .empty⟩

end RedbTables

/-- The published tables and the copy the write transaction works on. Dropping a write
    transaction leaves the published tables as they are. -/
structure RedbDatabase where
  committed : RedbTables
  working : RedbTables

/-- A call that works. -/
def RedbCall.perform : (call : RedbCall) → RedbDatabase → call.Value × RedbDatabase
  | .beginWrite, database => ((), { database with working := database.committed })
  | .setDurability, database => ((), database)
  | .openTable _, database => ((), database)
  | .get table key, database => ((database.working.read table).get key, database)
  | .insert table key value, database =>
    ((), { database with working := database.working.modify (·.insert key value) table })
  | .remove table key, database =>
    ((), { database with working := database.working.modify (·.erase key) table })
  | .commit, database => ((), { database with committed := database.working })

/-- A database whose calls all work. -/
def RedbDatabase.handle (call : RedbCall) (database : RedbDatabase) :
    call.Answer × RedbDatabase :=
  (.ok (call.perform database).1, (call.perform database).2)

/-! ## Snapshots, scans and reconciliation -/

/-- A read transaction: the tables published when it began. -/
structure RedbSnapshot where
  tables : RedbTables
  revision : StoreRevision

/-- The position of a scan: the rest of the ordered range, and the bound it started at. -/
structure RedbScan [DnsName] where
  range : List (Bytes × Bytes)
  namespaceTag : StoreNamespace
  bound : Bytes
  baseLen : Nat

section Reads

variable [DnsName]

/-- `RedbStorage::snapshot` -/
def RedbDatabase.snapshot (database : RedbDatabase) : Result RedbSnapshot := do
  let generation ← decodeGeneration (database.committed.metadata.get revisionMetaKey)
  let revision ← StoreRevision.new (u64ToBEBytes generation)
  return ⟨database.committed, revision⟩

def RedbSnapshot.get (snapshot : RedbSnapshot) (namespaceTag : StoreNamespace) (key : StoreKey) :
    Option StoreValue :=
  (snapshot.tables.entries.get (compositeKey namespaceTag key)).map StoreValue.mk

def RedbSnapshot.scan (snapshot : RedbSnapshot) (namespaceTag : StoreNamespace)
    (keyPrefix : Bytes) : RedbScan where
  range := snapshot.tables.entries.entriesFrom (compositePrefix namespaceTag keyPrefix)
  namespaceTag := namespaceTag
  bound := compositePrefix namespaceTag keyPrefix
  baseLen := namespaceTag.asStr.length + 1

/-- The first key without the prefix ends the ordered scan. -/
def RedbScan.next (scan : RedbScan) : Option StoreEntry × RedbScan :=
  match scan.range with
  | [] => (none, scan)
  | (bytes, value) :: range =>
    if ¬ scan.bound <+: bytes then (none, { scan with range := range })
    else (some ⟨scan.namespaceTag, ⟨bytes.drop scan.baseLen⟩, ⟨value⟩⟩, { scan with range := range })

/-- `RedbStorage::reconcile` -/
def RedbDatabase.reconcile (database : RedbDatabase) (transaction : TransactionId)
    (digest : Digest) : Result ReconcileOutcome := do
  let receipt ← decodeReceipt transaction (database.committed.receipts.get transaction.asStr)
  match receipt with
  | some existing =>
    return if existing.operationDigest = digest then .committed existing else .digestConflict
  | none => return .aborted

end Reads

/-! ## Faults -/

/-- A failing `write.commit()`: the error it reports, and whether the transaction had
    become durable before. -/
structure CommitFault where
  error : CommitError
  durable : Bool
  deriving DecidableEq

/-- The faults of one commit: `calls` for the calls before `write.commit()`, in the order
    they are made, and `commit` for `write.commit()` itself. -/
structure RedbFaults where
  calls : Nat → (call : RedbCall) → Option call.Err
  commit : Option CommitFault

/-- A database under faults. `made` counts the calls, and `commitInvoked` says whether
    `write.commit()` was one of them. -/
structure RedbWorld where
  database : RedbDatabase
  made : Nat
  commitInvoked : Bool

namespace RedbWorld

/-- `write.commit()` under its fault. -/
def handleCommit (fault : Option CommitFault) (database : RedbDatabase) :
    Except CommitError Unit × RedbDatabase :=
  match fault with
  | none => (.ok (), (RedbCall.perform .commit database).2)
  | some fault =>
    (.error fault.error, if fault.durable then (RedbCall.perform .commit database).2 else database)

/-- Any other call under its fault: a call that fails changes nothing. -/
def handleCall (call : RedbCall) (fault : Option call.Err) (database : RedbDatabase) :
    call.Answer × RedbDatabase :=
  match fault with
  | none => database.handle call
  | some error => (.error error, database)

def handle (faults : RedbFaults) : (call : RedbCall) → RedbWorld → call.Answer × RedbWorld
  | .commit, world =>
    let (answer, database) := handleCommit faults.commit world.database
    (answer, ⟨database, world.made + 1, true⟩)
  | call, world =>
    let (answer, database) := handleCall call (faults.calls world.made call) world.database
    (answer, { world with database := database, made := world.made + 1 })

end RedbWorld

end Radiata
