import Radiata.ForStd.FileSystem
import Radiata.ForStd.Text
import Radiata.Native.JsonDocument
import Radiata.Native.Receipt

/-!
# The JSON generation store

`src/storage/json/store.rs`: every commit writes the complete next state as a new
immutable file `gen-<number>-<txn>.json`, through a temporary file that is renamed.
The store keeps the newest state in memory as its `Head`; reopening rebuilds the head
from the directory, validating the whole chain.

The directory is the calls a commit makes on it. The lock, the header file and opening
itself are not modelled, nor are failures to lock the head.
-/

namespace Radiata

/-- Unsigned order of generation numbers. -/
instance instLinearOrderGeneration : LinearOrder UInt64 where
  le_refl := UInt64.le_refl
  le_trans := fun _ _ _ => UInt64.le_trans
  le_antisymm := fun _ _ => UInt64.le_antisymm
  le_total := UInt64.le_total
  lt_iff_le_not_ge := by
    intro a b
    rw [UInt64.lt_iff_toNat_lt, UInt64.le_iff_toNat_le, UInt64.le_iff_toNat_le]
    omega
  toDecidableLE := inferInstance
  toDecidableLT := inferInstance
  toDecidableEq := inferInstance

/-! ## Names -/

def generationPrefix : Bytes := Bytes.utf8 "gen-"
def tempPrefix : Bytes := Bytes.utf8 "tmp-"
def generationSuffix : Bytes := Bytes.utf8 ".json"
def tempSuffix : Bytes := Bytes.utf8 ".tmp"
def generationNumberWidth : Nat := 20
def maxGenerations : UInt64 := 1024
def maxTotalBytes : UInt64 := 4 * 1024 * 1024 * 1024

/-- The character `-`. -/
def hyphen : UInt8 := 0x2D

def fileStem (generation : UInt64) (transaction : TransactionId) : Bytes :=
  generationPrefix ++ (Bytes.padded generationNumberWidth generation.toNat
    ++ hyphen :: transaction.asStr)

def tempName (generation : UInt64) (transaction : TransactionId) : Bytes :=
  tempPrefix ++ (fileStem generation transaction ++ hyphen :: [0x30] ++ tempSuffix)

def finalName (generation : UInt64) (transaction : TransactionId) : Bytes :=
  fileStem generation transaction ++ generationSuffix

/-- `str::parse::<u64>` of a sequence of digits. -/
def parseU64 (digits : Bytes) : Option UInt64 := u64TryFrom (Bytes.ofDecimal digits)

/-- The tests of `parse_generation_name` on the number and the transaction of a name. -/
def parseNumbered (number transaction : Bytes) : Option (UInt64 × TransactionId) :=
  if number.length ≠ generationNumberWidth ∨ ¬ number.all Bytes.isDigit then none
  else do
    let generation ← parseU64 number
    if generation = 0 then none
    else do
      let transaction ← (CanonicalId.parse transaction : Result TransactionId).toOption
      return (generation, transaction)

def parseGenerationName (name : Bytes) : Option (UInt64 × TransactionId) := do
  let stem ← Bytes.stripStart generationPrefix name
  let stem ← Bytes.stripEnd generationSuffix stem
  let (number, transaction) ← Bytes.splitOnce hyphen stem
  parseNumbered number transaction

def isTempName (name : Bytes) : Bool :=
  match Bytes.stripStart tempPrefix name with
  | none => false
  | some stem =>
    match Bytes.stripEnd tempSuffix stem with
    | none => false
    | some stem =>
      match Bytes.rsplitOnce hyphen stem with
      | none => false
      | some (_, counter) => !counter.isEmpty && counter.all Bytes.isDigit

/-! ## State -/

structure Head [DnsName] where
  generation : UInt64
  digest : Digest
  storeUuid : StoreUuid
  entries : Entries
  receipts : Receipts
  totalBytes : UInt64
  deriving DecidableEq

/-- The parts of a `JsonStorage` that are fixed when it is opened. -/
structure JsonStorage where
  needsCommitBarrier : Bool
  maxGenerations : UInt64
  maxTotalBytes : UInt64

/-- The digest of an empty chain. -/
def zeroDigest : Digest := .fill 0

/-- The head of a directory without generations. -/
def Head.fresh [DnsName] (storeUuid : StoreUuid) : Head :=
  ⟨0, zeroDigest, storeUuid, .empty, .empty, 0⟩

/-! ## Errors -/

def mapIoError (error : FsError) (context : ProviderErrorContext) : Error :=
  let kind := match error with
    | .alreadyExists => ProviderErrorKind.storageLocked
    | .permissionDenied => .permissionDenied
    | .notFound | .other => .io
  .provider kind context

def mapCommitIoError (_error : FsError) : Error := .provider .commitUnknown .storageCommit

def corruptOpen : Error := .provider .storageCorrupt .storageOpen

/-! ## Preparing a commit -/

section Commit

variable [DnsName]

/-- The copies of the entries and receipts a commit works on, and the receipts it has
    removed. -/
structure Applied where
  entries : Entries
  receipts : Receipts
  forgotten : List TransactionId

/-- One iteration of the apply loop. -/
def Applied.apply (applied : Applied) : StoreOperation → Applied
  | .check _ _ _ => applied
  | .put namespaceTag key _ value =>
    { applied with entries := applied.entries.insert ⟨namespaceTag, key⟩ value }
  | .delete namespaceTag key _ =>
    { applied with entries := applied.entries.erase ⟨namespaceTag, key⟩ }
  | .forgetReceipt target expectedOperationDigest =>
    if (applied.receipts.get target).any
        (fun receipt => receipt.operationDigest == expectedOperationDigest) then
      { applied with
        receipts := applied.receipts.erase target
        forgotten := applied.forgotten ++ [target] }
    else applied

/-- What a commit writes: the next head, its receipt, and the document with its names. -/
structure CommitPlan where
  head : Head
  receipt : CommitReceipt
  documentBytes : Bytes
  tempName : Bytes
  finalName : Bytes

/-- The outcome of a commit before it touches the directory. -/
inductive CommitDecision where
  | settled (outcome : CommitOutcome)
  | write (plan : CommitPlan)

/-- The triples of entries that go into a document. -/
def documentEntries (entries : Entries) : List (Bytes × Bytes × Bytes) :=
  entries.toList.map fun (entry, value) =>
    (entry.namespaceTag.asStr, entry.key.asBytes, value.asBytes)

/-- The triples of receipts that go into a document. -/
def documentReceipts (receipts : Receipts) : List (TransactionId × Digest × StoreRevision) :=
  receipts.toList.map fun (id, receipt) =>
    (id, receipt.operationDigest, receipt.committedRevision)

/-- The input of the document that makes `transaction` the generation `next`. -/
def generationInput (head : Head) (transaction : StoreTransaction) (next : UInt64)
    (applied : Applied) (receipt : CommitReceipt) : GenerationInput where
  storeUuid := head.storeUuid
  generation := next
  parent := if 0 < head.generation then some (head.generation, head.digest) else none
  transaction := transaction.id
  operationDigest := transaction.operationDigest
  revision := receipt.committedRevision
  forgotten := applied.forgotten
  receipt := receipt
  entries := documentEntries applied.entries
  receipts := documentReceipts (applied.receipts.insert transaction.id receipt)

variable [SerdeJson]

/-- The size of the store with the document, within its limit. -/
def JsonStorage.addBytes (storage : JsonStorage) (totalBytes : UInt64) (documentBytes : Bytes) :
    Result UInt64 :=
  match u64TryFrom documentBytes.length with
  | none => .error (.resourceExhausted "json generation bytes")
  | some length =>
    match checkedAdd totalBytes length with
    | none => .error (.resourceExhausted "json store bytes")
    | some totalBytes =>
      if totalBytes > storage.maxTotalBytes then
        .error (.provider .resourceExhausted .storageCommit)
      else .ok totalBytes

/-- The plan of an accepted transaction as generation `next`. -/
def JsonStorage.planGeneration (storage : JsonStorage) (head : Head)
    (transaction : StoreTransaction) (next : UInt64) : Result CommitPlan := do
  let applied := transaction.operations.foldl Applied.apply ⟨head.entries, head.receipts, []⟩
  let revision ← (StoreRevision.new (u64ToBEBytes next)).mapError
    (fun _ => Error.internal "json revision")
  let receipt : CommitReceipt := ⟨transaction.id, transaction.operationDigest, revision⟩
  let documentBytes ← GenerationDocument.build
    (generationInput head transaction next applied receipt)
  let totalBytes ← storage.addBytes head.totalBytes documentBytes
  return {
    head := {
      generation := next
      digest := GenerationDocument.digest documentBytes
      storeUuid := head.storeUuid
      entries := applied.entries
      receipts := applied.receipts.insert transaction.id receipt
      totalBytes := totalBytes }
    receipt := receipt
    documentBytes := documentBytes
    tempName := tempName next transaction.id
    finalName := finalName next transaction.id }

/-- The next generation number, within its limit. -/
def JsonStorage.nextGeneration (storage : JsonStorage) (head : Head) : Result UInt64 :=
  match checkedAdd head.generation 1 with
  | none => .error (.resourceExhausted "json generation")
  | some next =>
    if next > storage.maxGenerations then .error (.provider .resourceExhausted .storageCommit)
    else .ok next

/-- `commit_inner` up to its first access to the directory. -/
def JsonStorage.prepareCommit (storage : JsonStorage) (head : Head)
    (transaction : StoreTransaction) : Result CommitDecision :=
  match head.receipts.get transaction.id with
  | some receipt =>
    .ok (.settled (if receipt.operationDigest = transaction.operationDigest then
      .committed receipt else .conflict))
  | none =>
    if transaction.operationDigest ≠ transaction.computedOperationDigest
        ∨ transaction.baseRevision.asBytes ≠ u64ToBEBytes head.generation
        ∨ ¬ transaction.operations.all (conditionMatches head.entries head.receipts) then
      .ok (.settled .conflict)
    else do
      let next ← storage.nextGeneration head
      let plan ← storage.planGeneration head transaction next
      return .write plan

end Commit

/-! ## Writing a generation -/

/-- The part of `write_and_rename` after the temporary file has been created. -/
def writeTemp (tempName finalName bytes : Bytes) : FsProg (Except FsError Unit) := do
  match ← Fs.writeAll tempName bytes with
  | .error e => abandon e
  | .ok () =>
    match ← Fs.syncAll tempName with
    | .error e => abandon e
    | .ok () => Fs.rename tempName finalName
where
  /-- The temporary file is removed and the error reported. -/
  abandon (e : FsError) : FsProg (Except FsError Unit) := do
    let _ ← Fs.removeFile tempName
    return .error e

/-- The loop of `write_and_rename`: `remaining` attempts are left. A stale temporary file
    is removed once. -/
def writeAttempts (tempName finalName bytes : Bytes) (attempt : Nat) :
    (remaining : Nat) → FsProg (Except FsError Unit)
  | 0 => pure (.error .alreadyExists)
  | remaining + 1 => do
    match ← Fs.createNew tempName with
    | .ok () => writeTemp tempName finalName bytes
    | .error e =>
      if e = .alreadyExists ∧ attempt = 0 then
        match ← Fs.removeFile tempName with
        | .error e => return .error e
        | .ok () => writeAttempts tempName finalName bytes (attempt + 1) remaining
      else return .error e

def writeAndRename (tempName finalName bytes : Bytes) : FsProg (Except FsError Unit) :=
  writeAttempts tempName finalName bytes 0 2

/-- `directory_barrier` -/
def directoryBarrier : FsProg (Result Unit) := do
  let answer ← Fs.barrier
  return answer.mapError (mapIoError · .storageFlush)

/-- The loop of `cleanup_temp_files`. Names that are not text are skipped. -/
def removeTempFiles : List Bytes → FsProg (Result Unit)
  | [] => pure (.ok ())
  | name :: names => do
    if Bytes.isUtf8 name && isTempName name then
      match ← Fs.removeFile name with
      | .error e => return .error (mapIoError e .storageOpen)
      | .ok () => removeTempFiles names
    else removeTempFiles names

def cleanupTempFiles : FsProg (Result Unit) := do
  match ← Fs.readDir with
  | .error e => return .error (mapIoError e .storageOpen)
  | .ok names => removeTempFiles names

section Write

variable [DnsName]

/-- The barrier of a commit, where the capability asks for one. -/
def JsonStorage.commitBarrier (storage : JsonStorage) : FsProg (Result Unit) :=
  if storage.needsCommitBarrier then directoryBarrier else pure (.ok ())

/-- `commit_inner` after the rename. The head is the new one whatever happens here. -/
def JsonStorage.settle (storage : JsonStorage) (transaction : StoreTransaction)
    (plan : CommitPlan) : FsProg (Result CommitOutcome × Head) := do
  let barrierResult ← storage.commitBarrier
  match ← cleanupTempFiles with
  | .error _ => return (.error (.provider .commitUnknown .storageCommit), plan.head)
  | .ok () =>
    -- a failure of the second barrier does not change the outcome
    let _ ← storage.commitBarrier
    match barrierResult with
    | .error _ => return (.ok (.unknown transaction.id transaction.operationDigest), plan.head)
    | .ok () => return (.ok (.committed plan.receipt), plan.head)

/-- `commit_inner` from its first access to the directory. -/
def JsonStorage.writeCommit (storage : JsonStorage) (head : Head) (transaction : StoreTransaction)
    (plan : CommitPlan) : FsProg (Result CommitOutcome × Head) := do
  if ← Fs.fileExists plan.finalName then
    return (.error (.provider .storageCorrupt .storageCommit), head)
  else
    match ← writeAndRename plan.tempName plan.finalName plan.documentBytes with
    | .error e => return (.error (mapCommitIoError e), head)
    | .ok () => storage.settle transaction plan

/-- `commit_inner`, with the head it leaves. -/
def JsonStorage.commitInner [SerdeJson] (storage : JsonStorage) (head : Head)
    (transaction : StoreTransaction) : FsProg (Result CommitOutcome × Head) :=
  match storage.prepareCommit head transaction with
  | .error e => pure (.error e, head)
  | .ok (.settled outcome) => pure (.ok outcome, head)
  | .ok (.write plan) => storage.writeCommit head transaction plan

/-! ## Reconciliation, snapshots and scans -/

/-- `JsonStorage::reconcile` -/
def Head.reconcile (head : Head) (transaction : TransactionId) (digest : Digest) :
    ReconcileOutcome :=
  match head.receipts.get transaction with
  | some receipt => if receipt.operationDigest = digest then .committed receipt else .digestConflict
  | none => .aborted

structure JsonSnapshot where
  revision : StoreRevision
  entries : Entries

/-- `JsonStorage::snapshot` -/
def Head.snapshot (head : Head) : Result JsonSnapshot := do
  let revision ← (StoreRevision.new (u64ToBEBytes head.generation)).mapError
    (fun _ => Error.internal "json revision")
  return ⟨revision, head.entries⟩

def JsonSnapshot.get (snapshot : JsonSnapshot) (namespaceTag : StoreNamespace) (key : StoreKey) :
    Option StoreValue :=
  snapshot.entries.get ⟨namespaceTag, key⟩

/-- The position of a scan: the rest of the ordered range. -/
structure JsonScan where
  namespaceTag : StoreNamespace
  keyPrefix : Bytes
  range : List (EntryKey × StoreValue)

def JsonSnapshot.scan (snapshot : JsonSnapshot) (namespaceTag : StoreNamespace)
    (keyPrefix : Bytes) : JsonScan :=
  ⟨namespaceTag, keyPrefix, snapshot.entries.entriesFrom ⟨namespaceTag, ⟨keyPrefix⟩⟩⟩

/-- The closure of `JsonScan::next`. -/
def JsonScan.select (scan : JsonScan) (entry : EntryKey × StoreValue) : Option StoreEntry :=
  if entry.1.namespaceTag ≠ scan.namespaceTag ∨ ¬ scan.keyPrefix <+: entry.1.key.asBytes then none
  else some ⟨entry.1.namespaceTag, entry.1.key, entry.2⟩

/-- `find_map` on the range: the entries up to the one found are consumed. -/
def JsonScan.next (scan : JsonScan) : Option StoreEntry × JsonScan :=
  match scan.range.dropWhile (fun entry => (scan.select entry).isNone) with
  | [] => (none, { scan with range := [] })
  | entry :: range => (scan.select entry, { scan with range := range })

end Write

/-! ## Reopening -/

section Load

variable [DnsName] [SerdeJson]

/-- The loop of `load_chain` over the directory. -/
def collectGenerations : List Bytes → SortedMap UInt64 (Bytes × TransactionId) →
    Result (SortedMap UInt64 (Bytes × TransactionId))
  | [], generations => .ok generations
  | name :: names, generations =>
    match (if Bytes.isUtf8 name then parseGenerationName name else none) with
    | none => collectGenerations names generations
    | some (generation, transaction) =>
      if (generations.get generation).isSome then .error corruptOpen
      else collectGenerations names (generations.insert generation (name, transaction))

/-- The state of the loop of `load_chain` over the generations. -/
structure LoadState where
  entries : Entries
  receipts : Receipts
  totalBytes : UInt64
  parent : Option (UInt64 × Digest)

def LoadState.start : LoadState := ⟨.empty, .empty, 0, none⟩

/-- Reads and parses one generation file. -/
def readGeneration (files : Files) (name : Bytes) : Result (Bytes × GenerationDocument) :=
  match files.get name with
  | none => .error (mapIoError .notFound .storageOpen)
  | some bytes =>
    if bytes.length > maxTotalBytes.toNat then .error corruptOpen
    else
      match GenerationDocument.parse bytes with
      | .error e =>
        .error (if e.kind = .unsupportedSchema then .provider .unsupportedSchema .storageOpen
          else corruptOpen)
      | .ok document => .ok (bytes, document)

/-- The chain fields of a document are the expected ones. -/
def GenerationDocument.continues (document : GenerationDocument) (storeUuid : StoreUuid)
    (generation : UInt64) (transaction : TransactionId) (parent : Option (UInt64 × Digest)) :
    Bool :=
  document.storeUuid = hexEncode storeUuid.1 ∧ document.generation = generation
    ∧ document.transactionId = transaction.asStr
    ∧ document.parentGeneration = parent.map Prod.fst
    ∧ document.parentDigest = parent.map (fun parent => hexEncode parent.2.asBytes)

/-- The loop over the forgotten receipts: each of them must be there. -/
def forgetAll : List Bytes → Receipts → Result Receipts
  | [], receipts => .ok receipts
  | forgotten :: rest, receipts =>
    match (CanonicalId.parse forgotten : Result TransactionId) with
    | .error _ => .error corruptOpen
    | .ok target =>
      if (receipts.get target).isNone then .error corruptOpen
      else forgetAll rest (receipts.erase target)

/-- The receipt of a generation. -/
def generationReceipt (document : GenerationDocument) (generation : UInt64)
    (transaction : TransactionId) : Result CommitReceipt := do
  let revision ← (StoreRevision.new (u64ToBEBytes generation)).mapError (fun _ => corruptOpen)
  let digest ← (hexDecode document.operationDigest "json operation digest").mapError
    (fun _ => corruptOpen)
  let digest ← (fixedBytes 32 digest "json operation digest").mapError (fun _ => corruptOpen)
  return ⟨transaction, .fromBytes digest, revision⟩

/-- The receipts a document must list. -/
def expectedReceipts (receipts : Receipts) : List ReceiptBody :=
  receipts.toList.map fun (id, receipt) =>
    ReceiptBody.encode id receipt.operationDigest receipt.committedRevision

/-- The loop over the entries of a document. -/
def decodeEntries : List (Bytes × Bytes × Bytes) → Entries → Result Entries
  | [], entries => .ok entries
  | (namespaceText, key, value) :: rest, entries => do
    let tag ← (QualifiedTag.parse namespaceText).mapError (fun _ => corruptOpen)
    let key ← (hexDecode key "json entry key").mapError (fun _ => corruptOpen)
    let value ← (hexDecode value "json entry value").mapError (fun _ => corruptOpen)
    if (entries.get ⟨tag, ⟨key⟩⟩).isSome then throw corruptOpen
    else decodeEntries rest (entries.insert ⟨tag, ⟨key⟩⟩ ⟨value⟩)

/-- The size of the chain with one more generation. -/
def addGenerationBytes (totalBytes : UInt64) (bytes : Bytes) : Result UInt64 :=
  match (u64TryFrom bytes.length).bind (checkedAdd totalBytes) with
  | none => .error corruptOpen
  | some totalBytes => .ok totalBytes

/-- One iteration of the loop over the generations. -/
def loadGeneration (files : Files) (storeUuid : StoreUuid) (state : LoadState) (position : Nat)
    (generation : UInt64) (name : Bytes) (transaction : TransactionId) : Result LoadState := do
  ensure (u64TryFrom (position + 1) = some generation) corruptOpen
  let (bytes, document) ← readGeneration files name
  ensure (document.continues storeUuid generation transaction state.parent) corruptOpen
  let receipts ← forgetAll document.forgotten state.receipts
  let receipt ← generationReceipt document generation transaction
  let receipts := receipts.insert transaction receipt
  ensure (document.receipts = expectedReceipts receipts) corruptOpen
  let entries ← decodeEntries document.entries .empty
  let totalBytes ← addGenerationBytes state.totalBytes bytes
  return ⟨entries, receipts, totalBytes, some (generation, GenerationDocument.digest bytes)⟩

/-- The loop over the generations in ascending order. -/
def loadGenerations (files : Files) (storeUuid : StoreUuid) :
    List (UInt64 × Bytes × TransactionId) → Nat → LoadState → Result LoadState
  | [], _, state => .ok state
  | (generation, name, transaction) :: rest, position, state => do
    let state ← loadGeneration files storeUuid state position generation name transaction
    loadGenerations files storeUuid rest (position + 1) state

/-- The head a loaded chain ends in. -/
def LoadState.head (state : LoadState) (storeUuid : StoreUuid) : Head where
  generation := (state.parent.getD (0, zeroDigest)).1
  digest := (state.parent.getD (0, zeroDigest)).2
  storeUuid := storeUuid
  entries := state.entries
  receipts := state.receipts
  totalBytes := state.totalBytes

/-- `load_chain` on a directory that lists its names as `listing`. -/
def loadChain (listing : List Bytes) (files : Files) (storeUuid : StoreUuid) : Result Head := do
  let generations ← collectGenerations listing .empty
  let state ← loadGenerations files storeUuid generations.toList 0 .start
  return state.head storeUuid

end Load

end Radiata
