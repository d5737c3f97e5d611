import Radiata.Native.Cbor
import Radiata.Native.Receipt

/-!
# The pending-transaction journal

`src/storage/pending.rs`: a journaled transaction carries one pending record that
stores its identity, base revision and planned operations in a tagged CBOR form.
Recovery appends the pending put and the used-id marker to the planned operations
and recomputes the operation digest.
-/

namespace Radiata

def pendingNamespaceText : Bytes :=
  Bytes.utf8 "radiata.woooo.tech/metadata/pending-transaction-v1"

def pendingSchema : Bytes := Bytes.utf8 "radiata.woooo.tech/schemas/pending-transaction-v1"
def recordVersion : UInt64 := 1
def maxPurposeLen : Nat := 128
def pendingLimits : CborLimits := ⟨8, 1024, 65536⟩

/-! ## Wire forms -/

inductive ExpectationWire where
  | absent
  | exact (digest : Bytes)
  deriving DecidableEq

inductive PlannedOperationWire where
  | check (namespaceText key : Bytes) (expectation : ExpectationWire)
  | put (namespaceText key : Bytes) (expectation : ExpectationWire) (value : Bytes)
  | delete (namespaceText key expected : Bytes)
  | forgetReceipt (transaction expectedOperationDigest : Bytes)
  deriving DecidableEq

structure PendingTransactionWire where
  schema : Bytes
  recordVersion : UInt64
  purpose : Bytes
  transactionId : Bytes
  baseRevision : Bytes
  plannedOperations : List PlannedOperationWire
  deriving DecidableEq

namespace ExpectationWire

def encode : ExpectationWire → Bytes
  | absent => Cbor.encodeArray 1 ++ Cbor.encodeU64 0
  | exact digest => Cbor.encodeArray 2 ++ Cbor.encodeU64 1 ++ Cbor.encodeBytes digest

def decode : Reader ExpectationWire := do
  let some length ← Cbor.decodeArray | failure
  let tag ← Cbor.decodeU64
  if tag = 0 ∧ length = 1 then return absent
  else if tag = 1 ∧ length = 2 then return exact (← Cbor.decodeBytes)
  else failure

def fromExpectation : StoreExpectation → ExpectationWire
  | .absent => absent
  | .exact digest => exact digest.asBytes

def intoExpectation : ExpectationWire → Result StoreExpectation
  | absent => return .absent
  | exact digest => do
    let bytes ← fixedBytes 32 digest "planned expectation digest"
    return .exact (Digest.fromBytes bytes)

end ExpectationWire

namespace PlannedOperationWire

def encode : PlannedOperationWire → Bytes
  | check namespaceText key expectation =>
    Cbor.encodeArray 4 ++ Cbor.encodeU64 0 ++ Cbor.encodeStr namespaceText
      ++ Cbor.encodeBytes key ++ expectation.encode
  | put namespaceText key expectation value =>
    Cbor.encodeArray 5 ++ Cbor.encodeU64 1 ++ Cbor.encodeStr namespaceText
      ++ Cbor.encodeBytes key ++ expectation.encode ++ Cbor.encodeBytes value
  | delete namespaceText key expected =>
    Cbor.encodeArray 4 ++ Cbor.encodeU64 2 ++ Cbor.encodeStr namespaceText
      ++ Cbor.encodeBytes key ++ Cbor.encodeBytes expected
  | forgetReceipt transaction expectedOperationDigest =>
    Cbor.encodeArray 3 ++ Cbor.encodeU64 3 ++ Cbor.encodeStr transaction
      ++ Cbor.encodeBytes expectedOperationDigest

def decode : Reader PlannedOperationWire := do
  let some length ← Cbor.decodeArray | failure
  let tag ← Cbor.decodeU64
  if tag = 0 ∧ length = 4 then
    return check (← Cbor.decodeStr) (← Cbor.decodeBytes) (← ExpectationWire.decode)
  else if tag = 1 ∧ length = 5 then
    return put (← Cbor.decodeStr) (← Cbor.decodeBytes) (← ExpectationWire.decode)
      (← Cbor.decodeBytes)
  else if tag = 2 ∧ length = 4 then
    return delete (← Cbor.decodeStr) (← Cbor.decodeBytes) (← Cbor.decodeBytes)
  else if tag = 3 ∧ length = 3 then
    return forgetReceipt (← Cbor.decodeStr) (← Cbor.decodeBytes)
  else failure

end PlannedOperationWire

namespace PendingTransactionWire

/-- The derived array encoding. -/
def encode (wire : PendingTransactionWire) : Bytes :=
  Cbor.encodeArray 6 ++ Cbor.encodeStr wire.schema ++ Cbor.encodeU64 wire.recordVersion
    ++ Cbor.encodeStr wire.purpose ++ Cbor.encodeStr wire.transactionId
    ++ Cbor.encodeBytes wire.baseRevision ++ Cbor.encodeArray wire.plannedOperations.length
    ++ wire.plannedOperations.flatMap PlannedOperationWire.encode

/-- The derived array decoding: missing fields fail and further items are skipped.
    The validator has refused indefinite arrays before. -/
def decode : Reader PendingTransactionWire := do
  let some length ← Cbor.decodeArray | failure
  if length < 6 then failure
  let schema ← Cbor.decodeStr
  let recordVersion ← Cbor.decodeU64
  let purpose ← Cbor.decodeStr
  let transactionId ← Cbor.decodeStr
  let baseRevision ← Cbor.decodeBytes
  let some count ← Cbor.decodeArray | failure
  let plannedOperations ← Reader.times PlannedOperationWire.decode count
  Cbor.skip (length - 6)
  return { schema, recordVersion, purpose, transactionId, baseRevision, plannedOperations }

def codec : CborCodec PendingTransactionWire := ⟨encode, decode⟩

end PendingTransactionWire

section Journal

variable [DnsName]

/-! ## Planned operations -/

def plannedNamespace (value : Bytes) : Result StoreNamespace := QualifiedTag.parse value

def PlannedOperationWire.fromOperation : StoreOperation → PlannedOperationWire
  | .check namespaceTag key expected =>
    .check namespaceTag.asStr key.asBytes (.fromExpectation expected)
  | .put namespaceTag key expected value =>
    .put namespaceTag.asStr key.asBytes (.fromExpectation expected) value.asBytes
  | .delete namespaceTag key expected => .delete namespaceTag.asStr key.asBytes expected.asBytes
  | .forgetReceipt transaction expectedOperationDigest =>
    .forgetReceipt transaction.asStr expectedOperationDigest.asBytes

def PlannedOperationWire.intoOperation : PlannedOperationWire → Result StoreOperation
  | .check namespaceText key expectation => do
    let namespaceTag ← plannedNamespace namespaceText
    let expected ← expectation.intoExpectation
    return .check namespaceTag ⟨key⟩ expected
  | .put namespaceText key expectation value => do
    let namespaceTag ← plannedNamespace namespaceText
    let expected ← expectation.intoExpectation
    return .put namespaceTag ⟨key⟩ expected ⟨value⟩
  | .delete namespaceText key expected => do
    let namespaceTag ← plannedNamespace namespaceText
    let digest ← fixedBytes 32 expected "planned delete digest"
    return .delete namespaceTag ⟨key⟩ (Digest.fromBytes digest)
  | .forgetReceipt transaction expectedOperationDigest => do
    let transaction ← CanonicalId.parse transaction
    let digest ← fixedBytes 32 expectedOperationDigest "planned forget digest"
    return .forgetReceipt transaction (Digest.fromBytes digest)

/-! ## The record -/

def validatePurpose (purpose : Bytes) : Result Unit :=
  if purpose = [] ∨ purpose.length > maxPurposeLen
      ∨ ¬ purpose.all (fun b => 0x20 ≤ b && b ≤ 0x7E) then
    .error (.invalidInput "pending transaction purpose")
  else .ok ()

def pendingNamespace : Result StoreNamespace := do
  let tag ← QualifiedTag.parse pendingNamespaceText
  if tag.category ≠ categoryMetadata then
    throw (.invalidInput "pending transaction namespace")
  return tag

def pendingKey (purpose : Bytes) : StoreKey := ⟨purpose⟩

/-- `operation_targets_pending_record` -/
def operationTargetsPendingRecord (namespaceTag : StoreNamespace) (key : StoreKey) :
    StoreOperation → Bool
  | .check actualNamespace actualKey _ => actualNamespace = namespaceTag ∧ actualKey = key
  | .put actualNamespace actualKey _ _ => actualNamespace = namespaceTag ∧ actualKey = key
  | .delete actualNamespace actualKey _ => actualNamespace = namespaceTag ∧ actualKey = key
  | .forgetReceipt _ _ => false

def validatePlannedOperations (purpose : Bytes) (operations : List StoreOperation) :
    Result Unit := do
  let namespaceTag ← pendingNamespace
  if operations.any (operationTargetsPendingRecord namespaceTag (pendingKey purpose)) then
    throw (.invalidInput "pending transaction plan")

/-- A pending-transaction record. The fields are private in the source and every
    record passes the checks of `PendingTransactionV1::new`. -/
structure PendingTransactionV1 where
  purpose : Bytes
  transaction : TransactionId
  baseRevision : StoreRevision
  plannedOperations : List StoreOperation
  purposeValid : validatePurpose purpose = .ok ()
  planValid : validatePlannedOperations purpose plannedOperations = .ok ()

namespace PendingTransactionV1

def new (purpose : Bytes) (transaction : TransactionId) (baseRevision : StoreRevision)
    (plannedOperations : List StoreOperation) : Result PendingTransactionV1 :=
  match hpurpose : validatePurpose purpose with
  | .error e => .error e
  | .ok () =>
    match hplan : validatePlannedOperations purpose plannedOperations with
    | .error e => .error e
    | .ok () => .ok ⟨purpose, transaction, baseRevision, plannedOperations, hpurpose, hplan⟩

/-- The wire form of a record. -/
def toWire (record : PendingTransactionV1) : PendingTransactionWire where
  schema := pendingSchema
  recordVersion := recordVersion
  purpose := record.purpose
  transactionId := record.transaction.asStr
  baseRevision := record.baseRevision.asBytes
  plannedOperations := record.plannedOperations.map PlannedOperationWire.fromOperation

def encode (record : PendingTransactionV1) : Result Bytes :=
  encodeCanonical PendingTransactionWire.codec record.toWire pendingLimits

/-- The checks and conversions `decode` makes of a wire form. -/
def ofWire (wire : PendingTransactionWire) : Result PendingTransactionV1 := do
  if wire.schema ≠ pendingSchema then
    throw (.invalidInput "pending transaction schema")
  if wire.recordVersion ≠ recordVersion then
    throw (.invalidInput "pending transaction version")
  let transaction ← CanonicalId.parse wire.transactionId
  let baseRevision ← StoreRevision.new wire.baseRevision
  let plannedOperations ← wire.plannedOperations.mapM PlannedOperationWire.intoOperation
  new wire.purpose transaction baseRevision plannedOperations

def decode (bytes : Bytes) : Result PendingTransactionV1 := do
  let wire ← decodeCanonicalStrict PendingTransactionWire.codec bytes pendingLimits
    "pending transaction canonical form"
  ofWire wire

/-- `recover_identity`: the planned operations, the pending put with the stored
    value, and the used-id marker. -/
def recoverIdentity (record : PendingTransactionV1) (storedValue : StoreValue) :
    Result ReceiptIdentity := do
  let namespaceTag ← pendingNamespace
  let operations := record.plannedOperations ++
    [.put namespaceTag (pendingKey record.purpose) .absent storedValue]
  match prepareInternalTransaction record.transaction record.baseRevision operations with
  | .error _ => throw storageCorrupt
  | .ok prepared => return ⟨prepared.transaction.id, prepared.transaction.operationDigest⟩

end PendingTransactionV1

/-! ## Builders -/

inductive PendingCleanupOutcome where
  | applied (receipt : CommitReceipt)
  | absent
  | aborted
  | conflict
  | unknown (identity : ReceiptIdentity)
  deriving DecidableEq

/-- `inject_self_token`: the token joins the first self reference. -/
def injectSelfToken (token : ReceiptReferenceToken) :
    List ReceiptReferenceChange → List ReceiptReferenceChange
  | [] => [.addSelf [token]]
  | .addSelf tokens :: changes => .addSelf (tokens ++ [token]) :: changes
  | change :: changes => change :: injectSelfToken token changes

/-- `prepare_journaled_transaction` -/
def prepareJournaledTransaction (snapshot : StoreSnapshot) (id : TransactionId) (purpose : Bytes)
    (callerOperations : List StoreOperation) (changes : List ReceiptReferenceChange) :
    Result PreparedTransaction := do
  validatePurpose purpose
  if callerOperations.any operationUsesReservedNamespace then
    throw (.invalidInput "metadata storage reserved namespace")
  let namespaceTag ← pendingNamespace
  let key := pendingKey purpose
  if callerOperations.any (operationTargetsPendingRecord namespaceTag key) then
    throw (.invalidInput "pending transaction record")
  let changes := injectSelfToken (.forRecord namespaceTag key) changes
  let internal ← internalNamespace
  let groups ← groupReceiptChanges id changes
  let built ← buildGroupOperations snapshot internal id groups
  let operations := callerOperations ++ built
  let record ← PendingTransactionV1.new purpose id snapshot.revision operations
  let value ← record.encode
  prepareInternalTransaction id snapshot.revision
    (operations ++ [.put namespaceTag key .absent ⟨value⟩])

/-- One iteration of `discover_pending`. -/
def discoverEntry (namespaceTag : StoreNamespace) (purpose : Bytes)
    (found : Option (StoreValue × PendingTransactionV1)) (entry : StoreEntry) :
    Result (Option (StoreValue × PendingTransactionV1)) := do
  if entry.namespaceTag ≠ namespaceTag ∨ entry.key ≠ pendingKey purpose then
    throw storageCorrupt
  if found.isSome then
    throw storageCorrupt
  match PendingTransactionV1.decode entry.value.asBytes with
  | .error _ => throw storageCorrupt
  | .ok record =>
    if record.purpose ≠ purpose then
      throw storageCorrupt
    return some (entry.value, record)

/-- `discover_pending` -/
def discoverPending (snapshot : StoreSnapshot) (purpose : Bytes) :
    Result (Option (StoreValue × PendingTransactionV1)) := do
  validatePurpose purpose
  let namespaceTag ← pendingNamespace
  (snapshot.scan namespaceTag (pendingKey purpose).asBytes).foldlM
    (discoverEntry namespaceTag purpose) none

/-- The outcome `cleanup_pending` makes of its commit. -/
def mapPendingCleanupOutcome : CommitOutcome → PendingCleanupOutcome
  | .committed receipt => .applied receipt
  | .aborted => .aborted
  | .conflict => .conflict
  | .unknown transaction operationDigest => .unknown ⟨transaction, operationDigest⟩

/-- `cleanup_pending` -/
def cleanupPending (snapshot : StoreSnapshot) (purpose : Bytes) (operationId : TransactionId) :
    Result (Attempt PendingCleanupOutcome) := do
  validatePurpose purpose
  let namespaceTag ← pendingNamespace
  let key := pendingKey purpose
  match ← discoverPending snapshot purpose with
  | none => return .settled .absent
  | some (stored, record) =>
    let target ← record.recoverIdentity stored
    let groups ← groupReceiptChanges operationId [.remove target [.forRecord namespaceTag key]]
    let internal ← internalNamespace
    let built ← buildGroupOperations snapshot internal operationId groups
    let prepared ← prepareInternalTransaction operationId snapshot.revision
      (.delete namespaceTag key stored.digest :: built)
    return .submit prepared mapPendingCleanupOutcome

end Journal

end Radiata
