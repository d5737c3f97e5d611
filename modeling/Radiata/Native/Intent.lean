import Radiata.Native.Descriptor
import Radiata.Native.KeyCustody

/-!
# Key intents

`src/identity/records.rs`, `src/storage/receipt.rs`: an intent of a key operation records the
transaction that commits it and the revision that this transaction is based on. Recovery reads the
stored intent, rebuilds the operations of the transaction and with them its digest.
`src/identity/lifecycle.rs`, `src/identity/deletion.rs`: the commits.
-/

namespace Radiata

open Except (rejectIf)

/-! ## Wire forms -/

/-- `KeyCreationIntentWire` -/
structure KeyCreationIntentWire where
  schema : Bytes
  recordVersion : UInt64
  operation : Bytes
  intendedNode : Bytes
  purpose : Bytes
  algorithm : Bytes
  transaction : Bytes
  baseRevision : Bytes
  deriving DecidableEq

namespace KeyCreationIntentWire

def encode (wire : KeyCreationIntentWire) : Bytes :=
  Cbor.encodeArray 8 ++ Cbor.encodeStr wire.schema ++ Cbor.encodeU64 wire.recordVersion
    ++ Cbor.encodeStr wire.operation ++ Cbor.encodeStr wire.intendedNode
    ++ Cbor.encodeStr wire.purpose ++ Cbor.encodeStr wire.algorithm
    ++ Cbor.encodeStr wire.transaction ++ Cbor.encodeBytes wire.baseRevision

/-- The derived array decoding: missing fields fail and further items are skipped. -/
def decode : Reader KeyCreationIntentWire := do
  let some length ← Cbor.decodeArray | failure
  if length < 8 then failure
  let schema ← Cbor.decodeStr
  let recordVersion ← Cbor.decodeU64
  let operation ← Cbor.decodeStr
  let intendedNode ← Cbor.decodeStr
  let purpose ← Cbor.decodeStr
  let algorithm ← Cbor.decodeStr
  let transaction ← Cbor.decodeStr
  let baseRevision ← Cbor.decodeBytes
  Cbor.skip (length - 8)
  return { schema, recordVersion, operation, intendedNode, purpose, algorithm, transaction,
           baseRevision }

def codec : CborCodec KeyCreationIntentWire := ⟨encode, decode⟩

end KeyCreationIntentWire

/-- `KeyDeletionIntentWire` -/
structure KeyDeletionIntentWire where
  schema : Bytes
  recordVersion : UInt64
  operation : Bytes
  handle : Bytes
  purpose : Bytes
  transaction : Bytes
  baseRevision : Bytes
  deriving DecidableEq

namespace KeyDeletionIntentWire

def encode (wire : KeyDeletionIntentWire) : Bytes :=
  Cbor.encodeArray 7 ++ Cbor.encodeStr wire.schema ++ Cbor.encodeU64 wire.recordVersion
    ++ Cbor.encodeStr wire.operation ++ Cbor.encodeBytes wire.handle
    ++ Cbor.encodeStr wire.purpose ++ Cbor.encodeStr wire.transaction
    ++ Cbor.encodeBytes wire.baseRevision

def decode : Reader KeyDeletionIntentWire := do
  let some length ← Cbor.decodeArray | failure
  if length < 7 then failure
  let schema ← Cbor.decodeStr
  let recordVersion ← Cbor.decodeU64
  let operation ← Cbor.decodeStr
  let handle ← Cbor.decodeBytes
  let purpose ← Cbor.decodeStr
  let transaction ← Cbor.decodeStr
  let baseRevision ← Cbor.decodeBytes
  Cbor.skip (length - 7)
  return { schema, recordVersion, operation, handle, purpose, transaction, baseRevision }

def codec : CborCodec KeyDeletionIntentWire := ⟨encode, decode⟩

end KeyDeletionIntentWire

/-! ## Intents -/

/-- `KeyHandle::from_provider_bytes` -/
def KeyHandle.fromProviderBytes (value : Bytes) : Result KeyHandle :=
  if h : value = [] then .error (.invalidInput "key handle") else .ok ⟨value, h⟩

/-- `KeyCreationIntentV1` with all its fields. -/
structure CreationIntent where
  operation : KeyOperationId
  intendedNode : NodeId
  purpose : Bytes
  transaction : TransactionId
  baseRevision : StoreRevision
  purposeValid : validatePurpose purpose = .ok ()

namespace CreationIntent

/-- `KeyCreationIntentV1::new` -/
def new (operation : KeyOperationId) (intendedNode : NodeId) (purpose : Bytes)
    (transaction : TransactionId) (baseRevision : StoreRevision) : Result CreationIntent :=
  match hpurpose : validatePurpose purpose with
  | .error _ => .error (.invalidInput "key creation intent purpose")
  | .ok () => .ok ⟨operation, intendedNode, purpose, transaction, baseRevision, hpurpose⟩

def toWire (intent : CreationIntent) : KeyCreationIntentWire where
  schema := keyCreationIntentSchema
  recordVersion := recordVersion
  operation := intent.operation.asStr
  intendedNode := intent.intendedNode.asStr
  purpose := intent.purpose
  algorithm := ed25519Algorithm
  transaction := intent.transaction.asStr
  baseRevision := intent.baseRevision.asBytes

def encode (intent : CreationIntent) : Result Bytes :=
  encodeCanonical KeyCreationIntentWire.codec intent.toWire identityRecordLimits

/-- The checks and conversions `decode` makes of a wire form. -/
def ofWire (wire : KeyCreationIntentWire) : Result CreationIntent := do
  rejectIf (wire.schema ≠ keyCreationIntentSchema) (.invalidInput "identity record schema")
  rejectIf (wire.recordVersion ≠ recordVersion) (.invalidInput "identity record version")
  rejectIf (wire.algorithm ≠ ed25519Algorithm) (.invalidInput "identity record algorithm")
  let operation ← CanonicalId.parse wire.operation
  let intendedNode ← CanonicalId.parse wire.intendedNode
  let transaction ← CanonicalId.parse wire.transaction
  let baseRevision ← StoreRevision.new wire.baseRevision
  new operation intendedNode wire.purpose transaction baseRevision

def decode (bytes : Bytes) : Result CreationIntent := do
  ofWire (← decodeCanonicalStrict KeyCreationIntentWire.codec bytes identityRecordLimits
    "identity record canonical form")

end CreationIntent

/-- `KeyDeletionIntentV1` with all its fields. -/
structure DeletionIntent where
  operation : KeyOperationId
  handle : KeyHandle
  purpose : Bytes
  transaction : TransactionId
  baseRevision : StoreRevision
  purposeValid : validatePurpose purpose = .ok ()

namespace DeletionIntent

/-- `KeyDeletionIntentV1::new` -/
def new (operation : KeyOperationId) (handle : KeyHandle) (purpose : Bytes)
    (transaction : TransactionId) (baseRevision : StoreRevision) : Result DeletionIntent :=
  match hpurpose : validatePurpose purpose with
  | .error _ => .error (.invalidInput "key deletion intent purpose")
  | .ok () => .ok ⟨operation, handle, purpose, transaction, baseRevision, hpurpose⟩

def toWire (intent : DeletionIntent) : KeyDeletionIntentWire where
  schema := keyDeletionIntentSchema
  recordVersion := recordVersion
  operation := intent.operation.asStr
  handle := intent.handle.asBytes
  purpose := intent.purpose
  transaction := intent.transaction.asStr
  baseRevision := intent.baseRevision.asBytes

def encode (intent : DeletionIntent) : Result Bytes :=
  encodeCanonical KeyDeletionIntentWire.codec intent.toWire identityRecordLimits

def ofWire (wire : KeyDeletionIntentWire) : Result DeletionIntent := do
  rejectIf (wire.schema ≠ keyDeletionIntentSchema) (.invalidInput "identity record schema")
  rejectIf (wire.recordVersion ≠ recordVersion) (.invalidInput "identity record version")
  let operation ← CanonicalId.parse wire.operation
  let handle ← KeyHandle.fromProviderBytes wire.handle
  let transaction ← CanonicalId.parse wire.transaction
  let baseRevision ← StoreRevision.new wire.baseRevision
  new operation handle wire.purpose transaction baseRevision

def decode (bytes : Bytes) : Result DeletionIntent := do
  ofWire (← decodeCanonicalStrict KeyDeletionIntentWire.codec bytes identityRecordLimits
    "identity record canonical form")

end DeletionIntent

/-! ## Keys of the records -/

section Keys

variable [DnsName]

def localIdentityNamespaceText : Bytes := Bytes.utf8 "radiata.woooo.tech/metadata/local-identity-v1"

def keyCreationIntentNamespaceText : Bytes :=
  Bytes.utf8 "radiata.woooo.tech/metadata/key-creation-intent-v1"

def keyDeletionIntentNamespaceText : Bytes :=
  Bytes.utf8 "radiata.woooo.tech/metadata/key-deletion-intent-v1"

/-- `local_identity_key` -/
def localIdentityKey : Result EntryKey := do
  return ⟨← metadataNamespace localIdentityNamespaceText, ⟨Bytes.utf8 "self"⟩⟩

/-- `key_creation_intent_key` -/
def keyCreationIntentKey (operation : KeyOperationId) : Result EntryKey := do
  return ⟨← metadataNamespace keyCreationIntentNamespaceText, ⟨operation.asStr⟩⟩

/-- `key_deletion_intent_key` -/
def keyDeletionIntentKey (handle : KeyHandle) : Result EntryKey := do
  return ⟨← metadataNamespace keyDeletionIntentNamespaceText, ⟨handle.asBytes⟩⟩

/-! ## Recovery -/

/-- `recover_self_referenced_transaction` -/
def recoverSelfReferencedTransaction (id : TransactionId) (baseRevision : StoreRevision)
    (callerOperations : List StoreOperation) (tokens : List ReceiptReferenceToken) :
    Result ReceiptIdentity := do
  rejectIf tokens.isEmpty (.invalidInput "receipt reference change tokens")
  rejectIf (callerOperations.any operationUsesReservedNamespace)
    (.invalidInput "metadata storage reserved namespace")
  let internal ← internalNamespace
  let some additional := u64TryFrom tokens.length
    | throw (.resourceExhausted "receipt reference count")
  let head := .put internal (referenceHeadKey id) .absent (encodeReferenceCount additional)
  let edges := tokens.map fun token => .put internal (referenceEdgeKey id token) .absent ⟨[]⟩
  let prepared ← prepareInternalTransaction id baseRevision (callerOperations ++ head :: edges)
  return ⟨id, prepared.transaction.operationDigest⟩

/-- `KeyCreationIntentV1::recovery_identity` -/
def CreationIntent.recoveryIdentity (intent : CreationIntent) (storedValue : StoreValue) :
    Result ReceiptIdentity := do
  let key ← keyCreationIntentKey intent.operation
  let token := ReceiptReferenceToken.forRecord key.namespaceTag key.key
  recoverSelfReferencedTransaction intent.transaction intent.baseRevision
    [.put key.namespaceTag key.key .absent storedValue] [token]

/-- `KeyDeletionIntentV1::recovery_identity` -/
def DeletionIntent.recoveryIdentity (intent : DeletionIntent) (storedValue : StoreValue) :
    Result ReceiptIdentity := do
  let key ← keyDeletionIntentKey intent.handle
  let token := ReceiptReferenceToken.forRecord key.namespaceTag key.key
  recoverSelfReferencedTransaction intent.transaction intent.baseRevision
    [.put key.namespaceTag key.key .absent storedValue] [token]

/-! ## Commits -/

/-- The stored value and the transaction with which `create_identity` commits an intent. -/
def createIntent (snapshot : StoreSnapshot) (operation : KeyOperationId) (node : NodeId)
    (transaction : TransactionId) : Result (StoreValue × PreparedTransaction) := do
  let intent ← CreationIntent.new operation node JournalPurpose.localIdentity.text transaction
    snapshot.revision
  let value := StoreValue.mk (← intent.encode)
  let key ← keyCreationIntentKey intent.operation
  let token := ReceiptReferenceToken.forRecord key.namespaceTag key.key
  let prepared ← prepareTransactionWithReceiptChanges snapshot intent.transaction
    [.put key.namespaceTag key.key .absent value] [.addSelf [token]]
  return (value, prepared)

/-- The check that pins the local identity that a deletion has found, if any. -/
def localIdentityGuard (snapshot : StoreSnapshot) : Result (List StoreOperation) := do
  let key ← localIdentityKey
  return ((snapshot.get key.namespaceTag key.key).map fun stored =>
    .check key.namespaceTag key.key (.exact stored.digest)).toList

/-- The stored value and the transaction with which `delete_unreferenced_key` commits an intent. -/
def deleteIntent (snapshot : StoreSnapshot) (operation : KeyOperationId) (handle : KeyHandle)
    (transaction : TransactionId) : Result (StoreValue × PreparedTransaction) := do
  let key ← keyDeletionIntentKey handle
  let intent ← DeletionIntent.new operation handle (JournalPurpose.keyDeletion handle).text
    transaction snapshot.revision
  let token := ReceiptReferenceToken.forRecord key.namespaceTag key.key
  let value := StoreValue.mk (← intent.encode)
  let callerOperations ← localIdentityGuard snapshot
  let prepared ← prepareTransactionWithReceiptChanges snapshot intent.transaction
    (callerOperations ++ [.put key.namespaceTag key.key .absent value]) [.addSelf [token]]
  return (value, prepared)

end Keys

end Radiata
