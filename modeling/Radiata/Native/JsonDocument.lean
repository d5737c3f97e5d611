import Radiata.Native.Hex
import Radiata.Native.Provider

/-!
# Generation documents of the JSON store

`src/storage/json/document.rs`: a generation file is one compact JSON document with a
fixed field order, byte-sorted entries and receipts, the digest of its parent and a
checksum over itself. Parsing requires that the document serialises to exactly the
bytes it was read from.

`serde_json` is the parameter `SerdeJson`. Serialising to a vector does not fail, and
`usize` has 64 bits.
-/

namespace Radiata

def generationSchema : Bytes := Bytes.utf8 "radiata.woooo.tech/schemas/json-generation-v1"
def storeSchema : Bytes := Bytes.utf8 "radiata.woooo.tech/schemas/json-store-v1"

structure ReceiptBody where
  transaction : Bytes
  operationDigest : Bytes
  committedRevision : Bytes
  deriving DecidableEq

structure GenerationDocument where
  schema : Bytes
  storeUuid : Bytes
  generation : UInt64
  parentGeneration : Option UInt64
  parentDigest : Option Bytes
  transactionId : Bytes
  operationDigest : Bytes
  storeSchema : Bytes
  revision : Bytes
  forgotten : List Bytes
  receipt : ReceiptBody
  bodyLength : UInt64
  entries : List (Bytes × Bytes × Bytes)
  receipts : List ReceiptBody
  checksum : Bytes
  deriving DecidableEq

namespace ReceiptBody

/-- The texts of a receipt. -/
def texts (body : ReceiptBody) : List Bytes :=
  [body.transaction, body.operationDigest, body.committedRevision]

end ReceiptBody

/-- The texts of a document. Every text the program holds is UTF-8. -/
def GenerationDocument.texts (document : GenerationDocument) : List Bytes :=
  [document.schema, document.storeUuid, document.transactionId, document.operationDigest,
    document.storeSchema, document.revision, document.checksum]
    ++ document.parentDigest.toList ++ document.forgotten ++ document.receipt.texts
    ++ document.entries.flatMap (fun (namespaceText, key, value) => [namespaceText, key, value])
    ++ document.receipts.flatMap ReceiptBody.texts

/-- `serde_json::to_vec` and `serde_json::from_slice` on the types of a document. -/
class SerdeJson where
  toVec : GenerationDocument → Bytes
  entriesToVec : List (Bytes × Bytes × Bytes) → Bytes
  receiptsToVec : List ReceiptBody → Bytes
  fromSlice : Bytes → Option GenerationDocument
  /-- A serialised document is read back. -/
  fromSlice_toVec : ∀ document : GenerationDocument,
    (∀ text ∈ document.texts, Bytes.isUtf8 text = true) → fromSlice (toVec document) = some document

/-- A 16-byte store identifier. -/
abbrev StoreUuid := { b : Bytes // b.length = 16 }

/-- Inputs needed to serialize one complete generation. -/
structure GenerationInput where
  storeUuid : StoreUuid
  generation : UInt64
  parent : Option (UInt64 × Digest)
  transaction : TransactionId
  operationDigest : Digest
  revision : StoreRevision
  forgotten : List TransactionId
  receipt : CommitReceipt
  entries : List (Bytes × Bytes × Bytes)
  receipts : List (TransactionId × Digest × StoreRevision)

/-- The body of a receipt, in hexadecimal. -/
def ReceiptBody.encode (transaction : TransactionId) (digest : Digest) (revision : StoreRevision) :
    ReceiptBody :=
  ⟨transaction.asStr, hexEncode digest.asBytes, hexEncode revision.asBytes⟩

/-- An early return of an error unless `condition` holds. -/
def ensure (condition : Bool) (e : Error) : Result Unit := if condition then .ok () else .error e

section Document

variable [SerdeJson]

def bodyLength (entries : List (Bytes × Bytes × Bytes)) (receipts : List ReceiptBody) :
    Result UInt64 :=
  match u64TryFrom ((SerdeJson.entriesToVec entries).length
      + (SerdeJson.receiptsToVec receipts).length) with
  | some total => .ok total
  | none => .error (.resourceExhausted "json body length")

namespace GenerationInput

/-- The entries of the document. -/
def documentEntries (input : GenerationInput) : List (Bytes × Bytes × Bytes) :=
  input.entries.map fun (namespaceText, key, value) => (namespaceText, hexEncode key, hexEncode value)

/-- The receipts of the document. -/
def documentReceipts (input : GenerationInput) : List ReceiptBody :=
  input.receipts.map fun (transaction, digest, revision) =>
    ReceiptBody.encode transaction digest revision

/-- The document without its checksum. -/
def zeroed (input : GenerationInput) (bodyLength : UInt64) : GenerationDocument where
  schema := generationSchema
  storeUuid := hexEncode input.storeUuid.1
  generation := input.generation
  parentGeneration := input.parent.map Prod.fst
  parentDigest := input.parent.map fun parent => hexEncode parent.2.asBytes
  transactionId := input.transaction.asStr
  operationDigest := hexEncode input.operationDigest.asBytes
  storeSchema := Radiata.storeSchema
  revision := hexEncode input.revision.asBytes
  forgotten := input.forgotten.map CanonicalId.asStr
  receipt := .encode input.receipt.transaction input.receipt.operationDigest
    input.receipt.committedRevision
  bodyLength := bodyLength
  entries := input.documentEntries
  receipts := input.documentReceipts
  checksum := []

end GenerationInput

namespace GenerationDocument

/-- The checksum of a document: the hash of its serialisation with an empty checksum. -/
def computedChecksum (document : GenerationDocument) : Bytes :=
  hexEncode (Sha256.hash (SerdeJson.toVec { document with checksum := [] }))

/-- The document with its checksum. -/
def sealed (document : GenerationDocument) : GenerationDocument :=
  { document with checksum := document.computedChecksum }

def build (input : GenerationInput) : Result Bytes := do
  let length ← Radiata.bodyLength input.documentEntries input.documentReceipts
  return SerdeJson.toVec (input.zeroed length).sealed

/-- `GenerationDocument::digest` -/
def digest (bytes : Bytes) : Digest := sha256 bytes

/-! ## Parsing -/

def validateRevision (document : GenerationDocument) : Result Unit := do
  let revision ← hexDecodeArray 8 document.revision "json revision"
  ensure (UInt64.ofNat (Bytes.ofBE revision.1) = document.generation)
    (.invalidInput "json generation revision")

def validateReceipt (document : GenerationDocument) : Result Unit :=
  ensure (document.receipt.transaction = document.transactionId
      ∧ document.receipt.operationDigest = document.operationDigest
      ∧ document.receipt.committedRevision = document.revision)
    (.invalidInput "json generation receipt")

def validateBodyLength (document : GenerationDocument) : Result Unit := do
  let length ← Radiata.bodyLength document.entries document.receipts
  ensure (document.bodyLength = length) (.invalidInput "json generation body length")

/-- One iteration of the loop over the entries. -/
def validateEntry [DnsName] : Bytes × Bytes × Bytes → Result Unit
  | (namespaceText, key, value) => do
    let _ ← QualifiedTag.parse namespaceText
    let _ ← hexDecode key "json entry key"
    let _ ← hexDecode value "json entry value"
    return ()

def validateEntryOrder (document : GenerationDocument) : Result Unit :=
  ensure (document.entries.allAdjacent fun a b => a.1 < b.1 ∨ a.1 = b.1 ∧ a.2.1 < b.2.1)
    (.invalidInput "json generation entry order")

/-- One iteration of the loop over the receipts. -/
def validateReceiptBody (previous : Option Bytes) (receipt : ReceiptBody) : Result Unit := do
  let _ ← (CanonicalId.parse receipt.transaction : Result TransactionId)
  let _ ← hexDecodeArray 32 receipt.operationDigest "json receipt digest"
  let _ ← hexDecodeArray 8 receipt.committedRevision "json receipt revision"
  ensure (previous.all fun previous => previous < receipt.transaction)
    (.invalidInput "json generation receipt order")

/-- The loop over the receipts. -/
def validateReceipts : Option Bytes → List ReceiptBody → Result Unit
  | _, [] => .ok ()
  | previous, receipt :: receipts => do
    validateReceiptBody previous receipt
    validateReceipts (some receipt.transaction) receipts

def validateParent (document : GenerationDocument) : Result Unit :=
  match document.parentGeneration, document.parentDigest with
  | some parentGeneration, some parentDigest => do
    ensure (parentGeneration < document.generation) (.invalidInput "json parent generation")
    let _ ← hexDecodeArray 32 parentDigest "json parent digest"
    return ()
  | parentGeneration, parentDigest =>
    ensure (parentGeneration.isSome = parentDigest.isSome ∧ document.generation = 1)
      (.invalidInput "json parent")

/-- The checks of `parse` on a document read from `bytes`. -/
def validate [DnsName] (document : GenerationDocument) (bytes : Bytes) : Result Unit := do
  ensure (SerdeJson.toVec document = bytes) (.invalidInput "json generation canonical form")
  ensure (document.schema = generationSchema) (.unsupportedSchema "json generation schema")
  ensure (document.storeSchema = Radiata.storeSchema) (.unsupportedSchema "json store schema")
  let _ ← hexDecodeArray 16 document.storeUuid "json store uuid"
  let _ ← hexDecodeArray 32 document.operationDigest "json operation digest"
  document.validateRevision
  let _ ← (CanonicalId.parse document.transactionId : Result TransactionId)
  document.forgotten.forM fun forgotten => do
    let _ ← (CanonicalId.parse forgotten : Result TransactionId)
    return ()
  document.validateReceipt
  document.validateBodyLength
  document.entries.forM validateEntry
  document.validateEntryOrder
  validateReceipts none document.receipts
  document.validateParent
  ensure (document.checksum = document.computedChecksum) (.invalidInput "json generation checksum")

def parse [DnsName] (bytes : Bytes) : Result GenerationDocument :=
  match SerdeJson.fromSlice bytes with
  | none => .error (.invalidInput "json generation")
  | some document => do
    document.validate bytes
    return document

end GenerationDocument

end Document

end Radiata
