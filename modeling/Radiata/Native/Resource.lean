import Radiata.ForStd.Saturating
import Radiata.Native.Cbor
import Radiata.Native.Label
import Radiata.Native.Signature

/-!
# Resource records

`src/resource/mod.rs`: the signed record of a named resource, its canonical body and wire
form, and the tuple order by which one of several records of a name wins.

A record is assembled by `seal` from an encoded body, or decoded; both make its digest the
digest of its body, which is the `sealed` field.
-/

namespace Radiata

open Cbor (Item)
open Except (rejectIf)

def resourceRecordSchema : Bytes := Bytes.utf8 "radiata.woooo.tech/schemas/resource-record-v1"
def resourceRecordDomain : Bytes := Bytes.utf8 "radiata.woooo.tech/crypto/resource-record-v1"

/-- `RECORD_LIMITS` -/
def recordLimits : CborLimits := ⟨4, 256, 16 * 1024⟩

def resourceRecordVersion : UInt64 := 1

def categoryResources : Bytes := Bytes.utf8 "resources"

/-- A resource name. -/
abbrev ResourceName [DnsName] := CategoryTag categoryResources

def ResourceName.parse [DnsName] (text : Bytes) : Result ResourceName :=
  CategoryTag.parse "resource name" text

/-- A resource URI is checked like a label value. -/
abbrev ResourceUri := LabelValue

def ResourceUri.parse (text : Bytes) : Result ResourceUri := parseLabelText "resource uri" text

/-! ## Wire forms -/

/-- `ResourceRecordBodyWire` -/
structure ResourceBodyWire where
  schema : Bytes
  recordVersion : UInt64
  clusterId : Bytes
  name : Bytes
  resourceType : Bytes
  resourceUri : Bytes
  labels : List (Bytes × Bytes)
  timestampMillis : UInt64
  writer : Bytes
  removalRank : UInt64
  removed : Bool

namespace ResourceBodyWire

/-- The fields that the body and the record share. -/
def items (wire : ResourceBodyWire) : List Item :=
  [.text wire.schema, .uint wire.recordVersion, .text wire.clusterId, .text wire.name,
    .text wire.resourceType, .text wire.resourceUri, pairsItem wire.labels,
    .uint wire.timestampMillis, .text wire.writer, .uint wire.removalRank, .bool wire.removed]

def toItem (wire : ResourceBodyWire) : Item := .array wire.items

def decodeItems : Reader ResourceBodyWire := do
  return ⟨← Cbor.decodeStr, ← Cbor.decodeUIntBelow 65536, ← Cbor.decodeStr, ← Cbor.decodeStr,
    ← Cbor.decodeStr, ← Cbor.decodeStr, ← decodePairs, ← Cbor.decodeU64, ← Cbor.decodeStr,
    ← Cbor.decodeU64, ← Cbor.decodeBool⟩

def decode : Reader ResourceBodyWire := Cbor.decodeFields 11 decodeItems

def codec : CborCodec ResourceBodyWire := ⟨fun wire => wire.toItem.encode, decode⟩

end ResourceBodyWire

/-- `ResourceRecordWire`: the fields of the body, the digest and the signature. -/
structure ResourceRecordWire where
  body : ResourceBodyWire
  digest : Bytes
  signature : Bytes

namespace ResourceRecordWire

def toItem (wire : ResourceRecordWire) : Item :=
  .array (wire.body.items ++ [.bytes wire.digest, .bytes wire.signature])

def decode : Reader ResourceRecordWire := Cbor.decodeFields 13 do
  return ⟨← ResourceBodyWire.decodeItems, ← Cbor.decodeBytes, ← Cbor.decodeBytes⟩

def codec : CborCodec ResourceRecordWire := ⟨fun wire => wire.toItem.encode, decode⟩

end ResourceRecordWire

variable [DnsName]

/-! ## Records -/

/-- The fields a writer signs. -/
structure ResourceFields where
  cluster : ClusterId
  name : ResourceName
  resourceType : LabelValue
  resourceUri : ResourceUri
  labels : LabelSet
  timestampMillis : UInt64
  writer : NodeId
  removalRank : UInt64
  removed : Bool
  deriving DecidableEq

namespace ResourceFields

def wire (fields : ResourceFields) : ResourceBodyWire where
  schema := resourceRecordSchema
  recordVersion := resourceRecordVersion
  clusterId := fields.cluster.asStr
  name := fields.name.asStr
  resourceType := fields.resourceType.asStr
  resourceUri := fields.resourceUri.asStr
  labels := fields.labels.pairs
  timestampMillis := fields.timestampMillis
  writer := fields.writer.asStr
  removalRank := fields.removalRank
  removed := fields.removed

/-- `encode_signed_body` -/
def encodeSignedBody (fields : ResourceFields) : Result Bytes :=
  encodeCanonical ResourceBodyWire.codec fields.wire recordLimits

end ResourceFields

/-- `ResourceRecordV1` -/
structure ResourceRecord extends ResourceFields where
  digest : Digest
  signature : Signature
  sealed : ∃ body, toResourceFields.encodeSignedBody = .ok body ∧ digest = bodyDigest body

namespace ResourceRecord

theorem ext_fields {a b : ResourceRecord} (hfields : a.toResourceFields = b.toResourceFields)
    (hdigest : a.digest = b.digest) (hsignature : a.signature = b.signature) : a = b := by
  cases a; cases b; simp_all

instance : DecidableEq ResourceRecord := fun a b =>
  decidable_of_iff (a.toResourceFields = b.toResourceFields ∧ a.digest = b.digest ∧
      a.signature = b.signature) <| by
    constructor
    · rintro ⟨hfields, hdigest, hsignature⟩
      exact ext_fields hfields hdigest hsignature
    · rintro rfl
      exact ⟨rfl, rfl, rfl⟩

/-- `seal` -/
def «seal» (fields : ResourceFields) (signature : Signature) : Result ResourceRecord :=
  match h : fields.encodeSignedBody with
  | .error error => .error error
  | .ok body => .ok ⟨fields, bodyDigest body, signature, body, h, rfl⟩

def wire (record : ResourceRecord) : ResourceRecordWire :=
  ⟨record.toResourceFields.wire, record.digest.asBytes, record.signature.asBytes⟩

/-- `encode` -/
def encode (record : ResourceRecord) : Result Bytes :=
  encodeCanonical ResourceRecordWire.codec record.wire recordLimits

/-- The conversions of `decode` before it looks at the digest. -/
def readFields (wire : ResourceBodyWire) : Result ResourceFields := do
  let cluster ← CanonicalId.parse wire.clusterId
  let name ← ResourceName.parse wire.name
  let resourceType ← LabelValue.parse wire.resourceType
  let resourceUri ← ResourceUri.parse wire.resourceUri
  let labels ← LabelSet.empty.insertPairs wire.labels
  let writer ← CanonicalId.parse wire.writer
  return ⟨cluster, name, resourceType, resourceUri, labels, wire.timestampMillis, writer,
    wire.removalRank, wire.removed⟩

/-- The digest check of `decode`. -/
def checkDigest (fields : ResourceFields) (digest : Digest) (signature : Signature) :
    Result ResourceRecord :=
  match h : fields.encodeSignedBody with
  | .error error => .error error
  | .ok body =>
    if hdigest : digest = bodyDigest body then .ok ⟨fields, digest, signature, body, h, hdigest⟩
    else .error (.invalidInput "resource record digest")

/-- `decode` -/
def decode (bytes : Bytes) : Result ResourceRecord := do
  let wire ← decodeCanonicalStrict ResourceRecordWire.codec bytes recordLimits
    "resource record canonical"
  rejectIf (wire.body.schema ≠ resourceRecordSchema ∨ wire.body.recordVersion ≠ resourceRecordVersion)
    (.invalidInput "resource record schema")
  let fields ← readFields wire.body
  let digest ← fixedBytes 32 wire.digest "resource record digest"
  let signature ← fixedBytes 64 wire.signature "resource record signature"
  checkDigest fields (.fromBytes digest) (.fromBytes signature)

/-- `verify` -/
def verify [Ed25519] (record : ResourceRecord) (writerKey : PublicKey) : Result Unit := do
  let body ← record.toResourceFields.encodeSignedBody
  verifyStrict resourceRecordDomain body writerKey record.signature "resource record signature"

/-- `tuple_order`: the timestamp, the writer, the removal rank and the digest. -/
def tupleOrder (record other : ResourceRecord) : Ordering :=
  (compare record.timestampMillis other.timestampMillis).then
    ((compare record.writer.asStr other.writer.asStr).then
      ((compare record.removalRank other.removalRank).then (compare record.digest other.digest)))

/-- `wins_over` -/
def winsOver (record other : ResourceRecord) : Bool := record.tupleOrder other == .gt

end ResourceRecord

/-! ## Writes -/

/-- `ResourceLabels`: the two reserved labels and the custom ones. -/
structure ResourceLabels where
  resourceType : LabelValue
  uri : ResourceUri
  custom : LabelSet

/-- The fields that a writer signs for a name and its labels. -/
def ResourceFields.stamp (cluster : ClusterId) (name : ResourceName) (labels : ResourceLabels)
    (timestampMillis : UInt64) (writer : NodeId) (removalRank : UInt64) (removed : Bool) :
    ResourceFields :=
  ⟨cluster, name, labels.resourceType, labels.uri, labels.custom, timestampMillis, writer,
    removalRank, removed⟩

/-- `check_write_shape` -/
def checkWriteShape (name : ResourceName) (labels : ResourceLabels) : Result Unit := do
  let cluster ← CanonicalId.parse (Bytes.utf8 "cluster_000000000000000000001")
  let writer ← CanonicalId.parse (Bytes.utf8 "node_000000000000000000001")
  let probe ← ResourceRecord.seal
    (.stamp cluster name labels UInt64.maxValue writer UInt64.maxValue true)
    (.fromBytes ⟨List.replicate 64 0, rfl⟩)
  let _ ← probe.encode
  return ()

end Radiata
