import Radiata.Native.Cbor
import Radiata.Native.ConditionalPut
import Radiata.Native.Endpoint
import Radiata.Native.Label

/-!
# Node descriptors

`src/membership.rs` and `src/membership/page.rs`: the descriptor a node publishes about
itself, its canonical record, and the store that keeps one descriptor for each node. A record
is replaced by a strictly higher revision only, and a removal marker by a removal marker only.

Every descriptor outside the tests has version 1, which is the `supported` field.
-/

namespace Radiata

open Cbor (Item)
open Except (rejectIf)

def nodeDescriptorSchema : Bytes := Bytes.utf8 "radiata.woooo.tech/schemas/node-descriptor-v1"
def nodeDescriptorNamespaceText : Bytes :=
  Bytes.utf8 "radiata.woooo.tech/metadata/node-descriptor-v1"
def identityBindingNamespaceText : Bytes :=
  Bytes.utf8 "radiata.woooo.tech/metadata/identity-binding-v1"

/-! ## Wire forms -/

/-- `DescriptorWireV1`: the record without labels. -/
structure DescriptorWireV1 where
  schema : Bytes
  recordVersion : UInt64
  node : Bytes
  publicKey : Bytes
  endpoints : List Bytes
  revision : UInt64
  removed : Bool
  version : UInt64

namespace DescriptorWireV1

/-- The fields that both versions of the record share. -/
def items (wire : DescriptorWireV1) : List Item :=
  [.text wire.schema, .uint wire.recordVersion, .text wire.node, .bytes wire.publicKey,
    .array (wire.endpoints.map .text), .uint wire.revision, .bool wire.removed, .uint wire.version]

def decodeItems : Reader DescriptorWireV1 := do
  return ⟨← Cbor.decodeStr, ← Cbor.decodeUIntBelow 65536, ← Cbor.decodeStr, ← Cbor.decodeBytes,
    ← Cbor.decodeVec Cbor.decodeStr, ← Cbor.decodeU64, ← Cbor.decodeBool,
    ← Cbor.decodeUIntBelow 65536⟩

def codec : CborCodec DescriptorWireV1 :=
  ⟨fun wire => (Item.array wire.items).encode, Cbor.decodeFields 8 decodeItems⟩

end DescriptorWireV1

/-- `DescriptorWire`: the record with labels. -/
structure DescriptorWire where
  fields : DescriptorWireV1
  labels : List (Bytes × Bytes)

namespace DescriptorWire

def toItem (wire : DescriptorWire) : Item :=
  .array (wire.fields.items ++ [pairsItem wire.labels])

def decodeItems : Reader DescriptorWire := do
  return ⟨← DescriptorWireV1.decodeItems, ← decodePairs⟩

def codec : CborCodec DescriptorWire :=
  ⟨fun wire => wire.toItem.encode, Cbor.decodeFields 9 decodeItems⟩

end DescriptorWire

variable [DnsName]

/-! ## Descriptors -/

/-- `NodeDescriptorV1` -/
structure NodeDescriptor where
  node : NodeId
  publicKey : PublicKey
  endpoints : List Endpoint
  labels : LabelSet
  revision : UInt64
  removed : Bool
  version : UInt64
  supported : version = 1
  deriving DecidableEq

namespace NodeDescriptor

def wire (descriptor : NodeDescriptor) : DescriptorWire where
  fields :=
    { schema := nodeDescriptorSchema
      recordVersion := 2
      node := descriptor.node.asStr
      publicKey := descriptor.publicKey.asBytes
      endpoints := descriptor.endpoints.map Endpoint.asStr
      revision := descriptor.revision
      removed := descriptor.removed
      version := descriptor.version }
  labels := descriptor.labels.pairs

/-- `encode` -/
def encode (descriptor : NodeDescriptor) : Result Bytes :=
  encodeCanonical DescriptorWire.codec descriptor.wire controlCborLimits

end NodeDescriptor

/-- The loop over the labels: the keys come in strictly ascending order. -/
def readLabels : Option Bytes → LabelSet → List (Bytes × Bytes) → Result LabelSet
  | _, set, [] => .ok set
  | previous, set, (key, value) :: rest => do
    rejectIf (previous.any (key ≤ ·)) (.invalidInput "node descriptor label order")
    let labelKey ← (LabelKey.parse key).mapError fun _ => .invalidInput "node descriptor label"
    let labelValue ← (LabelValue.parse value).mapError fun _ =>
      .invalidInput "node descriptor label value"
    readLabels (some key) (← set.insert labelKey labelValue) rest

/-- The endpoints of a record. -/
def readEndpoints (texts : List Bytes) : Result (List Endpoint) :=
  texts.mapM fun text =>
    (Endpoint.parse text).mapError fun _ => .invalidInput "node descriptor endpoint"

/-- `decode_wire` -/
def NodeDescriptor.decodeWire (wire : DescriptorWireV1) (labels : Option (List (Bytes × Bytes))) :
    Result NodeDescriptor := do
  rejectIf (wire.schema ≠ nodeDescriptorSchema ∨ ¬ (wire.recordVersion = 1 ∨ wire.recordVersion = 2))
    (.invalidInput "node descriptor schema")
  if hversion : wire.version ≠ 1 then .error (.invalidInput "node descriptor version")
  else do
    rejectIf (decide (wire.recordVersion = 2) ≠ labels.isSome)
      (.invalidInput "node descriptor version")
    let node ← (CanonicalId.parse wire.node).mapError fun _ => .invalidInput "node descriptor node"
    let publicKey ← fixedBytes 32 wire.publicKey "node descriptor key"
    let endpoints ← readEndpoints wire.endpoints
    let labels ← readLabels none .empty (labels.getD [])
    return ⟨node, .fromBytes publicKey, endpoints, labels, wire.revision, wire.removed,
      wire.version, not_not.mp hversion⟩

/-- The current record shape: the bytes decode to it and it encodes to them. -/
def decodeCurrent (bytes : Bytes) : Option DescriptorWire :=
  match decodeCanonical DescriptorWire.codec bytes controlCborLimits with
  | .error _ => none
  | .ok wire =>
    match encodeCanonical DescriptorWire.codec wire controlCborLimits with
    | .error _ => none
    | .ok encoded => if encoded = bytes then some wire else none

/-- The previous record shape. -/
def decodePrevious (bytes : Bytes) : Result NodeDescriptor := do
  let wire ← (decodeCanonical DescriptorWireV1.codec bytes controlCborLimits).mapError fun _ =>
    .invalidInput "node descriptor decode"
  match encodeCanonical DescriptorWireV1.codec wire controlCborLimits with
  | .error _ => .error (.invalidInput "node descriptor canonical")
  | .ok encoded =>
    if encoded = bytes then NodeDescriptor.decodeWire wire none
    else .error (.invalidInput "node descriptor canonical")

/-- `decode_descriptor` -/
def decodeDescriptor (bytes : Bytes) : Result NodeDescriptor :=
  match decodeCurrent bytes with
  | some wire => NodeDescriptor.decodeWire wire.fields (some wire.labels)
  | none => decodePrevious bytes

/-! ## The store of descriptors -/

def descriptorNamespace : Result StoreNamespace := QualifiedTag.parse nodeDescriptorNamespaceText

/-- The namespace and the key of the descriptor of a node. -/
def descriptorKey (node : NodeId) : Result EntryKey := do
  return ⟨← descriptorNamespace, ⟨node.asStr⟩⟩

/-- `metadata_namespace` (`src/identity/records.rs`) -/
def metadataNamespace (text : Bytes) : Result StoreNamespace := do
  let tag ← QualifiedTag.parse text
  rejectIf (tag.category ≠ categoryMetadata) (.invalidInput "identity record namespace")
  return tag

/-- `identity_binding_key` (`src/identity/records.rs`) -/
def identityBindingKey (node : NodeId) : Result EntryKey := do
  return ⟨← metadataNamespace identityBindingNamespaceText, ⟨node.asStr⟩⟩

/-- `read_descriptor_snapshot`, `read_descriptor_ctx` -/
def readDescriptor (entries : Entries) (node : NodeId) : Result (Option NodeDescriptor) := do
  let key ← descriptorKey node
  match entries.get key with
  | none => return none
  | some value => return some (← decodeDescriptor value.asBytes)

/-- The checks of `store_descriptor_ctx` against the stored descriptor. -/
def descriptorConflict (descriptor existing : NodeDescriptor) : Option Error :=
  if descriptor.revision ≤ existing.revision then some (.conflict "node descriptor revision")
  else if existing.removed ∧ ¬ descriptor.removed then some (.conflict "node descriptor removal")
  else none

/-- The check of a first descriptor: a later revision only of a node with a binding. -/
def firstConflict (entries : Entries) (descriptor : NodeDescriptor) : Result (Option Error) :=
  if descriptor.revision = 1 then .ok none
  else do
    let binding ← identityBindingKey descriptor.node
    return if (entries.get binding).isSome then none else some (.conflict "node descriptor revision")

/-- The checks of `store_descriptor_ctx` on a snapshot. -/
def storeConflict (descriptor : NodeDescriptor) (entries : Entries) (key : EntryKey) :
    Result (Option Error) :=
  match entries.get key with
  | some existing => do
    return descriptorConflict descriptor (← decodeDescriptor existing.asBytes)
  | none => firstConflict entries descriptor

/-- What `store_descriptor_ctx` decides on a snapshot. -/
def storeDescriptor (descriptor : NodeDescriptor) (entries : Entries) :
    Result (PutDecision Error) := do
  let key ← descriptorKey descriptor.node
  match ← storeConflict descriptor entries key with
  | some error => return .answer error
  | none => return .put key ⟨← descriptor.encode⟩

/-- The check of `apply_page_ctx`: descriptors we have at an equal or higher revision are
    skipped. -/
def admitsDescriptor (descriptor : NodeDescriptor) (entries : Entries) : Bool :=
  match readDescriptor entries descriptor.node with
  | .ok (some current) => ! decide (descriptor.revision ≤ current.revision)
  | _ => true

/-- `apply_page_ctx` counts a call that returns `Ok`. -/
def countsDescriptor {ω : Type} : PutOutcome ω → Bool
  | .installed _ => true
  | .aborted => true
  | _ => false

theorem descriptorKey_eq_ok {node : NodeId} {key : EntryKey} (h : descriptorKey node = .ok key) :
    key.namespaceTag.asStr = nodeDescriptorNamespaceText ∧ key.key.asBytes = node.asStr := by
  obtain ⟨tag, htag, h⟩ := Result.bind_eq_ok.mp h
  cases h
  have htext : nodeDescriptorNamespaceText =
      builtinDomain ++ slash :: Bytes.utf8 "metadata/node-descriptor-v1" := by decide
  rw [descriptorNamespace, htext] at htag
  rw [htext]
  exact ⟨QualifiedTag.asStr_of_parse_lowercase htag (by decide) (by decide), rfl⟩

theorem identityBindingKey_eq_ok {node : NodeId} {key : EntryKey}
    (h : identityBindingKey node = .ok key) :
    key.namespaceTag.asStr = identityBindingNamespaceText ∧ key.key.asBytes = node.asStr := by
  obtain ⟨tag, hnamespace, h⟩ := Result.bind_eq_ok.mp h
  cases h
  obtain ⟨parsed, hparsed, hnamespace⟩ := Result.bind_eq_ok.mp hnamespace
  obtain ⟨-, hnamespace⟩ := Except.seq_eq_ok.mp hnamespace
  cases hnamespace
  have htext : identityBindingNamespaceText =
      builtinDomain ++ slash :: Bytes.utf8 "metadata/identity-binding-v1" := by decide
  rw [htext] at hparsed ⊢
  exact ⟨QualifiedTag.asStr_of_parse_lowercase hparsed (by decide) (by decide), rfl⟩

theorem descriptorKey_inj {node node' : NodeId} {key : EntryKey} (h : descriptorKey node = .ok key)
    (h' : descriptorKey node' = .ok key) : node = node' :=
  CanonicalId.ext_asStr ((descriptorKey_eq_ok h).2.symm.trans (descriptorKey_eq_ok h').2)

/-- The calls of `store_descriptor_ctx` and the loop of `apply_page_ctx`, in runs that keep the
    bindings of the `pinned` nodes. -/
def descriptorCalls (pinned : NodeId → Prop) : PageProtocol NodeDescriptor Error where
  decide := storeDescriptor
  owned := fun key => (∃ node, descriptorKey node = .ok key) ∨
    ∃ node, pinned node ∧ identityBindingKey node = .ok key
  external := by
    rintro key (⟨node, hkey⟩ | ⟨node, -, hkey⟩)
    · rw [(descriptorKey_eq_ok hkey).1]
      decide
    · rw [(identityBindingKey_eq_ok hkey).1]
      decide
  puts := by
    intro descriptor entries key value h
    obtain ⟨key', hkey, h⟩ := Result.bind_eq_ok.mp h
    obtain ⟨conflict, -, h⟩ := Result.bind_eq_ok.mp h
    cases conflict with
    | some error => cases h
    | none =>
      obtain ⟨bytes, -, h⟩ := Result.bind_eq_ok.mp h
      cases h
      exact Or.inl ⟨descriptor.node, hkey⟩
  issued := fun _ => True
  admits := admitsDescriptor
  counts := countsDescriptor
  stops := fun _ => false

end Radiata
