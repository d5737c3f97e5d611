import Radiata.ForStd.CborItem
import Radiata.Native.Descriptor
import Radiata.Native.Paging
import Radiata.Native.Resource

/-!
# Pages of the synchronization

`src/paging.rs`, `src/resource/page.rs`, `src/membership/page.rs` and the payloads of
`src/resource/sync.rs` and `src/membership/sync.rs`. A page holds whole records and the cursor of
the next page; it is encoded in an envelope, and that in the payload of its protocol.

The pages of the two protocols are the same but for their records, schemas and contexts.
-/

namespace Radiata

open Cbor (Item)
open Except (rejectIf)

/-! ## Envelopes -/

/-- `PageEnvelopeWire` -/
structure PageEnvelopeWire where
  schema : Bytes
  items : List Bytes
  cursor : Option Bytes
  deriving DecidableEq

namespace PageEnvelopeWire

/-- The derived codec leaves the cursor out if it is `None`. -/
def toItem (wire : PageEnvelopeWire) : Item :=
  .array ([.text wire.schema, .array (wire.items.map .bytes)] ++ (wire.cursor.map .bytes).toList)

def decodeCursor (length : Nat) : Reader (Option Bytes) :=
  if length = 2 then pure none else Cbor.decodeOption Cbor.decodeBytes

/-- The elements of an array of `length`; those after the third are skipped. -/
def decodeElements (length : Nat) : Reader PageEnvelopeWire := do
  let schema ← Cbor.decodeStr
  let items ← Cbor.decodeVec Cbor.decodeBytes
  let cursor ← decodeCursor length
  Cbor.skip (length - 3)
  return ⟨schema, items, cursor⟩

def decode : Reader PageEnvelopeWire := do
  let some length ← Cbor.decodeArray | failure
  if length < 2 then failure else decodeElements length

def codec : CborCodec PageEnvelopeWire := ⟨fun wire => wire.toItem.encode, decode⟩

end PageEnvelopeWire

/-- `check_page_shape` -/
def checkPageShape (count max : Nat) (cursor : Option Bytes) (context : String) : Result Unit := do
  rejectIf (max < count) (.resourceExhausted context)
  rejectIf (count = 0 ∧ cursor.isSome) (.invalidInput context)

/-- `encode_page` -/
def encodePage (schema : Bytes) (items : List Bytes) (cursor : Option Bytes) : Result Bytes :=
  encodeCanonical PageEnvelopeWire.codec ⟨schema, items, cursor⟩ controlCborLimits

/-- `decode_page` -/
def decodePage (bytes schema : Bytes) (maxItems : Nat) (context : String) :
    Result (List Bytes × Option Bytes) := do
  let wire ← decodeCanonicalStrict PageEnvelopeWire.codec bytes controlCborLimits context
  rejectIf (wire.schema ≠ schema) (.invalidInput context)
  checkPageShape wire.items.length maxItems none context
  return (wire.items, wire.cursor)

/-! ## Fingerprints -/

/-- What is written to a hasher. -/
inductive Hashed where
  | size (n : Nat)
  | text (text : Bytes)
  | bytes (bytes : Bytes)
  | number (n : UInt64)
  | flag (value : Bool)

/-- `DefaultHasher` of the standard library, whose algorithm is not specified. -/
class DefaultHasher where
  finish : List Hashed → UInt64

/-! ## Pages -/

def maxPageRecords : Nat := 64

/-- `DEFAULT_RESOURCE_PAGE_LIMIT` and `DEFAULT_PAGE_LIMIT` -/
def defaultPageLimit : Nat := 16

/-- What the pages of one protocol are made of. -/
structure PageKind (ρ : Type) where
  schema : Bytes
  context : String
  recordContext : String
  encodeRecord : ρ → Result Bytes
  decodeRecord : Bytes → Result ρ
  hashedRecord : ρ → List Hashed

/-- `ResourcePage` and `MembershipPage` -/
structure SyncPage (ρ : Type) where
  records : List ρ
  cursor : Option Bytes
  bounded : records.length ≤ maxPageRecords
  continued : ¬ (records.length = 0 ∧ cursor.isSome = true)

namespace SyncPage

variable {ρ : Type}

/-- `new` -/
def new (kind : PageKind ρ) (records : List ρ) (cursor : Option Bytes) : Result (SyncPage ρ) :=
  if hbounded : records.length ≤ maxPageRecords then
    if hcontinued : ¬ (records.length = 0 ∧ cursor.isSome = true) then
      .ok ⟨records, cursor, hbounded, hcontinued⟩
    else .error (.invalidInput kind.context)
  else .error (.resourceExhausted kind.context)

/-- `encode` -/
def encode (kind : PageKind ρ) (page : SyncPage ρ) : Result Bytes := do
  let items ← page.records.mapM kind.encodeRecord
  encodePage kind.schema items page.cursor

/-- `decode` -/
def decode (kind : PageKind ρ) (bytes : Bytes) : Result (SyncPage ρ) := do
  let (items, cursor) ← decodePage bytes kind.schema maxPageRecords kind.context
  let records ← items.mapM fun encoded =>
    (kind.decodeRecord encoded).mapError fun _ => .invalidInput kind.recordContext
  new kind records cursor

/-- `fingerprint` -/
def fingerprint [DefaultHasher] (kind : PageKind ρ) (page : SyncPage ρ) : UInt64 :=
  DefaultHasher.finish (.size page.records.length :: .size (page.cursor.elim 0 List.length) ::
    page.records.flatMap kind.hashedRecord)

/-- `emit_page_ctx` over the entries of the namespace in a snapshot. -/
def emit (kind : PageKind ρ) (scan : List (Bytes × Bytes)) (cursor : Option Bytes) (limit : Nat) :
    Result (SyncPage ρ) := do
  let paged ← scanPaged scan cursor (max 1 (min limit maxPageRecords)) fun _ bytes =>
    some <$> kind.decodeRecord bytes
  new kind paged.items paged.next

end SyncPage

section Kinds

variable [DnsName]

/-- The pages of the resource register. -/
def resourcePages : PageKind ResourceRecord where
  schema := Bytes.utf8 "radiata.woooo.tech/schemas/resource-page-v1"
  context := "resource page"
  recordContext := "resource page record"
  encodeRecord := ResourceRecord.encode
  decodeRecord := ResourceRecord.decode
  hashedRecord record := [.text record.name.asStr, .bytes record.digest.asBytes]

/-- The pages of the node descriptors. -/
def membershipPages : PageKind NodeDescriptor where
  schema := Bytes.utf8 "radiata.woooo.tech/schemas/membership-page-v1"
  context := "membership page"
  recordContext := "membership page descriptor"
  encodeRecord := NodeDescriptor.encode
  decodeRecord := decodeDescriptor
  hashedRecord descriptor :=
    [.text descriptor.node.asStr, .number descriptor.revision, .flag descriptor.removed] ++
      descriptor.endpoints.map (fun endpoint => .text endpoint.asStr) ++
      descriptor.labels.pairs.flatMap fun pair => [.text pair.1, .text pair.2]

end Kinds

/-! ## Payloads -/

/-- `SyncPayloadWire` of the resource protocol. -/
structure ResourcePayloadWire where
  schema : Bytes
  payload : Bytes

namespace ResourcePayloadWire

def toItem (wire : ResourcePayloadWire) : Item := .array [.text wire.schema, .bytes wire.payload]

def decode : Reader ResourcePayloadWire := Cbor.decodeFields 2 do
  return ⟨← Cbor.decodeStr, ← Cbor.decodeBytes⟩

def codec : CborCodec ResourcePayloadWire := ⟨fun wire => wire.toItem.encode, decode⟩

end ResourcePayloadWire

/-- `RESOURCE_SYNC_PAYLOAD_SCHEMA` -/
def resourcePayloadSchema : Bytes :=
  Bytes.utf8 "radiata.woooo.tech/schemas/resource-sync-payload-v1"

/-- `ResourceSyncPayload::encode` -/
def encodeResourcePayload (payload : Bytes) : Result Bytes :=
  encodeCanonical ResourcePayloadWire.codec ⟨resourcePayloadSchema, payload⟩ controlCborLimits

/-- `ResourceSyncPayload::decode` -/
def decodeResourcePayload (bytes : Bytes) : Result Bytes := do
  let wire ← decodeCanonicalStrict ResourcePayloadWire.codec bytes controlCborLimits
    "resource sync payload canonical form"
  rejectIf (wire.schema ≠ resourcePayloadSchema) (.invalidInput "resource sync payload schema")
  return wire.payload

/-- `SyncPayload` of the membership protocol: an encoded page or an encoded snapshot. -/
inductive SyncPayload where
  | page (encoded : Bytes)
  | snapshot (encoded : Bytes)
  deriving DecidableEq

/-- `SyncPayloadWire` of the membership protocol; the kind is one byte. -/
structure MembershipPayloadWire where
  schema : Bytes
  kind : UInt64
  payload : Bytes

namespace MembershipPayloadWire

def toItem (wire : MembershipPayloadWire) : Item :=
  .array [.text wire.schema, .uint wire.kind, .bytes wire.payload]

def decode : Reader MembershipPayloadWire := Cbor.decodeFields 3 do
  return ⟨← Cbor.decodeStr, ← Cbor.decodeUIntBelow 256, ← Cbor.decodeBytes⟩

def codec : CborCodec MembershipPayloadWire := ⟨fun wire => wire.toItem.encode, decode⟩

end MembershipPayloadWire

/-- `SYNC_PAYLOAD_SCHEMA` -/
def syncPayloadSchema : Bytes :=
  Bytes.utf8 "radiata.woooo.tech/schemas/membership-sync-payload-v1"

def syncKindPage : UInt64 := 1

def syncKindSnapshot : UInt64 := 2

namespace SyncPayload

/-- `SyncPayload::encode` -/
def encode (payload : SyncPayload) : Result Bytes :=
  match payload with
  | .page encoded =>
    encodeCanonical MembershipPayloadWire.codec ⟨syncPayloadSchema, syncKindPage, encoded⟩
      controlCborLimits
  | .snapshot encoded =>
    encodeCanonical MembershipPayloadWire.codec ⟨syncPayloadSchema, syncKindSnapshot, encoded⟩
      controlCborLimits

/-- `SyncPayload::decode` -/
def decode (bytes : Bytes) : Result SyncPayload := do
  let wire ← decodeCanonicalStrict MembershipPayloadWire.codec bytes controlCborLimits
    "membership sync payload canonical form"
  rejectIf (wire.schema ≠ syncPayloadSchema) (.invalidInput "membership sync payload schema")
  if wire.kind = syncKindPage then return .page wire.payload
  else if wire.kind = syncKindSnapshot then return .snapshot wire.payload
  else .error (.invalidInput "membership sync payload kind")

end SyncPayload

end Radiata
