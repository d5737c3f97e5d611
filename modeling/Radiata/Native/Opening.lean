import Mathlib.Algebra.GroupWithZero.Nat
import Radiata.ForStd.SortedMap
import Radiata.Native.Signature
import Radiata.Native.Tag

/-!
# Opening contexts

`src/packet/mod.rs`, `src/session/stream.rs`: the metadata a packet carries, and the digest that
tells an identical retransmission of an open frame from a conflicting one.
-/

namespace Radiata

def metadataMaxEntries : Nat := 256
def metadataMaxBytes : Nat := 32 * 1024

section Opening

variable [DnsName]

/-- The bytes of keys and values that count against the limit of a packet. -/
def metadataBytes (entries : List (QualifiedTag × Bytes)) : Nat :=
  (entries.map fun entry => entry.1.asStr.length + entry.2.length).sum

/-- `PacketMetadata` -/
structure PacketMetadata where
  entries : SortedMap QualifiedTag Bytes
  totalBytes : Nat
  counted : totalBytes = metadataBytes entries.toList
  entriesFit : entries.toList.length ≤ metadataMaxEntries
  bytesFit : totalBytes ≤ metadataMaxBytes
  deriving DecidableEq

namespace PacketMetadata

/-- `PacketMetadata::new` -/
def new : PacketMetadata := ⟨.empty, 0, rfl, Nat.zero_le _, Nat.zero_le _⟩

section Insert

variable {metadata : PacketMetadata} {key : QualifiedTag}

theorem perm_insert (value : Bytes) (hkey : ¬ metadata.entries.contains key = true) :
    ((metadata.entries.insert key value).toList).Perm ((key, value) :: metadata.entries.toList) := by
  have hnone : metadata.entries.get key = none := by
    simpa [SortedMap.contains] using hkey
  have hperm := metadata.entries.insert_perm key value
  rwa [metadata.entries.erase_of_get_none hnone] at hperm

theorem counted_insert (value : Bytes) (hkey : ¬ metadata.entries.contains key = true) :
    metadata.totalBytes + (key.asStr.length + value.length) =
      metadataBytes (metadata.entries.insert key value).toList := by
  rw [metadataBytes, ((perm_insert value hkey).map _).sum_nat, List.map_cons, List.sum_cons,
    metadata.counted, Nat.add_comm]
  rfl

theorem entriesFit_insert (value : Bytes) (hkey : ¬ metadata.entries.contains key = true)
    (hfull : ¬ (metadataMaxEntries ≤ metadata.entries.toList.length ∨
      metadataMaxBytes < metadata.totalBytes + (key.asStr.length + value.length))) :
    (metadata.entries.insert key value).toList.length ≤ metadataMaxEntries := by
  rw [(perm_insert value hkey).length_eq, List.length_cons]
  omega

theorem bytesFit_insert {value : Bytes}
    (hfull : ¬ (metadataMaxEntries ≤ metadata.entries.toList.length ∨
      metadataMaxBytes < metadata.totalBytes + (key.asStr.length + value.length))) :
    metadata.totalBytes + (key.asStr.length + value.length) ≤ metadataMaxBytes := by
  omega

end Insert

/-- `PacketMetadata::insert` -/
def insert (metadata : PacketMetadata) (key : QualifiedTag) (value : Bytes) :
    Result PacketMetadata :=
  if hkey : metadata.entries.contains key then .error (.conflict "packet metadata")
  else if hfull : metadataMaxEntries ≤ metadata.entries.toList.length ∨
      metadataMaxBytes < metadata.totalBytes + (key.asStr.length + value.length) then
    .error (.resourceExhausted "packet metadata")
  else
    .ok ⟨metadata.entries.insert key value,
      metadata.totalBytes + (key.asStr.length + value.length), counted_insert value hkey,
      entriesFit_insert value hkey hfull, bytesFit_insert hfull⟩

theorem ext_entries {a b : PacketMetadata} (h : a.entries = b.entries) : a = b := by
  have hbytes : a.totalBytes = b.totalBytes := by rw [a.counted, b.counted, h]
  cases a
  cases b
  simp_all

end PacketMetadata

/-- What `opening_context_digest` reads of an open frame. -/
structure OpeningContext where
  source : NodeId
  destination : NodeId
  protocol : ProtocolTag
  metadata : PacketMetadata
  deriving DecidableEq

namespace OpeningContext

/-- The bytes that `opening_context_digest` hashes. -/
def bytes (opening : OpeningContext) : Bytes :=
  opening.source.asStr ++ 0 :: (opening.destination.asStr ++ 0 :: (opening.protocol.asStr ++
    opening.metadata.entries.toList.flatMap fun entry => entry.1.asStr ++ 1 :: (entry.2 ++ [2])))

/-- `opening_context_digest` -/
def digest (opening : OpeningContext) : Digest := bodyDigest opening.bytes

end OpeningContext

end Opening

end Radiata
