import Radiata.ForStd.List
import Radiata.Native.Packet
import Radiata.Native.ReadLoop

/-!
# Open frames on the wire

`encode_open`, `decode_open` and `open_from_wire` (`src/packet/wire.rs`): the body of an open
frame is an array of five elements, with the route of a routed frame as a sixth. The decoder
re-encodes and compares like the other packet decoders, first in the current shape and then in
the previous one that ends at the metadata.

The derived codec leaves the last element out when it is `None`, and reads a missing one as `None`.
-/

namespace Radiata

open Cbor (Item)
open Except (rejectIf)

/-! ## Wire forms -/

/-- `RouteWire` -/
structure RouteWire where
  current : Bytes
  visited : List Bytes
  remainingHops : UInt32

namespace RouteWire

def toItem (wire : RouteWire) : Item :=
  .array [.text wire.current, .array (wire.visited.map .text), .uint wire.remainingHops.toUInt64]

def decode : Reader RouteWire := Cbor.decodeFields 3 do
  return ⟨← Cbor.decodeStr, ← Cbor.decodeVec Cbor.decodeStr,
    UInt64.toUInt32 (← Cbor.decodeUIntBelow 4294967296)⟩

end RouteWire

/-- A metadata entry as an array of two. -/
def metadataItem (entry : Bytes × Bytes) : Item := .array [.text entry.1, .bytes entry.2]

/-- The decoder of a tuple wants its exact length. -/
def decodeMetadataEntry : Reader (Bytes × Bytes) := do
  let some length ← Cbor.decodeArray | failure
  if length ≠ 2 then failure
  let key ← Cbor.decodeStr
  let value ← Cbor.decodeBytes
  return (key, value)

/-- `OpenWireV1`: the elements that both shapes share. -/
structure OpenWireV1 where
  traceId : Bytes
  source : Bytes
  destination : Bytes
  protocol : Bytes
  metadata : List (Bytes × Bytes)

namespace OpenWireV1

def items (wire : OpenWireV1) : List Item :=
  [.text wire.traceId, .text wire.source, .text wire.destination, .text wire.protocol,
    .array (wire.metadata.map metadataItem)]

def toItem (wire : OpenWireV1) : Item := .array wire.items

def decodeItems : Reader OpenWireV1 := do
  return ⟨← Cbor.decodeStr, ← Cbor.decodeStr, ← Cbor.decodeStr, ← Cbor.decodeStr,
    ← Cbor.decodeVec decodeMetadataEntry⟩

def decode : Reader OpenWireV1 := Cbor.decodeFields 5 decodeItems

def codec : CborCodec OpenWireV1 := ⟨fun wire => wire.toItem.encode, decode⟩

end OpenWireV1

/-- `OpenWire` -/
structure OpenWire extends OpenWireV1 where
  route : Option RouteWire

namespace OpenWire

def toItem (wire : OpenWire) : Item :=
  .array (wire.items ++ (wire.route.map RouteWire.toItem).toList)

/-- A sixth element is the route or `null`. -/
def decodeRoute (length : Nat) : Reader (Option RouteWire) :=
  if length = 5 then pure none else Cbor.decodeOption RouteWire.decode

/-- The elements of an array of `length`; those after the sixth are skipped. -/
def decodeElements (length : Nat) : Reader OpenWire := do
  let shared ← OpenWireV1.decodeItems
  let route ← decodeRoute length
  Cbor.skip (length - 6)
  return ⟨shared, route⟩

def decode : Reader OpenWire := do
  let some length ← Cbor.decodeArray | failure
  if length < 5 then failure else decodeElements length

def codec : CborCodec OpenWire := ⟨fun wire => wire.toItem.encode, decode⟩

end OpenWire

section Frames

variable [DnsName]

/-! ## Frames -/

/-- An open frame; its hop budget is a `u32`. -/
structure OpenPacket where
  frame : OpenFrame OpenContent
  budget : ∀ route ∈ frame.route, route.remainingHops < 2 ^ 32

namespace OpenPacket

theorem ext_frame {a b : OpenPacket} (h : a.frame = b.frame) : a = b := by
  cases a; cases b; simp_all

/-- The chain of a routed frame. -/
def chain (packet : OpenPacket) : List NodeId := packet.frame.route.elim [] HopState.visited

/-- The pairs that a frame carries as metadata. -/
def metadataPairs (metadata : PacketMetadata) : List (Bytes × Bytes) :=
  metadata.entries.toList.map fun entry => (entry.1.asStr, entry.2)

/-- The wire form of a hop state. -/
def routeWire (route : HopState) : RouteWire :=
  ⟨route.current.asStr, route.visited.map CanonicalId.asStr, UInt32.ofNat route.remainingHops⟩

def wire (packet : OpenPacket) : OpenWire where
  traceId := packet.frame.traceId.asStr
  source := packet.frame.source.asStr
  destination := packet.frame.destination.asStr
  protocol := packet.frame.content.1.asStr
  metadata := metadataPairs packet.frame.content.2
  route := packet.frame.route.map routeWire

/-- `encode_open` -/
def encodeOpen (packet : OpenPacket) : Result Bytes :=
  encodeCanonical OpenWire.codec packet.wire controlCborLimits

/-- `metadata.windows(2).all(|pair| pair[0].0 < pair[1].0)` -/
def metadataOrdered (pairs : List (Bytes × Bytes)) : Bool :=
  List.allAdjacent (fun first second => decide (first.1 < second.1)) pairs

/-- The loop that rebuilds the metadata. -/
def readMetadata : PacketMetadata → List (Bytes × Bytes) → Result PacketMetadata
  | metadata, [] => .ok metadata
  | metadata, (key, value) :: rest => do
    let key ← QualifiedTag.parse key
    readMetadata (← metadata.insert key value) rest

/-- The route of `open_from_wire`, whose chain names no node twice. -/
def readRoute (wire : RouteWire) : Result { route : HopState // route.remainingHops < 2 ^ 32 } := do
  let current ← CanonicalId.parse wire.current
  let visited ← wire.visited.mapM CanonicalId.parse
  rejectIf (¬ visited.Nodup) (.invalidInput "packet route chain")
  return ⟨⟨current, visited, wire.remainingHops.toNat⟩, wire.remainingHops.toNat_lt⟩

/-- `open_from_wire` -/
def openFromWire (wire : OpenWire) : Result OpenPacket := do
  rejectIf (metadataOrdered wire.metadata = false) (.invalidInput "packet metadata order")
  let metadata ← readMetadata .new wire.metadata
  let route ← wire.route.mapM readRoute
  let traceId ← CanonicalId.parse wire.traceId
  let source ← CanonicalId.parse wire.source
  let destination ← CanonicalId.parse wire.destination
  let protocol ← ProtocolTag.parse wire.protocol
  return ⟨⟨traceId, source, destination, (protocol, metadata), route.map Subtype.val⟩,
    fun hop h => by
      obtain ⟨found, -, rfl⟩ := Option.map_eq_some_iff.mp h
      exact found.2⟩

/-- The previous shape, which ends at the metadata. -/
def decodePrevious (body : Bytes) (limits : CborLimits) : Result OpenPacket := do
  let wire ← (decodeCanonical OpenWireV1.codec body limits).mapError
    fun _ => .invalidInput "packet open decode"
  rejectIf ((encodeCanonical OpenWireV1.codec wire controlCborLimits).toOption ≠ some body)
    (.invalidInput "packet open canonical")
  openFromWire ⟨wire, none⟩

/-- `decode_open` -/
def decodeOpen (body : Bytes) (limits : CborLimits) : Result OpenPacket :=
  match decodeCanonical OpenWire.codec body limits with
  | .ok wire =>
    if (encodeCanonical OpenWire.codec wire controlCborLimits).toOption = some body then
      openFromWire wire
    else decodePrevious body limits
  | .error _ => decodePrevious body limits

end OpenPacket

end Frames

end Radiata
