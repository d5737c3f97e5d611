import Radiata.ForStd.CborItem
import Radiata.Native.Cbor
import Radiata.Native.Identity

/-!
# Packet frames

`src/packet/mod.rs` and `src/packet/wire.rs`: the acknowledgement status and the chunk, end
and ack bodies of a packet stream. Every decoder re-encodes and compares. The open body,
which carries the protocol tag, the metadata and the route, is in `Radiata.Native.OpenWire`.
-/

namespace Radiata

open Cbor (Item)

/-- The per-chunk streaming quantum in bytes. -/
def maxChunkBytes : Nat := 32 * 1024

/-- `AckStatus` -/
inductive AckStatus where
  | admitted
  | unsupported
  | overloaded
  | failed
  deriving DecidableEq, Repr

namespace AckStatus

def code : AckStatus → UInt64
  | admitted => 0
  | unsupported => 1
  | overloaded => 2
  | failed => 3

def fromCode (code : UInt64) : Option AckStatus :=
  if code = 0 then some admitted
  else if code = 1 then some unsupported
  else if code = 2 then some overloaded
  else if code = 3 then some failed
  else none

@[simp] theorem fromCode_code (status : AckStatus) : fromCode status.code = some status := by
  cases status <;> rfl

end AckStatus

structure ChunkFrame where
  traceId : TraceId
  sequence : UInt64
  bytes : Bytes
  deriving DecidableEq

structure EndFrame where
  traceId : TraceId
  deriving DecidableEq

structure AckFrame where
  traceId : TraceId
  status : AckStatus
  admittedAtMillis : UInt64
  deriving DecidableEq

/-! ## Wire bodies -/

structure ChunkWire where
  traceId : Bytes
  sequence : UInt64
  bytes : Bytes

namespace ChunkWire

def toItem (wire : ChunkWire) : Item :=
  .array [.text wire.traceId, .uint wire.sequence, .bytes wire.bytes]

def decode : Reader ChunkWire := Cbor.decodeFields 3 do
  return ⟨← Cbor.decodeStr, ← Cbor.decodeU64, ← Cbor.decodeBytes⟩

def codec : CborCodec ChunkWire := ⟨fun wire => wire.toItem.encode, decode⟩

end ChunkWire

structure EndWire where
  traceId : Bytes

namespace EndWire

def toItem (wire : EndWire) : Item := .array [.text wire.traceId]

def decode : Reader EndWire := Cbor.decodeFields 1 do
  return ⟨← Cbor.decodeStr⟩

def codec : CborCodec EndWire := ⟨fun wire => wire.toItem.encode, decode⟩

end EndWire

/-- The outcome is one byte in the source. -/
structure AckWire where
  traceId : Bytes
  outcome : UInt64
  admittedAtMillis : UInt64

namespace AckWire

def toItem (wire : AckWire) : Item :=
  .array [.text wire.traceId, .uint wire.outcome, .uint wire.admittedAtMillis]

def decode : Reader AckWire := Cbor.decodeFields 3 do
  return ⟨← Cbor.decodeStr, ← Cbor.decodeUIntBelow 256, ← Cbor.decodeU64⟩

def codec : CborCodec AckWire := ⟨fun wire => wire.toItem.encode, decode⟩

end AckWire

/-! ## Frames -/

/-- `encode_chunk` -/
def encodeChunk (frame : ChunkFrame) : Result Bytes := do
  if frame.bytes.length > maxChunkBytes then
    throw (.invalidInput "packet chunk")
  encodeCanonical ChunkWire.codec ⟨frame.traceId.asStr, frame.sequence, frame.bytes⟩ controlCborLimits

/-- `decode_chunk` -/
def decodeChunk (body : Bytes) (limits : CborLimits) : Result ChunkFrame := do
  let wire ← decodeCanonicalStrict ChunkWire.codec body limits "packet frame canonical"
  if wire.bytes.length > maxChunkBytes then
    throw (.invalidInput "packet chunk")
  return ⟨← CanonicalId.parse wire.traceId, wire.sequence, wire.bytes⟩

/-- `encode_end` -/
def encodeEnd (frame : EndFrame) : Result Bytes :=
  encodeCanonical EndWire.codec ⟨frame.traceId.asStr⟩ controlCborLimits

/-- `decode_end` -/
def decodeEnd (body : Bytes) (limits : CborLimits) : Result EndFrame := do
  let wire ← decodeCanonicalStrict EndWire.codec body limits "packet frame canonical"
  return ⟨← CanonicalId.parse wire.traceId⟩

/-- `encode_ack` -/
def encodeAck (frame : AckFrame) : Result Bytes :=
  encodeCanonical AckWire.codec ⟨frame.traceId.asStr, frame.status.code, frame.admittedAtMillis⟩
    controlCborLimits

/-- `decode_ack` -/
def decodeAck (body : Bytes) (limits : CborLimits) : Result AckFrame := do
  let wire ← decodeCanonicalStrict AckWire.codec body limits "packet frame canonical"
  match AckStatus.fromCode wire.outcome with
  | none => throw (.invalidInput "packet ack outcome")
  | some status => return ⟨← CanonicalId.parse wire.traceId, status, wire.admittedAtMillis⟩

end Radiata
