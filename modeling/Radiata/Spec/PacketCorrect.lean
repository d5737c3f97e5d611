import Radiata.Native.Packet
import Radiata.Spec.CborCorrect

/-!
# Packet frames round-trip

Every chunk within the quantum and every end is encoded under the packet limits and read back
under the same limits.

## Key results

- `encodeChunk_eq` / `encodeEnd_eq`: the bodies of the frames
- `decodeChunk_encode` / `decodeEnd_encode`: the frames are read back
-/

namespace Radiata

open Cbor (Item)
open Reader (Reads)

/-- The wire body of a chunk. -/
def ChunkFrame.body (frame : ChunkFrame) : Bytes :=
  (ChunkWire.toItem ⟨frame.traceId.asStr, frame.sequence, frame.bytes⟩).encode

/-- The wire body of an end. -/
def EndFrame.body (frame : EndFrame) : Bytes := (EndWire.toItem ⟨frame.traceId.asStr⟩).encode

private theorem size_trace (trace : TraceId) : (Item.text trace.asStr).size ≤ 2 + 27 :=
  Item.size_text_le (Nat.le_of_eq trace.length_asStr)

theorem sendable_chunk (frame : ChunkFrame) (h : frame.bytes.length ≤ maxChunkBytes) :
    Sendable ChunkWire.codec ⟨frame.traceId.asStr, frame.sequence, frame.bytes⟩
      (.array [.text frame.traceId.asStr, .uint frame.sequence, .bytes frame.bytes]) where
  encodes := rfl
  reads := by
    have hlength : frame.bytes.length < 2 ^ 64 := h.trans_lt (by decide)
    refine Cbor.reads_fields (by omega) ?_
    refine (Cbor.reads_str (by rw [TraceId.length_asStr]; omega) frame.traceId.ascii.isUtf8).bind ?_
    refine (Cbor.reads_u64 frame.sequence).bind ?_
    exact (Cbor.reads_bytes hlength).bind (Reads.pure _)
  fits := by
    simp only [Fits, FitsAll, controlCborLimits, List.length_cons, List.length_nil, and_true]
    exact ⟨by omega, by omega, frame.traceId.ascii.isUtf8⟩
  small := by
    have htrace := size_trace frame.traceId
    have hsequence : (Item.uint frame.sequence).size ≤ 9 := Cbor.headLen_le_nine _
    have hbytes : (Item.bytes frame.bytes).size ≤ 3 + 32768 := Item.size_text_le h
    show Cbor.headLen 3 + ((Item.text _).size + ((Item.uint _).size + ((Item.bytes _).size + 0))) ≤ _
    rw [show Cbor.headLen 3 = 1 by decide]
    omega

theorem sendable_end (frame : EndFrame) :
    Sendable EndWire.codec ⟨frame.traceId.asStr⟩ (.array [.text frame.traceId.asStr]) where
  encodes := rfl
  reads := by
    refine Cbor.reads_fields (by omega) ?_
    refine (Cbor.reads_str (by rw [TraceId.length_asStr]; omega) frame.traceId.ascii.isUtf8).bind ?_
    exact Reads.pure _
  fits := by
    simp only [Fits, FitsAll, controlCborLimits, List.length_cons, List.length_nil, and_true]
    exact ⟨by omega, by omega, frame.traceId.ascii.isUtf8⟩
  small := by
    have htrace := size_trace frame.traceId
    show Cbor.headLen 1 + ((Item.text _).size + 0) ≤ _
    rw [show Cbor.headLen 1 = 1 by decide]
    omega

theorem sendable_ack (frame : AckFrame) :
    Sendable AckWire.codec ⟨frame.traceId.asStr, frame.status.code, frame.admittedAtMillis⟩
      (.array [.text frame.traceId.asStr, .uint frame.status.code, .uint frame.admittedAtMillis]) where
  encodes := rfl
  reads := by
    refine Cbor.reads_fields (by omega) ?_
    refine (Cbor.reads_str (by rw [TraceId.length_asStr]; omega) frame.traceId.ascii.isUtf8).bind ?_
    refine (Cbor.reads_uintBelow (by cases frame.status <;> decide)).bind ?_
    exact (Cbor.reads_u64 frame.admittedAtMillis).bind (Reads.pure _)
  fits := by
    simp only [Fits, FitsAll, controlCborLimits, List.length_cons, List.length_nil, and_true]
    exact ⟨by omega, by omega, frame.traceId.ascii.isUtf8⟩
  small := by
    have htrace := size_trace frame.traceId
    have hcode : (Item.uint frame.status.code).size ≤ 9 := Cbor.headLen_le_nine _
    have htime : (Item.uint frame.admittedAtMillis).size ≤ 9 := Cbor.headLen_le_nine _
    show Cbor.headLen 3 + ((Item.text _).size + ((Item.uint _).size + ((Item.uint _).size + 0))) ≤ _
    rw [show Cbor.headLen 3 = 1 by decide]
    omega

/-- Every chunk within the quantum is encoded. -/
theorem encodeChunk_eq (frame : ChunkFrame) (h : frame.bytes.length ≤ maxChunkBytes) :
    encodeChunk frame = .ok frame.body := by
  unfold encodeChunk
  rw [if_neg (by omega)]
  exact (sendable_chunk frame h).encodeCanonical_eq

theorem encodeEnd_eq (frame : EndFrame) : encodeEnd frame = .ok frame.body :=
  (sendable_end frame).encodeCanonical_eq

/-- An encoded chunk is read back. -/
theorem decodeChunk_encode (frame : ChunkFrame) (h : frame.bytes.length ≤ maxChunkBytes) :
    decodeChunk frame.body controlCborLimits = .ok frame := by
  have hdecode := (sendable_chunk frame h).decodeStrict_eq "packet frame canonical"
  have hsmall : ¬ frame.bytes.length > maxChunkBytes := by omega
  simp only [decodeChunk, ChunkFrame.body, ChunkWire.toItem, hdecode, Result.ok_bind, if_neg hsmall]
  simp

theorem decodeEnd_encode (frame : EndFrame) : decodeEnd frame.body controlCborLimits = .ok frame := by
  have hdecode := (sendable_end frame).decodeStrict_eq "packet frame canonical"
  simp [decodeEnd, EndFrame.body, EndWire.toItem, hdecode]

end Radiata
