import Radiata.ForStd.SortedMap
import Radiata.Native.Packet
import Radiata.Native.SessionQueue

/-!
# Admitted incoming streams

`src/session/stream.rs`: the read loop of a session keeps the streams it has admitted in a
table and passes their chunks on to the channels of their bodies, in strict sequence order.
The table loses a stream when its end frame arrives or when its consumer has gone away; the
channel of a stream that left the table gets nothing more.

`ChannelBody` (`src/packet/mod.rs`) is the consumer's view of a channel: a channel that
closes without an end item is an interrupted stream.

The channel holds a bounded number of items and the loop waits for a place; here it is the
list of all items that were put in, and the consumer is behind by some number of them.
-/

namespace Radiata

/-- One item of an admitted incoming stream. -/
inductive StreamItem where
  | chunk (bytes : Bytes)
  | «end»
  deriving DecidableEq

/-- An admitted stream: the sequence number it expects and what its channel was given. -/
structure AdmittedStream where
  nextSequence : UInt64
  items : List StreamItem
  deriving DecidableEq

/-- `u64::saturating_add(1)` -/
def saturatingSucc (n : UInt64) : UInt64 := if n.toNat = 2 ^ 64 - 1 then n else n + 1

theorem toNat_saturatingSucc (n : UInt64) :
    (saturatingSucc n).toNat = min (n.toNat + 1) (2 ^ 64 - 1) := by
  have hlt := n.toNat_lt
  unfold saturatingSucc
  split
  · omega
  · rw [UInt64.toNat_add, UInt64.toNat_one, Nat.mod_eq_of_lt (by omega)]
    omega

/-- The streams of a session and the channels of those that left the table. -/
structure Incoming where
  streams : SortedMap TraceId AdmittedStream
  closed : List (TraceId × List StreamItem)

namespace Incoming

/-- A stream is admitted. -/
def admitOpen (incoming : Incoming) (trace : TraceId) : Incoming :=
  { incoming with streams := incoming.streams.insert trace ⟨0, []⟩ }

/-- A stream leaves the table. -/
def close (incoming : Incoming) (trace : TraceId) (items : List StreamItem) : Incoming :=
  ⟨incoming.streams.erase trace, incoming.closed ++ [(trace, items)]⟩

/-- `forward_chunk`: `none` is a sequence violation. The channel refuses the item if the
    consumer is `gone`. -/
def forwardChunk (incoming : Incoming) (chunk : ChunkFrame) (gone : Bool) : Option Incoming :=
  match incoming.streams.get chunk.traceId with
  -- An unknown or already terminated stream: the chunk is dropped.
  | none => some incoming
  | some admitted =>
    if admitted.nextSequence ≠ chunk.sequence then none
    else if gone then some (incoming.close chunk.traceId admitted.items)
    else
      let next := ⟨saturatingSucc admitted.nextSequence, admitted.items ++ [.chunk chunk.bytes]⟩
      some { incoming with streams := incoming.streams.insert chunk.traceId next }

/-- The end of a stream. -/
def endStream (incoming : Incoming) (frame : EndFrame) (gone : Bool) : Incoming :=
  match incoming.streams.get frame.traceId with
  | none => incoming
  | some admitted =>
    incoming.close frame.traceId (if gone then admitted.items else admitted.items ++ [.end])

/-- The arms of the read loop for chunks and ends: `none` ends the session. -/
def receive (incoming : Incoming) (frame : SessionFrame) (gone : Bool) : Option Incoming :=
  match frame.kind with
  | .chunk =>
    match decodeChunk frame.body controlCborLimits with
    | .ok chunk => incoming.forwardChunk chunk gone
    | .error _ => none
  | .end =>
    match decodeEnd frame.body controlCborLimits with
    | .ok frame => some (incoming.endStream frame gone)
    | .error _ => none
  | _ => some incoming

/-- A sequence of frames. -/
def receiveAll : Incoming → List (SessionFrame × Bool) → Option Incoming
  | incoming, [] => some incoming
  | incoming, (frame, gone) :: rest => do receiveAll (← incoming.receive frame gone) rest

end Incoming

/-- The answer of `ChannelBody::next_chunk` when the consumer has taken `taken` items of a
    channel: `none` means that it waits. -/
def channelAnswer (items : List StreamItem) (closed : Bool) (taken : Nat) :
    Option (Except ErrorKind (Option Bytes)) :=
  match items[taken]? with
  | some (.chunk bytes) => some (.ok (some bytes))
  | some .end => some (.ok none)
  | none => if closed then some (.error .streamInterrupted) else none

end Radiata
