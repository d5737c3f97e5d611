import Radiata.ForStd.CborItem
import Radiata.Native.Cbor
import Radiata.Native.Identity
import Radiata.Native.WallTime

/-!
# Route-trace records

The records of `src/routing/trace.rs`: who routed a stream where, how far it came and when that
was written. A record of a stream that has ended is terminal.
-/

namespace Radiata

open Cbor (Item)
open Except (rejectIf)

def traceSchema : Bytes := Bytes.utf8 "radiata.woooo.tech/schemas/route-trace-v1"
def traceNamespaceText : Bytes := Bytes.utf8 "radiata.woooo.tech/metadata/route-trace-v1"

/-! ## Phases -/

inductive TracePhase where
  | routing
  | streaming
  | delivered
  | failed (kind : ErrorKind)
  deriving DecidableEq

namespace TracePhase

/-- `is_terminal` -/
def isTerminal : TracePhase → Bool
  | delivered | failed _ => true
  | routing | streaming => false

end TracePhase

/-- The failure kinds in the order of their codes, which start at one. -/
def failureKinds : List ErrorKind :=
  [.invalidInput, .conflict, .notFound, .notReady, .notTrusted, .revoked, .unsupported,
    .unsupportedSchema, .unsupportedCapability, .authenticationFailed, .routeUnavailable,
    .streamInterrupted, .overloaded, .resourceExhausted, .storageLocked, .storageCorrupt,
    .permissionDenied, .io, .commitUnknown, .cancelled, .shuttingDown, .internal]

/-- `kind_from_code` -/
def kindFromCode (code : UInt64) : Result ErrorKind :=
  if code = 0 then .error (.invalidInput "route trace failure code")
  else
    match failureKinds[code.toNat - 1]? with
    | some kind => .ok kind
    | none => .error (.invalidInput "route trace failure code")

/-- `TracePhase::from_code` -/
def TracePhase.fromCode (code : UInt64) (failure : Option UInt64) : Result TracePhase :=
  match failure with
  | none =>
    if code = 0 then .ok routing
    else if code = 1 then .ok streaming
    else if code = 2 then .ok delivered
    else .error (.invalidInput "route trace phase")
  | some failure =>
    if code = 3 ∧ failure ≠ 0 then failed <$> kindFromCode failure
    else .error (.invalidInput "route trace phase")

/-! ## Records -/

structure TraceWire where
  schema : Bytes
  recordVersion : UInt64
  traceId : Bytes
  source : Bytes
  destination : Bytes
  attempts : UInt64
  phase : UInt64
  failure : Option UInt64
  updatedAtMillis : UInt64

namespace TraceWire

def toItem (wire : TraceWire) : Item :=
  .array [.text wire.schema, .uint wire.recordVersion, .text wire.traceId, .text wire.source,
    .text wire.destination, .uint wire.attempts, .uint wire.phase,
    wire.failure.elim .null .uint, .uint wire.updatedAtMillis]

def decode : Reader TraceWire := Cbor.decodeFields 9 do
  return ⟨← Cbor.decodeStr, ← Cbor.decodeUIntBelow 65536, ← Cbor.decodeStr, ← Cbor.decodeStr,
    ← Cbor.decodeStr, ← Cbor.decodeUIntBelow 4294967296, ← Cbor.decodeUIntBelow 256,
    ← Cbor.decodeOption (Cbor.decodeUIntBelow 256), ← Cbor.decodeU64⟩

def codec : CborCodec TraceWire := ⟨fun wire => wire.toItem.encode, decode⟩

end TraceWire

structure TraceRecord where
  traceId : TraceId
  source : NodeId
  destination : NodeId
  attempts : UInt64
  phase : TracePhase
  updatedAt : SystemTime
  deriving DecidableEq

theorem fromMillis_lower (millis : UInt64) :
    -(2 ^ 63 * (nanosPerSecond : Int)) ≤ millis.toNat * 1000000 := by
  have := millis.toNat_lt
  simp only [nanosPerSecond]
  omega

theorem fromMillis_upper (millis : UInt64) :
    (millis.toNat : Int) * 1000000 < 2 ^ 63 * (nanosPerSecond : Int) := by
  have := millis.toNat_lt
  simp only [nanosPerSecond]
  omega

/-- `crate::time::from_millis` -/
def fromMillis (millis : UInt64) : SystemTime :=
  ⟨millis.toNat * 1000000, fromMillis_lower millis, fromMillis_upper millis⟩

/-- `decode_trace_record` -/
def decodeTraceRecord (bytes : Bytes) : Result TraceRecord := do
  let wire ← decodeCanonicalStrict TraceWire.codec bytes controlCborLimits "route trace canonical"
  rejectIf (wire.schema ≠ traceSchema ∨ wire.recordVersion ≠ 1) (.invalidInput "route trace schema")
  let traceId ← CanonicalId.parse wire.traceId
  let source ← CanonicalId.parse wire.source
  let destination ← CanonicalId.parse wire.destination
  let phase ← TracePhase.fromCode wire.phase wire.failure
  return ⟨traceId, source, destination, wire.attempts, phase, fromMillis wire.updatedAtMillis⟩

end Radiata
