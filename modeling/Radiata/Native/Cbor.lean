import Radiata.ForStd.Cbor
import Radiata.Native.Error

/-!
# Canonical CBOR

`src/protocol/cbor.rs`: the bounded canonical encoder, the decoder that rejects
trailing data, the strict decoder that re-encodes and compares, and the validator
of canonical form with its stack of open containers.

A decoder is represented by the input it has not read yet, so a position of the
source is the suffix that starts there.
-/

namespace Radiata

structure CborLimits where
  maxDepth : Nat
  maxCollectionItems : Nat
  maxBodyLen : Nat

/-- The budget of every authenticated-phase body (`src/protocol/mod.rs`). -/
def controlCborLimits : CborLimits := ⟨16, 1024, 65536⟩

/-! ## The validator -/

/-- The item types `validate_item` tells apart. -/
inductive CborType where
  | integer
  | bytes
  | string
  | array
  | map
  | bool
  | null
  | unsupported
  deriving DecidableEq

/-- `Decoder::datatype`. A negative integer with an argument after the initial byte
    is typed by its next byte. -/
def datatype : Bytes → Option CborType
  | [] => none
  | b :: rest =>
    if b ≤ 0x1B then some .integer
    else if 0x20 ≤ b ∧ b ≤ 0x37 then some .integer
    else if 0x38 ≤ b ∧ b ≤ 0x3B then if rest.isEmpty then none else some .integer
    else if 0x40 ≤ b ∧ b ≤ 0x5B then some .bytes
    else if 0x60 ≤ b ∧ b ≤ 0x7B then some .string
    else if 0x80 ≤ b ∧ b ≤ 0x9B then some .array
    else if 0xA0 ≤ b ∧ b ≤ 0xBB then some .map
    else if b = 0xF4 ∨ b = 0xF5 then some .bool
    else if b = 0xF6 then some .null
    else some .unsupported

/-- `canonical_argument`: the argument of the item at the front, with the length of
    its header, which must be the shortest one. -/
def canonicalArgument : Bytes → Result (Nat × Nat)
  | [] => .error (.invalidInput "CBOR header")
  | b :: rest =>
    let additional := b.toNat % 32
    if additional > 27 then .error (.invalidInput "CBOR indefinite length")
    else
      match Cbor.argument additional rest with
      | none => .error (.invalidInput "CBOR header")
      | some (value, rest') =>
        let headerLen := 1 + (rest.length - rest'.length)
        let canonicalLen :=
          if value < 24 then 1
          else if value < 2 ^ 8 then 2
          else if value < 2 ^ 16 then 3
          else if value < 2 ^ 32 then 5
          else 9
        if headerLen ≠ canonicalLen then .error (.invalidInput "CBOR non-shortest argument")
        else .ok (value, headerLen)

/-- `validate_sized_item`: the item ends after its header and value. -/
def validateSizedItem (start stop : Bytes) (headerLen valueLen : Nat) : Result Unit :=
  if start.length - stop.length ≠ headerLen + valueLen then
    .error (.invalidInput "CBOR item length")
  else .ok ()

/-- An open container. The source keeps positions; a map frame keeps the suffix at
    which the current key starts and the bytes of the previous key. -/
inductive ContainerFrame where
  | array (remaining : Nat)
  | map (remaining : Nat) (expectingKey : Bool) (keyStart : Option Bytes)
      (previousKey : Option Bytes)

def validateContainerDepth (depth : Nat) (limits : CborLimits) : Result Unit :=
  if depth ≥ limits.maxDepth then .error (.invalidInput "CBOR nesting depth") else .ok ()

/-- A decoder step whose failure has one context. -/
def decoding {α : Type} (context : String) : Option α → Result α
  | some a => .ok a
  | none => .error (.invalidInput context)

/-- The array and map headers of `validate_item`. -/
def validateContainer (limits : CborLimits) (depth : Nat) (input : Bytes)
    (decodeLength : Reader (Option Nat)) (name : String) : Result (Nat × Bytes) := do
  validateContainerDepth depth limits
  let (length, _) ← canonicalArgument input
  let (decoded, rest) ← decoding ("CBOR " ++ name) (decodeLength input)
  let decodedLength ← decoding ("CBOR indefinite " ++ name) decoded
  if decodedLength ≠ length ∨ length > limits.maxCollectionItems then
    throw (.invalidInput ("CBOR " ++ name ++ " length"))
  return (length, rest)

/-- The match of `validate_item` on the next item: the rest of the input and the
    container it opens. -/
def validateHeader (limits : CborLimits) (depth : Nat) (input : Bytes) :
    Result (Bytes × Option ContainerFrame) := do
  match ← decoding "CBOR type" (datatype input) with
  | .integer =>
    let (_, headerLen) ← canonicalArgument input
    -- `skip` takes the initial byte and its argument
    if input.length < headerLen then throw (.invalidInput "CBOR integer")
    return (input.drop headerLen, none)
  | .bytes =>
    let (length, headerLen) ← canonicalArgument input
    let (_, rest) ← decoding "CBOR bytes" (Cbor.decodeBytes input)
    validateSizedItem input rest headerLen length
    return (rest, none)
  | .string =>
    let (length, headerLen) ← canonicalArgument input
    let (_, rest) ← decoding "CBOR string" (Cbor.decodeStr input)
    validateSizedItem input rest headerLen length
    return (rest, none)
  | .array =>
    let (length, rest) ← validateContainer limits depth input Cbor.decodeArray "array"
    return (rest, some (.array length))
  | .map =>
    let (length, rest) ← validateContainer limits depth input Cbor.decodeMap "map"
    return (rest, some (.map length true none none))
  | .bool => return (input.drop 1, none)
  | .null => return (input.drop 1, none)
  | .unsupported => throw (.invalidInput "CBOR unsupported type")

/-- `complete_item`: closes containers; `none` when the outermost item is complete. -/
def completeItem (input : Bytes) : List ContainerFrame → Result (Option (List ContainerFrame))
  | [] => .ok none
  | .array remaining :: stack =>
    if remaining = 0 then .error (.invalidInput "CBOR array state")
    else if remaining - 1 = 0 then completeItem input stack
    else .ok (some (.array (remaining - 1) :: stack))
  | .map remaining true keyStart previousKey :: stack =>
    match keyStart with
    | none => .error (.invalidInput "CBOR map key state")
    | some start =>
      let key := start.take (start.length - input.length)
      if previousKey.any (fun previous => key ≤ previous) then
        .error (.invalidInput "CBOR map key order")
      else .ok (some (.map remaining false none (some key) :: stack))
  | .map remaining false keyStart previousKey :: stack =>
    if remaining = 0 then .error (.invalidInput "CBOR map state")
    else if remaining - 1 = 0 then completeItem input stack
    else .ok (some (.map (remaining - 1) true keyStart previousKey :: stack))

/-- The start of an iteration: a map that expects a key notes where it starts. -/
def markKeyStart (input : Bytes) : List ContainerFrame → List ContainerFrame
  | .map remaining true none previousKey :: stack =>
    .map remaining true (some input) previousKey :: stack
  | stack => stack

/-- The loop of `validate_item`. Every iteration reads at least one byte, and without
    input the type of the next item cannot be read, so the input length bounds the
    iterations. -/
def validateItem (limits : CborLimits) : Nat → Bytes → List ContainerFrame → Result Bytes
  | 0, _, _ => .error (.invalidInput "CBOR type")
  | fuel + 1, input, stack => do
    let stack := markKeyStart input stack
    let (rest, container) ← validateHeader limits stack.length input
    let opened : Option (List ContainerFrame) := match container with
      | some (.array (n + 1)) => some (.array (n + 1) :: stack)
      | some (.map (n + 1) expectingKey keyStart previousKey) =>
        some (.map (n + 1) expectingKey keyStart previousKey :: stack)
      | _ => none
    match opened with
    | some stack => validateItem limits fuel rest stack
    | none =>
      match ← completeItem rest stack with
      | none => return rest
      | some stack => validateItem limits fuel rest stack

/-- `validate_canonical` -/
def validateCanonical (bytes : Bytes) (limits : CborLimits) : Result Unit := do
  if limits.maxDepth = 0 ∨ limits.maxCollectionItems = 0 ∨ limits.maxBodyLen = 0 ∨ bytes = []
      ∨ bytes.length > limits.maxBodyLen then
    throw (.invalidInput "CBOR limits")
  let rest ← validateItem limits (bytes.length + 1) bytes []
  if rest ≠ [] then
    throw (.invalidInput "CBOR trailing data")

/-! ## Codecs -/

/-- The `Encode` and `Decode` implementations of a wire type. -/
structure CborCodec (α : Type) where
  encode : α → Bytes
  decode : Reader α

section Codec

variable {α : Type}

/-- `encode_canonical`: the writer refuses more than `max_body_len` bytes. -/
def encodeCanonical (codec : CborCodec α) (value : α) (limits : CborLimits) : Result Bytes := do
  let bytes := codec.encode value
  if bytes.length > limits.maxBodyLen then
    throw (.invalidInput "CBOR encode")
  validateCanonical bytes limits
  return bytes

/-- `decode_canonical` -/
def decodeCanonical (codec : CborCodec α) (bytes : Bytes) (limits : CborLimits) : Result α := do
  validateCanonical bytes limits
  let (value, rest) ← decoding "CBOR decode" (codec.decode bytes)
  if rest ≠ [] then
    throw (.invalidInput "CBOR trailing data")
  return value

/-- `decode_canonical_strict`: the decoded value re-encodes to the same bytes. -/
def decodeCanonicalStrict (codec : CborCodec α) (bytes : Bytes) (limits : CborLimits)
    (canonicalContext : String) : Result α := do
  let value ← decodeCanonical codec bytes limits
  let encoded ← encodeCanonical codec value limits
  if encoded ≠ bytes then
    throw (.invalidInput canonicalContext)
  return value

/-- Why a strict decode failed. -/
inductive StrictDecodeFailure where
  | decode (error : Error)
  | nonCanonical

/-- `decode_canonical_strict_or`: the strict decoder with its two failures apart. -/
def decodeCanonicalStrictOr (codec : CborCodec α) (bytes : Bytes) (limits : CborLimits) :
    Except StrictDecodeFailure α := do
  let value ← (decodeCanonical codec bytes limits).mapError .decode
  let encoded ← (encodeCanonical codec value limits).mapError .decode
  Except.rejectIf (encoded ≠ bytes) .nonCanonical
  return value

variable {codec : CborCodec α}

/-- What `encode_canonical` returns is the plain encoding, validated. -/
theorem encodeCanonical_eq_ok {value : α} {limits : CborLimits} {bytes : Bytes}
    (h : encodeCanonical codec value limits = .ok bytes) :
    bytes = codec.encode value ∧ bytes.length ≤ limits.maxBodyLen ∧
      validateCanonical bytes limits = .ok () := by
  simp only [encodeCanonical] at h
  split at h
  · cases h
  · rename_i hlen
    obtain ⟨u, hvalid, hbytes⟩ := Result.bind_eq_ok.mp h
    cases hbytes
    exact ⟨rfl, by omega, hvalid⟩

/-- A strictly decoded value re-encodes to the input. -/
theorem encodeCanonical_of_decodeStrict {bytes : Bytes} {limits : CborLimits} {context : String}
    {value : α} (h : decodeCanonicalStrict codec bytes limits context = .ok value) :
    encodeCanonical codec value limits = .ok bytes := by
  simp only [decodeCanonicalStrict] at h
  obtain ⟨value', -, h⟩ := Result.bind_eq_ok.mp h
  obtain ⟨encoded, hencode, h⟩ := Result.bind_eq_ok.mp h
  split at h
  · cases h
  · rename_i hsame
    cases h
    rw [not_not] at hsame
    rw [hencode, hsame]

/-- A strictly decoded value is what the reader finds, with nothing after it. -/
theorem decode_of_decodeStrict {bytes : Bytes} {limits : CborLimits} {context : String}
    {value : α} (h : decodeCanonicalStrict codec bytes limits context = .ok value) :
    codec.decode bytes = some (value, []) := by
  unfold decodeCanonicalStrict at h
  obtain ⟨value', hvalue, h⟩ := Result.bind_eq_ok.mp h
  obtain ⟨encoded, -, h⟩ := Result.bind_eq_ok.mp h
  have hsame : value' = value := by
    split at h
    · cases h
    · exact Except.ok.inj h
  subst hsame
  unfold decodeCanonical at hvalue
  obtain ⟨u, -, hvalue⟩ := Result.bind_eq_ok.mp hvalue
  obtain ⟨⟨read, rest⟩, hread, hvalue⟩ := Result.bind_eq_ok.mp hvalue
  have hrest : rest = [] ∧ read = value' := by
    by_cases hempty : rest = []
    · simp only [hempty, ne_eq, not_true_eq_false, if_false] at hvalue
      exact ⟨hempty, Except.ok.inj hvalue⟩
    · simp only [ne_eq, hempty, not_false_eq_true, if_true] at hvalue
      cases hvalue
  obtain ⟨rfl, rfl⟩ := hrest
  cases hdecode : codec.decode bytes with
  | none =>
    rw [hdecode] at hread
    cases hread
  | some pair =>
    rw [hdecode] at hread
    exact congrArg some (Except.ok.inj hread)

/-- Encoded bytes decode strictly to the value, if the codec reads its own encoding. -/
theorem decodeStrict_of_encodeCanonical {value : α} {limits : CborLimits} {bytes : Bytes}
    (context : String) (hreads : Reader.Reads codec.decode (codec.encode value) value)
    (h : encodeCanonical codec value limits = .ok bytes) :
    decodeCanonicalStrict codec bytes limits context = .ok value := by
  obtain ⟨rfl, -, hvalid⟩ := encodeCanonical_eq_ok h
  have hdecode : codec.decode (codec.encode value) = some (value, []) := by
    simpa using hreads []
  simp [decodeCanonicalStrict, decodeCanonical, hvalid, hdecode, decoding, h]

end Codec

end Radiata
