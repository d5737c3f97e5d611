import Radiata.ForStd.Bytes
import Radiata.Native.Error

/-!
# Identifiers and fixed-width values

`src/identity/id.rs` and `src/identity/value.rs`: the canonical textual
identifiers (a fixed prefix followed by 21 base-62 characters) and the 32-byte
digest. A text is represented by its UTF-8 bytes.
-/

namespace Radiata

/-! ## Digests -/

/-- A 32-byte digest. -/
structure Digest where
  asBytes : Bytes
  width : asBytes.length = 32
  deriving DecidableEq

/-- The digest of one byte, repeated. -/
def Digest.fill (byte : UInt8) : Digest := ⟨List.replicate 32 byte, List.length_replicate⟩

/-- `fixed_bytes::<LENGTH>` (`src/error.rs`): the exact-width slice conversion. -/
def fixedBytes (length : Nat) (bytes : Bytes) (context : String) :
    Result { b : Bytes // b.length = length } :=
  if h : bytes.length = length then .ok ⟨bytes, h⟩ else .error (.invalidInput context)

theorem asBytes_of_fixedBytes {length : Nat} {bytes : Bytes} {context : String}
    {fixed : { b : Bytes // b.length = length }} (h : fixedBytes length bytes context = .ok fixed) :
    fixed.1 = bytes := by
  simp only [fixedBytes] at h
  split at h
  · cases h; rfl
  · cases h

namespace Digest

def fromBytes (value : { b : Bytes // b.length = 32 }) : Digest := ⟨value.1, value.2⟩

theorem ext_asBytes {a b : Digest} (h : a.asBytes = b.asBytes) : a = b := by
  cases a; cases b; simp_all

instance : Inhabited Digest := ⟨⟨List.replicate 32 0, rfl⟩⟩

instance : LinearOrder Digest := LinearOrder.lift' Digest.asBytes (fun _ _ => ext_asBytes)

end Digest

/-- Reading back the bytes of a digest gives the digest. -/
theorem fixedBytes_digest (d : Digest) (context : String) :
    fixedBytes 32 d.asBytes context = .ok ⟨d.asBytes, d.width⟩ := by
  simp [fixedBytes, d.width]

/-! ## Byte values -/

/-- `byte_value!`: a value of a fixed number of bytes. -/
structure ByteValue (length : Nat) where
  asBytes : Bytes
  width : asBytes.length = length
  deriving DecidableEq

namespace ByteValue

variable {length : Nat}

def fromBytes (value : { b : Bytes // b.length = length }) : ByteValue length := ⟨value.1, value.2⟩

/-- One byte, repeated. -/
def fill (byte : UInt8) : ByteValue length := ⟨List.replicate length byte, List.length_replicate⟩

theorem ext_asBytes {a b : ByteValue length} (h : a.asBytes = b.asBytes) : a = b := by
  cases a; cases b; simp_all

/-- Reading back the bytes of a value gives the value. -/
theorem fixedBytes_asBytes (value : ByteValue length) (context : String) :
    fixedBytes length value.asBytes context = .ok ⟨value.asBytes, value.width⟩ := by
  simp [fixedBytes, value.width]

end ByteValue

abbrev PublicKey := ByteValue 32
abbrev Signature := ByteValue 64

/-! ## Canonical identifiers -/

def randomSuffixLen : Nat := 21

def isBase62 (byte : UInt8) : Bool :=
  (0x30 ≤ byte && byte ≤ 0x39) || (0x61 ≤ byte && byte ≤ 0x7A) || (0x41 ≤ byte && byte ≤ 0x5A)

/-- `validate_id`: the exact length, the prefix, and a base-62 suffix. -/
def validateId (value idPrefix : Bytes) (context : String) : Result Unit :=
  if value.length ≠ idPrefix.length + randomSuffixLen ∨ ¬ idPrefix <+: value then
    .error (.invalidInput context)
  else if ¬ (value.drop idPrefix.length).all isBase62 then
    .error (.invalidInput context)
  else .ok ()

/-- An identifier with prefix `idPrefix`: a text that `validateId` accepts. -/
structure CanonicalId (idPrefix : Bytes) (context : String) where
  asStr : Bytes
  valid : validateId asStr idPrefix context = .ok ()
  deriving DecidableEq

namespace CanonicalId

variable {idPrefix : Bytes} {context : String}

def parse (value : Bytes) : Result (CanonicalId idPrefix context) :=
  if h : validateId value idPrefix context = .ok () then .ok ⟨value, h⟩
  else .error (.invalidInput context)

theorem ext_asStr {a b : CanonicalId idPrefix context} (h : a.asStr = b.asStr) : a = b := by
  cases a; cases b; simp_all

instance : LinearOrder (CanonicalId idPrefix context) :=
  LinearOrder.lift' CanonicalId.asStr (fun _ _ => ext_asStr)

instance : LawfulBEq (CanonicalId idPrefix context) := inferInstance

instance : IsTrans (CanonicalId idPrefix context) fun a b => a ≤ b := inferInstance

instance : Std.Antisymm fun a b : CanonicalId idPrefix context => a ≤ b := inferInstance

instance : Std.Total fun a b : CanonicalId idPrefix context => a ≤ b := inferInstance

/-- The last decimal digit of a number. -/
def digit (n : Nat) : UInt8 := 0x30 + UInt8.ofNat (n % 10)

theorem isBase62_digit (n : Nat) : isBase62 (digit n) = true := by
  have hall : ∀ d : Fin 10, isBase62 (0x30 + UInt8.ofNat d) = true := by decide
  exact hall ⟨n % 10, Nat.mod_lt n (by decide)⟩

theorem validateId_digits (lead last : Nat) :
    validateId (idPrefix ++ (List.replicate 20 (digit lead) ++ [digit last])) idPrefix context =
      .ok () := by
  have hsuffix : (List.replicate 20 (digit lead) ++ [digit last]).all isBase62 = true := by
    simp [isBase62_digit]
  rw [validateId, if_neg, List.drop_left, if_neg (not_not.mpr hsuffix)]
  simp [randomSuffixLen]

/-- The identifier of two digits, of which the first is repeated. -/
def ofDigits (lead last : Nat) : CanonicalId idPrefix context :=
  ⟨idPrefix ++ (List.replicate 20 (digit lead) ++ [digit last]), validateId_digits lead last⟩

/-- Parsing the text of an identifier gives the identifier. -/
@[simp] theorem parse_asStr (id : CanonicalId idPrefix context) :
    (parse id.asStr : Result (CanonicalId idPrefix context)) = .ok id := by
  simp [parse, id.valid]

/-- A parsed identifier has the parsed text. -/
theorem asStr_of_parse {value : Bytes} {id : CanonicalId idPrefix context}
    (h : parse value = .ok id) : id.asStr = value := by
  simp only [parse] at h
  split at h
  · cases h; rfl
  · cases h

/-- Every identifier is its prefix followed by 21 base-62 characters. -/
theorem asStr_eq (id : CanonicalId idPrefix context) :
    ∃ suffix, id.asStr = idPrefix ++ suffix ∧ suffix.length = 21 ∧
      ∀ b ∈ suffix, isBase62 b = true := by
  have h := id.valid
  simp only [validateId] at h
  split at h
  · cases h
  · rename_i hcond
    rw [not_or, not_not, not_not] at hcond
    obtain ⟨suffix, hsuffix⟩ := hcond.2
    split at h
    · cases h
    · rename_i hall
      rw [not_not, ← hsuffix, List.drop_left] at hall
      refine ⟨suffix, hsuffix.symm, ?_, List.all_eq_true.mp hall⟩
      have hlen := hcond.1
      rw [← hsuffix, List.length_append] at hlen
      simpa [randomSuffixLen] using hlen

end CanonicalId

/-- The prefix of transaction identifiers. -/
def transactionPrefix : Bytes := Bytes.utf8 "txn_"

abbrev TransactionId := CanonicalId transactionPrefix "transaction id"

instance : Inhabited TransactionId := ⟨⟨Bytes.utf8 "txn_000000000000000000000", by decide⟩⟩

/-- The text of an identifier is ASCII if its prefix is. -/
theorem CanonicalId.ascii {idPrefix : Bytes} {context : String} (hstart : idPrefix.Ascii)
    (id : CanonicalId idPrefix context) : id.asStr.Ascii := by
  obtain ⟨suffix, hid, -, hsuffix⟩ := id.asStr_eq
  rw [hid]
  refine hstart.append ?_
  intro b hb
  have hbase := hsuffix b hb
  simp only [isBase62, Bool.or_eq_true, Bool.and_eq_true, decide_eq_true_eq,
    UInt8.le_iff_toNat_le, UInt8.reduceToNat] at hbase
  simp only [UInt8.lt_iff_toNat_lt, UInt8.reduceToNat]
  omega

theorem TransactionId.ascii (id : TransactionId) : id.asStr.Ascii :=
  CanonicalId.ascii (.of_all (by decide)) id

/-- Every transaction identifier has the same length. -/
theorem TransactionId.length_asStr (id : TransactionId) : id.asStr.length = 25 := by
  obtain ⟨suffix, hid, hlen, _⟩ := id.asStr_eq
  rw [hid, List.length_append, hlen]
  decide

def nodePrefix : Bytes := Bytes.utf8 "node_"
def clusterPrefix : Bytes := Bytes.utf8 "cluster_"
def tracePrefix : Bytes := Bytes.utf8 "trace_"

abbrev NodeId := CanonicalId nodePrefix "node id"
abbrev ClusterId := CanonicalId clusterPrefix "cluster id"
abbrev TraceId := CanonicalId tracePrefix "trace id"

theorem NodeId.ascii (id : NodeId) : id.asStr.Ascii := CanonicalId.ascii (.of_all (by decide)) id

theorem ClusterId.ascii (id : ClusterId) : id.asStr.Ascii :=
  CanonicalId.ascii (.of_all (by decide)) id

theorem TraceId.ascii (id : TraceId) : id.asStr.Ascii := CanonicalId.ascii (.of_all (by decide)) id

/-- Every identifier of a kind has the same length. -/
theorem CanonicalId.length_asStr {idPrefix : Bytes} {context : String}
    (id : CanonicalId idPrefix context) : id.asStr.length = idPrefix.length + 21 := by
  obtain ⟨suffix, hid, hlen, _⟩ := id.asStr_eq
  rw [hid, List.length_append, hlen]

theorem NodeId.length_asStr (id : NodeId) : id.asStr.length = 26 := CanonicalId.length_asStr id

theorem TraceId.length_asStr (id : TraceId) : id.asStr.length = 27 := CanonicalId.length_asStr id

theorem ClusterId.length_asStr (id : ClusterId) : id.asStr.length = 29 := CanonicalId.length_asStr id

end Radiata
