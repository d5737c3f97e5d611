import Radiata.Native.Identity
import Mathlib.Order.Monotone.Basic

/-!
# Lowercase hexadecimal

`src/hex.rs`: the canonical codec of persisted documents, two lowercase digits a
byte. Decoding refuses odd lengths, capitals and anything that is not a digit.

## Key results

- `hexDecode_hexEncode`: decoding reads back what encoding writes
- `hexEncode_lt_iff`: the codec keeps the byte order
-/

namespace Radiata

/-- The digit of a value below 16. -/
def hexDigit (value : UInt8) : UInt8 := if value < 10 then 0x30 + value else 0x61 + (value - 10)

/-- `hex::encode` -/
def hexEncode : Bytes → Bytes
  | [] => []
  | byte :: bytes => hexDigit (byte >>> 4) :: hexDigit (byte &&& 0x0F) :: hexEncode bytes

def isHexDigit (byte : UInt8) : Bool :=
  (0x30 ≤ byte && byte ≤ 0x39) || (0x61 ≤ byte && byte ≤ 0x66)

def hexValue (byte : UInt8) (context : String) : Result UInt8 :=
  if 0x30 ≤ byte ∧ byte ≤ 0x39 then .ok (byte - 0x30)
  else if 0x61 ≤ byte ∧ byte ≤ 0x66 then .ok (byte - 0x61 + 10)
  else .error (.invalidInput context)

/-- The loop of `hex::decode` over the pairs of digits. -/
def hexDecodePairs (context : String) : Bytes → Result Bytes
  | high :: low :: rest => do
    let h ← hexValue high context
    let l ← hexValue low context
    let bytes ← hexDecodePairs context rest
    return (h <<< 4 ||| l) :: bytes
  | _ => .ok []

/-- `hex::decode` -/
def hexDecode (value : Bytes) (context : String) : Result Bytes :=
  if value.length % 2 ≠ 0 ∨ ¬ value.all isHexDigit then .error (.invalidInput context)
  else hexDecodePairs context value

/-- `hex::decode_array` -/
def hexDecodeArray (length : Nat) (value : Bytes) (context : String) :
    Result { b : Bytes // b.length = length } := do
  let bytes ← hexDecode value context
  fixedBytes length bytes context

/-! ## Round trip -/

@[simp] theorem length_hexEncode (bytes : Bytes) : (hexEncode bytes).length = 2 * bytes.length := by
  induction bytes with
  | nil => rfl
  | cons byte bytes ih => simp only [hexEncode, List.length_cons, ih]; omega

theorem toNat_high (byte : UInt8) : (byte >>> 4).toNat = byte.toNat / 16 := by
  rw [UInt8.toNat_shiftRight, show (4 : UInt8).toNat % 8 = 4 from rfl, Nat.shiftRight_eq_div_pow]

theorem toNat_low (byte : UInt8) : (byte &&& 0x0F).toNat = byte.toNat % 16 := by
  rw [UInt8.toNat_and]
  exact Nat.and_two_pow_sub_one_eq_mod byte.toNat 4

theorem toNat_hexDigit {value : UInt8} (h : value.toNat < 16) :
    (hexDigit value).toNat = if value.toNat < 10 then 48 + value.toNat else 87 + value.toNat := by
  simp only [hexDigit, UInt8.lt_iff_toNat_lt, UInt8.reduceToNat]
  split
  · rw [UInt8.toNat_add]
    simp only [UInt8.reduceToNat]
    omega
  · rename_i hge
    rw [UInt8.toNat_add, UInt8.toNat_sub_of_le _ _ (by
      rw [UInt8.le_iff_toNat_le]
      simp only [UInt8.reduceToNat]
      omega)]
    simp only [UInt8.reduceToNat]
    omega

/-- A digit reads back as its value. -/
theorem hexValue_hexDigit {value : UInt8} (h : value.toNat < 16) (context : String) :
    isHexDigit (hexDigit value) = true ∧ hexValue (hexDigit value) context = .ok value := by
  have hnat := toNat_hexDigit h
  by_cases hlow : value.toNat < 10
  · rw [if_pos hlow] at hnat
    have hrange : 0x30 ≤ hexDigit value ∧ hexDigit value ≤ 0x39 := by
      simp only [UInt8.le_iff_toNat_le, UInt8.reduceToNat, hnat]
      omega
    refine ⟨by simp [isHexDigit, hrange], ?_⟩
    rw [hexValue, if_pos hrange]
    congr 1
    apply UInt8.toNat_inj.mp
    rw [UInt8.toNat_sub_of_le _ _ hrange.1, hnat]
    simp only [UInt8.reduceToNat]
    omega
  · rw [if_neg hlow] at hnat
    have hrange : 0x61 ≤ hexDigit value ∧ hexDigit value ≤ 0x66 := by
      simp only [UInt8.le_iff_toNat_le, UInt8.reduceToNat, hnat]
      omega
    have hnotDecimal : ¬ (0x30 ≤ hexDigit value ∧ hexDigit value ≤ 0x39) := by
      simp only [UInt8.le_iff_toNat_le, UInt8.reduceToNat, hnat]
      omega
    refine ⟨by simp [isHexDigit, hrange], ?_⟩
    rw [hexValue, if_neg hnotDecimal, if_pos hrange]
    congr 1
    apply UInt8.toNat_inj.mp
    rw [UInt8.toNat_add, UInt8.toNat_sub_of_le _ _ hrange.1, hnat]
    simp only [UInt8.reduceToNat]
    omega

/-- The two nibbles make up the byte. -/
theorem high_or_low (byte : UInt8) : (byte >>> 4) <<< 4 ||| (byte &&& 0x0F) = byte := by
  apply UInt8.toNat_inj.mp
  rw [UInt8.toNat_or, UInt8.toNat_shiftLeft, toNat_high, toNat_low]
  have hlt := byte.toNat_lt
  have hshift : (byte.toNat / 16) <<< ((4 : UInt8).toNat % 8) % 2 ^ 8
      = 2 ^ 4 * (byte.toNat / 16) := by
    rw [show (4 : UInt8).toNat % 8 = 4 from rfl, Nat.shiftLeft_eq]
    omega
  rw [hshift, ← Nat.two_pow_add_eq_or_of_lt (by omega)]
  omega

theorem all_isHexDigit_hexEncode (bytes : Bytes) : (hexEncode bytes).all isHexDigit = true := by
  induction bytes with
  | nil => rfl
  | cons byte bytes ih =>
    have hhigh : (byte >>> 4).toNat < 16 := by
      have := byte.toNat_lt
      rw [toNat_high]
      omega
    have hlow : (byte &&& 0x0F).toNat < 16 := by
      rw [toNat_low]
      omega
    simp only [hexEncode, List.all_cons, (hexValue_hexDigit hhigh "").1,
      (hexValue_hexDigit hlow "").1, ih, Bool.and_self]

theorem hexDecodePairs_hexEncode (bytes : Bytes) (context : String) :
    hexDecodePairs context (hexEncode bytes) = .ok bytes := by
  induction bytes with
  | nil => rfl
  | cons byte bytes ih =>
    have hhigh : (byte >>> 4).toNat < 16 := by
      have := byte.toNat_lt
      rw [toNat_high]
      omega
    have hlow : (byte &&& 0x0F).toNat < 16 := by
      rw [toNat_low]
      omega
    simp only [hexEncode, hexDecodePairs, (hexValue_hexDigit hhigh context).2,
      (hexValue_hexDigit hlow context).2, ih, Result.ok_bind, high_or_low, Result.pure_eq_ok]

/-- Decoding reads back what encoding writes. -/
theorem hexDecode_hexEncode (bytes : Bytes) (context : String) :
    hexDecode (hexEncode bytes) context = .ok bytes := by
  rw [hexDecode, if_neg, hexDecodePairs_hexEncode]
  rw [length_hexEncode, all_isHexDigit_hexEncode]
  simp

theorem hexDecodeArray_hexEncode {bytes : Bytes} {length : Nat} (h : bytes.length = length)
    (context : String) :
    hexDecodeArray length (hexEncode bytes) context = .ok ⟨bytes, h⟩ := by
  rw [hexDecodeArray, hexDecode_hexEncode, Result.ok_bind, fixedBytes, dif_pos h]

/-! ## Order -/

/-- Digits are in the order of their values. -/
theorem hexDigit_lt_iff {a b : UInt8} (ha : a.toNat < 16) (hb : b.toNat < 16) :
    hexDigit a < hexDigit b ↔ a < b := by
  rw [UInt8.lt_iff_toNat_lt, UInt8.lt_iff_toNat_lt, toNat_hexDigit ha, toNat_hexDigit hb]
  split <;> split <;> omega

theorem hexEncode_strictMono : StrictMono hexEncode := by
  intro a
  induction a with
  | nil =>
    intro b hlt
    cases b with
    | nil => exact absurd hlt (lt_irrefl _)
    | cons y b => simp [hexEncode]
  | cons x a ih =>
    intro b hlt
    cases b with
    | nil => simp at hlt
    | cons y b =>
      have hx := x.toNat_lt
      have hy := y.toNat_lt
      have hhigh : hexDigit (x >>> 4) < hexDigit (y >>> 4) ↔ x >>> 4 < y >>> 4 :=
        hexDigit_lt_iff (by rw [toNat_high]; omega) (by rw [toNat_high]; omega)
      have hlow : hexDigit (x &&& 0x0F) < hexDigit (y &&& 0x0F) ↔ x &&& 0x0F < y &&& 0x0F :=
        hexDigit_lt_iff (by rw [toNat_low]; omega) (by rw [toNat_low]; omega)
      rw [UInt8.lt_iff_toNat_lt (b := y >>> 4), toNat_high, toNat_high] at hhigh
      rw [UInt8.lt_iff_toNat_lt (b := y &&& 0x0F), toNat_low, toNat_low] at hlow
      simp only [hexEncode, List.cons_lt_cons_iff]
      rcases List.cons_lt_cons_iff.mp hlt with hbyte | ⟨rfl, hrest⟩
      · -- the first differing byte differs in its high digit or else in its low one
        rw [UInt8.lt_iff_toNat_lt] at hbyte
        by_cases hdigit : x.toNat / 16 < y.toNat / 16
        · exact .inl (hhigh.mpr hdigit)
        · have hsame : x >>> 4 = y >>> 4 := by
            apply UInt8.toNat_inj.mp
            rw [toNat_high, toNat_high]
            omega
          exact .inr ⟨by rw [hsame], .inl (hlow.mpr (by omega))⟩
      · exact .inr ⟨rfl, .inr ⟨rfl, ih hrest⟩⟩

/-- The codec keeps the byte order. -/
theorem hexEncode_lt_iff {a b : Bytes} : hexEncode a < hexEncode b ↔ a < b :=
  hexEncode_strictMono.lt_iff_lt

end Radiata
