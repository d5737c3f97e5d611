import Radiata.ForStd.Reader
import Radiata.ForStd.Text

/-!
# Network addresses

The address literals of Rust's standard library: dotted IPv4 addresses, and IPv6 addresses
with one run of zeros left out and an IPv4 address in place of the last two groups.

## Key results

- `Bytes.decimal_head`: a numeral of several digits has no leading zero
-/

namespace Net

def dot : UInt8 := 0x2E
def colon : UInt8 := 0x3A

/-- The value of a hexadecimal digit. -/
def hexValue (b : UInt8) : Option Nat :=
  if Bytes.isDigit b then some (b.toNat - 0x30)
  else if 0x61 ≤ b ∧ b ≤ 0x66 then some (b.toNat - 0x61 + 10)
  else if 0x41 ≤ b ∧ b ≤ 0x46 then some (b.toNat - 0x41 + 10)
  else none

/-- A decimal octet of at most three digits, without a leading zero. -/
def readOctet : Reader Unit := fun input =>
  let digits := input.takeWhile Bytes.isDigit
  if digits = [] ∨ 3 < digits.length ∨ 255 < Bytes.ofDecimal digits ∨
      (1 < digits.length ∧ digits.head? = some 0x30) then none
  else some ((), input.dropWhile Bytes.isDigit)

/-- A group of at most four hexadecimal digits. -/
def readGroup : Reader Unit := fun input =>
  let digits := input.takeWhile fun b => (hexValue b).isSome
  if digits = [] ∨ 4 < digits.length then none
  else some ((), input.dropWhile fun b => (hexValue b).isSome)

/-- One given character. -/
def readChar (char : UInt8) : Reader Unit := do
  let b ← Reader.byte
  if b = char then return () else failure

/-- A separator before every item but the first. -/
def readSeparator (separator : UInt8) (index : Nat) (inner : Reader Unit) : Reader Unit := do
  if index ≠ 0 then readChar separator
  inner

def readIpv4 : Reader Unit := do
  readSeparator dot 0 readOctet
  readSeparator dot 1 readOctet
  readSeparator dot 2 readOctet
  readSeparator dot 3 readOctet

/-- Groups `index` to `limit`, and whether an IPv4 address ended them. -/
def readGroups (limit : Nat) : Nat → Nat → Bytes → (Nat × Bool) × Bytes
  | 0, index, input => ((index, false), input)
  | left + 1, index, input =>
    match if index + 1 < limit then readSeparator colon index readIpv4 input else none with
    | some ((), rest) => ((index + 2, true), rest)
    | none =>
      match readSeparator colon index readGroup input with
      | some ((), rest) => readGroups limit left (index + 1) rest
      | none => ((index, false), input)

def readIpv6 : Reader Unit := fun input =>
  let ((headSize, headIpv4), rest) := readGroups 8 8 0 input
  if headSize = 8 then some ((), rest)
  else if headIpv4 then none
  else
    -- The run of zeros stands for one group at least.
    match (do readChar colon; readChar colon : Reader Unit) rest with
    | none => none
    | some ((), rest) => some ((), (readGroups (7 - headSize) (7 - headSize) 0 rest).2)

/-- `str::parse::<Ipv4Addr>` succeeds. -/
def isIpv4 (text : Bytes) : Bool := text.length ≤ 15 && (readIpv4 text).any (·.2 = [])

/-- `str::parse::<Ipv6Addr>` succeeds. -/
def isIpv6 (text : Bytes) : Bool := (readIpv6 text).any (·.2 = [])

end Net

namespace Bytes

private theorem head?_toDigits_ne {n : Nat} (h : 0 < n) :
    (Nat.toDigits 10 n).head? ≠ some '0' := by
  induction n using Nat.strongRecOn with
  | _ n ih =>
    by_cases hsmall : n < 10
    · rw [Nat.toDigits_of_lt_base hsmall]
      have hdigits : ∀ m < 10, 0 < m → [Nat.digitChar m].head? ≠ some '0' := by decide
      exact hdigits n hsmall h
    · rw [Nat.toDigits_of_base_le (by omega) (by omega),
        List.head?_append_of_ne_nil _ Nat.toDigits_ne_nil]
      exact ih (n / 10) (by omega) (by omega)

/-- A numeral of several digits has no leading zero. -/
theorem decimal_head {n : Nat} (h : 1 < (decimal n).length) : (decimal n).head? ≠ some 0x30 := by
  have hpos : 0 < n := by
    by_contra hzero
    rw [show n = 0 by omega] at h
    exact absurd h (by decide)
  intro hhead
  rw [decimal, List.head?_map, Option.map_eq_some_iff] at hhead
  obtain ⟨c, hc, hbyte⟩ := hhead
  have hdigit := Nat.isDigit_of_mem_toDigits (by omega) (by omega) (List.mem_of_head? hc)
  refine head?_toDigits_ne hpos ?_
  rw [hc, Option.some_inj]
  have hrange : 48 ≤ c.toNat ∧ c.toNat ≤ 57 := by
    simpa [Char.isDigit, UInt32.le_iff_toNat_le] using hdigit
  have hnat : c.toNat = 48 := by
    have hmod := congrArg UInt8.toNat hbyte
    rw [UInt8.toNat_ofNat', Nat.mod_eq_of_lt (by omega)] at hmod
    exact hmod
  rw [← Char.ofNat_toNat c, hnat]

end Bytes
