import Radiata.ForStd.Bytes

/-!
# Texts

Operations on texts as byte strings: affixes, the first and the last occurrence of a
separator, and decimal numerals. The numerals are the library's `Nat.toDigits`, as
bytes.

## Key results

- `Bytes.splitOnce_append` / `Bytes.rsplitOnce_append`: a separator that does not
  occur before (after) it is the first (last) one
- `Bytes.ofDecimal_padded`: a padded numeral reads back
-/

namespace Bytes

/-! ## Affixes -/

/-- The text after `start`, if the text starts with it. -/
def stripStart (start text : Bytes) : Option Bytes :=
  if start <+: text then some (text.drop start.length) else none

/-- The text before `ending`, if the text ends with it. -/
def stripEnd (ending text : Bytes) : Option Bytes :=
  if ending <:+ text then some (text.take (text.length - ending.length)) else none

@[simp] theorem stripStart_append (start text : Bytes) :
    stripStart start (start ++ text) = some text := by
  simp [stripStart]

@[simp] theorem stripEnd_append (text ending : Bytes) :
    stripEnd ending (text ++ ending) = some text := by
  simp [stripEnd]

theorem stripStart_eq_some {start text rest : Bytes} (h : stripStart start text = some rest) :
    text = start ++ rest := by
  simp only [stripStart] at h
  split at h
  · rename_i hstart
    obtain ⟨rest', rfl⟩ := hstart
    cases h
    rw [List.drop_left]
  · cases h

/-! ## Separators -/

/-- The texts before and after the first occurrence of `separator`. -/
def splitOnce (separator : UInt8) (text : Bytes) : Option (Bytes × Bytes) :=
  match text.dropWhile (· ≠ separator) with
  | [] => none
  | _ :: rest => some (text.takeWhile (· ≠ separator), rest)

/-- The texts before and after the last occurrence of `separator`. -/
def rsplitOnce (separator : UInt8) (text : Bytes) : Option (Bytes × Bytes) :=
  (splitOnce separator text.reverse).map fun (after, before) => (before.reverse, after.reverse)

theorem splitOnce_append {separator : UInt8} {before : Bytes} (h : separator ∉ before)
    (after : Bytes) : splitOnce separator (before ++ separator :: after) = some (before, after) := by
  have hall : ∀ b ∈ before, (decide (b ≠ separator)) = true := by
    intro b hb
    exact decide_eq_true (fun hbs => h (hbs ▸ hb))
  simp only [splitOnce, List.dropWhile_append_of_pos hall, List.takeWhile_append_of_pos hall]
  simp

theorem splitOnce_eq_some {separator : UInt8} {text before after : Bytes}
    (h : splitOnce separator text = some (before, after)) :
    text = before ++ separator :: after ∧ separator ∉ before := by
  unfold splitOnce at h
  split at h
  · cases h
  · rename_i b rest hdrop
    cases h
    have hhead := List.head?_dropWhile_not (fun c : UInt8 => decide (c ≠ separator)) text
    rw [hdrop] at hhead
    obtain rfl : b = separator := by simpa using hhead
    refine ⟨?_, fun hmem => ?_⟩
    · rw [← hdrop, List.takeWhile_append_dropWhile]
    · have hkept := List.all_takeWhile (p := fun c : UInt8 => decide (c ≠ b)) (l := text)
      simpa using List.all_eq_true.mp hkept b hmem

theorem rsplitOnce_append (before : Bytes) {separator : UInt8} {after : Bytes}
    (h : separator ∉ after) :
    rsplitOnce separator (before ++ separator :: after) = some (before, after) := by
  have hreverse : (before ++ separator :: after).reverse
      = after.reverse ++ separator :: before.reverse := by simp
  rw [rsplitOnce, hreverse, splitOnce_append (by simpa using h)]
  simp

/-! ## Decimal numerals -/

/-- The characters `0` to `9`. -/
def isDigit (b : UInt8) : Bool := 0x30 ≤ b && b ≤ 0x39

/-- The decimal numeral of `n`. -/
def decimal (n : Nat) : Bytes := (Nat.toDigits 10 n).map fun c => UInt8.ofNat c.toNat

/-- The numeral of `n`, filled up with zeros to `width` digits. -/
def padded (width n : Nat) : Bytes :=
  List.replicate (width - (decimal n).length) 0x30 ++ decimal n

/-- The number a sequence of digits denotes. -/
def ofDecimal (digits : Bytes) : Nat :=
  Nat.ofDigitChars 10 (digits.map fun b => Char.ofNat b.toNat) 0

private theorem toNat_lt_of_isDigit {c : Char} (h : c.isDigit = true) :
    48 ≤ c.toNat ∧ c.toNat ≤ 57 := by
  simpa [Char.isDigit, UInt32.le_iff_toNat_le] using h

theorem isDigit_of_mem_decimal {n : Nat} {b : UInt8} (h : b ∈ decimal n) : isDigit b = true := by
  obtain ⟨c, hc, rfl⟩ := List.mem_map.mp h
  have hrange := toNat_lt_of_isDigit (Nat.isDigit_of_mem_toDigits (by omega) (by omega) hc)
  simp only [isDigit, Bool.and_eq_true, decide_eq_true_eq, UInt8.le_iff_toNat_le,
    UInt8.toNat_ofNat', UInt8.reduceToNat]
  omega

theorem isDigit_of_mem_padded {width n : Nat} {b : UInt8} (h : b ∈ padded width n) :
    isDigit b = true := by
  rcases List.mem_append.mp h with hzero | hdigit
  · rw [List.eq_of_mem_replicate hzero]
    rfl
  · exact isDigit_of_mem_decimal hdigit

theorem length_padded {width n : Nat} (hwidth : 0 < width) (h : n < 10 ^ width) :
    (padded width n).length = width := by
  have hlen : (decimal n).length ≤ width := by
    rw [decimal, List.length_map]
    exact (Nat.length_toDigits_le_iff (by omega) hwidth).mpr h
  rw [padded, List.length_append, List.length_replicate]
  omega

/-- A numeral reads back. -/
theorem ofDecimal_decimal (n : Nat) : ofDecimal (decimal n) = n := by
  have hchars : (decimal n).map (fun b => Char.ofNat b.toNat) = Nat.toDigits 10 n := by
    rw [decimal, List.map_map]
    conv => rhs; rw [← List.map_id (Nat.toDigits 10 n)]
    apply List.map_congr_left
    intro c hc
    have hrange := toNat_lt_of_isDigit (Nat.isDigit_of_mem_toDigits (by omega) (by omega) hc)
    show Char.ofNat (UInt8.ofNat c.toNat).toNat = c
    rw [UInt8.toNat_ofNat', Nat.mod_eq_of_lt (by omega), Char.ofNat_toNat]
  rw [ofDecimal, hchars, Nat.ofDigitChars_ten_toDigits]

/-- Leading zeros do not count. -/
theorem ofDecimal_padded (width n : Nat) : ofDecimal (padded width n) = n := by
  rw [ofDecimal, padded, List.map_append, Nat.ofDigitChars_append, List.map_replicate,
    show Char.ofNat (0x30 : UInt8).toNat = '0' from rfl, Nat.ofDigitChars_replicate_zero,
    Nat.mul_zero]
  exact ofDecimal_decimal n

end Bytes
