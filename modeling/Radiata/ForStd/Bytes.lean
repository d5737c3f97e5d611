import Mathlib.Algebra.Group.Nat.Defs
import Mathlib.Data.List.Lex
import Mathlib.Order.Lattice

/-!
# Byte strings

Byte strings as `List UInt8`, ordered lexicographically by unsigned byte value,
together with the fixed-width big-endian codec that length prefixes, counters
and revisions are written in.

## Key results

- `Bytes.ofBE_toBE` / `Bytes.toBE_ofBE`: the two directions of the codec
- `Bytes.toBE_inj`: big-endian texts of one width separate numbers
- `Bytes.append_cons_inj_of_notMem`: a separator that does not occur before it
  splits a text in one way
- `Bytes.isPrefix_of_le`: the texts with a given front part form an interval
-/

/-- Unsigned byte order. -/
instance instLinearOrderByte : LinearOrder UInt8 where
  le_refl := UInt8.le_refl
  le_trans := fun _ _ _ => UInt8.le_trans
  le_antisymm := fun _ _ => UInt8.le_antisymm
  le_total := UInt8.le_total
  lt_iff_le_not_ge := by
    intro a b
    rw [UInt8.lt_iff_toNat_lt, UInt8.le_iff_toNat_le, UInt8.le_iff_toNat_le]
    omega
  toDecidableLE := inferInstance
  toDecidableLT := inferInstance
  toDecidableEq := inferInstance

instance instLawfulBEqByte : LawfulBEq UInt8 := inferInstance

/-- A byte string. A text is represented by its UTF-8 bytes. -/
abbrev Bytes := List UInt8

namespace Bytes

/-- The UTF-8 bytes of a string literal. -/
def utf8 (s : String) : Bytes := s.toUTF8.data.toList

/-! ## Fixed-width big-endian integers -/

/-- The `width` low-order bytes of `n`, most significant first. -/
def toBE : (width : Nat) → (n : Nat) → Bytes
  | 0, _ => []
  | w + 1, n => UInt8.ofNat (n / 256 ^ w) :: toBE w n

/-- The number a byte string denotes in big-endian order. -/
def ofBE : Bytes → Nat
  | [] => 0
  | b :: bs => b.toNat * 256 ^ bs.length + ofBE bs

@[simp] theorem length_toBE (w n : Nat) : (toBE w n).length = w := by
  induction w with
  | zero => rfl
  | succ w ih => simp [toBE, ih]

theorem toBE_ne_nil (w n : Nat) : toBE (w + 1) n ≠ [] := by
  simp [toBE]

/-- Only the low-order bytes of `n` matter. -/
theorem toBE_mod (w n : Nat) : toBE w (n % 256 ^ w) = toBE w n := by
  suffices ∀ k, toBE w (n % 256 ^ (w + k)) = toBE w n by simpa using this 0
  induction w with
  | zero => intro k; rfl
  | succ w ih =>
    intro k
    have hk : w + 1 + k = w + (k + 1) := by omega
    rw [toBE, toBE, hk, ih (k + 1)]
    congr 1
    -- the leading digit is taken modulo 256, so the cut above it is invisible
    apply UInt8.toNat_inj.mp
    simp only [UInt8.toNat_ofNat', Nat.reducePow]
    rw [Nat.pow_add, Nat.mod_mul_right_div_self, Nat.mod_mod_of_dvd]
    exact ⟨256 ^ k, by rw [Nat.pow_succ, Nat.mul_comm]⟩

theorem ofBE_lt (bs : Bytes) : ofBE bs < 256 ^ bs.length := by
  induction bs with
  | nil => simp [ofBE]
  | cons b bs ih =>
    have hb : b.toNat ≤ 255 := Nat.le_of_lt_succ b.toNat_lt
    have hmul : b.toNat * 256 ^ bs.length ≤ 255 * 256 ^ bs.length := Nat.mul_le_mul_right _ hb
    simp only [ofBE, List.length_cons, Nat.pow_succ]
    omega

/-- Decoding a big-endian text of `n` recovers `n` when it fits the width. -/
theorem ofBE_toBE (w n : Nat) (h : n < 256 ^ w) : ofBE (toBE w n) = n := by
  induction w generalizing n with
  | zero => simp at h; simp [toBE, ofBE, h]
  | succ w ih =>
    have hpos : 0 < 256 ^ w := Nat.pow_pos (by omega)
    have hlead : n / 256 ^ w < 256 := by
      rw [Nat.div_lt_iff_lt_mul hpos, Nat.mul_comm, ← Nat.pow_succ]; exact h
    have hrest := ih (n % 256 ^ w) (Nat.mod_lt _ hpos)
    rw [toBE_mod] at hrest
    simp only [toBE, ofBE, length_toBE, hrest, UInt8.toNat_ofNat', Nat.reducePow]
    rw [Nat.mod_eq_of_lt hlead, Nat.mul_comm]
    exact Nat.div_add_mod n (256 ^ w)

/-- Encoding a decoded text gives the text back. -/
theorem toBE_ofBE (bs : Bytes) : toBE bs.length (ofBE bs) = bs := by
  induction bs with
  | nil => rfl
  | cons b bs ih =>
    have hlt := ofBE_lt bs
    have hpos : 0 < 256 ^ bs.length := Nat.pow_pos (by omega)
    have hlead : ofBE (b :: bs) / 256 ^ bs.length = b.toNat := by
      simp only [ofBE]
      rw [Nat.add_comm, Nat.add_mul_div_right _ _ hpos, Nat.div_eq_of_lt hlt, Nat.zero_add]
    have hrest : toBE bs.length (ofBE (b :: bs)) = bs := by
      rw [← toBE_mod, ofBE, Nat.mul_comm, Nat.mul_add_mod, Nat.mod_eq_of_lt hlt, ih]
    simp only [List.length_cons, toBE, hlead, hrest, UInt8.ofNat_toNat]

/-- Big-endian texts of one width separate the numbers that fit it. -/
theorem toBE_inj {w m n : Nat} (hm : m < 256 ^ w) (hn : n < 256 ^ w)
    (h : toBE w m = toBE w n) : m = n := by
  rw [← ofBE_toBE w m hm, ← ofBE_toBE w n hn, h]

/-! ## Separators -/

/-- No piece of a split contains the separator. -/
theorem notMem_of_mem_splitOn {a : UInt8} {xs piece : Bytes} (h : piece ∈ xs.splitOn a) :
    a ∉ piece := by
  induction xs generalizing piece with
  | nil =>
    simp only [List.splitOn_nil, List.mem_singleton] at h
    simp [h]
  | cons x xs ih =>
    rw [List.splitOn_cons_eq_if_modifyHead] at h
    split at h
    · rcases List.mem_cons.mp h with rfl | h
      · simp
      · exact ih h
    · rename_i hne
      cases hs : xs.splitOn a with
      | nil => exact absurd hs (List.splitOn_ne_nil a xs)
      | cons p ps =>
        rw [hs, List.modifyHead_cons] at h
        rw [hs] at ih
        rcases List.mem_cons.mp h with rfl | h
        · have hp := ih (List.mem_cons_self ..)
          have hxa : ¬ a = x := fun hax => hne (by simp [hax])
          simp [hp, hxa]
        · exact ih (List.mem_cons_of_mem _ h)

/-- The text before the first occurrence of `a` is determined by the whole text. -/
theorem append_cons_inj_of_notMem {a : UInt8} {x y x' y' : Bytes} (hx : a ∉ x) (hx' : a ∉ x')
    (h : x ++ a :: y = x' ++ a :: y') : x = x' ∧ y = y' := by
  have hsplit := congrArg (List.takeWhile (· ≠ a)) h
  have htake : ∀ l rest : Bytes, a ∉ l → (l ++ a :: rest).takeWhile (· ≠ a) = l := by
    intro l rest hl
    rw [List.takeWhile_append_of_pos]
    · simp
    · intro b hb
      have hba : b ≠ a := fun hba => hl (hba ▸ hb)
      simpa using hba
  rw [htake x y hx, htake x' y' hx'] at hsplit
  subst hsplit
  exact ⟨rfl, by simpa using h⟩

/-! ## Order -/

/-- A separator that is below every other byte keeps the order of what precedes it. -/
theorem append_zero_lt {x y : Bytes} (hy : (0 : UInt8) ∉ y) (h : x < y) (k l : Bytes) :
    x ++ 0 :: k < y ++ 0 :: l := by
  induction x generalizing y with
  | nil =>
    cases y with
    | nil => exact absurd h (lt_irrefl _)
    | cons b y =>
      have hb : (0 : UInt8) < b := by
        have hne : b ≠ 0 := fun hb => hy (hb ▸ List.mem_cons_self ..)
        rw [UInt8.lt_iff_toNat_lt]
        have : b.toNat ≠ 0 := fun h0 => hne (UInt8.toNat_inj.mp h0)
        simp only [UInt8.reduceToNat]
        omega
      exact List.cons_lt_cons_iff.mpr (.inl hb)
  | cons a x ih =>
    cases y with
    | nil => simp at h
    | cons b y =>
      have hy' : (0 : UInt8) ∉ y := fun hmem => hy (List.mem_cons_of_mem b hmem)
      rcases List.cons_lt_cons_iff.mp h with hab | ⟨rfl, hxy⟩
      · exact List.cons_lt_cons_iff.mpr (.inl hab)
      · exact List.cons_lt_cons_iff.mpr (.inr ⟨rfl, ih hy' hxy⟩)

theorem cons_le_cons {a b : UInt8} {x y : Bytes} :
    a :: x ≤ b :: y ↔ a < b ∨ a = b ∧ x ≤ y := by
  rw [← not_lt, List.cons_lt_cons_iff, not_or, not_and, not_lt, not_lt, le_iff_lt_or_eq]
  constructor
  · rintro ⟨hlt | rfl, hxy⟩
    · exact .inl hlt
    · exact .inr ⟨rfl, hxy rfl⟩
  · rintro (hlt | ⟨rfl, hxy⟩)
    · exact ⟨.inl hlt, fun heq => absurd hlt (heq ▸ lt_irrefl _)⟩
    · exact ⟨.inr rfl, fun _ => hxy⟩

/-- A text is at or after its front parts. -/
theorem le_of_isPrefix {x y : Bytes} (h : x <+: y) : x ≤ y := by
  obtain ⟨rest, rfl⟩ := h
  induction x with
  | nil => exact not_lt.mp (List.not_lt_nil _)
  | cons a x ih => exact cons_le_cons.mpr (.inr ⟨rfl, ih⟩)

/-- The texts that start with `p` form an interval. -/
theorem isPrefix_of_le {p x y : Bytes} (hpy : p ≤ y) (hyx : y ≤ x) (hpx : p <+: x) : p <+: y := by
  induction p generalizing x y with
  | nil => exact List.nil_prefix
  | cons a p ih =>
    obtain ⟨rest, rfl⟩ := hpx
    cases y with
    | nil => exact absurd (List.nil_lt_cons a p) (not_lt.mpr hpy)
    | cons b y =>
      rw [List.cons_append, cons_le_cons] at hyx
      rcases cons_le_cons.mp hpy with hab | ⟨rfl, hrest⟩
      · rcases hyx with hba | ⟨rfl, -⟩
        · exact absurd hab (lt_asymm hba)
        · exact absurd hab (lt_irrefl _)
      · rcases hyx with hba | ⟨-, hyx⟩
        · exact absurd hba (lt_irrefl _)
        · exact List.prefix_cons_inj a |>.mpr (ih hrest hyx (List.prefix_append p rest))

/-! ## UTF-8 -/

/-- A UTF-8 continuation byte. -/
def isContinuation (b : UInt8) : Bool := 0x80 ≤ b && b ≤ 0xBF

/-- Well-formed UTF-8: no overlong forms, no surrogates, nothing above `U+10FFFF`. -/
def isUtf8 : Bytes → Bool
  | [] => true
  | b₀ :: rest₀ =>
    if b₀ < 0x80 then isUtf8 rest₀
    else match rest₀ with
      | [] => false
      | b₁ :: rest₁ =>
        if 0xC2 ≤ b₀ && b₀ ≤ 0xDF then isContinuation b₁ && isUtf8 rest₁
        else match rest₁ with
          | [] => false
          | b₂ :: rest₂ =>
            if 0xE0 ≤ b₀ && b₀ ≤ 0xEF then
              (isContinuation b₁ && (b₀ != 0xE0 || 0xA0 ≤ b₁) && (b₀ != 0xED || b₁ ≤ 0x9F))
                && isContinuation b₂ && isUtf8 rest₂
            else match rest₂ with
              | [] => false
              | b₃ :: rest₃ =>
                (0xF0 ≤ b₀ && b₀ ≤ 0xF4)
                  && (isContinuation b₁ && (b₀ != 0xF0 || 0x90 ≤ b₁) && (b₀ != 0xF4 || b₁ ≤ 0x8F))
                  && isContinuation b₂ && isContinuation b₃ && isUtf8 rest₃

/-- Every byte is an ASCII character. -/
def Ascii (bytes : Bytes) : Prop := ∀ b ∈ bytes, b < 0x80

namespace Ascii

theorem of_all {bytes : Bytes} (h : bytes.all (· < 0x80) = true) : Ascii bytes := by
  intro b hb
  exact of_decide_eq_true (List.all_eq_true.mp h b hb)

theorem append {a b : Bytes} (ha : Ascii a) (hb : Ascii b) : Ascii (a ++ b) := by
  intro c hc
  rcases List.mem_append.mp hc with hc | hc
  · exact ha c hc
  · exact hb c hc

/-- ASCII is UTF-8. -/
theorem isUtf8 {bytes : Bytes} (h : Ascii bytes) : Bytes.isUtf8 bytes = true := by
  induction bytes with
  | nil => rfl
  | cons b bytes ih =>
    rw [Bytes.isUtf8.eq_def]
    simp only [h b (List.mem_cons_self ..), ↓reduceIte]
    exact ih (fun c hc => h c (List.mem_cons_of_mem b hc))

end Ascii

end Bytes
