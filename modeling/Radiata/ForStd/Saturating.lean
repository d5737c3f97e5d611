import Mathlib.Order.MinMax
import Mathlib.Tactic.NormNum

/-!
# Saturating arithmetic

The saturating operations of 64-bit words, with what they are on natural numbers.
-/

namespace UInt64

/-- The largest word. -/
def maxValue : UInt64 := 0xFFFFFFFFFFFFFFFF

theorem toNat_maxValue : maxValue.toNat = 2 ^ 64 - 1 := by decide

def saturatingAdd (a b : UInt64) : UInt64 := .ofNat (min (a.toNat + b.toNat) (2 ^ 64 - 1))

def saturatingSub (a b : UInt64) : UInt64 := .ofNat (a.toNat - b.toNat)

def saturatingMul (a b : UInt64) : UInt64 := .ofNat (min (a.toNat * b.toNat) (2 ^ 64 - 1))

private theorem toNat_ofNat_min (n : Nat) :
    (UInt64.ofNat (min n (2 ^ 64 - 1))).toNat = min n (2 ^ 64 - 1) := by
  rw [UInt64.toNat_ofNat']
  exact Nat.mod_eq_of_lt (by omega)

@[simp] theorem toNat_saturatingAdd (a b : UInt64) :
    (a.saturatingAdd b).toNat = min (a.toNat + b.toNat) (2 ^ 64 - 1) := toNat_ofNat_min _

@[simp] theorem toNat_saturatingMul (a b : UInt64) :
    (a.saturatingMul b).toNat = min (a.toNat * b.toNat) (2 ^ 64 - 1) := toNat_ofNat_min _

@[simp] theorem toNat_saturatingSub (a b : UInt64) :
    (a.saturatingSub b).toNat = a.toNat - b.toNat := by
  have := a.toNat_lt
  rw [saturatingSub, UInt64.toNat_ofNat']
  exact Nat.mod_eq_of_lt (by omega)

/-- The smaller of two words. -/
def atMost (a bound : UInt64) : UInt64 := if a.toNat ≤ bound.toNat then a else bound

@[simp] theorem toNat_atMost (a bound : UInt64) : (a.atMost bound).toNat = min a.toNat bound.toNat := by
  unfold atMost
  split
  · rename_i h
    rw [Nat.min_eq_left h]
  · rename_i h
    rw [Nat.min_eq_right (by omega)]

/-- A power of two as a shift. -/
theorem toNat_one_shiftLeft {e : UInt64} (h : e.toNat < 64) : ((1 : UInt64) <<< e).toNat = 2 ^ e.toNat := by
  rw [UInt64.toNat_shiftLeft, Nat.mod_eq_of_lt h]
  rw [show (1 : UInt64).toNat = 1 from rfl, Nat.one_shiftLeft]
  exact Nat.mod_eq_of_lt (Nat.pow_lt_pow_right (by omega) h)

end UInt64
