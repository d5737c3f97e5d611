import Mathlib.Algebra.Group.Int.Defs
import Radiata.ForStd.Bytes
import Radiata.Native.Error

/-!
# Wall-clock times

`std::time::{SystemTime, Duration}` as the receipt engine uses them, and the
13-byte wall-time encoding of `src/storage/receipt.rs`. A `SystemTime` is a number
of nanoseconds relative to the Unix epoch whose seconds fit `i64`; a `Duration`
is a number of nanoseconds whose seconds fit `u64`.
-/

namespace Radiata

def nanosPerSecond : Nat := 1000000000

/-- `std::time::SystemTime`: nanoseconds since the Unix epoch. -/
structure SystemTime where
  nanos : Int
  lower : -(2 ^ 63 * (nanosPerSecond : Int)) ≤ nanos
  upper : nanos < 2 ^ 63 * (nanosPerSecond : Int)
  deriving DecidableEq

/-- `std::time::Duration` -/
structure Duration where
  nanos : Nat
  bound : nanos < 2 ^ 64 * nanosPerSecond
  deriving DecidableEq

/-- `SystemTime::UNIX_EPOCH` -/
def SystemTime.unixEpoch : SystemTime := ⟨0, by decide, by decide⟩

/-- The time `nanos` from the epoch, if it is representable. -/
def SystemTime.ofNanos (nanos : Int) : Option SystemTime :=
  if h : -(2 ^ 63 * (nanosPerSecond : Int)) ≤ nanos ∧ nanos < 2 ^ 63 * (nanosPerSecond : Int) then
    some ⟨nanos, h.1, h.2⟩
  else none

/-- `SystemTime::checked_add` -/
def SystemTime.checkedAdd (time : SystemTime) (duration : Duration) : Option SystemTime :=
  ofNanos (time.nanos + duration.nanos)

theorem SystemTime.ofNanos_eq_some {nanos : Int} {time : SystemTime} :
    ofNanos nanos = some time ↔ time.nanos = nanos := by
  simp only [ofNanos]
  split
  · rw [Option.some.injEq]
    constructor
    · rintro rfl; rfl
    · rintro rfl; rfl
  · rename_i hout
    simp only [reduceCtorEq, false_iff]
    rintro rfl
    exact hout ⟨time.lower, time.upper⟩

/-! ## The stored form -/

def wallTimeWidth : Nat := 13

/-- `storage_corrupt` -/
def storageCorrupt : Error := .provider .storageCorrupt .storageSnapshot

/-- `encode_wall_time`: a sign byte, the seconds and the nanoseconds of the distance
    from the epoch. -/
def encodeWallTime (value : SystemTime) : Bytes :=
  let distance := value.nanos.natAbs
  (if 0 ≤ value.nanos then 0 else 1) ::
    (Bytes.toBE 8 (distance / nanosPerSecond) ++ Bytes.toBE 4 (distance % nanosPerSecond))

/-- `decode_wall_time` -/
def decodeWallTime (encoded : Bytes) : Result SystemTime :=
  if encoded.length ≠ wallTimeWidth then .error storageCorrupt
  else
    let sign := encoded.headD 0
    let seconds := Bytes.ofBE ((encoded.drop 1).take 8)
    let nanos := Bytes.ofBE ((encoded.drop 9).take 4)
    if nanos ≥ nanosPerSecond ∨ (sign = 1 ∧ seconds = 0 ∧ nanos = 0) then .error storageCorrupt
    else
      let distance : Int := seconds * nanosPerSecond + nanos
      let time :=
        if sign = 0 then SystemTime.ofNanos distance
        else if sign = 1 then SystemTime.ofNanos (-distance)
        else none
      match time with
      | some time => .ok time
      | none => .error storageCorrupt

/-- A stored wall time reads back. -/
theorem decodeWallTime_encodeWallTime (time : SystemTime) :
    decodeWallTime (encodeWallTime time) = .ok time := by
  have hlower := time.lower
  have hupper := time.upper
  simp only [nanosPerSecond] at hlower hupper
  have hsecs : time.nanos.natAbs / nanosPerSecond < 256 ^ 8 := by
    simp only [nanosPerSecond]; omega
  have hsub : time.nanos.natAbs % nanosPerSecond < 256 ^ 4 := by
    simp only [nanosPerSecond]; omega
  have hdrop : ((encodeWallTime time).drop 1).take 8 =
      Bytes.toBE 8 (time.nanos.natAbs / nanosPerSecond) := by
    simp [encodeWallTime]
  have hdrop9 : ((encodeWallTime time).drop 9).take 4 =
      Bytes.toBE 4 (time.nanos.natAbs % nanosPerSecond) := by
    simp [encodeWallTime, List.take_of_length_le (Bytes.length_toBE 4 _).le]
  simp only [decodeWallTime, hdrop, hdrop9, Bytes.ofBE_toBE _ _ hsecs, Bytes.ofBE_toBE _ _ hsub]
  have hlen : (encodeWallTime time).length = wallTimeWidth := by
    simp [encodeWallTime, wallTimeWidth]
  by_cases hsign : 0 ≤ time.nanos
  · have hhead : (encodeWallTime time).headD 0 = 0 := by simp [encodeWallTime, hsign]
    have htime : SystemTime.ofNanos (((time.nanos.natAbs / nanosPerSecond : Nat) : Int)
        * nanosPerSecond + ((time.nanos.natAbs % nanosPerSecond : Nat) : Int)) = some time := by
      rw [SystemTime.ofNanos_eq_some]
      simp only [nanosPerSecond]
      omega
    rw [hhead, if_neg (not_not.mpr hlen), if_neg (by simp [nanosPerSecond]; omega), if_pos rfl,
      htime]
  · have hhead : (encodeWallTime time).headD 0 = 1 := by simp [encodeWallTime, hsign]
    have htime : SystemTime.ofNanos (-(((time.nanos.natAbs / nanosPerSecond : Nat) : Int)
        * nanosPerSecond + ((time.nanos.natAbs % nanosPerSecond : Nat) : Int))) = some time := by
      rw [SystemTime.ofNanos_eq_some]
      simp only [nanosPerSecond]
      omega
    rw [hhead, if_neg (not_not.mpr hlen), if_neg (by simp [nanosPerSecond]; omega),
      if_neg (by decide), if_pos rfl, htime]

end Radiata
