import Radiata.Native.JsonStore
import Radiata.Spec.JsonDocumentCorrect

/-!
# Names of generations

A final name reads back as its generation and transaction, a temporary name is
recognised as one, and no name is both. What a commit does to temporary files is
therefore invisible in the generations of a directory.

## Key results

- `generationOf_finalName`: a final name is the name of its generation
- `generationOf_of_isTemp`: a temporary name is the name of no generation
-/

namespace Radiata

/-- The generation and transaction of a name in a directory listing. -/
def generationOf (name : Bytes) : Option (UInt64 × TransactionId) :=
  if Bytes.isUtf8 name then parseGenerationName name else none

/-- The test of `cleanup_temp_files` on a name in a directory listing. -/
def isTemp (name : Bytes) : Bool := Bytes.isUtf8 name && isTempName name

theorem ascii_padded (width n : Nat) : (Bytes.padded width n).Ascii := by
  intro b hb
  have hdigit := Bytes.isDigit_of_mem_padded hb
  simp only [Bytes.isDigit, Bool.and_eq_true, decide_eq_true_eq, UInt8.le_iff_toNat_le,
    UInt8.reduceToNat] at hdigit
  simp only [UInt8.lt_iff_toNat_lt, UInt8.reduceToNat]
  omega

theorem ascii_fileStem (generation : UInt64) (transaction : TransactionId) :
    (fileStem generation transaction).Ascii := by
  refine .append (.of_all (by decide)) (.append (ascii_padded _ _) ?_)
  intro b hb
  rcases List.mem_cons.mp hb with rfl | hb
  · decide
  · exact TransactionId.ascii transaction b hb

theorem ascii_finalName (generation : UInt64) (transaction : TransactionId) :
    (finalName generation transaction).Ascii :=
  (ascii_fileStem generation transaction).append (Bytes.Ascii.of_all (by decide))

theorem ascii_tempName (generation : UInt64) (transaction : TransactionId) :
    (tempName generation transaction).Ascii := by
  refine .append (.of_all (by decide)) (.append (.append ?_ ?_) ?_)
  · exact ascii_fileStem generation transaction
  · exact Bytes.Ascii.of_all (by decide)
  · exact Bytes.Ascii.of_all (by decide)

theorem hyphen_notMem_padded (width n : Nat) : hyphen ∉ Bytes.padded width n := by
  intro hmem
  exact absurd (Bytes.isDigit_of_mem_padded hmem) (by decide)

/-- A generation number fits the width of its numeral. -/
theorem length_padded_generation (generation : UInt64) :
    (Bytes.padded generationNumberWidth generation.toNat).length = generationNumberWidth := by
  have hlt : generation.toNat < 2 ^ 64 := generation.toNat_lt
  exact Bytes.length_padded (by decide) (by unfold generationNumberWidth; omega)

/-- A final name is the name of its generation. -/
theorem generationOf_finalName {generation : UInt64} (h : generation ≠ 0)
    (transaction : TransactionId) :
    generationOf (finalName generation transaction) = some (generation, transaction) := by
  have hstem : finalName generation transaction = generationPrefix
      ++ ((Bytes.padded generationNumberWidth generation.toNat ++ hyphen :: transaction.asStr)
        ++ generationSuffix) := by
    rw [finalName, fileStem, List.append_assoc]
  have hdigits : (Bytes.padded generationNumberWidth generation.toNat).all Bytes.isDigit = true :=
    List.all_eq_true.mpr (fun b hb => Bytes.isDigit_of_mem_padded hb)
  have hnumber : parseU64 (Bytes.padded generationNumberWidth generation.toNat)
      = some generation := by
    rw [parseU64, Bytes.ofDecimal_padded, u64TryFrom_eq_some]
  rw [generationOf, if_pos (ascii_finalName generation transaction).isUtf8, parseGenerationName,
    hstem, Bytes.stripStart_append, Option.bind_eq_bind, Option.bind_some, Bytes.stripEnd_append,
    Option.bind_eq_bind, Option.bind_some, Bytes.splitOnce_append (hyphen_notMem_padded _ _)]
  show parseNumbered _ _ = _
  rw [parseNumbered, if_neg (by simp [length_padded_generation, hdigits]), hnumber]
  show (if generation = 0 then none else _) = _
  rw [if_neg h, CanonicalId.parse_asStr]
  rfl

theorem isTemp_tempName (generation : UInt64) (transaction : TransactionId) :
    isTemp (tempName generation transaction) = true := by
  have hcounter : hyphen ∉ [(0x30 : UInt8)] := by decide
  have hname : isTempName (tempName generation transaction) = true := by
    rw [isTempName, tempName, Bytes.stripStart_append]
    dsimp only
    rw [Bytes.stripEnd_append]
    dsimp only
    rw [Bytes.rsplitOnce_append _ hcounter]
    rfl
  rw [isTemp, (ascii_tempName generation transaction).isUtf8, hname]
  rfl

/-- A temporary name is the name of no generation. -/
theorem generationOf_of_isTemp {name : Bytes} (h : isTemp name = true) :
    generationOf name = none := by
  simp only [isTemp, Bool.and_eq_true] at h
  rw [generationOf, if_pos h.1]
  have hstart : ∃ rest, name = tempPrefix ++ rest := by
    have htemp := h.2
    rw [isTempName] at htemp
    split at htemp
    · cases htemp
    · rename_i stem hstem
      exact ⟨stem, Bytes.stripStart_eq_some hstem⟩
  obtain ⟨rest, rfl⟩ := hstart
  -- the two kinds of names differ in their first character
  have hnone : Bytes.stripStart generationPrefix (tempPrefix ++ rest) = none := by
    rw [Bytes.stripStart, if_neg]
    intro hpre
    obtain ⟨other, hother⟩ := hpre
    have hhead := congrArg List.head? hother
    rw [show generationPrefix = 0x67 :: (Bytes.utf8 "en-") by decide,
      show tempPrefix = 0x74 :: (Bytes.utf8 "mp-") by decide] at hhead
    simp at hhead
  rw [parseGenerationName, hnone]
  rfl

end Radiata
