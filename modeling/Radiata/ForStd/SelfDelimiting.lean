import Radiata.ForStd.Bytes

/-!
# Self-delimiting codes

A code is self-delimiting if a word of it can be told from whatever follows: a text determines
the word it starts with and its rest. Codes of one length are, and so are byte strings behind
their length; sequences of such words are again.

## Key results

- `SelfDelimiting.of_length`, `Bytes.selfDelimiting_lengthPrefixed`
- `SelfDelimiting.flatMap`: as many words as were announced
-/

/-- The word of an `a` with `valid a` is found at the start of every text. -/
def SelfDelimiting {α β : Type} (valid : α → Prop) (code : α → List β) : Prop :=
  ∀ a b, valid a → valid b → ∀ s t, code a ++ s = code b ++ t → a = b ∧ s = t

namespace SelfDelimiting

variable {α β : Type} {valid : α → Prop} {code : α → List β}

/-- Distinct words of one length. -/
theorem of_length {n : Nat} (hlength : ∀ a, valid a → (code a).length = n)
    (hinj : ∀ a b, valid a → valid b → code a = code b → a = b) : SelfDelimiting valid code := by
  intro a b ha hb s t h
  obtain ⟨hword, hrest⟩ := List.append_inj h ((hlength a ha).trans (hlength b hb).symm)
  exact ⟨hinj a b ha hb hword, hrest⟩

/-- Words whose number is known. -/
theorem flatMap (h : SelfDelimiting valid code) {as bs : List α} (hlength : as.length = bs.length)
    (has : ∀ a ∈ as, valid a) (hbs : ∀ b ∈ bs, valid b) {s t : List β}
    (heq : as.flatMap code ++ s = bs.flatMap code ++ t) : as = bs ∧ s = t := by
  induction as generalizing bs with
  | nil =>
    obtain rfl := List.length_eq_zero_iff.mp hlength.symm
    exact ⟨rfl, heq⟩
  | cons a as ih =>
    cases bs with
    | nil => cases hlength
    | cons b bs =>
      rw [List.flatMap_cons, List.flatMap_cons, List.append_assoc, List.append_assoc] at heq
      obtain ⟨rfl, htail⟩ := h a b (has a List.mem_cons_self) (hbs b List.mem_cons_self) _ _ heq
      obtain ⟨rfl, hrest⟩ := ih (Nat.succ.inj hlength)
        (fun c hc => has c (List.mem_cons_of_mem a hc))
        (fun c hc => hbs c (List.mem_cons_of_mem a hc)) htail
      exact ⟨rfl, hrest⟩

end SelfDelimiting

namespace Bytes

/-- Numbers of a fixed width. -/
theorem selfDelimiting_toBE (w : Nat) : SelfDelimiting (fun n => n < 256 ^ w) (toBE w) :=
  SelfDelimiting.of_length (fun n _ => length_toBE w n) fun _ _ hm hn => toBE_inj hm hn

/-- Byte strings behind their lengths. -/
theorem selfDelimiting_lengthPrefixed (w : Nat) :
    SelfDelimiting (fun bytes : Bytes => bytes.length < 256 ^ w)
      fun bytes => toBE w bytes.length ++ bytes := by
  intro a b ha hb s t h
  rw [List.append_assoc, List.append_assoc] at h
  obtain ⟨hlength, hrest⟩ := selfDelimiting_toBE w _ _ ha hb _ _ h
  exact List.append_inj hrest hlength

end Bytes
