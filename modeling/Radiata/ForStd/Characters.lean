import Mathlib.Data.List.Destutter
import Radiata.ForStd.List
import Radiata.ForStd.Text

/-!
# Texts as characters

A text is a list of Unicode scalar values where it is read character by character, and the
list of its UTF-8 bytes where it is measured, compared or stored.

## Key results

- `Characters.utf8_inj`: a text is determined by its bytes
- `Characters.utf8_ofAscii` / `Characters.ofAscii_utf8`: ASCII bytes as characters and back
- `Characters.span_append`: a run of characters stops where it must
- `List.pairwise_sortDedup` / `List.mem_sortDedup` / `List.sortDedup_of_pairwise`: sorting and
  removing equal neighbours
-/

/-- A text, as its characters. -/
abbrev Characters := List Char

namespace Characters

/-- The UTF-8 bytes of a text. -/
def utf8 (text : Characters) : Bytes := text.flatMap String.utf8EncodeChar

@[simp] theorem utf8_nil : utf8 [] = [] := rfl

@[simp] theorem utf8_append (a b : Characters) : utf8 (a ++ b) = utf8 a ++ utf8 b :=
  List.flatMap_append

theorem utf8_cons (c : Char) (text : Characters) :
    utf8 (c :: text) = String.utf8EncodeChar c ++ utf8 text := rfl

theorem length_utf8_cons (c : Char) (text : Characters) :
    (utf8 (c :: text)).length = c.utf8Size + (utf8 text).length := by
  rw [utf8_cons, List.length_append, String.length_utf8EncodeChar]

private theorem utf8Encode_eq (text : Characters) :
    text.utf8Encode = (utf8 text).toByteArray := by
  rw [List.utf8Encode, utf8]

/-- A text is determined by its bytes. -/
theorem utf8_inj {a b : Characters} (h : utf8 a = utf8 b) : a = b := by
  apply String.ofList_injective
  apply String.toByteArray_inj.mp
  rw [String.toByteArray_ofList, String.toByteArray_ofList, utf8Encode_eq, utf8Encode_eq, h]

theorem utf8_injective : Function.Injective utf8 := fun _ _ => utf8_inj

/-! ## ASCII -/

/-- The characters of an ASCII text. -/
def ofAscii (bytes : Bytes) : Characters := bytes.map fun b => Char.ofNat b.toNat

@[simp] theorem ofAscii_append (a b : Bytes) : ofAscii (a ++ b) = ofAscii a ++ ofAscii b :=
  List.map_append

private theorem utf8EncodeChar_ofNat {b : UInt8} (h : b < 0x80) :
    String.utf8EncodeChar (Char.ofNat b.toNat) = [b] := by
  have hlt : b.toNat < 128 := by simpa [UInt8.lt_iff_toNat_lt] using h
  have hvalid : b.toNat.isValidChar := Or.inl (by omega)
  have hval : (Char.ofNat b.toNat).toNat = b.toNat := by
    rw [Char.ofNat, dif_pos hvalid]
    rfl
  have hsize : (Char.ofNat b.toNat).utf8Size = 1 := by
    rw [Char.utf8Size_eq_one_iff, UInt32.le_iff_toNat_le]
    show (Char.ofNat b.toNat).toNat ≤ 127
    omega
  rw [String.utf8EncodeChar_eq_singleton hsize]
  congr 1
  apply UInt8.toNat_inj.mp
  show (Char.ofNat b.toNat).toNat % 256 = b.toNat
  omega

theorem utf8_ofAscii {bytes : Bytes} (h : bytes.Ascii) : utf8 (ofAscii bytes) = bytes := by
  induction bytes with
  | nil => rfl
  | cons b bytes ih =>
    have hrest : Bytes.Ascii bytes := fun c hc => h c (List.mem_cons_of_mem b hc)
    show utf8 (Char.ofNat b.toNat :: ofAscii bytes) = b :: bytes
    rw [utf8_cons, utf8EncodeChar_ofNat (h b (List.mem_cons_self ..)), ih hrest]
    rfl

theorem ofAscii_utf8 {text : Characters} (h : (utf8 text).Ascii) : ofAscii (utf8 text) = text :=
  utf8_inj (utf8_ofAscii h)

/-! ## White space -/

/-- `char::is_whitespace`: the characters with the Unicode property `White_Space`. -/
def isWhitespace (c : Char) : Bool :=
  c == ' ' || (0x09 ≤ c.toNat && c.toNat ≤ 0x0D) || c.toNat == 0x85 || c.toNat == 0xA0 ||
    c.toNat == 0x1680 || (0x2000 ≤ c.toNat && c.toNat ≤ 0x200A) || c.toNat == 0x2028 ||
    c.toNat == 0x2029 || c.toNat == 0x202F || c.toNat == 0x205F || c.toNat == 0x3000

/-- The text without the white space at its start. -/
def skipWhitespace (text : Characters) : Characters := text.dropWhile isWhitespace

/-- A text of white space. -/
def Blank (text : Characters) : Prop := ∀ c ∈ text, isWhitespace c = true

/-- A text that does not start with a character outside `stop`. -/
def Stops (stop : Char → Bool) (text : Characters) : Prop := text.head?.all stop = true

variable {stop : Char → Bool}

theorem Stops.mono {stop' : Char → Bool} {text : Characters} (h : Stops stop text)
    (himp : ∀ c, stop c = true → stop' c = true) : Stops stop' text := by
  cases text with
  | nil => rfl
  | cons c text => exact himp c h

variable {blank rest : Characters}

/-- White space stops what stops at white space. -/
theorem Blank.stops (h : Blank blank) (hstop : ∀ c, isWhitespace c = true → stop c = true)
    (hrest : Stops stop rest) :
    Stops stop (blank ++ rest) := by
  cases blank with
  | nil => exact hrest
  | cons c blank => exact hstop c (h c (List.mem_cons_self ..))

/-- A run of characters that do not stop it, up to one that does. -/
theorem span_append {word : Characters} (hword : ∀ c ∈ word, stop c = false)
    (hrest : Stops stop rest) :
    (word ++ rest).takeWhile (fun c => !stop c) = word ∧
      (word ++ rest).dropWhile (fun c => !stop c) = rest := by
  have hall : ∀ c ∈ word, (!stop c) = true := by
    intro c hc
    rw [hword c hc]
    rfl
  rw [List.takeWhile_append_of_pos hall, List.dropWhile_append_of_pos hall]
  cases rest with
  | nil => simp
  | cons c rest =>
    have hc : stop c = true := hrest
    simp [hc]

theorem skipWhitespace_append (hblank : Blank blank)
    (hrest : Stops (fun c => !isWhitespace c) rest) : skipWhitespace (blank ++ rest) = rest := by
  have hrun : ∀ c ∈ blank, (!isWhitespace c) = false := by
    intro c hc
    rw [hblank c hc]
    rfl
  have hspan := span_append hrun hrest
  simpa [skipWhitespace] using hspan.2

theorem skipWhitespace_cons (hblank : Blank blank) {c : Char} (hc : isWhitespace c = false)
    (rest : Characters) :
    skipWhitespace (blank ++ c :: rest) = c :: rest :=
  skipWhitespace_append hblank (congrArg not hc)

theorem skipWhitespace_blank (hblank : Blank blank) :
    skipWhitespace blank = [] := by
  have hskip := skipWhitespace_append hblank (show Stops (fun c => !isWhitespace c) [] from rfl)
  rwa [List.append_nil] at hskip

/-- The text is some white space and what is left of it. -/
theorem exists_blank (text : Characters) :
    ∃ blank, Blank blank ∧ text = blank ++ skipWhitespace text ∧
      Stops (fun c => !isWhitespace c) (skipWhitespace text) := by
  refine ⟨text.takeWhile isWhitespace, ?_, List.takeWhile_append_dropWhile.symm, ?_⟩
  · intro c hc
    have hall := List.all_takeWhile (p := isWhitespace) (l := text)
    exact List.all_eq_true.mp hall c hc
  · unfold Stops skipWhitespace
    have hhead := List.head?_dropWhile_not isWhitespace text
    cases hskip : text.dropWhile isWhitespace with
    | nil => rfl
    | cons c rest => simpa [hskip] using hhead

theorem length_skipWhitespace_le (text : Characters) :
    (skipWhitespace text).length ≤ text.length :=
  (List.dropWhile_sublist isWhitespace).length_le

end Characters

namespace List

variable {α κ : Type} [LinearOrder κ] [DecidableEq α]

/-- Sorting by a key and then removing equal neighbours. -/
def sortDedup (key : α → κ) (l : List α) : List α :=
  (l.insertionSort (fun a b => key a ≤ key b)).destutter (· ≠ ·)

omit [DecidableEq α] in
/-- The sorted list, before neighbours are compared. -/
private theorem pairwise_sorted (key : α → κ) (l : List α) :
    (l.insertionSort (fun a b => key a ≤ key b)).Pairwise (fun a b => key a ≤ key b) := by
  have : Std.Total (fun a b : α => key a ≤ key b) := ⟨fun a b => le_total (key a) (key b)⟩
  have : IsTrans α (fun a b : α => key a ≤ key b) := ⟨fun _ _ _ => le_trans⟩
  exact pairwise_insertionSort (fun a b => key a ≤ key b) l

variable {key : α → κ}

theorem pairwise_sortDedup (hkey : Function.Injective key) (l : List α) :
    (l.sortDedup key).Pairwise (fun a b => key a < key b) := by
  have hle := (pairwise_sorted key l).sublist (destutter_sublist (· ≠ ·) _)
  have hne := isChain_destutter (· ≠ ·) (l.insertionSort (fun a b => key a ≤ key b))
  apply pairwise_lt_of_allAdjacent key (r := fun a b => decide (a ≠ b)) ?_ hle ?_
  · intro a b hab heq
    exact of_decide_eq_true hab (hkey heq)
  · rw [allAdjacent_iff_isChain]
    exact hne.imp fun a b hab => decide_eq_true hab

private theorem mem_destutter'_ne {a b : α} {l : List α} (h : a ∈ b :: l) :
    a ∈ l.destutter' (· ≠ ·) b := by
  induction l generalizing b with
  | nil => exact h
  | cons c l ih =>
    rw [destutter'_cons]
    by_cases hbc : b ≠ c
    · rw [if_pos hbc]
      rcases mem_cons.mp h with rfl | h
      · exact mem_cons_self ..
      · exact mem_cons_of_mem b (ih h)
    · rw [if_neg hbc]
      obtain rfl : b = c := not_not.mp hbc
      rcases mem_cons.mp h with rfl | h
      · exact ih (mem_cons_self ..)
      · exact ih h

/-- Nothing but repetitions is removed. -/
theorem mem_sortDedup {l : List α} {a : α} : a ∈ l.sortDedup key ↔ a ∈ l := by
  have hsorted := mem_insertionSort (fun a b => key a ≤ key b) (x := a) (l := l)
  rw [sortDedup, ← hsorted]
  constructor
  · intro h
    exact (destutter_sublist (· ≠ ·) _).subset h
  · intro h
    cases hlist : l.insertionSort (fun a b => key a ≤ key b) with
    | nil => rw [hlist] at h; cases h
    | cons b rest =>
      rw [hlist] at h
      exact mem_destutter'_ne h

theorem length_sortDedup_le (key : α → κ) (l : List α) :
    (l.sortDedup key).length ≤ l.length := by
  have hsub := (destutter_sublist (· ≠ ·) (l.insertionSort (fun a b => key a ≤ key b))).length_le
  rw [length_insertionSort] at hsub
  exact hsub

/-- A strictly sorted list is left as it is. -/
theorem sortDedup_of_pairwise {l : List α} (h : l.Pairwise (fun a b => key a < key b)) :
    l.sortDedup key = l := by
  have hne : l.IsChain (· ≠ ·) := (h.imp fun {a b} hlt heq => by
    rw [heq] at hlt
    exact lt_irrefl _ hlt).isChain
  rw [sortDedup, (h.imp le_of_lt).insertionSort_eq, destutter_of_isChain _ _ hne]

theorem sortDedup_eq_nil {l : List α} : l.sortDedup key = [] ↔ l = [] := by
  simp only [eq_nil_iff_forall_not_mem, mem_sortDedup]

end List
