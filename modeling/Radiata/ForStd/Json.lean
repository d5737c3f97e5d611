import Radiata.ForStd.Reader
import Radiata.ForStd.Text

/-!
# Compact JSON

Strings, numerals, arrays and optional strings as a compact writer puts them, and
readers for them. The readers accept what the writer writes and no other spelling.

## Key results

- `Json.reads_string`: a string reads back, escapes included
- `Json.reads_array`: an array reads back if its items do
-/

namespace Json

def quote : UInt8 := 0x22
def backslash : UInt8 := 0x5C
def comma : UInt8 := 0x2C
def openBracket : UInt8 := 0x5B
def closeBracket : UInt8 := 0x5D

/-! ## Strings -/

/-- The characters without a short escape below the space. -/
def controls : List Nat := (List.range 32).filter (fun n => n ∉ [8, 9, 10, 12, 13])

/-- The bytes that are escaped, with the text after the backslash. -/
def escapes : List (UInt8 × Bytes) :=
  [(quote, [quote]), (backslash, [backslash]), (0x08, Bytes.utf8 "b"), (0x09, Bytes.utf8 "t"),
    (0x0A, Bytes.utf8 "n"), (0x0C, Bytes.utf8 "f"), (0x0D, Bytes.utf8 "r")]
    ++ controls.map fun n =>
      (UInt8.ofNat n, Bytes.utf8 "u00" ++ (Nat.toDigits 16 (256 + n)).tail.map
        fun c => UInt8.ofNat c.toNat)

def escape (b : UInt8) : Bytes :=
  match escapes.lookup b with
  | some text => backslash :: text
  | none => [b]

def encodeString (text : Bytes) : Bytes := quote :: (text.flatMap escape ++ [quote])

/-- The byte of an escape, after its backslash. -/
def escaped : Reader UInt8 := fun input =>
  (escapes.find? (fun e => e.2 <+: input)).map fun e => (e.1, input.drop e.2.length)

/-- The characters of a string up to its closing quote. -/
def chars : Nat → Reader Bytes
  | 0 => failure
  | fuel + 1 => do
    let b ← Reader.byte
    if b = quote then pure []
    else do
      let c ← if b = backslash then escaped else pure b
      let rest ← chars fuel
      return c :: rest

/-- A string of UTF-8 text. -/
def string : Reader Bytes := do
  let b ← Reader.byte
  if b = quote then do
    let text ← fun input => chars input.length input
    if Bytes.isUtf8 text then pure text else failure
  else failure

/-- No escape is the front part of another. -/
theorem eq_of_escapes_isPrefix :
    ∀ e ∈ escapes, ∀ f ∈ escapes, e.2 <+: f.2 → e = f := by decide

theorem reads_escaped {e : UInt8 × Bytes} (he : e ∈ escapes) :
    Reader.Reads escaped e.2 e.1 := by
  intro rest
  have hsome : (escapes.find? (fun f => f.2 <+: e.2 ++ rest)).isSome = true := by
    rw [List.find?_isSome]
    exact ⟨e, he, decide_eq_true (List.prefix_append ..)⟩
  obtain ⟨f, hf⟩ := Option.isSome_iff_exists.mp hsome
  have hmem : f ∈ escapes := List.mem_of_find?_eq_some hf
  have hpre : f.2 <+: e.2 ++ rest := by
    have := List.find?_some hf
    exact of_decide_eq_true this
  -- two escapes at one place are the same
  have hsame : f = e := by
    rcases List.prefix_or_prefix_of_prefix hpre (List.prefix_append ..) with hfe | hef
    · exact eq_of_escapes_isPrefix f hmem e he hfe
    · exact (eq_of_escapes_isPrefix e he f hmem hef).symm
  rw [escaped, hf, hsame, Option.map_some, List.drop_left]

theorem mem_of_lookup {b : UInt8} {text : Bytes} (h : escapes.lookup b = some text) :
    (b, text) ∈ escapes := by
  obtain ⟨before, after, heq, -⟩ := List.lookup_eq_some_iff.mp h
  rw [heq]
  exact List.mem_append_right _ (List.mem_cons_self ..)

/-- One character of a string. -/
theorem chars_escape (b : UInt8) (fuel : Nat) (rest : Bytes) :
    chars (fuel + 1) (escape b ++ rest) = (chars fuel rest).map fun x => (b :: x.1, x.2) := by
  cases hlookup : escapes.lookup b with
  | some text =>
    have hread := reads_escaped (mem_of_lookup hlookup) rest
    rw [escape, hlookup]
    show ((escaped (text ++ rest)).bind fun x => (chars fuel x.2).bind _) = _
    rw [hread]
    show ((chars fuel rest).bind fun y => some (b :: y.1, y.2)) = _
    cases chars fuel rest <;> rfl
  | none =>
    have hquote : b ≠ quote := by
      rintro rfl
      exact absurd hlookup (by decide)
    have hbackslash : b ≠ backslash := by
      rintro rfl
      exact absurd hlookup (by decide)
    rw [escape, hlookup]
    show (if b = quote then pure [] else do
      let c ← if b = backslash then escaped else pure b
      let rest ← chars fuel
      return c :: rest : Reader Bytes) rest = _
    rw [if_neg hquote, if_neg hbackslash]
    show ((chars fuel rest).bind fun y => some (b :: y.1, y.2)) = _
    cases chars fuel rest <;> rfl

theorem chars_eq (text : Bytes) {fuel : Nat} (hfuel : text.length < fuel) (rest : Bytes) :
    chars fuel (text.flatMap escape ++ quote :: rest) = some (text, rest) := by
  induction text generalizing fuel with
  | nil =>
    cases fuel with
    | zero => omega
    | succ fuel => rfl
  | cons b text ih =>
    cases fuel with
    | zero => omega
    | succ fuel =>
      have hlength : text.length < fuel := by simpa using hfuel
      rw [List.flatMap_cons, List.append_assoc, chars_escape, ih hlength]
      rfl

theorem length_le_escape (b : UInt8) : 1 ≤ (escape b).length := by
  rw [escape]
  split
  · exact Nat.le_add_left ..
  · exact le_rfl

theorem length_le_flatMap_escape (text : Bytes) : text.length ≤ (text.flatMap escape).length := by
  induction text with
  | nil => exact le_rfl
  | cons b text ih =>
    have hb := length_le_escape b
    rw [List.flatMap_cons, List.length_append, List.length_cons]
    omega

/-- A string reads back. -/
theorem reads_string {text : Bytes} (hutf8 : text.isUtf8 = true) :
    Reader.Reads string (encodeString text) text := by
  intro rest
  have hlength := length_le_flatMap_escape text
  have hfuel : text.length < (text.flatMap escape ++ quote :: rest).length := by
    rw [List.length_append, List.length_cons]
    omega
  have hchars := chars_eq text hfuel rest
  have hinput : encodeString text ++ rest = quote :: (text.flatMap escape ++ quote :: rest) := by
    rw [encodeString, List.cons_append, List.append_assoc, List.singleton_append]
  rw [hinput]
  show ((chars (text.flatMap escape ++ quote :: rest).length
    (text.flatMap escape ++ quote :: rest)).bind fun x =>
      (if Bytes.isUtf8 x.1 then pure x.1 else failure : Reader Bytes) x.2) = _
  rw [hchars]
  show (if Bytes.isUtf8 text then pure text else failure : Reader Bytes) rest = _
  rw [if_pos hutf8]
  rfl

/-! ## Fixed text, numerals and optional strings -/

/-- The text `expected`. -/
def literal (expected : Bytes) : Reader Unit := fun input =>
  if expected <+: input then some ((), input.drop expected.length) else none

theorem reads_literal (expected : Bytes) : Reader.Reads (literal expected) expected () := by
  intro rest
  rw [literal, if_pos (List.prefix_append ..), List.drop_left]

/-- A numeral of an unsigned 64-bit number with the comma after it. -/
def encodeNumber (n : UInt64) : Bytes := Bytes.decimal n.toNat ++ [comma]

def number : Reader UInt64 := fun input =>
  match Bytes.splitOnce comma input with
  | some (digits, rest) => some (UInt64.ofNat (Bytes.ofDecimal digits), rest)
  | none => none

theorem reads_number (n : UInt64) : Reader.Reads number (encodeNumber n) n := by
  intro rest
  have hcomma : comma ∉ Bytes.decimal n.toNat := by
    intro hmem
    exact absurd (Bytes.isDigit_of_mem_decimal hmem) (by decide)
  rw [encodeNumber, List.append_assoc, List.singleton_append, number,
    Bytes.splitOnce_append hcomma]
  simp only [Bytes.ofDecimal_decimal, UInt64.ofNat_toNat]

/-- An optional value: `null`, or what `encode` writes. -/
def encodeOption {α : Type} (null : Bytes) (encode : α → Bytes) : Option α → Bytes
  | none => null
  | some a => encode a

def option {α : Type} (null : Bytes) (r : Reader α) : Reader (Option α) := fun input =>
  if null <+: input then some (none, input.drop null.length) else (some <$> r) input

/-- An optional value reads back if no value starts like the missing one. -/
theorem reads_option {α : Type} {null : Bytes} {r : Reader α} {encode : α → Bytes} {a : Option α}
    (hr : ∀ b ∈ a, Reader.Reads r (encode b) b)
    (hnull : ∀ b ∈ a, ∀ rest, ¬ null <+: encode b ++ rest) :
    Reader.Reads (option null r) (encodeOption null encode a) a := by
  intro rest
  cases a with
  | none => rw [option, encodeOption, if_pos (List.prefix_append ..), List.drop_left]
  | some b =>
    rw [option, encodeOption, if_neg (hnull b rfl rest)]
    exact (hr b rfl).map rest

/-! ## Arrays -/

/-- The items after the first one, up to the closing bracket. -/
def encodeTail {α : Type} (encode : α → Bytes) : List α → Bytes
  | [] => [closeBracket]
  | a :: items => comma :: (encode a ++ encodeTail encode items)

def encodeArray {α : Type} (encode : α → Bytes) : List α → Bytes
  | [] => [openBracket, closeBracket]
  | a :: items => openBracket :: (encode a ++ encodeTail encode items)

def tail {α : Type} (r : Reader α) : Nat → Reader (List α)
  | 0 => failure
  | fuel + 1 => do
    let b ← Reader.byte
    if b = closeBracket then pure []
    else if b = comma then do
      let a ← r
      let items ← tail r fuel
      return a :: items
    else failure

def array {α : Type} (r : Reader α) : Reader (List α) := do
  let b ← Reader.byte
  if b = openBracket then fun input =>
    match input with
    | [] => none
    | c :: rest =>
      if c = closeBracket then some ([], rest)
      else (do
        let a ← r
        let items ← tail r input.length
        return a :: items : Reader (List α)) input
  else failure

section Array

variable {α : Type} {r : Reader α} {encode : α → Bytes}

theorem length_le_encodeTail (encode : α → Bytes) (items : List α) :
    items.length < (encodeTail encode items).length := by
  induction items with
  | nil => exact Nat.one_pos
  | cons a items ih =>
    rw [encodeTail, List.length_cons, List.length_cons, List.length_append]
    omega

theorem tail_eq {items : List α} (h : ∀ a ∈ items, Reader.Reads r (encode a) a) {fuel : Nat}
    (hfuel : items.length < fuel) (rest : Bytes) :
    tail r fuel (encodeTail encode items ++ rest) = some (items, rest) := by
  induction items generalizing fuel with
  | nil =>
    cases fuel with
    | zero => omega
    | succ fuel => rfl
  | cons a items ih =>
    cases fuel with
    | zero => omega
    | succ fuel =>
      have hlength : items.length < fuel := by simpa using hfuel
      have hrest := ih (fun b hb => h b (List.mem_cons_of_mem a hb)) hlength
      rw [encodeTail, List.cons_append, List.append_assoc]
      show ((r (encode a ++ (encodeTail encode items ++ rest))).bind fun x =>
        (tail r fuel x.2).bind fun y => some (x.1 :: y.1, y.2)) = _
      rw [h a (List.mem_cons_self ..)]
      show ((tail r fuel (encodeTail encode items ++ rest)).bind fun y =>
        some (a :: y.1, y.2)) = _
      rw [hrest]
      rfl

/-- An array reads back if its items do and none starts with a closing bracket. -/
theorem reads_array {items : List α} (h : ∀ a ∈ items, Reader.Reads r (encode a) a)
    (hstart : ∀ a ∈ items, ∃ b bytes, encode a = b :: bytes ∧ b ≠ closeBracket) :
    Reader.Reads (array r) (encodeArray encode items) items := by
  intro rest
  cases items with
  | nil => rfl
  | cons a items =>
    obtain ⟨b, bytes, hencode, hb⟩ := hstart a (List.mem_cons_self ..)
    have hrest : ∀ c ∈ items, Reader.Reads r (encode c) c :=
      fun c hc => h c (List.mem_cons_of_mem a hc)
    have hread := h a (List.mem_cons_self ..) (encodeTail encode items ++ rest)
    have hcount := length_le_encodeTail encode items
    have hfuel : items.length
        < (b :: (bytes ++ (encodeTail encode items ++ rest))).length := by
      simp only [List.length_cons, List.length_append]
      omega
    rw [hencode, List.cons_append] at hread
    rw [encodeArray, hencode, List.cons_append, List.cons_append, List.cons_append,
      List.append_assoc]
    show (if b = closeBracket then some ([], bytes ++ (encodeTail encode items ++ rest))
      else ((r (b :: (bytes ++ (encodeTail encode items ++ rest)))).bind fun x =>
        (tail r (b :: (bytes ++ (encodeTail encode items ++ rest))).length x.2).bind fun y =>
          some (x.1 :: y.1, y.2))) = _
    rw [if_neg hb, hread]
    show ((tail r _ (encodeTail encode items ++ rest)).bind fun y => some (a :: y.1, y.2)) = _
    rw [tail_eq hrest hfuel]
    rfl

end Array

end Json
