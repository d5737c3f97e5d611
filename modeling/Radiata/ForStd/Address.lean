import Mathlib.Data.List.TakeWhile
import Radiata.ForStd.Net

/-!
# Address values

The values behind the address literals of Rust's standard library, and how it prints them. An
IPv4 address has one spelling only: the reader refuses leading zeros. An IPv6 address has
many; `Display` prints groups without leading zeros, the first longest run of zero groups as
`::`, and the last two groups of a mapped IPv4 address in dotted form.

## Key results

- `Bytes.decimal_ofDecimal`: a numeral without leading zeros is the numeral of its value
- `Net.text_of_parseIpv4`: an accepted IPv4 text is the printed form of its address
- `Net.isIpv4_eq`, `Net.isIpv6_eq`: the texts that are accepted are those that have a value
-/

namespace Bytes

/-- Digits after a nonzero number continue its numeral. -/
private theorem toDigits_append_digits {digits : List Char}
    (hdigits : ∀ c ∈ digits, 48 ≤ c.toNat ∧ c.toNat ≤ 57) {n : Nat} (hn : 0 < n) :
    Nat.toDigits 10 n ++ digits = Nat.toDigits 10 (Nat.ofDigitChars 10 digits n) := by
  induction digits generalizing n with
  | nil => simp
  | cons c digits ih =>
    have hc := hdigits c (List.mem_cons_self ..)
    have hone : Nat.toDigits 10 (c.toNat - 48) = [c] := by
      rw [Nat.toDigits_of_lt_base (by omega)]
      congr 1
      apply Char.toNat_inj.mp
      rw [Nat.toNat_digitChar_of_lt_ten (by omega)]
      omega
    have hnext := Nat.toDigits_append_toDigits (b := 10) (by omega) hn (d := c.toNat - 48) (by omega)
    rw [hone] at hnext
    rw [Nat.ofDigitChars_cons, show '0'.toNat = 48 from rfl,
      ← ih (fun d hd => hdigits d (List.mem_cons_of_mem _ hd)) (by omega), ← hnext,
      List.append_assoc, List.singleton_append]

/-- A numeral without leading zeros is the numeral of its value. -/
theorem decimal_ofDecimal {digits : Bytes} (hne : digits ≠ [])
    (hdigits : ∀ b ∈ digits, isDigit b = true)
    (hzero : ¬(1 < digits.length ∧ digits.head? = some 0x30)) :
    decimal (ofDecimal digits) = digits := by
  have hrange : ∀ b ∈ digits, 48 ≤ b.toNat ∧ b.toNat ≤ 57 := by
    intro b hb
    have hdigit := hdigits b hb
    simpa [isDigit, UInt8.le_iff_toNat_le] using hdigit
  have hascii : ∀ n < 128, (Char.ofNat n).toNat = n := by decide
  have hchar : ∀ b ∈ digits, (Char.ofNat b.toNat).toNat = b.toNat := by
    intro b hb
    have := hrange b hb
    exact hascii b.toNat (by omega)
  have hchars : ∀ c ∈ digits.map (fun b => Char.ofNat b.toNat), 48 ≤ c.toNat ∧ c.toNat ≤ 57 := by
    intro c hc
    obtain ⟨b, hb, rfl⟩ := List.mem_map.mp hc
    rw [hchar b hb]
    exact hrange b hb
  -- The characters are the numeral of the value, from their first digit on.
  have htext : Nat.toDigits 10 (ofDecimal digits) = digits.map (fun b => Char.ofNat b.toNat) := by
    obtain ⟨b, rest, rfl⟩ := List.exists_cons_of_ne_nil hne
    have hb := hrange b (List.mem_cons_self ..)
    have hbchar := hchar b (List.mem_cons_self ..)
    have hone : Nat.toDigits 10 (b.toNat - 48) = [Char.ofNat b.toNat] := by
      rw [Nat.toDigits_of_lt_base (by omega)]
      congr 1
      apply Char.toNat_inj.mp
      rw [Nat.toNat_digitChar_of_lt_ten (by omega), hbchar]
      omega
    unfold ofDecimal
    rw [List.map_cons, Nat.ofDigitChars_cons, hbchar, show '0'.toNat = 48 from rfl, Nat.mul_zero,
      Nat.zero_add]
    by_cases hrest : rest = []
    · rw [hrest]
      exact hone
    · have hlength := List.length_pos_of_ne_nil hrest
      have hfirst : b ≠ 0x30 := fun h => hzero ⟨by rw [List.length_cons]; omega, by simp [h]⟩
      have hpos : 0 < b.toNat - 48 := by
        have : b.toNat ≠ 48 := fun h => hfirst (UInt8.toNat_inj.mp h)
        omega
      rw [← toDigits_append_digits (fun c hc => hchars c (List.mem_cons_of_mem _ hc)) hpos, hone]
      rfl
  rw [decimal, htext, List.map_map]
  conv => rhs; rw [← List.map_id digits]
  apply List.map_congr_left
  intro b hb
  show UInt8.ofNat (Char.ofNat b.toNat).toNat = b
  rw [hchar b hb, UInt8.ofNat_toNat]

end Bytes

namespace Net

open Bytes (decimal ofDecimal isDigit)

/-- `Ipv4Addr` -/
structure Ipv4Addr where
  octets : UInt8 × UInt8 × UInt8 × UInt8
  deriving DecidableEq

/-- `Ipv6Addr` -/
structure Ipv6Addr where
  segments : List UInt16
  eight : segments.length = 8
  deriving DecidableEq

/-! ## Reading -/

/-- A decimal octet. -/
def readOctetValue : Reader UInt8 := fun input =>
  let digits := input.takeWhile isDigit
  if digits = [] ∨ 3 < digits.length ∨ 255 < ofDecimal digits ∨
      (1 < digits.length ∧ digits.head? = some 0x30) then none
  else some (UInt8.ofNat (ofDecimal digits), input.dropWhile isDigit)

/-- The number that hexadecimal digits denote. -/
def ofHex (digits : Bytes) : Nat :=
  digits.foldl (fun n b => 16 * n + (hexValue b).getD 0) 0

/-- A group of hexadecimal digits. -/
def readGroupValue : Reader UInt16 := fun input =>
  let digits := input.takeWhile fun b => (hexValue b).isSome
  if digits = [] ∨ 4 < digits.length then none
  else some (UInt16.ofNat (ofHex digits), input.dropWhile fun b => (hexValue b).isSome)

/-- A separator before every item but the first. -/
def readSeparatorValue {α : Type} (separator : UInt8) (index : Nat) (inner : Reader α) :
    Reader α := do
  if index ≠ 0 then readChar separator
  inner

def readIpv4Value : Reader Ipv4Addr := do
  let first ← readSeparatorValue dot 0 readOctetValue
  let second ← readSeparatorValue dot 1 readOctetValue
  let third ← readSeparatorValue dot 2 readOctetValue
  let fourth ← readSeparatorValue dot 3 readOctetValue
  return ⟨first, second, third, fourth⟩

/-- The two groups of an embedded IPv4 address. -/
def Ipv4Addr.groups (address : Ipv4Addr) : List UInt16 :=
  let (first, second, third, fourth) := address.octets
  [UInt16.ofNat (256 * first.toNat + second.toNat), UInt16.ofNat (256 * third.toNat + fourth.toNat)]

/-- The groups from `index` to `limit`, and whether an IPv4 address ended them. -/
def readGroupValues (limit : Nat) : Nat → Nat → Bytes → (List UInt16 × Bool) × Bytes
  | 0, _, input => (([], false), input)
  | left + 1, index, input =>
    match if index + 1 < limit then readSeparatorValue colon index readIpv4Value input else none with
    | some (address, rest) => ((address.groups, true), rest)
    | none =>
      match readSeparatorValue colon index readGroupValue input with
      | some (group, rest) =>
        let groups := readGroupValues limit left (index + 1) rest
        ((group :: groups.1.1, groups.1.2), groups.2)
      | none => (([], false), input)

/-- The segments of an IPv6 address: the groups before and after the run of zeros. -/
def readIpv6Value : Reader (List UInt16) := fun input =>
  let head := readGroupValues 8 8 0 input
  if head.1.1.length = 8 then some (head.1.1, head.2)
  else if head.1.2 then none
  else
    match (do readChar colon; readChar colon : Reader Unit) head.2 with
    | none => none
    | some ((), rest) =>
      let tail := readGroupValues (7 - head.1.1.length) (7 - head.1.1.length) 0 rest
      some (head.1.1 ++ (List.replicate (8 - head.1.1.length - tail.1.1.length) 0 ++ tail.1.1),
        tail.2)

/-- `str::parse::<Ipv4Addr>` -/
def parseIpv4 (text : Bytes) : Option Ipv4Addr :=
  if text.length ≤ 15 then
    match readIpv4Value text with
    | some (address, []) => some address
    | _ => none
  else none

/-- `str::parse::<Ipv6Addr>` -/
def parseIpv6 (text : Bytes) : Option Ipv6Addr :=
  match readIpv6Value text with
  | some (segments, []) => if h : segments.length = 8 then some ⟨segments, h⟩ else none
  | _ => none

/-! ## Printing -/

/-- `Ipv4Addr::to_string` -/
def Ipv4Addr.text (address : Ipv4Addr) : Bytes :=
  let (first, second, third, fourth) := address.octets
  decimal first.toNat ++ dot :: (decimal second.toNat ++ dot :: (decimal third.toNat ++
    dot :: decimal fourth.toNat))

/-- A group in lower-case hexadecimal digits. -/
def groupText (group : UInt16) : Bytes :=
  (Nat.toDigits 16 group.toNat).map fun c => UInt8.ofNat c.toNat

/-- Groups with a colon between any two. -/
def groupsText (groups : List UInt16) : Bytes := [colon].intercalate (groups.map groupText)

/-- The start and the length of the first longest run of zeros; `current` is the run that ends
    before the groups. -/
def longestZeros : List UInt16 → Nat → Nat × Nat → Nat × Nat → Nat × Nat
  | [], _, _, longest => longest
  | group :: groups, index, current, longest =>
    if group = 0 then
      let current := (if current.2 = 0 then index else current.1, current.2 + 1)
      longestZeros groups (index + 1) current (if longest.2 < current.2 then current else longest)
    else longestZeros groups (index + 1) (0, 0) longest

/-- `to_ipv4_mapped` -/
def Ipv6Addr.toIpv4Mapped (address : Ipv6Addr) : Option Ipv4Addr :=
  match address.segments with
  | [0, 0, 0, 0, 0, 0xFFFF, high, low] =>
    some ⟨UInt8.ofNat (high.toNat / 256), UInt8.ofNat high.toNat, UInt8.ofNat (low.toNat / 256),
      UInt8.ofNat low.toNat⟩
  | _ => none

/-- `Ipv6Addr::to_string` -/
def Ipv6Addr.text (address : Ipv6Addr) : Bytes :=
  match address.toIpv4Mapped with
  | some mapped => Bytes.utf8 "::ffff:" ++ mapped.text
  | none =>
    let (start, length) := longestZeros address.segments 0 (0, 0) (0, 0)
    if 1 < length then
      groupsText (address.segments.take start) ++ colon :: colon ::
        groupsText (address.segments.drop (start + length))
    else groupsText address.segments

example : (parseIpv6 (Bytes.utf8 "2001:DB8:0:0:1:0:0:1")).map Ipv6Addr.text =
    some (Bytes.utf8 "2001:db8::1:0:0:1") := by decide +kernel

/-! ## The texts that are accepted -/

/-- `r` reads what `v` reads, without its value. -/
def Erases {α : Type} (r : Reader Unit) (v : Reader α) : Prop :=
  ∀ input, r input = (v input).map fun read => ((), read.2)

theorem Erases.bind {α β : Type} {r r' : Reader Unit} {v : Reader α} {f : α → Reader β}
    (h : Erases r v) (h' : ∀ a, Erases r' (f a)) : Erases (r >>= fun _ => r') (v >>= f) := by
  intro input
  show (r input >>= fun x => r' x.2) = (v input >>= fun x => f x.1 x.2).map _
  rw [h input]
  cases hv : v input with
  | none => rfl
  | some read => exact h' read.1 read.2

theorem Erases.pure {α β : Type} {r : Reader Unit} {v : Reader α} (h : Erases r v) (f : α → β) :
    Erases r (v >>= fun a => Pure.pure (f a)) := by
  intro input
  show r input = (v input >>= fun x => some (f x.1, x.2)).map _
  rw [h input]
  cases v input <;> rfl

theorem erases_readOctet : Erases readOctet readOctetValue := by
  intro input
  unfold readOctet readOctetValue
  dsimp only
  split <;> rfl

theorem erases_readGroup : Erases readGroup readGroupValue := by
  intro input
  unfold readGroup readGroupValue
  dsimp only
  split <;> rfl

theorem erases_readSeparator {α : Type} {inner : Reader Unit} {value : Reader α}
    (h : Erases inner value) (separator : UInt8) (index : Nat) :
    Erases (readSeparator separator index inner) (readSeparatorValue separator index value) := by
  unfold readSeparator readSeparatorValue
  split
  · intro input
    show (readChar separator input >>= fun x => inner x.2) =
      (readChar separator input >>= fun x => value x.2).map _
    cases readChar separator input with
    | none => rfl
    | some read => exact h read.2
  · exact h

theorem erases_readIpv4 : Erases readIpv4 readIpv4Value := by
  have hoctet := fun index => erases_readSeparator erases_readOctet dot index
  exact (hoctet 0).bind fun _ => (hoctet 1).bind fun _ => (hoctet 2).bind fun _ =>
    (hoctet 3).pure _

theorem isIpv4_eq (text : Bytes) : isIpv4 text = (parseIpv4 text).isSome := by
  unfold isIpv4 parseIpv4
  rw [erases_readIpv4]
  by_cases hlength : text.length ≤ 15
  · simp only [hlength, decide_true, Bool.true_and, if_true]
    rcases readIpv4Value text with _ | ⟨address, _ | ⟨b, rest⟩⟩ <;> simp
  · simp [hlength]

/-- Groups are counted where their values are read. -/
theorem readGroups_eq (limit left index : Nat) (input : Bytes) :
    readGroups limit left index input =
      ((index + (readGroupValues limit left index input).1.1.length,
        (readGroupValues limit left index input).1.2),
        (readGroupValues limit left index input).2) := by
  induction left generalizing index input with
  | zero => rfl
  | succ left ih =>
    unfold readGroups readGroupValues
    rw [erases_readSeparator erases_readGroup colon index input,
      erases_readSeparator erases_readIpv4 colon index input]
    -- An embedded IPv4 address first.
    by_cases hroom : index + 1 < limit
    · simp only [hroom, if_true]
      cases readSeparatorValue colon index readIpv4Value input with
      | some read => rfl
      | none =>
        cases readSeparatorValue colon index readGroupValue input with
        | none => rfl
        | some read =>
          simp only [Option.map_none, Option.map_some, ih, List.length_cons]
          congr 2
          omega
    · simp only [hroom, if_false]
      cases readSeparatorValue colon index readGroupValue input with
      | none => rfl
      | some read =>
        simp only [Option.map_some, ih, List.length_cons]
        congr 2
        omega

/-- No more groups are read than there is room for. -/
theorem length_readGroupValues {limit left index : Nat} (h : limit = index + left) (input : Bytes) :
    (readGroupValues limit left index input).1.1.length ≤ left := by
  induction left generalizing index input with
  | zero => exact Nat.le_refl 0
  | succ left ih =>
    unfold readGroupValues
    split
    · rename_i address rest hread
      split at hread
      · rw [Ipv4Addr.groups]
        simp only [List.length_cons, List.length_nil]
        omega
      · cases hread
    · split
      · rename_i group rest _
        have hrest := @ih (index + 1) (by omega) rest
        simp only [List.length_cons]
        omega
      · exact Nat.zero_le _

theorem isIpv6_eq (text : Bytes) : isIpv6 text = (parseIpv6 text).isSome := by
  unfold isIpv6 parseIpv6 readIpv6 readIpv6Value
  simp only [readGroups_eq, Nat.zero_add]
  have hhead := @length_readGroupValues 8 8 0 rfl text
  generalize readGroupValues 8 8 0 text = head at *
  by_cases hfull : head.1.1.length = 8
  · simp only [hfull, if_true]
    rcases head.2 with _ | ⟨b, rest⟩ <;> simp [hfull]
  · simp only [hfull, if_false]
    by_cases hipv4 : head.1.2 = true
    · simp [hipv4]
    · simp only [hipv4, Bool.false_eq_true, if_false]
      cases (do readChar colon; readChar colon : Reader Unit) head.2 with
      | none => rfl
      | some read =>
        have htail := @length_readGroupValues (7 - head.1.1.length) (7 - head.1.1.length) 0
          (Nat.zero_add _).symm read.2
        dsimp only
        generalize readGroupValues (7 - head.1.1.length) (7 - head.1.1.length) 0 read.2 = tail at *
        -- The zeros fill up to eight segments.
        have height : (head.1.1 ++ (List.replicate (8 - head.1.1.length - tail.1.1.length) 0 ++
            tail.1.1)).length = 8 := by
          simp only [List.length_append, List.length_replicate]
          omega
        rcases tail.2 with _ | ⟨b, rest⟩
        · simp [height]
        · simp

/-! ## The spelling of an IPv4 address -/

variable {input rest : Bytes}

/-- What an octet was read from is its numeral. -/
theorem readOctetValue_eq {octet : UInt8} (h : readOctetValue input = some (octet, rest)) :
    input = decimal octet.toNat ++ rest := by
  unfold readOctetValue at h
  dsimp only at h
  split at h
  · cases h
  · rename_i hcheck
    simp only [not_or] at hcheck
    obtain ⟨hne, _, hsmall, hzero⟩ := hcheck
    simp only [Option.some.injEq, Prod.mk.injEq] at h
    obtain ⟨rfl, rfl⟩ := h
    have hdigits : ∀ b ∈ input.takeWhile isDigit, isDigit b = true := fun b hb =>
      List.mem_takeWhile_imp hb
    rw [UInt8.toNat_ofNat', Nat.mod_eq_of_lt (by omega), Bytes.decimal_ofDecimal hne hdigits hzero]
    exact List.takeWhile_append_dropWhile.symm

theorem readChar_eq_some {char : UInt8} (h : readChar char input = some ((), rest)) :
    input = char :: rest := by
  cases input with
  | nil => cases h
  | cons b input =>
    replace h : (if b = char then (pure () : Reader Unit) else failure) input = some ((), rest) := h
    by_cases hchar : b = char
    · rw [if_pos hchar] at h
      cases h
      rw [hchar]
    · rw [if_neg hchar] at h
      cases h

/-- The octets after the first one stand behind a dot. -/
theorem readDotted_eq {index : Nat} {octet : UInt8} (hindex : index ≠ 0)
    (h : readSeparatorValue dot index readOctetValue input = some (octet, rest)) :
    input = dot :: (decimal octet.toNat ++ rest) := by
  unfold readSeparatorValue at h
  rw [if_pos hindex] at h
  obtain ⟨⟨⟨⟩, after⟩, hdot, hoctet⟩ := Option.bind_eq_some_iff.mp h
  rw [readChar_eq_some hdot, ← readOctetValue_eq hoctet]

theorem readIpv4Value_eq {address : Ipv4Addr} (h : readIpv4Value input = some (address, rest)) :
    input = address.text ++ rest := by
  obtain ⟨⟨first, afterFirst⟩, hfirst, h⟩ := Option.bind_eq_some_iff.mp h
  obtain ⟨⟨second, afterSecond⟩, hsecond, h⟩ := Option.bind_eq_some_iff.mp h
  obtain ⟨⟨third, afterThird⟩, hthird, h⟩ := Option.bind_eq_some_iff.mp h
  obtain ⟨⟨fourth, afterFourth⟩, hfourth, h⟩ := Option.bind_eq_some_iff.mp h
  cases h
  rw [readOctetValue_eq hfirst, readDotted_eq (by decide) hsecond,
    readDotted_eq (by decide) hthird, readDotted_eq (by decide) hfourth]
  simp [Ipv4Addr.text]

/-- An accepted text is the printed form of its address. -/
theorem text_of_parseIpv4 {text : Bytes} {address : Ipv4Addr} (h : parseIpv4 text = some address) :
    text = address.text := by
  unfold parseIpv4 at h
  split at h
  · split at h
    · rename_i hread
      cases h
      rw [readIpv4Value_eq hread, List.append_nil]
    · cases h
  · cases h

/-! ## Letter case -/

/-- A change of characters that no address literal notices. -/
structure KeepsLiterals (f : UInt8 → UInt8) : Prop where
  hexValue : ∀ b, Net.hexValue (f b) = Net.hexValue b
  isDigit : ∀ b, Bytes.isDigit (f b) = Bytes.isDigit b
  digit : ∀ b, Bytes.isDigit b = true → f b = b
  colon : ∀ b, f b = Net.colon ↔ b = Net.colon
  dot : ∀ b, f b = Net.dot ↔ b = Net.dot

/-- The reader takes the same item from a changed input. -/
def Unchanged {α : Type} (f : UInt8 → UInt8) (r : Reader α) : Prop :=
  ∀ input, r (input.map f) = (r input).map fun read => (read.1, read.2.map f)

section KeepsLiterals

variable {f : UInt8 → UInt8} {α β : Type}

theorem Unchanged.pure (a : α) : Unchanged f (Pure.pure a : Reader α) := fun _ => rfl

theorem Unchanged.bind {r : Reader α} {g : α → Reader β} (hr : Unchanged f r)
    (hg : ∀ a, Unchanged f (g a)) : Unchanged f (r >>= g) := by
  intro input
  show (r (input.map f) >>= fun x => g x.1 x.2) = (r input >>= fun x => g x.1 x.2).map _
  rw [hr input]
  cases r input with
  | none => rfl
  | some read => exact hg read.1 read.2

theorem Unchanged.readChar {char : UInt8} (h : ∀ b, f b = char ↔ b = char) :
    Unchanged f (readChar char) := by
  intro input
  cases input with
  | nil => rfl
  | cons b input =>
    show (if f b = char then (Pure.pure () : Reader Unit) else failure) (input.map f) =
      ((if b = char then (Pure.pure () : Reader Unit) else failure) input).map _
    by_cases hchar : b = char
    · rw [if_pos hchar, if_pos ((h b).mpr hchar)]
      rfl
    · rw [if_neg hchar, if_neg (fun heq => hchar ((h b).mp heq))]
      rfl

theorem Unchanged.readSeparatorValue {separator : UInt8} (h : ∀ b, f b = separator ↔ b = separator)
    {inner : Reader α} (hinner : Unchanged f inner) (index : Nat) :
    Unchanged f (readSeparatorValue separator index inner) := by
  unfold Net.readSeparatorValue
  split
  · exact (readChar h).bind fun _ => hinner
  · exact hinner

variable (hf : KeepsLiterals f)

include hf

theorem unchanged_readOctetValue : Unchanged f readOctetValue := by
  intro input
  have hsame : Bytes.isDigit ∘ f = Bytes.isDigit := funext hf.isDigit
  have hdigits : (input.map f).takeWhile Bytes.isDigit = input.takeWhile Bytes.isDigit := by
    rw [List.takeWhile_map, hsame]
    conv => rhs; rw [← List.map_id (input.takeWhile Bytes.isDigit)]
    exact List.map_congr_left fun b hb => hf.digit b (List.mem_takeWhile_imp hb)
  unfold readOctetValue
  simp only [hdigits, List.dropWhile_map, hsame]
  split <;> rfl

theorem unchanged_readGroupValue : Unchanged f readGroupValue := by
  intro input
  have hsame : (fun b => (hexValue b).isSome) ∘ f = fun b => (hexValue b).isSome :=
    funext fun b => congrArg Option.isSome (hf.hexValue b)
  have hvalue : ∀ digits : Bytes, ofHex (digits.map f) = ofHex digits := by
    intro digits
    unfold ofHex
    rw [List.foldl_map]
    simp only [hf.hexValue]
  unfold readGroupValue
  simp only [List.takeWhile_map, List.dropWhile_map, hsame, List.map_eq_nil_iff, List.length_map,
    hvalue]
  split <;> rfl

theorem unchanged_readIpv4Value : Unchanged f readIpv4Value := by
  have hoctet := fun index =>
    Unchanged.readSeparatorValue hf.dot (unchanged_readOctetValue hf) index
  exact (hoctet 0).bind fun _ => (hoctet 1).bind fun _ => (hoctet 2).bind fun _ =>
    (hoctet 3).bind fun _ => Unchanged.pure _

theorem readGroupValues_map (limit left index : Nat) (input : Bytes) :
    readGroupValues limit left index (input.map f) =
      ((readGroupValues limit left index input).1,
        (readGroupValues limit left index input).2.map f) := by
  induction left generalizing index input with
  | zero => rfl
  | succ left ih =>
    have hipv4 := Unchanged.readSeparatorValue hf.colon (unchanged_readIpv4Value hf) index input
    have hgroup := Unchanged.readSeparatorValue hf.colon (unchanged_readGroupValue hf) index input
    unfold readGroupValues
    rw [hipv4, hgroup]
    by_cases hroom : index + 1 < limit
    · simp only [hroom, if_true]
      cases readSeparatorValue colon index readIpv4Value input with
      | some read => rfl
      | none =>
        cases readSeparatorValue colon index readGroupValue input with
        | none => rfl
        | some read => simp only [Option.map_none, Option.map_some, ih]
    · simp only [hroom, if_false]
      cases readSeparatorValue colon index readGroupValue input with
      | none => rfl
      | some read => simp only [Option.map_some, ih]

theorem parseIpv4_map (text : Bytes) : parseIpv4 (text.map f) = parseIpv4 text := by
  unfold parseIpv4
  rw [List.length_map, unchanged_readIpv4Value hf]
  rcases readIpv4Value text with _ | ⟨address, _ | ⟨b, rest⟩⟩ <;> rfl

theorem parseIpv6_map (text : Bytes) : parseIpv6 (text.map f) = parseIpv6 text := by
  have hcolons : Unchanged f (do readChar colon; readChar colon : Reader Unit) :=
    (Unchanged.readChar hf.colon).bind fun _ => Unchanged.readChar hf.colon
  have hread : Unchanged f readIpv6Value := by
    intro input
    unfold readIpv6Value
    simp only [readGroupValues_map hf]
    generalize readGroupValues 8 8 0 input = head
    by_cases hfull : head.1.1.length = 8
    · simp only [hfull, if_true]
      rfl
    · simp only [hfull, if_false]
      by_cases hipv4 : head.1.2 = true
      · simp only [hipv4, if_true]
        rfl
      · simp only [hipv4, Bool.false_eq_true, if_false, hcolons head.2]
        cases (do readChar colon; readChar colon : Reader Unit) head.2 with
        | none => rfl
        | some read => simp only [Option.map_some, readGroupValues_map hf]
  unfold parseIpv6
  rw [hread]
  rcases readIpv6Value text with _ | ⟨segments, _ | ⟨b, rest⟩⟩ <;> rfl

end KeepsLiterals

end Net
