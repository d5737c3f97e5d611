import Radiata.Spec.LabelCorrect
import Radiata.Spec.SelectorCanonical

/-!
# Selecting one label

A selector that asks for one value of one key is written from the texts of both. It asks for that
value exactly where the key has no character that would end it, which only its host can have, and
the value no white space but the kinds that are escaped: the parser stops at all others.

## Key results

- `selects_of_escapable`: the selector that asks for an escapable value
- `bareKey_of_selects` / `escapable_of_selects`: no other label is selected exactly
- `label_selected_iff`
-/

namespace Radiata

open Characters

/-! ## The length of an escaped value -/

theorem length_escapeChar_le (c : Char) :
    (utf8 (escapeChar c)).length ≤ 1 + c.utf8Size := by
  unfold escapeChar
  split
  · decide
  · decide
  · decide
  · decide
  · split
    · simp only [length_utf8_cons, utf8_nil, List.length_nil]
      have : Char.utf8Size '\\' = 1 := by decide
      omega
    · simp only [length_utf8_cons, utf8_nil, List.length_nil]
      omega

theorem length_escapeValue_le (value : Characters) :
    (utf8 (escapeValue value)).length ≤ 2 * value.utf8.length := by
  induction value with
  | nil => exact Nat.zero_le _
  | cons c value ih =>
    have hchar := length_escapeChar_le c
    have hpos := c.utf8Size_pos
    show (utf8 (escapeChar c ++ escapeValue value)).length ≤ _
    rw [utf8_append, List.length_append, length_utf8_cons]
    omega

variable [DnsName]

/-! ## Selectors do not tell everything apart -/

namespace Predicate

def key : Predicate → QualifiedTag
  | exists_ key | notExists key | equals key _ | notEquals key _ | in_ key _ | notIn key _ => key

def values : Predicate → List Characters
  | exists_ _ | notExists _ => []
  | equals _ value | notEquals _ value => [value]
  | in_ _ values | notIn _ values => values

variable {lookup lookup' : QualifiedTag → Option Bytes}

/-- A predicate depends on what is found under its key, ... -/
theorem holds_congr {predicate : Predicate} (h : lookup predicate.key = lookup' predicate.key) :
    predicate.Holds lookup ↔ predicate.Holds lookup' := by
  cases predicate <;> simp only [key] at h <;> simp only [Holds, h]

/-- ... and does not tell apart what none of its values is. -/
theorem holds_congr_of_values {predicate : Predicate} {found found' : Bytes}
    (h : lookup predicate.key = some found) (h' : lookup' predicate.key = some found')
    (hvalues : ∀ value ∈ predicate.values, value.utf8 ≠ found ∧ value.utf8 ≠ found') :
    predicate.Holds lookup ↔ predicate.Holds lookup' := by
  cases predicate <;> simp only [key] at h h' <;> simp only [values] at hvalues <;>
    simp only [Holds, h, h', Option.some.injEq] <;> grind

end Predicate

variable {text : Characters}

/-- Written keys are bare and written values escapable. -/
theorem WrittenPredicate.bare {predicate : Predicate} (h : WrittenPredicate text predicate) :
    BareKey predicate.key ∧ ∀ value ∈ predicate.values, Escapable value := by
  have hlist : ∀ {text : Characters} {values : List Characters}, WrittenList text values →
      ∀ value ∈ values, Escapable value := by
    intro text values hlist
    induction hlist with
    | last _ hvalue _ => simpa using hvalue.spells.escapable
    | cons _ hvalue _ _ ih => simpa using ⟨hvalue.spells.escapable, ih⟩
  cases h with
  | exists_ hkey => exact ⟨hkey.bareKey, nofun⟩
  | notExists hkey => exact ⟨hkey.bareKey, nofun⟩
  | equals hkey _ _ hvalue => exact ⟨hkey.bareKey, by simpa [Predicate.values] using hvalue.spells.escapable⟩
  | notEquals hkey _ _ hvalue =>
    exact ⟨hkey.bareKey, by simpa [Predicate.values] using hvalue.spells.escapable⟩
  | in_ hkey _ _ _ hvalues _ => exact ⟨hkey.bareKey, hlist hvalues⟩
  | notIn hkey _ _ _ hvalues _ => exact ⟨hkey.bareKey, hlist hvalues⟩

theorem Written.bare {predicates : List Predicate} (h : Written text predicates) :
    ∀ predicate ∈ predicates,
      BareKey predicate.key ∧ ∀ value ∈ predicate.values, Escapable value := by
  induction h with
  | nil => exact nofun
  | cons _ hpredicate _ _ ih =>
    intro predicate hmem
    rcases List.mem_cons.mp hmem with rfl | hmem
    · exact hpredicate.bare
    · exact ih predicate hmem

/-! ## Label sets -/

namespace LabelSet

/-- The set with one label. -/
def single (key : LabelKey) (value : LabelValue) : LabelSet where
  entries := SortedMap.empty.insert key value
  bounded := by simp [SortedMap.insert, SortedMap.insertList, SortedMap.empty, labelSetMaxEntries]

theorem get_single (key other : LabelKey) (value : LabelValue) :
    (single key value).entries.get other = if other = key then some value else none := by
  rw [single, SortedMap.get_insert, SortedMap.get_empty]
  by_cases h : other = key
  · rw [if_pos h, if_pos h]
  · rw [if_neg h, if_neg h]

end LabelSet

omit [DnsName] in
theorem LabelValue.ext_asStr {a b : LabelValue} (h : a.asStr = b.asStr) : a = b := by
  cases a; cases b; simp_all

/-- The lookup finds what the set maps the key to. -/
theorem lookupLabel_key (labels : LabelSet) (key : LabelKey) :
    Selector.lookupLabel labels key.tag = (labels.entries.get key).map LabelValue.asStr := by
  rw [Selector.lookupLabel, dif_pos key.inCategory]

variable {value : LabelValue}

theorem lookupLabel_of_ne {key : LabelKey} {tag : QualifiedTag} (h : tag ≠ key.tag) :
    Selector.lookupLabel (.single key value) tag = none := by
  unfold Selector.lookupLabel
  split
  · rw [LabelSet.get_single, if_neg fun heq => h (congrArg CategoryTag.tag heq)]
    rfl
  · rfl

/-! ## One label -/

/-- The text that asks for one value of one key. -/
def equalityText (key : LabelKey) (value : Characters) : Characters :=
  keyText key.tag ++ '=' :: escapeValue value

/-- A selector that matches the label sets that map `key` to `value`, and no others. -/
def Selects (selector : Selector) (key : LabelKey) (value : LabelValue) : Prop :=
  ∀ labels, selector.matches labels = true ↔ labels.entries.get key = some value

/-- A key its host does not cut short, and a value the parser reads to its end. -/
theorem selects_of_escapable (hhosts : FoldedHosts) {key : LabelKey} {value : Characters}
    {stored : LabelValue} (hvalue : LabelValue.parse value.utf8 = .ok stored)
    (hkey : BareKey key.tag) (hescapable : Escapable value) :
    ∃ selector, Selector.parse (equalityText key value) = .ok selector ∧
      Selects selector key stored := by
  have hstored : stored.asStr = value.utf8 := asStr_of_parseLabelText hvalue
  have hwrittenKey := writtenKey_keyText hhosts (.inl key.inCategory) hkey
  have hwrittenValue : WrittenValue (escapeValue value) value := by
    refine ⟨spells_escapeValue hescapable, ?_, hstored ▸ stored.bounded⟩
    rintro rfl
    exact stored.nonempty hstored
  have hpredicate := @WrittenPredicate.equals _ _ _ [] [] _ _ hwrittenKey nofun nofun hwrittenValue
  have hwritten := hpredicate.written
  have hlen : (equalityText key value).utf8.length ≤ selectorInputMaxBytes := by
    have hkeyLen := key.tag.length_asStr_le
    have hvalueLen := length_escapeValue_le value
    have hbound : value.utf8.length ≤ 256 := hstored ▸ stored.bounded
    have heq : Char.utf8Size '=' = 1 := by decide
    rw [equalityText, utf8_append, List.length_append, length_utf8_cons, keyText,
      utf8_ofAscii key.tag.ascii, selectorInputMaxBytes]
    omega
  have hcanonical : Selector.canonicalText [.equals key.tag value] = equalityText key value := by
    rw [Selector.canonicalText, List.map_singleton,
      List.sortDedup_of_pairwise (List.pairwise_singleton ..), List.intercalate_singleton]
    rfl
  obtain ⟨selector, hparse⟩ := exists_parse_of_written hhosts ⟨by simp [equalityText], hlen⟩
    hwritten (by simp) (by simp [selectorMaxPredicates]) (hcanonical ▸ hlen)
  refine ⟨selector, hparse, fun labels => ?_⟩
  rw [Selector.«matches», (canonicalSelector_of_parse hhosts hparse).meaning _ hwritten]
  simp only [List.mem_singleton, forall_eq, Predicate.Holds, lookupLabel_key, ← hstored,
    Option.map_eq_some_iff]
  constructor
  · intro h
    obtain ⟨found, hfound, heq⟩ := h
    rw [hfound, LabelValue.ext_asStr heq]
  · intro h
    exact ⟨stored, h, rfl⟩

variable {selector : Selector}

/-- A selector that matches two label sets alike. -/
theorem not_selects {key : LabelKey} (labels : LabelSet)
    (halike : selector.matches (.single key value) = selector.matches labels)
    (hother : labels.entries.get key ≠ some value) : ¬ Selects selector key value := by
  intro hselects
  have hsingle := (hselects (.single key value)).mpr (by rw [LabelSet.get_single, if_pos rfl])
  rw [halike] at hsingle
  exact hother ((hselects labels).mp hsingle)

/-- Nothing a selector asks for is a key that its host cuts short. -/
theorem bareKey_of_selects (hhosts : FoldedHosts) {key : LabelKey}
    (hparse : Selector.parse text = .ok selector) (h : Selects selector key value) :
    BareKey key.tag := by
  by_contra hbare
  have hselector := canonicalSelector_of_parse hhosts hparse
  obtain ⟨predicates, hwritten⟩ := hselector.written
  refine not_selects .empty ?_ (by simp [LabelSet.empty]) h
  rw [Bool.eq_iff_iff, Selector.«matches», Selector.«matches», hselector.meaning _ hwritten,
    hselector.meaning _ hwritten]
  refine forall₂_congr fun predicate hmem => Predicate.holds_congr ?_
  have hne : predicate.key ≠ key.tag := by
    intro heq
    exact hbare (heq ▸ (hwritten.bare predicate hmem).1)
  rw [lookupLabel_of_ne hne]
  unfold Selector.lookupLabel
  split <;> rfl

omit [DnsName] in
/-- Two texts of one character each that no escape spells. -/
theorem exists_other_value (value : LabelValue) :
    ∃ (other : LabelValue) (text : Characters), other ≠ value ∧ other.asStr = utf8 text ∧
      ¬ Escapable text := by
  have hwhite : ∀ c ∈ [Char.ofNat 0xA0, Char.ofNat 0x0B], isWhitespace c = true ∧
      ¬ (c = ' ' ∨ c = '\t' ∨ c = '\n' ∨ c = '\r') := List.all_iff_forall_prop.mp (by decide)
  have hunescapable : ∀ c ∈ [Char.ofNat 0xA0, Char.ofNat 0x0B], ¬ Escapable [c] := by
    intro c hc hescapable
    exact (hwhite c hc).2 (hescapable c (List.mem_cons_self ..) (hwhite c hc).1)
  let first : LabelValue := ⟨utf8 [Char.ofNat 0xA0], by decide, by decide, by decide⟩
  let second : LabelValue := ⟨utf8 [Char.ofNat 0x0B], by decide, by decide, by decide⟩
  by_cases h : value = first
  · refine ⟨second, _, ?_, rfl, hunescapable _ (by simp)⟩
    rw [h]
    decide
  · exact ⟨first, _, fun heq => h heq.symm, rfl, hunescapable _ (by simp)⟩

/-- Nothing a selector asks for is a value that no escape spells. -/
theorem escapable_of_selects (hhosts : FoldedHosts) {value : Characters} {key : LabelKey}
    {stored : LabelValue} (hvalue : LabelValue.parse value.utf8 = .ok stored)
    (hparse : Selector.parse text = .ok selector) (h : Selects selector key stored) :
    Escapable value := by
  by_contra hescapable
  have hstored : stored.asStr = value.utf8 := asStr_of_parseLabelText hvalue
  have hselector := canonicalSelector_of_parse hhosts hparse
  obtain ⟨predicates, hwritten⟩ := hselector.written
  obtain ⟨other, otherText, hne, hother, hotherText⟩ := exists_other_value stored
  refine not_selects (.single key other) ?_
    (by rw [LabelSet.get_single, if_pos rfl]; simpa using hne) h
  rw [Bool.eq_iff_iff, Selector.«matches», Selector.«matches», hselector.meaning _ hwritten,
    hselector.meaning _ hwritten]
  refine forall₂_congr fun predicate hmem => ?_
  by_cases hkey : predicate.key = key.tag
  · -- No value of the selector is either of the two.
    have hvalues := (hwritten.bare predicate hmem).2
    have hfound : ∀ single : LabelValue, Selector.lookupLabel (.single key single) predicate.key =
        some single.asStr := by
      intro single
      rw [hkey, lookupLabel_key, LabelSet.get_single, if_pos rfl, Option.map_some]
    refine Predicate.holds_congr_of_values (hfound stored) (hfound other) ?_
    rw [hstored, hother]
    intro written hwrittenValue
    have hspelled := hvalues written hwrittenValue
    constructor
    · intro heq
      exact hescapable (utf8_inj heq ▸ hspelled)
    · intro heq
      exact hotherText (utf8_inj heq ▸ hspelled)
  · exact Predicate.holds_congr (by rw [lookupLabel_of_ne hkey, lookupLabel_of_ne hkey])

/-- The selector written from a key and a value parses and asks for exactly that label where the
    key has no character that would end it and the value no white space beside spaces, tabs and
    line ends. -/
theorem label_selected_iff (hhosts : FoldedHosts) (key : LabelKey) (value : Characters)
    (stored : LabelValue) (hvalue : LabelValue.parse value.utf8 = .ok stored) :
    (∃ selector, Selector.parse (equalityText key value) = .ok selector ∧
      Selects selector key stored) ↔ BareKey key.tag ∧ Escapable value := by
  constructor
  · intro h
    obtain ⟨selector, hparse, hselects⟩ := h
    exact ⟨bareKey_of_selects hhosts hparse hselects,
      escapable_of_selects hhosts hvalue hparse hselects⟩
  · intro h
    exact selects_of_escapable hhosts hvalue h.1 h.2

/-- The key of the sample texts. -/
def sampleLabelKey : @LabelKey .hostNames :=
  let _ := DnsName.hostNames
  ⟨sampleSelectorKey.2, by decide⟩

omit [DnsName] in
/-- A value with a space is selected. -/
theorem spacedValue_selected :
    letI := DnsName.hostNames
    ∃ selector, Selector.parse (equalityText sampleLabelKey ['a', ' ', 'b']) = .ok selector ∧
      Selects selector sampleLabelKey ⟨Bytes.utf8 "a b", by decide, by decide, by decide⟩ := by
  let _ := DnsName.hostNames
  have hbare : ∀ c ∈ keyText sampleLabelKey.tag, isKeyEnd c = false :=
    List.all_iff_forall_prop.mp (by decide)
  have hescapable : ∀ c ∈ ['a', ' ', 'b'], isWhitespace c = true →
      c = ' ' ∨ c = '\t' ∨ c = '\n' ∨ c = '\r' := List.all_iff_forall_prop.mp (by decide)
  exact (label_selected_iff foldedHosts_hostNames sampleLabelKey ['a', ' ', 'b'] _
    (by decide)).mpr ⟨hbare, hescapable⟩

omit [DnsName] in
/-- A value that starts with a no-break space is a label value, and is not selected. -/
theorem noBreakSpace_not_selected :
    letI := DnsName.hostNames
    ∃ stored : LabelValue, LabelValue.parse (utf8 [Char.ofNat 0xA0, 'b']) = .ok stored ∧
      (equalityText sampleLabelKey [Char.ofNat 0xA0, 'b']).utf8.length ≤ selectorInputMaxBytes ∧
      ¬ ∃ selector, Selector.parse (equalityText sampleLabelKey [Char.ofNat 0xA0, 'b']) =
        .ok selector ∧ Selects selector sampleLabelKey stored := by
  let _ := DnsName.hostNames
  have hstored : LabelValue.parse (utf8 [Char.ofNat 0xA0, 'b']) =
      .ok ⟨utf8 [Char.ofNat 0xA0, 'b'], by decide, by decide, by decide⟩ := by decide +kernel
  refine ⟨_, hstored, by decide, fun hselected => ?_⟩
  obtain ⟨selector, hparse, hselects⟩ := hselected
  have hescapable := escapable_of_selects foldedHosts_hostNames hstored hparse hselects
  have hwhite : isWhitespace (Char.ofNat 0xA0) = true ∧ ¬ (Char.ofNat 0xA0 = ' ' ∨
      Char.ofNat 0xA0 = '\t' ∨ Char.ofNat 0xA0 = '\n' ∨ Char.ofNat 0xA0 = '\r') := by decide +kernel
  exact hwhite.2 (hescapable _ (List.mem_cons_self ..) hwhite.1)

end Radiata
