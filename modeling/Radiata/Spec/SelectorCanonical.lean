import Mathlib.Data.Bool.AllAny
import Radiata.Spec.SelectorGrammar
import Radiata.Spec.TagCorrect

/-!
# Selectors are canonical

The predicates that were read are escaped, sorted and joined, and the joined text is read again.
Each canonical text is a predicate of the grammar, next to any other one as well, so the second
reading gives the sorted predicates and they say what the first ones said.

## Key results

- `Predicate.written_canonical`: the canonical text of a predicate reads back
- `written_canonicalText`: so do the canonical texts of a selector, joined
- `selector_parse_canonical`: parsing is canonical and keeps the meaning of a text
-/

namespace Radiata

open Characters

/-! ## Values -/

/-- A text whose white space can be escaped: spaces, tabs and line ends. -/
def Escapable (value : Characters) : Prop :=
  ∀ c ∈ value, isWhitespace c = true → c = ' ' ∨ c = '\t' ∨ c = '\n' ∨ c = '\r'

theorem isWhitespace_of_isEscapedLiterally {c : Char} (h : isEscapedLiterally c = true) :
    isWhitespace c = false := by
  simp only [isEscapedLiterally, Bool.or_eq_true, beq_iff_eq] at h
  rcases h with ((((rfl | rfl) | rfl) | rfl) | rfl) | rfl <;> decide

/-- Escapes spell nothing but escapable characters. -/
theorem escapable_of_unescape {letter c : Char} (h : unescape letter = some c) :
    isWhitespace c = true → c = ' ' ∨ c = '\t' ∨ c = '\n' ∨ c = '\r' := by
  intro hws
  unfold unescape at h
  split at h
  · cases h; simp
  · cases h; simp
  · cases h; simp
  · cases h; simp
  · split at h
    · rename_i hliteral
      cases h
      rw [isWhitespace_of_isEscapedLiterally hliteral] at hws
      cases hws
    · cases h

variable {value : Characters}

theorem Spells.escapable {raw : Characters} (h : Spells raw value) : Escapable value := by
  induction h with
  | nil => exact nofun
  | escaped hletter _ ih =>
    intro d hd
    rcases List.mem_cons.mp hd with rfl | hd
    · exact escapable_of_unescape hletter
    · exact ih d hd
  | @plain c _ _ hc _ ih =>
    intro d hd hws
    rcases List.mem_cons.mp hd with rfl | hd
    · simp [isKeyEnd, hws] at hc
    · exact ih d hd hws

/-- The canonical spelling of a value spells it. -/
theorem spells_escapeValue (h : Escapable value) :
    Spells (escapeValue value) value := by
  induction value with
  | nil => exact .nil
  | cons c value ih =>
    have hrest : Spells (escapeValue value) value := ih fun d hd => h d (List.mem_cons_of_mem c hd)
    have hc := h c (List.mem_cons_self ..)
    show Spells (escapeChar c ++ escapeValue value) (c :: value)
    unfold escapeChar
    split
    · exact .escaped rfl hrest
    · exact .escaped rfl hrest
    · exact .escaped rfl hrest
    · exact .escaped rfl hrest
    · rename_i hspace htab hline hreturn
      by_cases hliteral : isEscapedLiterally c = true
      · rw [if_pos hliteral]
        refine .escaped ?_ hrest
        simp only [isEscapedLiterally, Bool.or_eq_true, beq_iff_eq] at hliteral
        rcases hliteral with ((((rfl | rfl) | rfl) | rfl) | rfl) | rfl <;> rfl
      · rw [if_neg hliteral]
        have hws : isWhitespace c = false := by
          by_contra hne
          rcases hc (by simpa using hne) with rfl | rfl | rfl | rfl
          · exact hspace rfl
          · exact htab rfl
          · exact hline rfl
          · exact hreturn rfl
        refine .plain ?_ hrest
        simp only [isEscapedLiterally, Bool.or_eq_true, not_or, Bool.not_eq_true] at hliteral
        simp [isKeyEnd, hws, hliteral]

theorem WrittenValue.canonical {raw : Characters} (h : WrittenValue raw value) :
    WrittenValue (escapeValue value) value :=
  ⟨spells_escapeValue h.spells.escapable, h.nonempty, h.bounded⟩

/-! ## Lists -/

variable {text : Characters}

theorem WrittenList.values {values : List Characters} (h : WrittenList text values) :
    values ≠ [] ∧ ∀ value ∈ values, WrittenValue (escapeValue value) value := by
  induction h with
  | last _ hvalue _ => simpa using hvalue.canonical
  | cons _ hvalue _ _ ih => simpa using ⟨hvalue.canonical, ih.2⟩

/-- Values joined by commas are a list. -/
theorem writtenList_join {values : List Characters} (hne : values ≠ [])
    (h : ∀ value ∈ values, WrittenValue (escapeValue value) value) :
    WrittenList ([','].intercalate (values.map escapeValue) ++ [')']) values := by
  induction values with
  | nil => exact absurd rfl hne
  | cons value values ih =>
    have hvalue := h value (List.mem_cons_self ..)
    cases values with
    | nil =>
      have hlist := @WrittenList.last [] _ _ [] nofun hvalue nofun
      simpa using hlist
    | cons next values =>
      have hrest := ih (by simp) fun v hv => h v (List.mem_cons_of_mem value hv)
      have hlist := @WrittenList.cons [] _ _ [] _ _ nofun hvalue nofun hrest
      simpa [List.intercalate] using hlist

theorem WrittenList.canonical {values : List Characters} (h : WrittenList text values) :
    WrittenList (canonicalSet values ++ [')']) (values.sortDedup utf8) := by
  obtain ⟨hne, hvalues⟩ := h.values
  apply writtenList_join
  · rwa [Ne, List.sortDedup_eq_nil]
  · intro value hvalue
    exact hvalues value (List.mem_sortDedup.mp hvalue)

/-! ## Keys -/

variable [DnsName]

/-- A key whose text has no character that would end it. -/
def BareKey (key : QualifiedTag) : Prop := ∀ c ∈ keyText key, isKeyEnd c = false

omit [DnsName] in
/-- Letters do not end a key. -/
theorem isKeyEnd_of_isAsciiLowercase {b : UInt8} (h : isAsciiLowercase b = true) :
    isKeyEnd (Char.ofNat b.toNat) = false := by
  have hletters : ∀ n < 26, isKeyEnd (Char.ofNat (0x61 + n)) = false := by decide
  simp only [isAsciiLowercase, Bool.and_eq_true, decide_eq_true_eq, UInt8.le_iff_toNat_le,
    UInt8.reduceToNat] at h
  have hletter := hletters (b.toNat - 0x61) (by omega)
  rwa [Nat.add_sub_cancel' h.1] at hletter

variable {key : QualifiedTag}

/-- A selectable key is in no reserved category. -/
theorem Selectable.reparses (hhosts : FoldedHosts) (h : Selectable key) :
    key.Reparses := by
  apply key.reparses hhosts
  rcases h with h | ⟨h, -⟩
  · rw [h]
    decide
  · rw [h]
    decide

theorem writtenKey_keyText (hhosts : FoldedHosts) (hselectable : Selectable key)
    (hbare : BareKey key) : WrittenKey (keyText key) key where
  bare := hbare
  parses := by
    rw [keyText, utf8_ofAscii key.ascii]
    exact hselectable.reparses hhosts
  selectable := hselectable

/-- A key keeps the characters it was written with, up to the case of its host. -/
theorem WrittenKey.bareKey {word : Characters} (h : WrittenKey word key) :
    BareKey key := by
  obtain ⟨host, category, name, htext, hvalue, -, -, -, -, -, -, -, -, hascii⟩ :=
    QualifiedTag.parseTagFields_eq_ok (QualifiedTag.asStr_of_parse h.parses)
  have hword : ∀ b ∈ word.utf8, isKeyEnd (Char.ofNat b.toNat) = false := by
    intro b hb
    apply h.bare
    rw [← ofAscii_utf8 (show word.utf8.Ascii from hascii)]
    exact List.mem_map.mpr ⟨b, hb, rfl⟩
  intro c hc
  obtain ⟨b, hb, rfl⟩ := List.mem_map.mp hc
  rw [hvalue] at hb
  rw [htext] at hword
  rcases List.mem_append.mp hb with hb | hb
  · obtain ⟨source, hsource, rfl⟩ := List.mem_map.mp hb
    by_cases hupper : isAsciiUppercase source = true
    · apply isKeyEnd_of_isAsciiLowercase
      rw [toAsciiLowercase, if_pos hupper]
      simp only [isAsciiUppercase, isAsciiLowercase, Bool.and_eq_true, decide_eq_true_eq,
        UInt8.le_iff_toNat_le, UInt8.toNat_add, UInt8.reduceToNat] at hupper ⊢
      omega
    · rw [toAsciiLowercase, if_neg hupper]
      exact hword source (List.mem_append_left _ hsource)
  · exact hword b (List.mem_append_right _ hb)

theorem WrittenKey.canonical {word : Characters} (hhosts : FoldedHosts) (h : WrittenKey word key) :
    WrittenKey (keyText key) key :=
  writtenKey_keyText hhosts h.selectable h.bareKey

/-! ## Predicates -/

namespace Predicate

/-- A predicate with its set of values sorted. -/
def normal : Predicate → Predicate
  | in_ key values => in_ key (values.sortDedup utf8)
  | notIn key values => notIn key (values.sortDedup utf8)
  | predicate => predicate

/-- Set members in strictly ascending order. -/
def SortedSet : Predicate → Prop
  | in_ _ values | notIn _ values => values.Pairwise fun a b => utf8 a < utf8 b
  | _ => True

theorem sortedSet_normal (predicate : Predicate) : predicate.normal.SortedSet := by
  cases predicate with
  | in_ key values => exact List.pairwise_sortDedup utf8_injective values
  | notIn key values => exact List.pairwise_sortDedup utf8_injective values
  | _ => trivial

omit [DnsName] in
theorem canonicalSet_sortDedup (values : List Characters) :
    canonicalSet (values.sortDedup utf8) = canonicalSet values := by
  rw [canonicalSet, List.sortDedup_of_pairwise (List.pairwise_sortDedup utf8_injective values)]
  rfl

theorem canonical_normal (predicate : Predicate) : predicate.normal.canonical = predicate.canonical := by
  cases predicate <;> simp [normal, canonical, canonicalSet_sortDedup]

/-- What a predicate documents: presence, absence, or the value found. Inequality and `notin`
    hold where the key is absent. -/
def Holds (lookup : QualifiedTag → Option Bytes) : Predicate → Prop
  | exists_ key => ∃ found, lookup key = some found
  | notExists key => lookup key = none
  | equals key value => lookup key = some value.utf8
  | notEquals key value => lookup key ≠ some value.utf8
  | in_ key values => ∃ value ∈ values, lookup key = some value.utf8
  | notIn key values => ∀ value ∈ values, lookup key ≠ some value.utf8

theorem matches_iff_holds (lookup : QualifiedTag → Option Bytes) (predicate : Predicate) :
    predicate.matches lookup = true ↔ predicate.Holds lookup := by
  cases predicate with
  | exists_ key => exact Option.isSome_iff_exists
  | notExists key => exact Option.isNone_iff_eq_none
  | equals key value => exact beq_iff_eq
  | notEquals key value => cases h : lookup key <;> simp [«matches», Holds, h]
  | in_ key values =>
    cases h : lookup key with
    | none => simp [«matches», Holds, h]
    | some found =>
      simp only [«matches», Holds, h, Option.any_some, List.any_eq_true, beq_iff_eq,
        Option.some.injEq]
      simp only [eq_comm]
  | notIn key values =>
    cases h : lookup key with
    | none => simp [«matches», Holds, h]
    | some found =>
      simp only [«matches», Holds, h, Option.all_some, Bool.not_eq_true', List.any_eq_false,
        beq_iff_eq, ne_eq, Option.some.injEq]
      exact ⟨fun hall v hv heq => hall v hv heq.symm, fun hall v hv heq => hall v hv heq.symm⟩

theorem holds_normal (lookup : QualifiedTag → Option Bytes) (predicate : Predicate) :
    predicate.normal.Holds lookup ↔ predicate.Holds lookup := by
  cases predicate <;> simp [normal, Holds, List.mem_sortDedup]

/-- The canonical text of a predicate reads back. -/
theorem written_canonical (hhosts : FoldedHosts) {text : Characters} {predicate : Predicate}
    (h : WrittenPredicate text predicate) :
    WrittenPredicate predicate.canonical predicate.normal := by
  have hspace : Blank [' '] := by
    intro c hc
    rw [List.mem_singleton.mp hc]
    decide
  have hcount : ∀ {values : List Characters}, values.length ≤ selectorMaxSetValues →
      (values.sortDedup utf8).length ≤ selectorMaxSetValues := fun hle =>
    (List.length_sortDedup_le utf8 _).trans hle
  cases h with
  | exists_ hkey => exact .exists_ (hkey.canonical hhosts)
  | notExists hkey => exact .notExists (hkey.canonical hhosts)
  | equals hkey _ _ hvalue =>
    exact @WrittenPredicate.equals _ _ _ [] [] _ _ (hkey.canonical hhosts) nofun nofun
      hvalue.canonical
  | notEquals hkey _ _ hvalue =>
    exact @WrittenPredicate.notEquals _ _ _ [] [] _ _ (hkey.canonical hhosts) nofun nofun
      hvalue.canonical
  | in_ hkey _ _ _ hlist hle =>
    exact .in_ (hkey.canonical hhosts) hspace (by simp) hspace hlist.canonical (hcount hle)
  | notIn hkey _ _ _ hlist hle =>
    exact .notIn (hkey.canonical hhosts) hspace (by simp) hspace hlist.canonical (hcount hle)

end Predicate

/-! ## Canonical texts side by side -/

variable {predicates : List Predicate}

/-- Predicates separated by single spaces. -/
theorem written_join {texts : List Characters}
    (h : List.Forall₂ WrittenPredicate texts predicates) {blank : Characters}
    (hblank : Blank blank) : Written (blank ++ [' '].intercalate texts) predicates := by
  induction h generalizing blank with
  | nil => exact .nil (by simpa using hblank)
  | @cons text predicate texts predicates hpredicate hrest ih =>
    have hspace : Blank [' '] := by
      intro c hc
      rw [List.mem_singleton.mp hc]
      decide
    have hfollows : ∀ rest : Characters, rest = [] ∨ rest.head? = some ' ' →
        predicate.Follows rest := by
      intro rest hhead
      cases predicate <;> rcases hhead with rfl | hhead <;>
        first | trivial | simp [Predicate.Follows, Stops, hhead, isWhitespace]
    cases hrest with
    | nil =>
      have hlast : Written ([] : Characters) [] := .nil fun _ h => absurd h List.not_mem_nil
      simpa using Written.cons hblank hpredicate (hfollows [] (.inl rfl)) hlast
    | @cons next _ texts _ hnext hmore =>
      have hwritten := Written.cons hblank hpredicate (hfollows _ (.inr rfl)) (ih hspace)
      rwa [List.intercalate_cons_cons, List.append_assoc]

/-- A predicate by itself is a text. -/
theorem WrittenPredicate.written {predicate : Predicate} (h : WrittenPredicate text predicate) :
    Written text [predicate] := by
  have hwritten := written_join (.cons h .nil) (show Blank [] from nofun)
  rwa [List.nil_append, List.intercalate_singleton] at hwritten

/-- Texts of predicates, and what they read as. -/
theorem exists_readings {texts : List Characters}
    (h : ∀ text ∈ texts, ∃ predicate ∈ predicates, predicate.canonical = text) :
    ∃ readings : List Predicate, List.Forall₂ (fun text reading => ∃ predicate ∈ predicates,
      predicate.canonical = text ∧ predicate.normal = reading) texts readings := by
  induction texts with
  | nil => exact ⟨[], .nil⟩
  | cons text texts ih =>
    obtain ⟨predicate, hmem, htext⟩ := h text (List.mem_cons_self ..)
    obtain ⟨readings, hreadings⟩ := ih fun t ht => h t (List.mem_cons_of_mem text ht)
    exact ⟨_, .cons ⟨predicate, hmem, htext, rfl⟩ hreadings⟩

/-- The predicates the canonical text of `predicates` reads as. -/
structure Readings (predicates readings : List Predicate) : Prop where
  written : Written (Selector.canonicalText predicates) readings
  texts : readings.map Predicate.canonical = (predicates.map Predicate.canonical).sortDedup utf8
  normal : ∀ reading, reading ∈ readings ↔ ∃ predicate ∈ predicates, predicate.normal = reading

/-- The canonical texts of a selector read back, joined. -/
theorem written_canonicalText (hhosts : FoldedHosts) (h : Written text predicates) :
    ∃ readings, Readings predicates readings := by
  have hwritten : ∀ predicate ∈ predicates,
      WrittenPredicate predicate.canonical predicate.normal := by
    induction h with
    | nil => exact nofun
    | cons _ hpredicate _ _ ih =>
      intro predicate hmem
      rcases List.mem_cons.mp hmem with rfl | hmem
      · exact Predicate.written_canonical hhosts hpredicate
      · exact ih predicate hmem
  have htexts : ∀ text ∈ (predicates.map Predicate.canonical).sortDedup utf8,
      ∃ predicate ∈ predicates, predicate.canonical = text := by
    intro text htext
    exact List.mem_map.mp (List.mem_sortDedup.mp htext)
  obtain ⟨readings, hreadings⟩ := exists_readings htexts
  refine ⟨readings, ?_, ?_, ?_⟩
  · have hpredicates := hreadings.imp fun text reading hreading => by
      obtain ⟨predicate, hmem, rfl, rfl⟩ := hreading
      exact hwritten predicate hmem
    exact written_join hpredicates (show Blank [] from nofun)
  · refine (hreadings.map_eq_iff (P := fun _ => True) ?_).mpr fun _ _ => trivial
    intro text reading hreading
    obtain ⟨predicate, -, rfl, rfl⟩ := hreading
    simp [predicate.canonical_normal]
  · intro reading
    constructor
    · intro hmem
      obtain ⟨text, -, predicate, hpredicate, -, hnormal⟩ := hreadings.exists_of_mem_right hmem
      exact ⟨predicate, hpredicate, hnormal⟩
    · intro hnormal
      obtain ⟨predicate, hmem, rfl⟩ := hnormal
      have htext : predicate.canonical ∈ (predicates.map Predicate.canonical).sortDedup utf8 :=
        List.mem_sortDedup.mpr (List.mem_map_of_mem hmem)
      obtain ⟨reading, hreading, other, hother, heq, rfl⟩ := hreadings.flip.exists_of_mem_right htext
      -- Equal texts read as equal predicates.
      have hsame := (hwritten other hother).written.unique (heq ▸ (hwritten predicate hmem).written)
      rw [← (List.cons.inj hsame).1]
      exact hreading

/-! ## Selectors -/

/-- The raw bounds on the text of a selector. -/
def InputBounds (text : Characters) : Prop :=
  text ≠ [] ∧ text.utf8.length ≤ selectorInputMaxBytes

theorem Selector.parse_eq_ok {selector : Selector} :
    Selector.parse text = .ok selector ↔
      InputBounds text ∧ ∃ predicates, parsePredicateStream true 0 text = .ok predicates ∧
        predicates ≠ [] ∧ selector.canonical = canonicalText predicates ∧
        selector.canonical.utf8.length ≤ selectorInputMaxBytes ∧
        parsePredicates selector.canonical = .ok selector.predicates := by
  simp only [parse, Result.bind_eq_ok, Except.rejectIf_eq_ok, InputBounds]
  constructor
  · intro h
    obtain ⟨-, hinput, predicates, hread, -, hne, -, hshort, readings, hreadings, h⟩ := h
    cases h
    rw [not_or, Nat.not_lt] at hinput
    exact ⟨hinput, predicates, hread, hne, rfl, Nat.not_lt.mp hshort, hreadings⟩
  · intro h
    obtain ⟨hinput, predicates, hread, hne, hcanonical, hshort, hreadings⟩ := h
    rw [hcanonical] at hshort hreadings
    refine ⟨(), ?_, predicates, hread, (), hne, (), Nat.not_lt.mpr hshort, _, hreadings, ?_⟩
    · rw [not_or, Nat.not_lt]
      exact hinput
    · rw [← hcanonical]
      rfl

/-- What a selector is of the text it was parsed from. -/
structure CanonicalSelector (text : Characters) (selector : Selector) : Prop where
  /-- Its text parses to the same selector. -/
  reparses : Selector.parse selector.asStr = .ok selector
  /-- Its text is within the bound on raw texts. -/
  short : selector.asStr.utf8.length ≤ selectorInputMaxBytes
  /-- Its text is made of its predicates, which are distinct and sorted. -/
  joined : selector.asStr = [' '].intercalate (selector.predicates.map Predicate.canonical)
  sorted : (selector.predicates.map Predicate.canonical).Pairwise fun a b => utf8 a < utf8 b
  /-- The members of its sets are distinct and sorted. -/
  sortedSets : ∀ predicate ∈ selector.predicates, predicate.SortedSet
  /-- The text it was parsed from says something. -/
  written : ∃ predicates, Written text predicates
  /-- It matches where every predicate written there holds. -/
  meaning : ∀ predicates, Written text predicates → ∀ lookup,
    (selector.matchesWith lookup = true ↔ ∀ predicate ∈ predicates, predicate.Holds lookup)

/-- The second reading of what was read once. -/
theorem parsePredicates_of_readings {readings : List Predicate} (h : Readings predicates readings) :
    Selector.parsePredicates (Selector.canonicalText predicates) = .ok readings :=
  stream_of_written h.written nofun

/-- A canonical text is read again as it is. -/
theorem canonicalText_of_readings {readings : List Predicate} (h : Readings predicates readings) :
    Selector.canonicalText readings = Selector.canonicalText predicates := by
  have hsorted : (readings.map Predicate.canonical).Pairwise fun a b => utf8 a < utf8 b := by
    rw [h.texts]
    exact List.pairwise_sortDedup utf8_injective _
  rw [Selector.canonicalText, List.sortDedup_of_pairwise hsorted, h.texts]
  rfl

theorem canonicalSelector_of_parse (hhosts : FoldedHosts) {selector : Selector}
    (h : Selector.parse text = .ok selector) : CanonicalSelector text selector := by
  obtain ⟨-, predicates, hread, hne, hcanonical, hshort, hagain⟩ := Selector.parse_eq_ok.mp h
  have hwritten := written_of_stream hread
  have hcount := length_of_stream hread (Nat.zero_le _)
  obtain ⟨readings, hreadings⟩ := written_canonicalText hhosts hwritten
  rw [hcanonical, parsePredicates_of_readings hreadings] at hagain
  obtain rfl : readings = selector.predicates := Except.ok.inj hagain
  have hlen : selector.predicates.length ≤ predicates.length := by
    have heq := congrArg List.length hreadings.texts
    have hle := List.length_sortDedup_le utf8 (predicates.map Predicate.canonical)
    rw [List.length_map] at heq hle
    omega
  have hsorted : (selector.predicates.map Predicate.canonical).Pairwise
      fun a b => utf8 a < utf8 b := by
    rw [hreadings.texts]
    exact List.pairwise_sortDedup utf8_injective _
  have hreadingsNe : selector.predicates ≠ [] := by
    obtain ⟨predicate, hmem⟩ := List.exists_mem_of_ne_nil _ hne
    exact List.ne_nil_of_mem ((hreadings.normal _).mpr ⟨predicate, hmem, rfl⟩)
  have hbound : true = true → 0 + selector.predicates.length ≤ selectorMaxPredicates := by
    intro _
    omega
  refine
    { reparses := ?_
      short := hshort
      joined := by rw [hreadings.texts]; exact hcanonical
      sorted := hsorted
      sortedSets := ?_
      written := ⟨predicates, hwritten⟩
      meaning := ?_ }
  · refine Selector.parse_eq_ok.mpr ⟨⟨?_, hshort⟩, selector.predicates, ?_, hreadingsNe, ?_, hshort, ?_⟩
    · intro hnil
      have hempty : Written ([] : Characters) selector.predicates := by
        rw [← show selector.asStr = [] from hnil, show selector.asStr = _ from hcanonical]
        exact hreadings.written
      exact hreadingsNe (hempty.unique (.nil nofun))
    · rw [show selector.asStr = _ from hcanonical]
      exact stream_of_written hreadings.written hbound
    · rw [canonicalText_of_readings hreadings]
      exact hcanonical
    · rw [hcanonical]
      exact parsePredicates_of_readings hreadings
  · intro reading hmem
    obtain ⟨predicate, -, rfl⟩ := (hreadings.normal reading).mp hmem
    exact predicate.sortedSet_normal
  · intro others hothers lookup
    obtain rfl := hwritten.unique hothers
    rw [Selector.matchesWith, List.all_eq_true]
    constructor
    · intro hall predicate hmem
      have hnormal := hall _ ((hreadings.normal _).mpr ⟨predicate, hmem, rfl⟩)
      exact (predicate.holds_normal lookup).mp (Predicate.matches_iff_holds lookup _ |>.mp hnormal)
    · intro hall reading hmem
      obtain ⟨predicate, hpredicate, rfl⟩ := (hreadings.normal reading).mp hmem
      apply (Predicate.matches_iff_holds lookup _).mpr
      exact (predicate.holds_normal lookup).mpr (hall predicate hpredicate)

/-- A text that says something within the bounds parses. -/
theorem exists_parse_of_written (hhosts : FoldedHosts) (hinput : InputBounds text)
    (hwritten : Written text predicates) (hne : predicates ≠ [])
    (hcount : predicates.length ≤ selectorMaxPredicates)
    (hshort : (Selector.canonicalText predicates).utf8.length ≤ selectorInputMaxBytes) :
    ∃ selector, Selector.parse text = .ok selector := by
  obtain ⟨readings, hreadings⟩ := written_canonicalText hhosts hwritten
  have hread : parsePredicateStream true 0 text = .ok predicates :=
    stream_of_written hwritten fun _ => by rwa [Nat.zero_add]
  exact ⟨⟨Selector.canonicalText predicates, readings⟩, Selector.parse_eq_ok.mpr
    ⟨hinput, predicates, hread, hne, rfl, hshort, parsePredicates_of_readings hreadings⟩⟩

/-- Parsing is canonical and keeps the meaning of a text. It fails on no canonical text it has
    built: a text within the raw bounds is refused for what it says or for the length of its
    canonical text only. -/
theorem selector_parse_canonical (hhosts : FoldedHosts) (text : Characters) :
    (∀ selector, Selector.parse text = .ok selector → CanonicalSelector text selector) ∧
      (∀ enforce count predicates, parsePredicateStream enforce count text = .ok predicates →
        ∃ readings, Selector.parsePredicates (Selector.canonicalText predicates) = .ok readings) ∧
      ((∃ selector, Selector.parse text = .ok selector) ↔
        InputBounds text ∧ ∃ predicates, Written text predicates ∧ predicates ≠ [] ∧
          predicates.length ≤ selectorMaxPredicates ∧
          (Selector.canonicalText predicates).utf8.length ≤ selectorInputMaxBytes) := by
  refine ⟨fun selector h => canonicalSelector_of_parse hhosts h, ?_, ?_, ?_⟩
  · intro enforce count predicates h
    obtain ⟨readings, hreadings⟩ := written_canonicalText hhosts (written_of_stream h)
    exact ⟨readings, parsePredicates_of_readings hreadings⟩
  · intro h
    obtain ⟨selector, h⟩ := h
    obtain ⟨hinput, predicates, hread, hne, hcanonical, hshort, -⟩ := Selector.parse_eq_ok.mp h
    have hcount := length_of_stream hread (Nat.zero_le _)
    rw [Nat.zero_add] at hcount
    exact ⟨hinput, predicates, written_of_stream hread, hne, hcount, hcanonical ▸ hshort⟩
  · intro h
    obtain ⟨hinput, predicates, hwritten, hne, hcount, hshort⟩ := h
    exact exists_parse_of_written hhosts hinput hwritten hne hcount hshort

/-- A key with a capital letter, and the tag it denotes. -/
def sampleSelectorKey : Characters × @QualifiedTag .hostNames :=
  (ofAscii (Bytes.utf8 "Example.org/labels/zone"),
    let _ := DnsName.hostNames
    ⟨Bytes.utf8 "example.org/labels/zone", 11, 18, Bytes.utf8 "Example.org/labels/zone", by decide⟩)

omit [DnsName] in
theorem sampleSelectorKey_written :
    @WrittenKey .hostNames sampleSelectorKey.1 sampleSelectorKey.2 := by
  let _ := DnsName.hostNames
  obtain ⟨tag, hparse, hvalue⟩ := QualifiedTag.parse_of_fields
    (show parseTagFields sampleSelectorKey.1.utf8 =
      .ok (Bytes.utf8 "example.org/labels/zone", 11, 18) by decide)
  have htag : tag = sampleSelectorKey.2 := QualifiedTag.ext_asStr hvalue
  exact ⟨List.all_iff_forall_prop.mp (by decide), htag ▸ hparse, by decide⟩

/-- A list that names a value twice, in no order. -/
def sampleSelectorText : Characters := sampleSelectorKey.1 ++ ofAscii (Bytes.utf8 " in (b, a,b)")

omit [DnsName] in
theorem sampleSelectorText_written :
    @Written .hostNames sampleSelectorText [@Predicate.in_ .hostNames sampleSelectorKey.2
      [['b'], ['a'], ['b']]] := by
  let _ := DnsName.hostNames
  have hspace : Blank [' '] := by
    intro c hc
    rw [List.mem_singleton.mp hc]
    decide
  have hletter : ∀ c ∈ ['a', 'b'], WrittenValue [c] [c] := by
    intro c hc
    have hplain : isKeyEnd c = false ∧ (utf8 [c]).length ≤ labelValueMaxBytes := by
      revert c
      exact List.all_iff_forall_prop.mp (by decide)
    exact ⟨.plain hplain.1 .nil, by simp, hplain.2⟩
  have hlist := @WrittenList.cons [] _ _ [] _ _ nofun (hletter 'b' (by simp)) nofun
    (@WrittenList.cons [' '] _ _ [] _ _ hspace (hletter 'a' (by simp)) nofun
      (@WrittenList.last [] _ _ [] nofun (hletter 'b' (by simp)) nofun))
  exact (WrittenPredicate.in_ sampleSelectorKey_written hspace (by simp) hspace hlist
    (by decide)).written

omit [DnsName] in
/-- The sample text is accepted, and its canonical text names each value once. -/
theorem sampleSelectorText_canonical :
    letI := DnsName.hostNames
    ∃ selector, Selector.parse sampleSelectorText = .ok selector ∧
      CanonicalSelector sampleSelectorText selector := by
  let _ := DnsName.hostNames
  have hcanonical := selector_parse_canonical foldedHosts_hostNames sampleSelectorText
  obtain ⟨selector, hselector⟩ := hcanonical.2.2.mpr
    ⟨⟨by decide, by decide⟩, _, sampleSelectorText_written, by simp, by decide, by decide⟩
  exact ⟨selector, hselector, hcanonical.1 selector hselector⟩

end Radiata
