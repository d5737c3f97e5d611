import Radiata.Native.Selector

/-!
# The grammar of selectors

What a text says is defined here without the parser: keys, values and their escapes, lists
and predicates, and how predicates follow one another. The grammar is the one `Selector`
documents, with white space also allowed around `=` and `!=` and inside a list, and left out
after a list and before a `!`. The parser reads a text exactly as the grammar does.

## Key results

- `written_of_stream`: what the parser reads is written there
- `stream_of_written`: what is written there is what the parser reads
-/

namespace Radiata

open Characters

/-! ## Values -/

/-- A text that spells a value: a character stands for itself unless it ends a key, and
    escaped characters stand for others. -/
inductive Spells : Characters → Characters → Prop
  | nil : Spells [] []
  | escaped {letter c raw value} (h : unescape letter = some c) (rest : Spells raw value) :
      Spells ('\\' :: letter :: raw) (c :: value)
  | plain {c raw value} (h : isKeyEnd c = false) (rest : Spells raw value) :
      Spells (c :: raw) (c :: value)

/-- A bounded nonempty value. -/
structure WrittenValue (raw value : Characters) : Prop where
  spells : Spells raw value
  nonempty : value ≠ []
  bounded : value.utf8.length ≤ labelValueMaxBytes

/-- Where a value ends. -/
def isValueEnd (inList : Bool) (c : Char) : Bool :=
  isWhitespace c || (inList && (c == ',' || c == ')'))

theorem isKeyEnd_of_isWhitespace {c : Char} (h : isWhitespace c = true) : isKeyEnd c = true := by
  simp [isKeyEnd, h]

theorem isWhitespace_backslash : isWhitespace '\\' = false := by decide

variable {inList : Bool}

/-- The loop at a character that is no backslash. -/
theorem readValue_cons {c : Char} (hc : c ≠ '\\') (rest : Characters) :
    readValue inList (c :: rest) =
      if isWhitespace c then .ok ([], c :: rest)
      else if inList ∧ (c = ',' ∨ c = ')') then .ok ([], c :: rest)
      else if c = '(' ∨ c = ')' ∨ c = ',' ∨ c = '=' ∨ c = '!' then
        .error (.invalidInput "selector value")
      else do
        let (value, rest) ← readValue inList rest
        return (c :: value, rest) := by
  rw [readValue.eq_def]
  split
  · rename_i h
    cases h
  · rename_i h
    exact absurd (List.cons.inj h).1 hc
  · rename_i h
    exact absurd (List.cons.inj h).1 hc
  · rename_i h
    obtain ⟨rfl, rfl⟩ := List.cons.inj h
    rfl

/-- The loop at an escape. -/
theorem readValue_escaped {letter c : Char} (h : unescape letter = some c) (rest : Characters) :
    readValue inList ('\\' :: letter :: rest) = do
      let (value, rest) ← readValue inList rest
      return (c :: value, rest) := by
  rw [readValue.eq_def]
  simp only [h]

/-- A spelled value is read up to where it ends. -/
theorem readValue_append {raw value rest : Characters} (h : Spells raw value)
    (hrest : Stops (isValueEnd inList) rest) :
    readValue inList (raw ++ rest) = .ok (value, rest) := by
  induction h with
  | nil =>
    cases rest with
    | nil => rfl
    | cons c rest =>
      have hend : isValueEnd inList c = true := hrest
      have hc : c ≠ '\\' := by
        intro heq
        rw [heq] at hend
        simp [isValueEnd, isWhitespace_backslash] at hend
      rw [List.nil_append, readValue_cons hc]
      by_cases hws : isWhitespace c = true
      · rw [if_pos hws]
      · rw [if_neg hws, if_pos]
        simpa [isValueEnd, hws] using hend
  | @escaped letter c raw value hletter _ ih =>
    show readValue inList ('\\' :: letter :: (raw ++ rest)) = _
    rw [readValue_escaped hletter, ih]
    rfl
  | @plain c raw value hc _ ih =>
    simp only [isKeyEnd, Bool.or_eq_false_iff, beq_eq_false_iff_ne] at hc
    obtain ⟨⟨⟨⟨⟨⟨hws, heq⟩, hbang⟩, hopen⟩, hclose⟩, hcomma⟩, hslash⟩ := hc
    show readValue inList (c :: (raw ++ rest)) = _
    rw [readValue_cons hslash, ih]
    simp [hws, heq, hbang, hopen, hclose, hcomma]

variable {input : Characters}

/-- What is read as a value spells it. -/
theorem spells_of_readValue {value rest : Characters}
    (h : readValue inList input = .ok (value, rest)) :
    ∃ raw, input = raw ++ rest ∧ Spells raw value ∧ Stops (isValueEnd inList) rest := by
  fun_induction readValue inList input generalizing value with
  | case1 =>
    cases h
    exact ⟨[], rfl, .nil, rfl⟩
  | case2 => cases h
  | case3 => cases h
  | case4 letter tail c hc ih =>
    obtain ⟨⟨v, r⟩, hv, h⟩ := Result.bind_eq_ok.mp h
    cases h
    obtain ⟨raw, rfl, hspells, hstops⟩ := ih hv
    exact ⟨'\\' :: letter :: raw, rfl, .escaped hc hspells, hstops⟩
  | case5 c tail _ _ hws =>
    cases h
    exact ⟨[], rfl, .nil, by simp [Stops, isValueEnd, hws]⟩
  | case6 c tail _ _ hws hend =>
    cases h
    refine ⟨[], rfl, .nil, ?_⟩
    simp [Stops, isValueEnd, hend.1, hend.2]
  | case7 => cases h
  | case8 c tail hlast hescape hws hend hdelimiter ih =>
    obtain ⟨⟨v, r⟩, hv, h⟩ := Result.bind_eq_ok.mp h
    cases h
    obtain ⟨raw, rfl, hspells, hstops⟩ := ih hv
    refine ⟨c :: raw, rfl, .plain ?_ hspells, hstops⟩
    have hc : c ≠ '\\' := by
      intro heq
      cases htail : raw ++ rest with
      | nil => exact hlast heq htail
      | cons letter more => exact hescape letter more heq htail
    simp only [not_or] at hdelimiter
    simp [isKeyEnd, hws, hc, hdelimiter]

theorem parseValue_append {raw value rest : Characters} (h : WrittenValue raw value)
    (hrest : Stops (isValueEnd inList) rest) :
    parseValue inList (raw ++ rest) = .ok (value, rest) :=
  parseValue_eq_ok.mpr ⟨readValue_append h.spells hrest, h.nonempty, h.bounded⟩

theorem written_of_parseValue {value rest : Characters}
    (h : parseValue inList input = .ok (value, rest)) :
    ∃ raw, input = raw ++ rest ∧ WrittenValue raw value ∧ Stops (isValueEnd inList) rest := by
  obtain ⟨hread, hnonempty, hbounded⟩ := parseValue_eq_ok.mp h
  obtain ⟨raw, hinput, hspells, hstops⟩ := spells_of_readValue hread
  exact ⟨raw, hinput, ⟨hspells, hnonempty, hbounded⟩, hstops⟩

/-- A value does not start with white space. -/
theorem WrittenValue.stops {raw value : Characters} (h : WrittenValue raw value)
    (rest : Characters) : Stops (fun c => !isWhitespace c) (raw ++ rest) := by
  cases h.spells with
  | nil => exact absurd rfl h.nonempty
  | escaped => exact congrArg not isWhitespace_backslash
  | @plain c _ _ hc =>
    show (!isWhitespace c) = true
    simp only [isKeyEnd, Bool.or_eq_false_iff] at hc
    simp [hc]

/-! ## Lists -/

/-- A list of values, from its opening to its closing parenthesis. -/
inductive WrittenList : Characters → List Characters → Prop
  | last {before raw value after} (hbefore : Blank before) (hvalue : WrittenValue raw value)
      (hafter : Blank after) : WrittenList (before ++ (raw ++ (after ++ [')']))) [value]
  | cons {before raw value after rest values} (hbefore : Blank before)
      (hvalue : WrittenValue raw value) (hafter : Blank after) (hrest : WrittenList rest values) :
      WrittenList (before ++ (raw ++ (after ++ ',' :: rest))) (value :: values)

theorem isValueEnd_of_isWhitespace (c : Char) (h : isWhitespace c = true) :
    isValueEnd inList c = true := by
  simp [isValueEnd, h]

theorem readSet_append {text rest : Characters} {values : List Characters} {room : Nat}
    (h : WrittenList text values) (hroom : values.length ≤ room) :
    readSet room (text ++ rest) = .ok (values, rest) := by
  induction h generalizing room with
  | @last before raw value after hbefore hvalue hafter =>
    obtain ⟨room, rfl⟩ : ∃ n, room = n + 1 := ⟨room - 1, by simp at hroom; omega⟩
    have hend : Stops (isValueEnd true) (after ++ (')' :: rest)) :=
      hafter.stops isValueEnd_of_isWhitespace (by decide : isValueEnd true ')' = true)
    have hskip : skipWhitespace (after ++ (')' :: rest)) = ')' :: rest :=
      skipWhitespace_cons hafter (by decide) rest
    simp only [List.append_assoc, List.singleton_append]
    rw [readSet, skipWhitespace_append hbefore (hvalue.stops _), parseValue_append hvalue hend,
      Result.ok_bind]
    dsimp only
    rw [hskip]
    rfl
  | @cons before raw value after more values hbefore hvalue hafter _ ih =>
    obtain ⟨room, rfl⟩ : ∃ n, room = n + 1 := ⟨room - 1, by simp at hroom; omega⟩
    have hend : Stops (isValueEnd true) (after ++ (',' :: (more ++ rest))) :=
      hafter.stops isValueEnd_of_isWhitespace (by decide : isValueEnd true ',' = true)
    have hskip : skipWhitespace (after ++ (',' :: (more ++ rest))) = ',' :: (more ++ rest) :=
      skipWhitespace_cons hafter (by decide) (more ++ rest)
    have hothers := ih (show values.length ≤ room by rw [List.length_cons] at hroom; omega)
    simp only [List.append_assoc, List.cons_append]
    rw [readSet, skipWhitespace_append hbefore (hvalue.stops _), parseValue_append hvalue hend,
      Result.ok_bind]
    dsimp only
    rw [hskip]
    simp only [hothers, Result.ok_bind]
    rfl

theorem written_of_readSet {rest : Characters} {values : List Characters} {room : Nat}
    (h : readSet room input = .ok (values, rest)) :
    ∃ text, input = text ++ rest ∧ WrittenList text values ∧ values.length ≤ room := by
  induction room generalizing input values with
  | zero => cases h
  | succ room ih =>
    rw [readSet] at h
    obtain ⟨⟨value, tail⟩, hvalue, h⟩ := Result.bind_eq_ok.mp h
    obtain ⟨before, hbefore, hinput, -⟩ := exists_blank input
    obtain ⟨raw, hraw, hwritten, -⟩ := written_of_parseValue hvalue
    obtain ⟨after, hafter, htail, -⟩ := exists_blank tail
    dsimp only at h
    split at h
    · rename_i more hmore
      obtain ⟨⟨others, left⟩, hothers, h⟩ := Result.bind_eq_ok.mp h
      cases h
      obtain ⟨text, rfl, hlist, hlen⟩ := ih hothers
      refine ⟨_, ?_, .cons hbefore hwritten hafter hlist, by simp only [List.length_cons]; omega⟩
      rw [hinput, hraw, htail, hmore]
      simp
    · rename_i more hmore
      cases h
      refine ⟨_, ?_, .last hbefore hwritten hafter, by simp⟩
      rw [hinput, hraw, htail, hmore]
      simp
    · cases h

theorem parseSet_append {text rest : Characters} {values : List Characters}
    (h : WrittenList text values) (hcount : values.length ≤ selectorMaxSetValues) :
    parseSet ('(' :: (text ++ rest)) = .ok (values, rest) :=
  readSet_append h hcount

theorem keywordTail_append (keyword : Characters) {blank : Characters} (hblank : Blank blank)
    (rest : Characters) :
    keywordTail keyword (keyword ++ (blank ++ '(' :: rest)) = some (blank ++ '(' :: rest) := by
  refine keywordTail_eq_some.mpr ⟨rfl, hblank.stops (fun c hc => by simp [hc]) ?_⟩
  show (isWhitespace '(' || '(' == '(') = true
  decide

theorem stops_of_isValueEnd {rest : Characters} (h : Stops (isValueEnd false) rest) :
    Stops isWhitespace rest := by
  apply h.mono
  intro c hc
  simpa [isValueEnd] using hc

theorem written_of_parseSet {rest : Characters} {values : List Characters}
    (h : parseSet input = .ok (values, rest)) :
    ∃ text, input = '(' :: (text ++ rest) ∧ WrittenList text values ∧
      values.length ≤ selectorMaxSetValues := by
  unfold parseSet at h
  split at h
  · obtain ⟨text, rfl, hlist, hcount⟩ := written_of_readSet h
    exact ⟨text, rfl, hlist, hcount⟩
  · cases h

/-! ## Keys -/

variable [DnsName]

/-- The text of a key. -/
structure WrittenKey (word : Characters) (key : QualifiedTag) : Prop where
  bare : ∀ c ∈ word, isKeyEnd c = false
  parses : QualifiedTag.parse word.utf8 = .ok key
  selectable : Selectable key

theorem parseKey_append {word rest : Characters} {key : QualifiedTag} (h : WrittenKey word key)
    (hrest : Stops isKeyEnd rest) : parseKey (word ++ rest) = .ok (key, rest) := by
  obtain ⟨htake, hdrop⟩ := span_append h.bare hrest
  rw [parseKey_eq_ok, htake, hdrop]
  exact ⟨h.parses, h.selectable, rfl⟩

theorem written_of_parseKey {rest : Characters} {key : QualifiedTag}
    (h : parseKey input = .ok (key, rest)) :
    ∃ word, input = word ++ rest ∧ WrittenKey word key ∧ Stops isKeyEnd rest := by
  obtain ⟨hparse, hselectable, rfl⟩ := parseKey_eq_ok.mp h
  refine ⟨_, List.takeWhile_append_dropWhile.symm, ⟨?_, hparse, hselectable⟩, ?_⟩
  · intro c hc
    have hall := List.all_takeWhile (p := fun c => !isKeyEnd c) (l := input)
    simpa using List.all_eq_true.mp hall c hc
  · unfold Stops
    have hhead := List.head?_dropWhile_not (fun c => !isKeyEnd c) input
    cases hrest : input.dropWhile fun c => !isKeyEnd c with
    | nil => rfl
    | cons c rest => simpa [hrest] using hhead

/-- The text of a key has the slashes of a tag. -/
theorem WrittenKey.slash_mem {word : Characters} {key : QualifiedTag} (h : WrittenKey word key) :
    '/' ∈ word := by
  obtain ⟨host, category, name, htext, -, -, -, -, -, -, -, -, -, hascii⟩ :=
    QualifiedTag.parseTagFields_eq_ok (QualifiedTag.asStr_of_parse h.parses)
  have hmem : slash ∈ word.utf8 := by simp [htext]
  rw [← ofAscii_utf8 (show word.utf8.Ascii from hascii)]
  exact List.mem_map.mpr ⟨slash, hmem, by decide⟩

/-- The text of a key starts with a character of the key. -/
theorem WrittenKey.exists_cons {word : Characters} {key : QualifiedTag} (h : WrittenKey word key) :
    ∃ c rest, word = c :: rest ∧ isKeyEnd c = false := by
  cases word with
  | nil => exact absurd h.slash_mem (by simp)
  | cons c rest => exact ⟨c, rest, rfl, h.bare c (List.mem_cons_self ..)⟩

/-- A key is not taken for a keyword, whatever follows it. -/
theorem WrittenKey.keywordTail_eq_none {word : Characters} {key : QualifiedTag}
    (h : WrittenKey word key) {keyword : Characters} (hkeyword : '/' ∉ keyword)
    (rest : Characters) : keywordTail keyword (word ++ rest) = none := by
  cases htail : keywordTail keyword (word ++ rest) with
  | none => rfl
  | some tail =>
    exfalso
    obtain ⟨heq, hboundary⟩ := keywordTail_eq_some.mp htail
    rcases List.append_eq_append_iff.mp heq with ⟨more, hmore, -⟩ | ⟨more, hmore, hrest⟩
    · -- The key would be the start of the keyword.
      exact hkeyword (hmore ▸ List.mem_append_left more h.slash_mem)
    · cases more with
      | nil =>
        rw [List.append_nil] at hmore
        exact hkeyword (hmore ▸ h.slash_mem)
      | cons c more =>
        -- The keyword would end inside the key.
        have hbare := h.bare c (by simp [hmore])
        rw [hrest] at hboundary
        have hc : (isWhitespace c || c == '(') = true := hboundary
        simp only [isKeyEnd, Bool.or_eq_false_iff] at hbare
        simp [hbare] at hc

/-! ## Predicates -/

/-- One predicate, from its key to the end of its value or list. -/
inductive WrittenPredicate : Characters → Predicate → Prop
  | exists_ {word key} (hkey : WrittenKey word key) : WrittenPredicate word (.exists_ key)
  | notExists {word key} (hkey : WrittenKey word key) :
      WrittenPredicate ('!' :: word) (.notExists key)
  | equals {word key a b raw value} (hkey : WrittenKey word key) (ha : Blank a) (hb : Blank b)
      (hvalue : WrittenValue raw value) :
      WrittenPredicate (word ++ (a ++ '=' :: (b ++ raw))) (.equals key value)
  | notEquals {word key a b raw value} (hkey : WrittenKey word key) (ha : Blank a) (hb : Blank b)
      (hvalue : WrittenValue raw value) :
      WrittenPredicate (word ++ (a ++ '!' :: '=' :: (b ++ raw))) (.notEquals key value)
  | in_ {word key a b text values} (hkey : WrittenKey word key) (ha : Blank a) (hne : a ≠ [])
      (hb : Blank b) (hlist : WrittenList text values)
      (hcount : values.length ≤ selectorMaxSetValues) :
      WrittenPredicate (word ++ (a ++ (keywordIn ++ (b ++ '(' :: text)))) (.in_ key values)
  | notIn {word key a b text values} (hkey : WrittenKey word key) (ha : Blank a) (hne : a ≠ [])
      (hb : Blank b) (hlist : WrittenList text values)
      (hcount : values.length ≤ selectorMaxSetValues) :
      WrittenPredicate (word ++ (a ++ (keywordNotin ++ (b ++ '(' :: text)))) (.notIn key values)

/-- Where the next predicate may start: after white space, at a `!` after a bare key, or
    right after a list. -/
def Predicate.Follows : Predicate → Characters → Prop
  | .exists_ _, rest | .notExists _, rest => Stops (fun c => isWhitespace c || c == '!') rest
  | .equals _ _, rest | .notEquals _ _, rest => Stops isWhitespace rest
  | .in_ _ _, _ | .notIn _ _, _ => True

/-- The predicates of a text. -/
inductive Written : Characters → List Predicate → Prop
  | nil {blank} (hblank : Blank blank) : Written blank []
  | cons {blank text rest predicate predicates} (hblank : Blank blank)
      (hpredicate : WrittenPredicate text predicate) (hfollows : predicate.Follows rest)
      (hrest : Written rest predicates) :
      Written (blank ++ (text ++ rest)) (predicate :: predicates)

/-- A predicate starts with the first character of its key, or with a `!` before it. -/
theorem WrittenPredicate.starts {text : Characters} {predicate : Predicate}
    (h : WrittenPredicate text predicate) :
    (∃ word key more, WrittenKey word key ∧ text = word ++ more) ∨
      ∃ word key, WrittenKey word key ∧ text = '!' :: word := by
  cases h with
  | exists_ hkey => exact .inl ⟨_, _, [], hkey, (List.append_nil _).symm⟩
  | notExists hkey => exact .inr ⟨_, _, hkey, rfl⟩
  | equals hkey | notEquals hkey | in_ hkey | notIn hkey => exact .inl ⟨_, _, _, hkey, rfl⟩

/-- The first character of a predicate. -/
theorem WrittenPredicate.exists_cons {text : Characters} {predicate : Predicate}
    (h : WrittenPredicate text predicate) :
    ∃ c rest, text = c :: rest ∧ isWhitespace c = false ∧ (isKeyEnd c = true → c = '!') := by
  rcases h.starts with ⟨word, key, more, hkey, rfl⟩ | ⟨word, key, hkey, rfl⟩
  · obtain ⟨c, rest, rfl, hc⟩ := hkey.exists_cons
    refine ⟨c, rest ++ more, rfl, ?_, fun hend => by rw [hc] at hend; cases hend⟩
    simp only [isKeyEnd, Bool.or_eq_false_iff] at hc
    simp [hc]
  · exact ⟨'!', word, rfl, by decide, fun _ => rfl⟩

theorem WrittenPredicate.stops {text : Characters} {predicate : Predicate}
    (h : WrittenPredicate text predicate) (rest : Characters) :
    Stops (fun c => !isWhitespace c) (text ++ rest) := by
  obtain ⟨c, more, rfl, hc, -⟩ := h.exists_cons
  exact congrArg not hc

/-- What follows a bare key is no operator. -/
theorem parseOperatorTail_of_written {rest : Characters} {predicates : List Predicate}
    (h : Written rest predicates) (key : QualifiedTag) :
    parseOperatorTail key rest = .ok (none, rest) := by
  cases h with
  | nil hblank =>
    rw [parseOperatorTail, skipWhitespace_blank hblank]
    rfl
  | @cons blank text more _ _ hblank hpredicate _ _ =>
    have hskip := skipWhitespace_append hblank (hpredicate.stops more)
    rw [parseOperatorTail, hskip]
    rcases hpredicate.starts with ⟨word, name, tail, hkey, rfl⟩ | ⟨word, name, hkey, rfl⟩
    · obtain ⟨c, front, hword, hc⟩ := hkey.exists_cons
      have hin := hkey.keywordTail_eq_none (show '/' ∉ keywordIn by decide) (tail ++ more)
      have hnotin := hkey.keywordTail_eq_none (show '/' ∉ keywordNotin by decide) (tail ++ more)
      simp only [isKeyEnd, Bool.or_eq_false_iff, beq_eq_false_iff_ne] at hc
      rw [List.append_assoc]
      split
      · rename_i heq
        rw [hword] at heq
        exact absurd (List.cons.inj heq).1 hc.1.1.1.1.1.2
      · rename_i heq
        rw [hword] at heq
        exact absurd (List.cons.inj heq).1 hc.1.1.1.1.2
      · rfl
      · rw [parseSetOperator, hin]
        dsimp only
        rw [hnotin]
        rfl
    · obtain ⟨c, front, rfl, hc⟩ := hkey.exists_cons
      simp only [isKeyEnd, Bool.or_eq_false_iff, beq_eq_false_iff_ne] at hc
      split
      · rename_i heq
        exact absurd (List.cons.inj heq).1 (by decide)
      · rename_i heq
        exact absurd (List.cons.inj (List.cons.inj heq).2).1 hc.1.1.1.1.1.2
      · rfl
      · rename_i hbang
        exact absurd rfl (hbang _)

/-! ## The parser reads what is written -/

/-- A text that does not start with a `!` starts with a key. -/
theorem parsePredicate_of_key {word : Characters} {key : QualifiedTag} (h : WrittenKey word key)
    {tail rest : Characters} {predicate : Option Predicate} (htail : Stops isKeyEnd tail)
    (hoperator : parseOperatorTail key tail = .ok (predicate, rest)) :
    parsePredicate (word ++ tail) = .ok (predicate.getD (.exists_ key), rest) := by
  obtain ⟨c, front, hword, hc⟩ := h.exists_cons
  have hbang : c ≠ '!' := by
    rintro rfl
    exact absurd hc (by decide)
  unfold parsePredicate
  split
  · rename_i heq
    rw [hword] at heq
    exact absurd (List.cons.inj heq).1 hbang
  · rw [parseKey_append h htail, Result.ok_bind]
    dsimp only
    rw [hoperator]
    rfl

/-- A value behind white space. -/
theorem parseValue_blank {b raw value rest : Characters} (hb : Blank b)
    (hvalue : WrittenValue raw value) (hrest : Stops isWhitespace rest) :
    parseValue false (skipWhitespace (b ++ (raw ++ rest))) = .ok (value, rest) := by
  rw [skipWhitespace_append hb (hvalue.stops rest),
    parseValue_append hvalue (hrest.mono isValueEnd_of_isWhitespace)]

/-- An equality after a key. -/
theorem parseOperatorTail_equals (key : QualifiedTag) {a b raw value rest : Characters}
    (ha : Blank a) (hb : Blank b) (hvalue : WrittenValue raw value)
    (hrest : Stops isWhitespace rest) :
    parseOperatorTail key (a ++ '=' :: (b ++ (raw ++ rest))) =
      .ok (some (.equals key value), rest) := by
  have hskip := skipWhitespace_cons ha (c := '=') (by decide) (b ++ (raw ++ rest))
  unfold parseOperatorTail
  rw [hskip]
  simp only [parseValue_blank hb hvalue hrest, Result.ok_bind]
  rfl

/-- An inequality after a key. -/
theorem parseOperatorTail_notEquals (key : QualifiedTag) {a b raw value rest : Characters}
    (ha : Blank a) (hb : Blank b) (hvalue : WrittenValue raw value)
    (hrest : Stops isWhitespace rest) :
    parseOperatorTail key (a ++ '!' :: '=' :: (b ++ (raw ++ rest))) =
      .ok (some (.notEquals key value), rest) := by
  have hskip := skipWhitespace_cons ha (c := '!') (by decide) ('=' :: (b ++ (raw ++ rest)))
  unfold parseOperatorTail
  rw [hskip]
  simp only [parseValue_blank hb hvalue hrest, Result.ok_bind]
  rfl

/-- A set operator after a key. -/
theorem parseOperatorTail_in (key : QualifiedTag) {a b text rest : Characters}
    {values : List Characters} (ha : Blank a) (hb : Blank b) (hlist : WrittenList text values)
    (hcount : values.length ≤ selectorMaxSetValues) :
    parseOperatorTail key (a ++ (keywordIn ++ (b ++ '(' :: (text ++ rest)))) =
      .ok (some (.in_ key values), rest) := by
  have hskip : skipWhitespace (a ++ (keywordIn ++ (b ++ '(' :: (text ++ rest)))) =
      keywordIn ++ (b ++ '(' :: (text ++ rest)) := skipWhitespace_cons ha (by decide) _
  have hparen := skipWhitespace_cons hb (c := '(') (by decide) (text ++ rest)
  unfold parseOperatorTail
  rw [hskip]
  show parseSetOperator key _ (keywordIn ++ (b ++ '(' :: (text ++ rest))) = _
  unfold parseSetOperator
  rw [keywordTail_append keywordIn hb]
  dsimp only
  rw [hparen, parseSet_append hlist hcount]
  rfl

theorem parseOperatorTail_notIn (key : QualifiedTag) {a b text rest : Characters}
    {values : List Characters} (ha : Blank a) (hb : Blank b) (hlist : WrittenList text values)
    (hcount : values.length ≤ selectorMaxSetValues) :
    parseOperatorTail key (a ++ (keywordNotin ++ (b ++ '(' :: (text ++ rest)))) =
      .ok (some (.notIn key values), rest) := by
  have hskip : skipWhitespace (a ++ (keywordNotin ++ (b ++ '(' :: (text ++ rest)))) =
      keywordNotin ++ (b ++ '(' :: (text ++ rest)) := skipWhitespace_cons ha (by decide) _
  have hparen := skipWhitespace_cons hb (c := '(') (by decide) (text ++ rest)
  have hin : keywordTail keywordIn (keywordNotin ++ (b ++ '(' :: (text ++ rest))) = none := by
    cases htail : keywordTail keywordIn (keywordNotin ++ (b ++ '(' :: (text ++ rest))) with
    | none => rfl
    | some tail => exact absurd (List.cons.inj (keywordTail_eq_some.mp htail).1).1 (by decide)
  unfold parseOperatorTail
  rw [hskip]
  show parseSetOperator key _ (keywordNotin ++ (b ++ '(' :: (text ++ rest))) = _
  unfold parseSetOperator
  rw [hin]
  dsimp only
  rw [keywordTail_append keywordNotin hb]
  dsimp only
  rw [hparen, parseSet_append hlist hcount]
  rfl

theorem parsePredicate_append {text rest : Characters} {predicate : Predicate}
    {predicates : List Predicate} (h : WrittenPredicate text predicate)
    (hfollows : predicate.Follows rest) (hrest : Written rest predicates) :
    parsePredicate (text ++ rest) = .ok (predicate, rest) := by
  have hbare : Stops (fun c => isWhitespace c || c == '!') rest → Stops isKeyEnd rest := by
    intro hstops
    apply hstops.mono
    intro c hc
    simp only [Bool.or_eq_true] at hc
    rcases hc with hc | hc <;> simp [isKeyEnd, hc]
  have hblank : ∀ {a : Characters} {c : Char} {more : Characters}, Blank a → isKeyEnd c = true →
      Stops isKeyEnd (a ++ c :: more) := fun ha hc =>
    ha.stops (fun _ => isKeyEnd_of_isWhitespace) hc
  have hspace : ∀ {a more : Characters}, Blank a → a ≠ [] → Stops isKeyEnd (a ++ more) := by
    intro a more ha hne
    obtain ⟨c, a, rfl⟩ := List.exists_cons_of_ne_nil hne
    exact isKeyEnd_of_isWhitespace (ha c (List.mem_cons_self ..))
  cases h with
  | exists_ hkey =>
    exact parsePredicate_of_key hkey (hbare hfollows) (parseOperatorTail_of_written hrest _)
  | @notExists word key hkey =>
    show parsePredicate ('!' :: (word ++ rest)) = _
    rw [parsePredicate, parseKey_append hkey (hbare hfollows)]
    rfl
  | @equals word key a b raw value hkey ha hb hvalue =>
    simp only [List.append_assoc, List.cons_append]
    exact parsePredicate_of_key hkey (hblank ha (by decide))
      (parseOperatorTail_equals key ha hb hvalue hfollows)
  | @notEquals word key a b raw value hkey ha hb hvalue =>
    simp only [List.append_assoc, List.cons_append]
    exact parsePredicate_of_key hkey (hblank ha (by decide))
      (parseOperatorTail_notEquals key ha hb hvalue hfollows)
  | @in_ word key a b text values hkey ha hne hb hlist hcount =>
    simp only [List.append_assoc, List.cons_append]
    exact parsePredicate_of_key hkey (hspace ha hne) (parseOperatorTail_in key ha hb hlist hcount)
  | @notIn word key a b text values hkey ha hne hb hlist hcount =>
    simp only [List.append_assoc, List.cons_append]
    exact parsePredicate_of_key hkey (hspace ha hne)
      (parseOperatorTail_notIn key ha hb hlist hcount)

/-- What is written is what the parser reads, where it does not count the predicates or there
    are not too many. -/
theorem stream_of_written {text : Characters} {predicates : List Predicate}
    (h : Written text predicates) {enforce : Bool} {count : Nat}
    (hcount : enforce = true → count + predicates.length ≤ selectorMaxPredicates) :
    parsePredicateStream enforce count text = .ok predicates := by
  induction h generalizing count with
  | @nil blank hblank =>
    rw [parsePredicateStream, if_pos (skipWhitespace_blank hblank)]
  | @cons blank text rest predicate predicates hblank hpredicate hfollows hrest ih =>
    have hskip := skipWhitespace_append hblank (hpredicate.stops rest)
    have hparse := parsePredicate_append hpredicate hfollows hrest
    obtain ⟨c, more, htext, -, -⟩ := hpredicate.exists_cons
    have hroom : ¬ (enforce = true ∧ selectorMaxPredicates ≤ count) := by
      intro ⟨henforce, hfull⟩
      have := hcount henforce
      rw [List.length_cons] at this
      omega
    have hleft : enforce = true → count + 1 + predicates.length ≤ selectorMaxPredicates := by
      intro henforce
      have := hcount henforce
      rw [List.length_cons] at this
      omega
    have hnext := ih hleft
    rw [parsePredicateStream, if_neg (by rw [hskip, htext]; simp), if_neg hroom]
    split
    · rename_i e heq
      rw [hskip, hparse] at heq
      cases heq
    · rename_i found left heq
      rw [hskip, hparse] at heq
      cases heq
      rw [hnext]
      rfl

/-! ## What the parser reads is written -/

/-- Where a key ends before further predicates, the next one may start. -/
theorem Written.stops {rest : Characters} {predicates : List Predicate}
    (h : Written rest predicates) (hend : Stops isKeyEnd rest) :
    Stops (fun c => isWhitespace c || c == '!') rest := by
  have hspace : ∀ {blank more : Characters}, Blank blank →
      Stops (fun c => isWhitespace c || c == '!') more →
      Stops (fun c => isWhitespace c || c == '!') (blank ++ more) := fun hblank hmore =>
    hblank.stops (fun c hc => by simp [hc]) hmore
  cases h with
  | nil hblank =>
    rw [← List.append_nil rest]
    exact hspace hblank rfl
  | @cons blank text more _ _ hblank hpredicate _ _ =>
    obtain ⟨c, front, rfl, -, hbang⟩ := hpredicate.exists_cons
    cases blank with
    | nil =>
      have hc : c = '!' := hbang hend
      rw [hc]
      exact (by decide : (isWhitespace '!' || '!' == '!') = true)
    | cons d blank =>
      have hd := hblank d (List.mem_cons_self ..)
      show (isWhitespace d || d == '!') = true
      simp [hd]

omit [DnsName] in
/-- A keyword that is read behind a key stands behind white space: a key does not end at it. -/
theorem exists_blank_of_keyword {keyword tail : Characters}
    (hkeyword : keyword.head?.any (fun c => !isKeyEnd c) = true)
    (htail : keywordTail keyword (skipWhitespace input) = some tail) (hend : Stops isKeyEnd input) :
    ∃ blank, Blank blank ∧ blank ≠ [] ∧ input = blank ++ (keyword ++ tail) := by
  obtain ⟨blank, hblank, hinput, -⟩ := exists_blank input
  rw [(keywordTail_eq_some.mp htail).1] at hinput
  refine ⟨blank, hblank, ?_, hinput⟩
  intro hnil
  rw [hinput, hnil] at hend
  cases keyword with
  | nil => cases hkeyword
  | cons c keyword =>
    have hc : isKeyEnd c = true := hend
    simp [hc] at hkeyword

/-- An operator that is read behind a key is written there. -/
theorem written_of_parseOperatorTail {word rest : Characters} {key : QualifiedTag}
    {predicate : Predicate} (hkey : WrittenKey word key) (hend : Stops isKeyEnd input)
    (h : parseOperatorTail key input = .ok (some predicate, rest)) :
    ∃ text, word ++ input = text ++ rest ∧ WrittenPredicate text predicate ∧
      predicate.Follows rest := by
  obtain ⟨a, ha, hinput, -⟩ := exists_blank input
  unfold parseOperatorTail at h
  split at h
  · rename_i tail heq
    obtain ⟨⟨value, left⟩, hvalue, h⟩ := Result.bind_eq_ok.mp h
    cases h
    obtain ⟨b, hb, htail, -⟩ := exists_blank tail
    obtain ⟨raw, hraw, hwritten, hstops⟩ := written_of_parseValue hvalue
    refine ⟨_, ?_, .equals hkey ha hb hwritten, stops_of_isValueEnd hstops⟩
    rw [hinput, heq, htail, hraw]
    simp
  · rename_i tail heq
    obtain ⟨⟨value, left⟩, hvalue, h⟩ := Result.bind_eq_ok.mp h
    cases h
    obtain ⟨b, hb, htail, -⟩ := exists_blank tail
    obtain ⟨raw, hraw, hwritten, hstops⟩ := written_of_parseValue hvalue
    refine ⟨_, ?_, .notEquals hkey ha hb hwritten, stops_of_isValueEnd hstops⟩
    rw [hinput, heq, htail, hraw]
    simp
  · cases h
  · unfold parseSetOperator at h
    split at h
    · rename_i tail htail
      obtain ⟨⟨values, left⟩, hvalues, h⟩ := Result.bind_eq_ok.mp h
      cases h
      obtain ⟨blank, hblank, hne, rfl⟩ :=
        exists_blank_of_keyword (by decide : keywordIn.head?.any _ = true) htail hend
      obtain ⟨b, hb, hsplit, -⟩ := exists_blank tail
      obtain ⟨text, htext, hlist, hcount⟩ := written_of_parseSet hvalues
      refine ⟨_, ?_, .in_ hkey hblank hne hb hlist hcount, trivial⟩
      rw [hsplit, htext]
      simp
    · split at h
      · rename_i tail htail
        obtain ⟨⟨values, left⟩, hvalues, h⟩ := Result.bind_eq_ok.mp h
        cases h
        obtain ⟨blank, hblank, hne, rfl⟩ :=
          exists_blank_of_keyword (by decide : keywordNotin.head?.any _ = true) htail hend
        obtain ⟨b, hb, hsplit, -⟩ := exists_blank tail
        obtain ⟨text, htext, hlist, hcount⟩ := written_of_parseSet hvalues
        refine ⟨_, ?_, .notIn hkey hblank hne hb hlist hcount, trivial⟩
        rw [hsplit, htext]
        simp
      · cases h

/-- Where no operator is read, the cursor stays. -/
theorem rest_of_parseOperatorTail_none {rest : Characters} {key : QualifiedTag}
    (h : parseOperatorTail key input = .ok (none, rest)) : rest = input := by
  have hset : ∀ {α : Type} {x : Result α} {f : α → Result (Option Predicate × Characters)},
      x >>= f = .ok (none, rest) → (∀ a, ∀ r, f a ≠ .ok (none, r)) → False := by
    intro α x f hx hf
    obtain ⟨a, -, ha⟩ := Result.bind_eq_ok.mp hx
    exact hf a rest ha
  unfold parseOperatorTail parseSetOperator at h
  split at h
  · exact (hset h fun _ _ hf => by cases hf).elim
  · exact (hset h fun _ _ hf => by cases hf).elim
  · cases h
    rfl
  · split at h
    · exact (hset h fun _ _ hf => by cases hf).elim
    · split at h
      · exact (hset h fun _ _ hf => by cases hf).elim
      · cases h
        rfl

theorem written_of_parsePredicate {rest : Characters} {predicate : Predicate}
    (h : parsePredicate input = .ok (predicate, rest)) :
    ∃ text, input = text ++ rest ∧ WrittenPredicate text predicate ∧
      ∀ predicates, Written rest predicates → predicate.Follows rest := by
  unfold parsePredicate at h
  split at h
  · obtain ⟨⟨key, left⟩, hkey, h⟩ := Result.bind_eq_ok.mp h
    cases h
    obtain ⟨word, rfl, hwritten, hend⟩ := written_of_parseKey hkey
    exact ⟨'!' :: word, rfl, .notExists hwritten, fun _ hrest => hrest.stops hend⟩
  · obtain ⟨⟨key, tail⟩, hkey, h⟩ := Result.bind_eq_ok.mp h
    obtain ⟨⟨found, left⟩, htail, h⟩ := Result.bind_eq_ok.mp h
    cases h
    obtain ⟨word, rfl, hwritten, hend⟩ := written_of_parseKey hkey
    cases found with
    | none =>
      obtain rfl := rest_of_parseOperatorTail_none htail
      exact ⟨word, rfl, .exists_ hwritten, fun _ hrest => hrest.stops hend⟩
    | some operator =>
      obtain ⟨text, htext, hpredicate, hfollows⟩ := written_of_parseOperatorTail hwritten hend htail
      exact ⟨text, htext, hpredicate, fun _ _ => hfollows⟩

/-- What the parser reads is written. -/
theorem written_of_stream {enforce : Bool} {count : Nat} {predicates : List Predicate}
    (h : parsePredicateStream enforce count input = .ok predicates) : Written input predicates := by
  fun_induction parsePredicateStream enforce count input generalizing predicates with
  | case1 count input hskip =>
    cases h
    obtain ⟨blank, hblank, hinput, -⟩ := exists_blank input
    rw [hskip, List.append_nil] at hinput
    rw [hinput]
    exact .nil hblank
  | case2 => cases h
  | case3 => cases h
  | case4 count input hskip hroom predicate rest hparse ih =>
    obtain ⟨others, hothers, h⟩ := Result.bind_eq_ok.mp h
    cases h
    have hrest := ih hothers
    obtain ⟨blank, hblank, hinput, -⟩ := exists_blank input
    obtain ⟨text, htext, hpredicate, hfollows⟩ := written_of_parsePredicate hparse
    rw [hinput, htext]
    exact .cons hblank hpredicate (hfollows _ hrest) hrest

/-- The bound on their number holds of the predicates that are read under it. -/
theorem length_of_stream {count : Nat} {predicates : List Predicate}
    (h : parsePredicateStream true count input = .ok predicates)
    (hcount : count ≤ selectorMaxPredicates) :
    count + predicates.length ≤ selectorMaxPredicates := by
  fun_induction parsePredicateStream true count input generalizing predicates with
  | case1 =>
    cases h
    exact hcount
  | case2 => cases h
  | case3 => cases h
  | case4 count input hskip hroom predicate rest hparse ih =>
    obtain ⟨others, hothers, h⟩ := Result.bind_eq_ok.mp h
    cases h
    simp only [true_and, Nat.not_le] at hroom
    have hle := ih hothers (by omega)
    simp only [List.length_cons]
    omega

/-- A text reads in one way. -/
theorem Written.unique {text : Characters} {a b : List Predicate} (ha : Written text a)
    (hb : Written text b) : a = b := by
  have hreadA := stream_of_written ha (show false = true → 0 + a.length ≤ _ from nofun)
  have hreadB := stream_of_written hb (show false = true → 0 + b.length ≤ _ from nofun)
  rw [hreadA] at hreadB
  cases hreadB
  rfl

end Radiata
