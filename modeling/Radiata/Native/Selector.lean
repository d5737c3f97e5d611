import Radiata.ForStd.Characters
import Radiata.Native.Resource

/-!
# Selectors

`src/routing.rs`: a selector is a conjunction of predicates over label keys. A text is read
by a cursor, here the text that is left of it, and the predicates that were read are written
again in one canonical text: sorted, without repetitions, and with their values escaped. The
selector keeps that text and what it reads as.
-/

namespace Radiata

open Characters
open Except (rejectIf)

def selectorInputMaxBytes : Nat := 1024
def selectorMaxPredicates : Nat := 16
def selectorMaxSetValues : Nat := 16

def reservedTypeLabelKey : Bytes := Bytes.utf8 "radiata.woooo.tech/resources/type"
def reservedUriLabelKey : Bytes := Bytes.utf8 "radiata.woooo.tech/resources/uri"

/-! ## Escapes -/

/-- The characters that stand for themselves after a backslash. -/
def isEscapedLiterally (c : Char) : Bool :=
  c == '\\' || c == ',' || c == '(' || c == ')' || c == '=' || c == '!'

/-- The canonical spelling of one character of a value. -/
def escapeChar (c : Char) : Characters :=
  match c with
  | ' ' => ['\\', ' ']
  | '\t' => ['\\', 't']
  | '\n' => ['\\', 'n']
  | '\r' => ['\\', 'r']
  | _ => if isEscapedLiterally c then ['\\', c] else [c]

def escapeValue (value : Characters) : Characters := value.flatMap escapeChar

/-- The character an escape letter stands for. -/
def unescape (escaped : Char) : Option Char :=
  match escaped with
  | ' ' => some ' '
  | 't' => some '\t'
  | 'n' => some '\n'
  | 'r' => some '\r'
  | _ => if isEscapedLiterally escaped then some escaped else none

/-! ## Predicates -/

def keywordIn : Characters := ['i', 'n']
def keywordNotin : Characters := ['n', 'o', 't', 'i', 'n']

section Predicates

variable [DnsName]

/-- One parsed predicate. -/
inductive Predicate
  | exists_ (key : QualifiedTag)
  | notExists (key : QualifiedTag)
  | equals (key : QualifiedTag) (value : Characters)
  | notEquals (key : QualifiedTag) (value : Characters)
  | in_ (key : QualifiedTag) (values : List Characters)
  | notIn (key : QualifiedTag) (values : List Characters)
  deriving DecidableEq

/-- The characters of a key. -/
def keyText (key : QualifiedTag) : Characters := ofAscii key.asStr

/-- The comma-joined text of a set of values. -/
def canonicalSet (values : List Characters) : Characters :=
  [','].intercalate ((values.sortDedup utf8).map escapeValue)

namespace Predicate

/-- `Predicate::matches`; `lookup` finds the text stored under a key. -/
def «matches» (lookup : QualifiedTag → Option Bytes) : Predicate → Bool
  | exists_ key => (lookup key).isSome
  | notExists key => (lookup key).isNone
  | equals key value => lookup key == some value.utf8
  | notEquals key value => (lookup key).all fun found => found != value.utf8
  | in_ key values => (lookup key).any fun found => values.any fun value => value.utf8 == found
  | notIn key values =>
    (lookup key).all fun found => !values.any fun value => value.utf8 == found

/-- The canonical text of a predicate. -/
def canonical : Predicate → Characters
  | exists_ key => keyText key
  | notExists key => '!' :: keyText key
  | equals key value => keyText key ++ '=' :: escapeValue value
  | notEquals key value => keyText key ++ '!' :: '=' :: escapeValue value
  | in_ key values =>
    keyText key ++ ' ' :: (keywordIn ++ ' ' :: '(' :: (canonicalSet values ++ [')']))
  | notIn key values =>
    keyText key ++ ' ' :: (keywordNotin ++ ' ' :: '(' :: (canonicalSet values ++ [')']))

end Predicate

end Predicates

/-! ## The cursor -/

/-- The characters that end a key. -/
def isKeyEnd (c : Char) : Bool :=
  isWhitespace c || c == '=' || c == '!' || c == '(' || c == ')' || c == ',' || c == '\\'

section Parser

variable [DnsName]

/-- The keys a selector may name: custom labels, and the two reserved resource labels. -/
def Selectable (tag : QualifiedTag) : Prop :=
  tag.category = categoryLabels ∨ (tag.category = categoryResources ∧
    (tag.asStr = reservedTypeLabelKey ∨ tag.asStr = reservedUriLabelKey))

instance (tag : QualifiedTag) : Decidable (Selectable tag) :=
  inferInstanceAs (Decidable (_ ∨ _))

/-- `SelectorParser::parse_key` -/
def parseKey (input : Characters) : Result (QualifiedTag × Characters) := do
  let tag ← QualifiedTag.parse (utf8 (input.takeWhile fun c => !isKeyEnd c))
  if Selectable tag then return (tag, input.dropWhile fun c => !isKeyEnd c)
  else throw (.invalidInput "selector key")

end Parser

/-- The loop of `SelectorParser::parse_value`: the value up to its delimiter. -/
def readValue (inList : Bool) : Characters → Result (Characters × Characters)
  | [] => .ok ([], [])
  | '\\' :: [] => .error (.invalidInput "selector escape")
  | '\\' :: escaped :: rest =>
    match unescape escaped with
    | none => .error (.invalidInput "selector escape")
    | some c => do
      let (value, rest) ← readValue inList rest
      return (c :: value, rest)
  | c :: rest =>
    if isWhitespace c then .ok ([], c :: rest)
    else if inList ∧ (c = ',' ∨ c = ')') then .ok ([], c :: rest)
    else if c = '(' ∨ c = ')' ∨ c = ',' ∨ c = '=' ∨ c = '!' then
      .error (.invalidInput "selector value")
    else do
      let (value, rest) ← readValue inList rest
      return (c :: value, rest)

/-- `SelectorParser::parse_value` -/
def parseValue (inList : Bool) (input : Characters) : Result (Characters × Characters) := do
  let (value, rest) ← readValue inList input
  rejectIf (value = [] ∨ labelValueMaxBytes < value.utf8.length) (.invalidInput "selector value")
  return (value, rest)

/-- The loop of `SelectorParser::parse_set`, with room for so many values. -/
def readSet : Nat → Characters → Result (List Characters × Characters)
  | 0, _ => .error (.resourceExhausted "selector set values")
  | room + 1, input => do
    let (value, rest) ← parseValue true (skipWhitespace input)
    match skipWhitespace rest with
    | ',' :: rest => do
      let (values, rest) ← readSet room rest
      return (value :: values, rest)
    | ')' :: rest => return ([value], rest)
    | _ => throw (.invalidInput "selector set")

/-- `SelectorParser::parse_set` -/
def parseSet : Characters → Result (List Characters × Characters)
  | '(' :: rest => readSet selectorMaxSetValues rest
  | _ => .error (.invalidInput "selector set")

/-- What follows the keyword, where it stands as a word of its own. -/
def keywordTail (keyword input : Characters) : Option Characters :=
  if keyword <+: input then
    let rest := input.drop keyword.length
    if rest.head?.all fun c => isWhitespace c || c == '(' then some rest else none
  else none

section Parser

variable [DnsName]

/-- The set operators of `parse_operator_tail`, with the cursor at `text` after the white space
    behind the key. -/
def parseSetOperator (key : QualifiedTag) (input text : Characters) :
    Result (Option Predicate × Characters) :=
  match keywordTail keywordIn text with
  | some rest => do
    let (values, rest) ← parseSet (skipWhitespace rest)
    return (some (.in_ key values), rest)
  | none =>
    match keywordTail keywordNotin text with
    | some rest => do
      let (values, rest) ← parseSet (skipWhitespace rest)
      return (some (.notIn key values), rest)
    | none => return (none, input)

/-- `SelectorParser::parse_operator_tail`: the cursor stays at the end of the key where no
    operator follows. -/
def parseOperatorTail (key : QualifiedTag) (input : Characters) :
    Result (Option Predicate × Characters) :=
  match skipWhitespace input with
  | '=' :: rest => do
    let (value, rest) ← parseValue false (skipWhitespace rest)
    return (some (.equals key value), rest)
  | '!' :: '=' :: rest => do
    let (value, rest) ← parseValue false (skipWhitespace rest)
    return (some (.notEquals key value), rest)
  | '!' :: _ => return (none, input)
  | text => parseSetOperator key input text

/-- The predicate at the cursor: the body of the loop of `parse_predicate_stream`. -/
def parsePredicate : Characters → Result (Predicate × Characters)
  | '!' :: rest => do
    let (key, rest) ← parseKey rest
    return (.notExists key, rest)
  | input => do
    let (key, rest) ← parseKey input
    let (predicate, rest) ← parseOperatorTail key rest
    return (predicate.getD (.exists_ key), rest)

/-! ## A predicate moves the cursor -/

theorem parseKey_eq_ok {input rest : Characters} {key : QualifiedTag} :
    parseKey input = .ok (key, rest) ↔
      QualifiedTag.parse (utf8 (input.takeWhile fun c => !isKeyEnd c)) = .ok key ∧
        Selectable key ∧ rest = input.dropWhile fun c => !isKeyEnd c := by
  simp only [parseKey, Result.bind_eq_ok]
  constructor
  · intro h
    obtain ⟨tag, htag, h⟩ := h
    split at h
    · rename_i hselectable
      cases h
      exact ⟨htag, hselectable, rfl⟩
    · cases h
  · intro h
    obtain ⟨htag, hselectable, rfl⟩ := h
    exact ⟨key, htag, by rw [if_pos hselectable]; rfl⟩

/-- A key has characters. -/
theorem length_of_parseKey {input rest : Characters} {key : QualifiedTag}
    (h : parseKey input = .ok (key, rest)) : rest.length < input.length := by
  obtain ⟨hkey, -, rfl⟩ := parseKey_eq_ok.mp h
  have hsplit := congrArg List.length
    (List.takeWhile_append_dropWhile (p := fun c => !isKeyEnd c) (l := input))
  have hword : input.takeWhile (fun c => !isKeyEnd c) ≠ [] := by
    intro hnil
    obtain ⟨host, category, name, htext, -⟩ :=
      QualifiedTag.parseTagFields_eq_ok (QualifiedTag.asStr_of_parse hkey)
    rw [hnil, utf8_nil] at htext
    simp at htext
  have hpos := List.length_pos_iff.mpr hword
  rw [List.length_append] at hsplit
  omega

end Parser

theorem length_of_readValue {inList : Bool} {input value rest : Characters}
    (h : readValue inList input = .ok (value, rest)) : rest.length ≤ input.length := by
  fun_induction readValue inList input generalizing value with
  | case1 => cases h; exact Nat.le_refl _
  | case2 => cases h
  | case3 => cases h
  | case4 escaped tail c hc ih =>
    obtain ⟨⟨v, r⟩, hv, h⟩ := Result.bind_eq_ok.mp h
    cases h
    have := ih hv
    simp only [List.length_cons]
    omega
  | case5 => cases h; exact Nat.le_refl _
  | case6 => cases h; exact Nat.le_refl _
  | case7 => cases h
  | case8 c tail _ _ _ _ _ ih =>
    obtain ⟨⟨v, r⟩, hv, h⟩ := Result.bind_eq_ok.mp h
    cases h
    have := ih hv
    simp only [List.length_cons]
    omega

theorem parseValue_eq_ok {inList : Bool} {input value rest : Characters} :
    parseValue inList input = .ok (value, rest) ↔
      readValue inList input = .ok (value, rest) ∧ value ≠ [] ∧
        value.utf8.length ≤ labelValueMaxBytes := by
  simp only [parseValue, Result.bind_eq_ok, Except.rejectIf_eq_ok]
  constructor
  · intro h
    obtain ⟨⟨v, r⟩, hread, -, hbounds, h⟩ := h
    cases h
    rw [not_or, Nat.not_lt] at hbounds
    exact ⟨hread, hbounds⟩
  · intro h
    obtain ⟨hread, hbounds⟩ := h
    refine ⟨(value, rest), hread, (), ?_, rfl⟩
    rw [not_or, Nat.not_lt]
    exact hbounds

theorem length_of_parseValue {inList : Bool} {input value rest : Characters}
    (h : parseValue inList input = .ok (value, rest)) : rest.length ≤ input.length :=
  length_of_readValue (parseValue_eq_ok.mp h).1

theorem length_of_readSet {room : Nat} {input rest : Characters} {values : List Characters}
    (h : readSet room input = .ok (values, rest)) : rest.length ≤ input.length := by
  induction room generalizing input values with
  | zero => cases h
  | succ room ih =>
    rw [readSet] at h
    obtain ⟨⟨value, tail⟩, hvalue, h⟩ := Result.bind_eq_ok.mp h
    have hle := length_of_parseValue hvalue
    have hblank := length_skipWhitespace_le input
    have hblank' := length_skipWhitespace_le tail
    dsimp only at h
    split at h
    · rename_i more hmore
      obtain ⟨⟨others, left⟩, hothers, h⟩ := Result.bind_eq_ok.mp h
      cases h
      have hlen := ih hothers
      rw [hmore, List.length_cons] at hblank'
      omega
    · rename_i more hmore
      cases h
      rw [hmore, List.length_cons] at hblank'
      omega
    · cases h

theorem length_of_parseSet {input rest : Characters} {values : List Characters}
    (h : parseSet input = .ok (values, rest)) : rest.length ≤ input.length := by
  unfold parseSet at h
  split at h
  · have hlen := length_of_readSet h
    rw [List.length_cons]
    omega
  · cases h

theorem keywordTail_eq_some {keyword input rest : Characters} :
    keywordTail keyword input = some rest ↔
      input = keyword ++ rest ∧ Stops (fun c => isWhitespace c || c == '(') rest := by
  unfold keywordTail Stops
  constructor
  · intro h
    split at h
    · rename_i hstart
      obtain ⟨tail, rfl⟩ := hstart
      simp only [List.drop_left] at h
      split at h
      · rename_i hboundary
        cases h
        exact ⟨rfl, hboundary⟩
      · cases h
    · cases h
  · intro h
    obtain ⟨rfl, hboundary⟩ := h
    rw [if_pos (List.prefix_append keyword rest)]
    simp only [List.drop_left]
    rw [if_pos hboundary]

section Parser

variable [DnsName]

theorem length_of_parseSetOperator {key : QualifiedTag} {input text rest : Characters}
    {predicate : Option Predicate} (hle : text.length ≤ input.length)
    (h : parseSetOperator key input text = .ok (predicate, rest)) :
    rest.length ≤ input.length := by
  have hset : ∀ {keyword tail left : Characters} {values : List Characters},
      keywordTail keyword text = some tail →
      parseSet (skipWhitespace tail) = .ok (values, left) → left.length ≤ input.length := by
    intro keyword tail left values htail hvalues
    have hlen := length_of_parseSet hvalues
    have hblank := length_skipWhitespace_le tail
    have hcut := congrArg List.length (keywordTail_eq_some.mp htail).1
    rw [List.length_append] at hcut
    omega
  unfold parseSetOperator at h
  split at h
  · rename_i tail htail
    obtain ⟨⟨values, left⟩, hvalues, h⟩ := Result.bind_eq_ok.mp h
    cases h
    exact hset htail hvalues
  · split at h
    · rename_i tail htail
      obtain ⟨⟨values, left⟩, hvalues, h⟩ := Result.bind_eq_ok.mp h
      cases h
      exact hset htail hvalues
    · cases h
      exact Nat.le_refl _

theorem length_of_parseOperatorTail {key : QualifiedTag} {input rest : Characters}
    {predicate : Option Predicate} (h : parseOperatorTail key input = .ok (predicate, rest)) :
    rest.length ≤ input.length := by
  have hblank := length_skipWhitespace_le input
  unfold parseOperatorTail at h
  split at h
  · rename_i tail heq
    obtain ⟨⟨value, left⟩, hvalue, h⟩ := Result.bind_eq_ok.mp h
    cases h
    have hlen := length_of_parseValue hvalue
    have hblank' := length_skipWhitespace_le tail
    rw [heq, List.length_cons] at hblank
    omega
  · rename_i tail heq
    obtain ⟨⟨value, left⟩, hvalue, h⟩ := Result.bind_eq_ok.mp h
    cases h
    have hlen := length_of_parseValue hvalue
    have hblank' := length_skipWhitespace_le tail
    rw [heq, List.length_cons, List.length_cons] at hblank
    omega
  · cases h
    exact Nat.le_refl _
  · exact length_of_parseSetOperator hblank h

theorem length_of_parsePredicate {input rest : Characters} {predicate : Predicate}
    (h : parsePredicate input = .ok (predicate, rest)) : rest.length < input.length := by
  unfold parsePredicate at h
  split at h
  · obtain ⟨⟨key, left⟩, hkey, h⟩ := Result.bind_eq_ok.mp h
    cases h
    have hlen := length_of_parseKey hkey
    rw [List.length_cons]
    omega
  · obtain ⟨⟨key, tail⟩, hkey, h⟩ := Result.bind_eq_ok.mp h
    obtain ⟨⟨found, left⟩, htail, h⟩ := Result.bind_eq_ok.mp h
    cases h
    have hlen := length_of_parseKey hkey
    have hle := length_of_parseOperatorTail htail
    omega

/-! ## Selectors -/

/-- `Selector::parse_predicate_stream`, after `count` predicates. -/
def parsePredicateStream (enforcePredicateBound : Bool) (count : Nat) (input : Characters) :
    Result (List Predicate) :=
  if skipWhitespace input = [] then .ok []
  else if enforcePredicateBound ∧ selectorMaxPredicates ≤ count then
    .error (.resourceExhausted "selector predicates")
  else
    match h : parsePredicate (skipWhitespace input) with
    | .error e => .error e
    | .ok (predicate, rest) => do
      let predicates ← parsePredicateStream enforcePredicateBound (count + 1) rest
      return predicate :: predicates
termination_by input.length
decreasing_by
  have hlen := length_of_parsePredicate h
  have hblank := length_skipWhitespace_le input
  omega

/-- A selector: its canonical text, and the predicates that text reads as. -/
structure Selector where
  canonical : Characters
  predicates : List Predicate
  deriving DecidableEq

namespace Selector

/-- The text of the sorted predicates. -/
def canonicalText (predicates : List Predicate) : Characters :=
  [' '].intercalate ((predicates.map Predicate.canonical).sortDedup utf8)

/-- `Selector::parse_predicates` -/
def parsePredicates (canonical : Characters) : Result (List Predicate) :=
  parsePredicateStream false 0 canonical

def parse (value : Characters) : Result Selector := do
  rejectIf (value = [] ∨ selectorInputMaxBytes < value.utf8.length) (.invalidInput "selector input")
  let predicates ← parsePredicateStream true 0 value
  rejectIf (predicates = []) (.invalidInput "selector input")
  let canonical := canonicalText predicates
  rejectIf (selectorInputMaxBytes < canonical.utf8.length) (.invalidInput "selector input")
  let reparsed ← parsePredicates canonical
  return { canonical, predicates := reparsed }

def asStr (selector : Selector) : Characters := selector.canonical

def matchesWith (selector : Selector) (lookup : QualifiedTag → Option Bytes) : Bool :=
  selector.predicates.all fun predicate => predicate.matches lookup

/-- The value a label set has under a tag of the `labels` category. -/
def lookupLabel (labels : LabelSet) (tag : QualifiedTag) : Option Bytes :=
  if h : tag.category = categoryLabels then (labels.entries.get ⟨tag, h⟩).map LabelValue.asStr
  else none

/-- `Selector::matches` -/
def «matches» (selector : Selector) (labels : LabelSet) : Bool :=
  selector.matchesWith (lookupLabel labels)

end Selector

end Parser

end Radiata
