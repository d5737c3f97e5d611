import Radiata.ForStd.CborItem
import Radiata.ForStd.SortedMap
import Radiata.Native.Tag

/-!
# Labels

`src/label.rs`: label keys, bounded label values and label sets in the order of their keys.
A set is built by `insert`, which refuses a key twice and a 65th entry.
-/

namespace Radiata

open Cbor (Item)
open Except (rejectIf)

def labelValueMaxBytes : Nat := 256
def labelSetMaxEntries : Nat := 64

def categoryLabels : Bytes := Bytes.utf8 "labels"

/-- A label key. -/
abbrev LabelKey [DnsName] := CategoryTag categoryLabels

def LabelKey.parse [DnsName] (text : Bytes) : Result LabelKey := CategoryTag.parse "label key" text

/-- A bounded nonempty text. -/
structure LabelValue where
  asStr : Bytes
  nonempty : asStr ≠ []
  bounded : asStr.length ≤ labelValueMaxBytes
  utf8 : asStr.isUtf8 = true

instance : DecidableEq LabelValue := fun a b =>
  decidable_of_iff (a.asStr = b.asStr) <| by
    constructor
    · intro h
      cases a; cases b; simp_all
    · exact congrArg LabelValue.asStr

/-- The checks shared by label values and resource URIs; a text is UTF-8 by its type. -/
def parseLabelText (context : String) (text : Bytes) : Result LabelValue :=
  if h : text ≠ [] ∧ text.length ≤ labelValueMaxBytes ∧ text.isUtf8 = true then
    .ok ⟨text, h.1, h.2.1, h.2.2⟩
  else .error (.invalidInput context)

def LabelValue.parse (text : Bytes) : Result LabelValue := parseLabelText "label value" text

@[simp] theorem parseLabelText_asStr (context : String) (value : LabelValue) :
    parseLabelText context value.asStr = .ok value := by
  simp [parseLabelText, value.nonempty, value.bounded, value.utf8]

variable [DnsName]

/-- A label map of at most 64 entries. -/
structure LabelSet where
  entries : SortedMap LabelKey LabelValue
  bounded : entries.toList.length ≤ labelSetMaxEntries
  deriving DecidableEq

namespace LabelSet

def empty : LabelSet := ⟨.empty, Nat.zero_le _⟩

theorem ext_entries {a b : LabelSet} (h : a.entries = b.entries) : a = b := by
  cases a; cases b; simp_all

theorem bounded_insert {set : LabelSet} {key : LabelKey} (value : LabelValue)
    (hkey : ¬ set.entries.contains key = true)
    (hfull : ¬ labelSetMaxEntries ≤ set.entries.toList.length) :
    (set.entries.insert key value).toList.length ≤ labelSetMaxEntries := by
  have hnone : set.entries.get key = none := by
    simpa [SortedMap.contains] using hkey
  have hperm := set.entries.insert_perm key value
  rw [set.entries.erase_of_get_none hnone] at hperm
  rw [hperm.length_eq, List.length_cons]
  omega

/-- `LabelSet::insert` -/
def insert (set : LabelSet) (key : LabelKey) (value : LabelValue) : Result LabelSet :=
  if hkey : set.entries.contains key then .error (.conflict "label set")
  else if hfull : labelSetMaxEntries ≤ set.entries.toList.length then
    .error (.resourceExhausted "label set")
  else
    .ok ⟨set.entries.insert key value, bounded_insert value hkey hfull⟩

theorem insert_eq_ok {set result : LabelSet} {key : LabelKey} {value : LabelValue}
    (h : set.insert key value = .ok result) : result.entries = set.entries.insert key value := by
  unfold insert at h
  split at h
  · cases h
  split at h
  · cases h
  cases h
  rfl

/-- The pairs of texts a record carries. -/
def pairs (set : LabelSet) : List (Bytes × Bytes) :=
  set.entries.toList.map fun entry => (entry.1.asStr, entry.2.asStr)

/-- The loop with which decoders rebuild a set. -/
def insertPairs : LabelSet → List (Bytes × Bytes) → Result LabelSet
  | set, [] => .ok set
  | set, (key, value) :: rest => do
    let key ← LabelKey.parse key
    let value ← LabelValue.parse value
    insertPairs (← set.insert key value) rest

end LabelSet

/-! ## Wire -/

/-- A pair of texts as an array of two. -/
def pairItem (pair : Bytes × Bytes) : Item := .array [.text pair.1, .text pair.2]

/-- The decoder of a tuple wants its exact length. -/
def decodePair : Reader (Bytes × Bytes) := do
  let some length ← Cbor.decodeArray | failure
  if length ≠ 2 then failure
  let key ← Cbor.decodeStr
  let value ← Cbor.decodeStr
  return (key, value)

/-- The item of a list of pairs. -/
def pairsItem (pairs : List (Bytes × Bytes)) : Item := .array (pairs.map pairItem)

def decodePairs : Reader (List (Bytes × Bytes)) := Cbor.decodeVec decodePair

end Radiata
