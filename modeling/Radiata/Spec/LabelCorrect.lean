import Radiata.Native.Label
import Radiata.Spec.CborCorrect

/-!
# Labels read back

The pairs of a label set are written in the order of their keys, and the loops that insert
them again rebuild the set.

## Key results

- `reads_pairs`: the item of a list of pairs reads back
- `fits_pairs`: a list of pairs is within the limits of a record
- `LabelSet.insert_of_lt`: a key above all keys of a set is inserted at its end
- `LabelSet.insertPairs_pairs`: a set is rebuilt from its pairs
-/

namespace Radiata

open Cbor (Item)
open Reader (Reads)

/-- A pair of texts. -/
theorem reads_pair {pair : Bytes × Bytes} (hkey : pair.1.length < 2 ^ 64)
    (hvalue : pair.2.length < 2 ^ 64) (hkeyUtf8 : pair.1.isUtf8 = true)
    (hvalueUtf8 : pair.2.isUtf8 = true) : Reads decodePair (pairItem pair).encode pair := by
  have htexts : Reads (do
      let key ← Cbor.decodeStr
      let value ← Cbor.decodeStr
      return (key, value)) (Cbor.encodeStr pair.1 ++ Cbor.encodeStr pair.2) pair :=
    (Cbor.reads_str hkey hkeyUtf8).bind
      ((Cbor.reads_str hvalue hvalueUtf8).bind_nil (Reads.pure _))
  have hitem : (pairItem pair).encode =
      Cbor.encodeArray 2 ++ (Cbor.encodeStr pair.1 ++ Cbor.encodeStr pair.2) := by
    simp [pairItem, Item.encode, Item.encodeAll, Cbor.encodeArray, Cbor.encodeStr]
  rw [hitem]
  refine (Cbor.reads_array (by decide)).bind ?_
  exact htexts

/-- A list of pairs of texts. -/
theorem reads_pairs {pairs : List (Bytes × Bytes)} (hcount : pairs.length < 2 ^ 64)
    (h : ∀ pair ∈ pairs, pair.1.length < 2 ^ 64 ∧ pair.2.length < 2 ^ 64 ∧
      pair.1.isUtf8 = true ∧ pair.2.isUtf8 = true) :
    Reads decodePairs (pairsItem pairs).encode pairs := by
  have hitem : (pairsItem pairs).encode =
      Cbor.encodeArray pairs.length ++ pairs.flatMap fun pair => (pairItem pair).encode := by
    rw [pairsItem, Item.encode, Item.encodeAll_map, List.length_map]
  rw [hitem]
  refine Cbor.reads_vec hcount fun pair hpair => ?_
  obtain ⟨hkey, hvalue, hkeyUtf8, hvalueUtf8⟩ := h pair hpair
  exact reads_pair hkey hvalue hkeyUtf8 hvalueUtf8

/-- Pairs of UTF-8 texts are within limits that admit their number and their depth. -/
theorem fits_pairs {pairs : List (Bytes × Bytes)} {limits : CborLimits} {depth : Nat}
    (hutf8 : ∀ pair ∈ pairs, pair.1.isUtf8 = true ∧ pair.2.isUtf8 = true)
    (hdepth : depth + 1 < limits.maxDepth) (hpair : 2 ≤ limits.maxCollectionItems)
    (hcount : pairs.length ≤ limits.maxCollectionItems) : Fits limits depth (pairsItem pairs) := by
  simp only [pairsItem, Fits, fitsAll_iff, List.length_map, List.mem_map]
  refine ⟨by omega, hcount, ?_⟩
  rintro item ⟨pair, hmem, rfl⟩
  obtain ⟨hkey, hvalue⟩ := hutf8 pair hmem
  simp only [pairItem, Fits, FitsAll, List.length_cons, List.length_nil, and_true]
  exact ⟨by omega, by omega, hkey, hvalue⟩

theorem asStr_of_parseLabelText {context : String} {text : Bytes} {value : LabelValue}
    (h : parseLabelText context text = .ok value) : value.asStr = text := by
  unfold parseLabelText at h
  split at h
  · cases h
    rfl
  · cases h

variable [DnsName]

namespace LabelSet

/-- The pairs of a set are short texts. -/
theorem mem_pairs {set : LabelSet} {pair : Bytes × Bytes} (h : pair ∈ set.pairs) :
    pair.1.length < 2 ^ 64 ∧ pair.2.length < 2 ^ 64 ∧ pair.1.isUtf8 = true ∧
      pair.2.isUtf8 = true := by
  obtain ⟨⟨key, value⟩, -, rfl⟩ := List.mem_map.mp h
  have hkey : key.asStr.length ≤ 128 := key.tag.length_asStr_le
  have hvalue : value.asStr.length ≤ 256 := value.bounded
  exact ⟨by show key.asStr.length < 2 ^ 64; omega, by show value.asStr.length < 2 ^ 64; omega,
    key.tag.ascii.isUtf8, value.utf8⟩

theorem length_pairs (set : LabelSet) : set.pairs.length ≤ 64 := by
  rw [pairs, List.length_map]
  exact set.bounded

theorem reads_pairs (set : LabelSet) : Reads decodePairs (pairsItem set.pairs).encode set.pairs :=
  Radiata.reads_pairs (by have := set.length_pairs; omega) fun _ h => mem_pairs h

/-- A key above all keys of a set that is not full is inserted at its end. -/
theorem insert_of_lt {set : LabelSet} {key : LabelKey} (value : LabelValue)
    (hlt : ∀ entry ∈ set.entries.toList, entry.1 < key)
    (hroom : set.entries.toList.length < labelSetMaxEntries) :
    ∃ after, set.insert key value = .ok after ∧
      after.entries.toList = set.entries.toList ++ [(key, value)] := by
  have hnew : set.entries.contains key = false := by
    rw [Bool.eq_false_iff]
    intro hcontains
    obtain ⟨stored, hstored⟩ := (set.entries.contains_iff key).mp hcontains
    exact lt_irrefl key (hlt _ ((set.entries.mem_toList_iff key stored).mpr hstored))
  unfold insert
  rw [dif_neg (by simp [hnew]), dif_neg (Nat.not_le.mpr hroom)]
  exact ⟨_, rfl, set.entries.toList_insert_of_lt value hlt⟩

/-- The keys of the rest of a sorted list are above the keys before it. -/
theorem lt_of_sorted {front rest : List (LabelKey × LabelValue)} {entry : LabelKey × LabelValue}
    (h : (front ++ entry :: rest).Pairwise (·.1 < ·.1)) : ∀ other ∈ front, other.1 < entry.1 :=
  fun other hother => (List.pairwise_append.mp h).2.2 other hother entry (List.mem_cons_self ..)

/-- The texts of a list of labels. -/
def texts (labels : List (LabelKey × LabelValue)) : List (Bytes × Bytes) :=
  labels.map fun entry => (entry.1.asStr, entry.2.asStr)

theorem insertPairs_texts (hhosts : FoldedHosts) (rest : List (LabelKey × LabelValue))
    (set : LabelSet) (hsorted : (set.entries.toList ++ rest).Pairwise (·.1 < ·.1))
    (hlen : (set.entries.toList ++ rest).length ≤ labelSetMaxEntries) :
    ∃ after, set.insertPairs (texts rest) = .ok after ∧
      after.entries.toList = set.entries.toList ++ rest := by
  induction rest generalizing set with
  | nil => exact ⟨set, rfl, by simp⟩
  | cons entry rest ih =>
    obtain ⟨key, value⟩ := entry
    have hroom : set.entries.toList.length < labelSetMaxEntries := by
      rw [List.length_append, List.length_cons] at hlen
      omega
    obtain ⟨next, hinsert, hnext⟩ := insert_of_lt value (lt_of_sorted hsorted) hroom
    have hlist : next.entries.toList ++ rest = set.entries.toList ++ (key, value) :: rest := by
      rw [hnext, List.append_assoc]
      rfl
    obtain ⟨after, hafter, hentries⟩ := ih next (hlist ▸ hsorted) (hlist ▸ hlen)
    have hkey : LabelKey.parse key.asStr = .ok key :=
      CategoryTag.parse_asStr hhosts (by decide) "label key" key
    refine ⟨after, ?_, hentries.trans hlist⟩
    show insertPairs set ((key.asStr, value.asStr) :: texts rest) = .ok after
    rw [insertPairs, hkey, Result.ok_bind, LabelValue.parse, parseLabelText_asStr, Result.ok_bind,
      hinsert, Result.ok_bind]
    exact hafter

/-- A set is rebuilt from its pairs. -/
theorem insertPairs_pairs (hhosts : FoldedHosts) (set : LabelSet) :
    empty.insertPairs set.pairs = .ok set := by
  obtain ⟨after, hafter, hentries⟩ := insertPairs_texts hhosts set.entries.toList
    empty set.entries.sorted set.bounded
  rw [show set.pairs = texts set.entries.toList from rfl, hafter]
  refine congrArg Except.ok (ext_entries (SortedMap.ext_get fun key => ?_))
  rw [SortedMap.get, hentries]
  rfl

end LabelSet

end Radiata
