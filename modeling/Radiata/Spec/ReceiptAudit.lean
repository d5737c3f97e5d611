import Radiata.Spec.ReceiptKeys

/-!
# The reference index audit

`audit_reference_index` counts the edge records of a receipt and compares the
count with the head and anchor it was given. When it succeeds its result is the
number of edge records; it succeeds on every index whose head, anchor and edges
agree.

## Key results

- `auditReferenceIndex_eq_ok`: what a successful audit says
- `auditReferenceIndex_of_agree`: the audit succeeds on agreeing records
-/

namespace Radiata

/-! ## Counts -/

variable {count : UInt64}

theorem decodeReferenceCount_encode (h : count ≠ 0) :
    decodeReferenceCount (encodeReferenceCount count) = .ok count := by
  have hread : UInt64.ofNat (Bytes.ofBE (u64ToBEBytes count)) = count := by
    rw [u64ToBEBytes, Bytes.ofBE_toBE 8 _ (by simpa using count.toNat_lt), UInt64.ofNat_toNat]
  simp [decodeReferenceCount, encodeReferenceCount, hread, h]

theorem decodeReferenceCount_ne_zero {value : StoreValue}
    (h : decodeReferenceCount value = .ok count) : count ≠ 0 := by
  simp only [decodeReferenceCount] at h
  split at h
  · cases h
  · split at h
    · cases h
    · rename_i hne
      cases h
      exact hne

theorem incrementReferenceCount_eq_ok {next : UInt64}
    (h : incrementReferenceCount count = .ok next) : next.toNat = count.toNat + 1 := by
  simp only [incrementReferenceCount] at h
  split at h
  · rename_i hnext
    cases h
    exact checkedAdd_eq_some.mp hnext
  · cases h

variable [DnsName]

/-! ## The scan -/

variable {internal : StoreNamespace}

/-- A successful scan counts its entries, and every entry has the form of an edge. -/
theorem foldlM_auditEntry_eq_ok {keyPrefix : Bytes} {entries : List StoreEntry} {start : UInt64}
    (h : entries.foldlM (auditEntry internal keyPrefix) start = .ok count) :
    count.toNat = start.toNat + entries.length ∧
      ∀ e ∈ entries, e.key.asBytes.length = keyPrefix.length + referenceTokenWidth := by
  induction entries generalizing start with
  | nil => cases h; simp
  | cons e entries ih =>
    rw [List.foldlM_cons] at h
    obtain ⟨next, hentry, hrest⟩ := Result.bind_eq_ok.mp h
    simp only [auditEntry] at hentry
    split at hentry
    · cases hentry
    · rename_i hform
      rw [not_or, not_or, not_or] at hform
      have hnext := incrementReferenceCount_eq_ok hentry
      obtain ⟨hcount, hall⟩ := ih hrest
      refine ⟨by rw [hcount, hnext, List.length_cons]; omega, ?_⟩
      intro e' he'
      rcases List.mem_cons.mp he' with rfl | he'
      · exact not_not.mp hform.2.2.1
      · exact hall e' he'

/-- The scan succeeds on well-formed edges whose number fits a count. -/
theorem foldlM_auditEntry_of_form {internal : StoreNamespace} {keyPrefix : Bytes}
    {entries : List StoreEntry} {start : UInt64}
    (hform : ∀ e ∈ entries, e.namespaceTag = internal ∧ keyPrefix <+: e.key.asBytes ∧
      e.key.asBytes.length = keyPrefix.length + referenceTokenWidth ∧ e.value.asBytes = [])
    (hfits : start.toNat + entries.length < 2 ^ 64) :
    ∃ count, entries.foldlM (auditEntry internal keyPrefix) start = .ok count ∧
      count.toNat = start.toNat + entries.length := by
  induction entries generalizing start with
  | nil => exact ⟨start, rfl, rfl⟩
  | cons e entries ih =>
    rw [List.length_cons] at hfits
    obtain ⟨hns, hpre, hlen, hvalue⟩ := hform e (List.mem_cons_self ..)
    have hsome : checkedAdd start 1 = some (start + 1) := by
      simp only [checkedAdd]
      rw [if_pos (by simp only [UInt64.toNat_one]; omega)]
    have hnext := checkedAdd_eq_some.mp hsome
    rw [UInt64.toNat_one] at hnext
    have hentry : auditEntry internal keyPrefix start e = .ok (start + 1) := by
      simp [auditEntry, hns, hpre, hlen, hvalue, incrementReferenceCount, hsome]
    obtain ⟨count, hcount, hnat⟩ := @ih (start + 1)
      (fun e' he' => hform e' (List.mem_cons_of_mem e he')) (by omega)
    refine ⟨count, ?_, by rw [hnat, hnext, List.length_cons]; omega⟩
    rw [List.foldlM_cons, hentry]
    exact hcount

variable {snapshot : StoreSnapshot}

/-- The entries of a scan. -/
theorem mem_scan {namespaceTag : StoreNamespace} {keyPrefix : Bytes} {e : StoreEntry} :
    e ∈ snapshot.scan namespaceTag keyPrefix ↔
      snapshot.get e.namespaceTag e.key = some e.value ∧ e.namespaceTag = namespaceTag ∧
        keyPrefix <+: e.key.asBytes := by
  simp only [StoreSnapshot.scan, List.mem_filterMap, StoreSnapshot.get]
  constructor
  · rintro ⟨⟨k, v⟩, hmem, hsome⟩
    simp only at hsome
    split at hsome
    · rename_i hcond
      cases hsome
      exact ⟨(SortedMap.mem_toList_iff _ _ _).mp hmem, hcond⟩
    · cases hsome
  · rintro ⟨hget, rfl, hpre⟩
    refine ⟨(⟨e.namespaceTag, e.key⟩, e.value), (SortedMap.mem_toList_iff _ _ _).mpr hget, ?_⟩
    simp [hpre]

/-- The number of entries of a scan is the number of keys it ranges over. -/
theorem length_scan (snapshot : StoreSnapshot) (namespaceTag : StoreNamespace)
    (keyPrefix : Bytes) :
    (snapshot.scan namespaceTag keyPrefix).length =
      snapshot.entries.countKeys
        (fun k => decide (k.namespaceTag = namespaceTag ∧ keyPrefix <+: k.key.asBytes)) := by
  rw [StoreSnapshot.scan, SortedMap.countKeys]
  induction snapshot.entries.toList with
  | nil => rfl
  | cons e entries ih =>
    rw [List.filterMap_cons, List.countP_cons, ← ih]
    by_cases hcond : e.1.namespaceTag = namespaceTag ∧ keyPrefix <+: e.1.key.asBytes
    · simp [hcond]
    · simp [hcond]

variable {t : TransactionId}

/-- If every entry with the edge prefix has the length of an edge key, the scan ranges
    over the edges. -/
theorem length_scan_eq_countKeys (h : ∀ e ∈ snapshot.scan internal (referenceEdgePrefix t),
      e.key.asBytes.length = (referenceEdgePrefix t).length + referenceTokenWidth) :
    (snapshot.scan internal (referenceEdgePrefix t)).length =
      snapshot.entries.countKeys (isEdge internal t) := by
  rw [length_scan, SortedMap.countKeys, SortedMap.countKeys]
  refine List.countP_congr ?_
  rintro ⟨k, v⟩ hmem
  simp only [decide_eq_true_eq, isEdge]
  constructor
  · rintro ⟨hns, hpre⟩
    have hscan : (⟨k.namespaceTag, k.key, v⟩ : StoreEntry) ∈
        snapshot.scan internal (referenceEdgePrefix t) :=
      mem_scan.mpr ⟨(SortedMap.mem_toList_iff _ _ _).mp hmem, hns, hpre⟩
    exact ⟨hns, hpre, h _ hscan⟩
  · rintro ⟨hns, hpre, -⟩
    exact ⟨hns, hpre⟩

/-! ## The audit -/

/-- What a successful audit says. -/
theorem auditReferenceIndex_eq_ok {head anchor : Option StoreValue}
    (h : auditReferenceIndex snapshot internal t head anchor = .ok count) :
    count.toNat = snapshot.entries.countKeys (isEdge internal t) ∧
      (head = none → count = 0) ∧
      (∀ value, head = some value → decodeReferenceCount value = .ok count) ∧
      (count ≠ 0 → anchor = none) := by
  simp only [auditReferenceIndex] at h
  obtain ⟨scanned, hscan, h⟩ := Result.bind_eq_ok.mp h
  obtain ⟨hnat, hform⟩ := foldlM_auditEntry_eq_ok hscan
  obtain ⟨u, hhead, h⟩ := Result.bind_eq_ok.mp h
  split at h
  · cases h
  · rename_i hanchor
    cases h
    rw [not_and, Bool.not_eq_true, Option.isSome_eq_false_iff, Option.isNone_iff_eq_none] at hanchor
    refine ⟨?_, ?_, ?_, hanchor⟩
    · rw [hnat, length_scan_eq_countKeys hform]
      simp
    · rintro rfl
      by_contra hne
      simp [auditHead, hne] at hhead
    · rintro value rfl
      simp only [auditHead] at hhead
      obtain ⟨recorded, hdecode, hsame⟩ := Result.bind_eq_ok.mp hhead
      split at hsame
      · cases hsame
      · rename_i heq
        rw [not_not] at heq
        rw [hdecode, heq]

/-- The audit succeeds when the entries under the edge prefix are edges, the head
    records their number, and an anchored receipt has none. -/
theorem auditReferenceIndex_of_agree {head anchor : Option StoreValue}
    (hform : ∀ e ∈ snapshot.scan internal (referenceEdgePrefix t),
      e.key.asBytes.length = (referenceEdgePrefix t).length + referenceTokenWidth ∧
        e.value.asBytes = [])
    (hnone : head = none → snapshot.entries.countKeys (isEdge internal t) = 0)
    (hsome : ∀ value, head = some value → ∃ count, decodeReferenceCount value = .ok count ∧
      count.toNat = snapshot.entries.countKeys (isEdge internal t))
    (hanchor : anchor ≠ none → snapshot.entries.countKeys (isEdge internal t) = 0) :
    ∃ count, auditReferenceIndex snapshot internal t head anchor = .ok count := by
  have hlen := length_scan_eq_countKeys (fun e he => (hform e he).1)
  have hfits : (0 : UInt64).toNat + (snapshot.scan internal (referenceEdgePrefix t)).length
      < 2 ^ 64 := by
    rw [hlen]
    cases head with
    | none => rw [hnone rfl]; decide
    | some value =>
      obtain ⟨count, -, hcount⟩ := hsome value rfl
      rw [← hcount, UInt64.toNat_zero, Nat.zero_add]
      exact count.toNat_lt
  obtain ⟨count, hscan, hnat⟩ := @foldlM_auditEntry_of_form _ internal _ _ _ (by
    intro e he
    obtain ⟨-, hns, hpre⟩ := mem_scan.mp he
    exact ⟨hns, hpre, hform e he⟩) hfits
  rw [hlen, UInt64.toNat_zero, Nat.zero_add] at hnat
  have hzero : snapshot.entries.countKeys (isEdge internal t) = 0 → count = 0 := by
    intro hedges
    exact UInt64.toNat_inj.mp (by rw [hnat, hedges]; rfl)
  have hanchor' : ¬ (count ≠ 0 ∧ anchor.isSome = true) := by
    rintro ⟨hcount, hany⟩
    refine hcount (hzero (hanchor ?_))
    rintro rfl
    cases hany
  refine ⟨count, ?_⟩
  simp only [auditReferenceIndex, hscan, Result.ok_bind, if_neg hanchor']
  cases head with
  | none => simp [auditHead, hzero (hnone rfl)]
  | some value =>
    obtain ⟨recorded, hdecode, hrecorded⟩ := hsome value rfl
    have hsame : recorded = count := UInt64.toNat_inj.mp (by rw [hrecorded, hnat])
    simp [auditHead, hdecode, hsame]

end Radiata
