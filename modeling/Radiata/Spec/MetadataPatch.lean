import Mathlib.Data.Finset.Card
import Mathlib.Data.List.Perm.Subperm
import Radiata.Spec.LocalDescriptorCorrect

/-!
# Revisions of patched descriptors

`apply_metadata_patch` adds one to the revision it finds, and a revision may be any number a peer
wrote. At the largest one the sum wraps to zero, or panics where arithmetic is checked.

## Key results

- `applyMetadataPatch_isOk_iff`: the patches a descriptor takes
- `patched_revision_greater_iff`: when a patched descriptor has a greater revision
-/

namespace Radiata

section MetadataPatch

variable [DnsName]

/-! ## Labels -/

/-- The keys of a label set. -/
def LabelSet.keys (labels : LabelSet) : Finset LabelKey :=
  (labels.entries.toList.map Prod.fst).toFinset

variable {labels : LabelSet}

variable {key : LabelKey}

theorem LabelSet.mem_keys :
    key ∈ labels.keys ↔ labels.entries.contains key = true := by
  rw [keys, List.mem_toFinset, SortedMap.mem_keys, SortedMap.contains]

theorem LabelSet.card_keys (labels : LabelSet) :
    labels.keys.card = labels.entries.toList.length := by
  rw [keys, List.toFinset_card_of_nodup labels.entries.nodup_keys, List.length_map]

theorem LabelSet.keys_remove (labels : LabelSet) (key : LabelKey) :
    (labels.remove key).keys = labels.keys.erase key := by
  ext other
  rw [Finset.mem_erase, mem_keys, mem_keys, remove, SortedMap.contains, SortedMap.contains,
    SortedMap.get_erase]
  by_cases hother : other = key
  · simp [hother]
  · simp [hother]

variable {result : LabelSet}

theorem keys_of_insert {value : LabelValue} (h : labels.insert key value = .ok result) :
    result.keys = insert key labels.keys := by
  ext other
  rw [Finset.mem_insert, LabelSet.mem_keys, LabelSet.mem_keys, LabelSet.insert_eq_ok h,
    SortedMap.contains, SortedMap.contains, SortedMap.get_insert]
  by_cases hother : other = key
  · simp [hother]
  · simp [hother]

variable {label : LabelKey × LabelValue}

theorem keys_setLabel (h : setLabel labels label = .ok result) :
    result.keys = insert label.1 labels.keys := by
  rw [keys_of_insert h, LabelSet.keys_remove]
  ext key
  simp only [Finset.mem_insert, Finset.mem_erase]
  by_cases hkey : key = label.1
  · simp [hkey]
  · simp [hkey]

/-- The old value of the key goes first, so only the number of different keys counts. -/
theorem exists_setLabel_iff :
    (∃ result, setLabel labels label = .ok result) ↔
      (insert label.1 labels.keys).card ≤ labelSetMaxEntries := by
  constructor
  · intro ⟨result, h⟩
    rw [← keys_setLabel h, LabelSet.card_keys]
    exact result.bounded
  · intro h
    have habsent : ¬ (labels.remove label.1).entries.contains label.1 = true := by
      rw [← LabelSet.mem_keys, LabelSet.keys_remove]
      exact Finset.notMem_erase _ _
    have hfull : ¬ labelSetMaxEntries ≤ (labels.remove label.1).entries.toList.length := by
      have herase : (labels.keys.erase label.1).card < (insert label.1 labels.keys).card := by
        apply Finset.card_lt_card
        rw [Finset.ssubset_iff]
        exact ⟨label.1, Finset.notMem_erase _ _, Finset.insert_subset_insert _
          (Finset.erase_subset _ _)⟩
      rw [← LabelSet.keys_remove, LabelSet.card_keys] at herase
      omega
    rw [setLabel, LabelSet.insert, dif_neg habsent, dif_neg hfull]
    exact ⟨_, rfl⟩

/-- The keys of a label set with the labels that a patch sets. -/
def patchedKeys (labels : LabelSet) (edits : List (LabelKey × LabelValue)) : Finset LabelKey :=
  (edits.map Prod.fst).toFinset ∪ labels.keys

variable {edits : List (LabelKey × LabelValue)}

theorem patchedKeys_cons (h : setLabel labels label = .ok result) :
    patchedKeys result edits = patchedKeys labels (label :: edits) := by
  rw [patchedKeys, patchedKeys, keys_setLabel h, List.map_cons, List.toFinset_cons,
    Finset.insert_union, Finset.union_insert]

theorem keys_foldlM_setLabel (h : edits.foldlM setLabel labels = .ok result) :
    result.keys = patchedKeys labels edits := by
  induction edits generalizing labels with
  | nil =>
    cases h
    simp [patchedKeys]
  | cons label edits ih =>
    obtain ⟨next, hnext, h⟩ := Result.bind_eq_ok.mp h
    rw [ih h, patchedKeys_cons hnext]

theorem exists_foldlM_setLabel_iff :
    (∃ result, edits.foldlM setLabel labels = .ok result) ↔
      (patchedKeys labels edits).card ≤ labelSetMaxEntries := by
  constructor
  · intro ⟨result, h⟩
    rw [← keys_foldlM_setLabel h, LabelSet.card_keys]
    exact result.bounded
  · intro h
    induction edits generalizing labels with
    | nil => exact ⟨labels, rfl⟩
    | cons label edits ih =>
      have hfirst : insert label.1 labels.keys ⊆ patchedKeys labels (label :: edits) := by
        rw [patchedKeys, List.map_cons, List.toFinset_cons, Finset.insert_union]
        exact Finset.insert_subset_insert _ Finset.subset_union_right
      obtain ⟨next, hnext⟩ := exists_setLabel_iff.mpr ((Finset.card_le_card hfirst).trans h)
      rw [← patchedKeys_cons hnext] at h
      obtain ⟨result, hresult⟩ := ih h
      exact ⟨result, Result.bind_eq_ok.mpr ⟨next, hnext, hresult⟩⟩

theorem exists_removeLabel_iff :
    (∃ result, removeLabel labels key = .ok result) ↔ key ∈ labels.keys := by
  rw [LabelSet.mem_keys, removeLabel]
  split
  · simp [*]
  · simp [*]

theorem keys_removeLabel (h : removeLabel labels key = .ok result) :
    result.keys = labels.keys.erase key := by
  unfold removeLabel at h
  split at h
  · cases h
    exact LabelSet.keys_remove labels key
  · cases h

theorem exists_foldlM_removeLabel_iff {edits : List LabelKey} :
    (∃ result, edits.foldlM removeLabel labels = .ok result) ↔
      edits.Nodup ∧ ∀ key ∈ edits, key ∈ labels.keys := by
  induction edits generalizing labels with
  | nil => simp
  | cons key edits ih =>
    rw [List.nodup_cons, List.forall_mem_cons]
    constructor
    · intro ⟨result, h⟩
      obtain ⟨next, hnext, h⟩ := Result.bind_eq_ok.mp h
      obtain ⟨hnodup, hkeys⟩ := ih.mp ⟨result, h⟩
      rw [keys_removeLabel hnext] at hkeys
      exact ⟨⟨fun hkey => Finset.notMem_erase key labels.keys (hkeys key hkey), hnodup⟩,
        exists_removeLabel_iff.mp ⟨next, hnext⟩,
        fun other hother => Finset.mem_of_mem_erase (hkeys other hother)⟩
    · intro ⟨⟨hfresh, hnodup⟩, hkey, hkeys⟩
      obtain ⟨next, hnext⟩ := exists_removeLabel_iff.mpr hkey
      obtain ⟨result, h⟩ := ih.mpr ⟨hnodup, fun other hother => by
        rw [keys_removeLabel hnext, Finset.mem_erase]
        exact ⟨fun heq => hfresh (heq ▸ hother), hkeys other hother⟩⟩
      exact ⟨result, Result.bind_eq_ok.mpr ⟨next, hnext, h⟩⟩

/-! ## Endpoints -/

theorem foldlM_addEndpoint_iff {added endpoints result : List Endpoint} :
    added.foldlM addEndpoint endpoints = .ok result ↔
      (added.Nodup ∧ ∀ endpoint ∈ added, endpoint ∉ endpoints) ∧ result = endpoints ++ added := by
  induction added generalizing endpoints with
  | nil =>
    simp only [List.foldlM_nil, List.append_nil]
    constructor
    · intro h
      cases h
      simp
    · intro h
      rw [h.2]
      rfl
  | cons endpoint added ih =>
    rw [List.foldlM_cons, addEndpoint, List.nodup_cons, List.forall_mem_cons]
    by_cases hknown : endpoint ∈ endpoints
    · rw [if_pos hknown]
      constructor
      · intro h
        cases h
      · intro h
        exact absurd hknown h.1.2.1
    · rw [if_neg hknown, Result.ok_bind, ih, List.append_assoc, List.singleton_append]
      simp only [List.mem_append, List.mem_singleton, not_or]
      constructor
      · intro ⟨⟨hnodup, hfresh⟩, hresult⟩
        exact ⟨⟨⟨fun hmem => (hfresh endpoint hmem).2 rfl, hnodup⟩, hknown,
          fun other hother => (hfresh other hother).1⟩, hresult⟩
      · intro ⟨⟨⟨hmem, hnodup⟩, _, hfresh⟩, hresult⟩
        exact ⟨⟨hnodup, fun other hother =>
          ⟨hfresh other hother, fun heq => hmem (heq ▸ hother)⟩⟩, hresult⟩

/-- Each removal takes one occurrence, so the removed endpoints are all there with their
    multiplicity. -/
theorem exists_foldlM_removeEndpoint_iff {removed endpoints : List Endpoint} :
    (∃ result, removed.foldlM removeEndpoint endpoints = .ok result) ↔
      removed.Subperm endpoints := by
  induction removed generalizing endpoints with
  | nil => simp
  | cons endpoint removed ih =>
    rw [List.foldlM_cons, removeEndpoint]
    by_cases hknown : endpoint ∈ endpoints
    · rw [if_pos hknown, Result.ok_bind, ih]
      have hperm := List.perm_cons_erase hknown
      rw [hperm.subperm_left, List.subperm_cons]
    · rw [if_neg hknown]
      constructor
      · intro ⟨_, h⟩
        cases h
      · intro h
        exact absurd (h.subset (List.mem_cons_self ..)) hknown

/-! ## Patches -/

/-- A descriptor takes the patch: added endpoints are new, removed ones are there, the labels fit
    and removed labels are there once the others are set. -/
structure PatchParts.Applicable (parts : PatchParts) (descriptor : NodeDescriptor) : Prop where
  added : parts.addEndpoints.Nodup ∧ ∀ endpoint ∈ parts.addEndpoints,
    endpoint ∉ descriptor.endpoints
  removed : parts.removeEndpoints.Subperm (descriptor.endpoints ++ parts.addEndpoints)
  fits : (patchedKeys descriptor.labels parts.setLabels).card ≤ labelSetMaxEntries
  unlabelled : parts.removeLabels.Nodup ∧ ∀ key ∈ parts.removeLabels,
    key ∈ patchedKeys descriptor.labels parts.setLabels

theorem applyMetadataPatch_isOk_iff {descriptor : NodeDescriptor} {parts : PatchParts} :
    (∃ updated, applyMetadataPatch descriptor parts = .ok updated) ↔
      parts.Applicable descriptor := by
  constructor
  · intro ⟨updated, h⟩
    obtain ⟨added, hadded, h⟩ := Result.bind_eq_ok.mp h
    obtain ⟨endpoints, hremoved, h⟩ := Result.bind_eq_ok.mp h
    obtain ⟨labels, hset, h⟩ := Result.bind_eq_ok.mp h
    obtain ⟨remaining, hunset, h⟩ := Result.bind_eq_ok.mp h
    obtain ⟨hnew, rfl⟩ := foldlM_addEndpoint_iff.mp hadded
    have hlabels := exists_foldlM_removeLabel_iff.mp ⟨remaining, hunset⟩
    rw [keys_foldlM_setLabel hset] at hlabels
    exact ⟨hnew, exists_foldlM_removeEndpoint_iff.mp ⟨endpoints, hremoved⟩,
      exists_foldlM_setLabel_iff.mp ⟨labels, hset⟩, hlabels⟩
  · intro h
    have hadded := foldlM_addEndpoint_iff.mpr ⟨h.added, rfl⟩
    obtain ⟨endpoints, hremoved⟩ := exists_foldlM_removeEndpoint_iff.mpr h.removed
    obtain ⟨labels, hset⟩ := exists_foldlM_setLabel_iff.mpr h.fits
    have hlabels := h.unlabelled
    rw [← keys_foldlM_setLabel hset] at hlabels
    obtain ⟨remaining, hunset⟩ := exists_foldlM_removeLabel_iff.mpr hlabels
    rw [applyMetadataPatch, hadded, Result.ok_bind, hremoved, Result.ok_bind, hset,
      Result.ok_bind, hunset]
    exact ⟨_, rfl⟩

/-- A patch is refused or comes to a greater revision, unless it applies to a descriptor of the
    largest revision. -/
theorem patched_revision_greater_iff (descriptor : NodeDescriptor) (parts : PatchParts) :
    (∀ updated, applyMetadataPatch descriptor parts = .ok updated →
        descriptor.revision.toNat < updated.revision.toNat) ↔
      descriptor.revision.toNat < 2 ^ 64 - 1 ∨ ¬ parts.Applicable descriptor := by
  have hbound : descriptor.revision.toNat < 2 ^ 64 := descriptor.revision.toNat_lt
  have hsum : (descriptor.revision + 1).toNat = (descriptor.revision.toNat + 1) % 2 ^ 64 := rfl
  rw [← applyMetadataPatch_isOk_iff]
  constructor
  · intro h
    by_cases hlast : descriptor.revision.toNat < 2 ^ 64 - 1
    · exact Or.inl hlast
    · refine Or.inr fun ⟨updated, hupdated⟩ => ?_
      have hless := h updated hupdated
      rw [(applyMetadataPatch_keeps hupdated).2.2.1, hsum] at hless
      omega
  · intro h updated hupdated
    have hless := h.resolve_right fun hrefused => hrefused ⟨updated, hupdated⟩
    rw [(applyMetadataPatch_keeps hupdated).2.2.1, hsum]
    omega

end MetadataPatch

/-- The descriptor of a peer at the largest revision is stored over an earlier one, and a patch of
    it, even one that changes nothing, falls back to revision zero. -/
theorem patched_revision_wraps :
    letI := DnsName.hostNames
    ∃ (bytes : Bytes) (entries : Entries) (key : EntryKey) (descriptor updated : NodeDescriptor)
      (parts : PatchParts),
      decodeDescriptor bytes = .ok descriptor ∧
      storeDescriptor descriptor entries = .ok (.put key ⟨bytes⟩) ∧
      applyMetadataPatch descriptor parts = .ok updated ∧
      descriptor.revision.toNat = 2 ^ 64 - 1 ∧ updated.revision = 0 := by
  let _ := DnsName.hostNames
  obtain ⟨key, hkey⟩ := exists_sampleKey
  obtain ⟨old, hold⟩ : ∃ bytes, (sampleDescriptor 1 false).encode = .ok bytes :=
    Result.exists_of_isSome_toOption (by decide +kernel)
  obtain ⟨new, hnew⟩ : ∃ bytes, (sampleDescriptor 0xFFFFFFFFFFFFFFFF false).encode = .ok bytes :=
    Result.exists_of_isSome_toOption (by decide +kernel)
  have hstored : (SortedMap.empty.insert key (⟨old⟩ : StoreValue)).get key = some ⟨old⟩ :=
    SortedMap.get_insert_self ..
  have hdecoded := NodeDescriptor.decode_encode foldedHosts_hostNames hold
  have hstore : storeDescriptor (sampleDescriptor 0xFFFFFFFFFFFFFFFF false)
      (SortedMap.empty.insert key ⟨old⟩) = .ok (.put key ⟨new⟩) := by
    have hnode : descriptorKey (sampleDescriptor 0xFFFFFFFFFFFFFFFF false).node = .ok key := hkey
    have hconflict : descriptorConflict (sampleDescriptor 0xFFFFFFFFFFFFFFFF false)
        (sampleDescriptor 1 false) = none := by decide +kernel
    simp [storeDescriptor, hnode, storeConflict, hstored, hdecoded, hconflict, hnew]
  exact ⟨new, _, key, sampleDescriptor 0xFFFFFFFFFFFFFFFF false, _, ⟨[], [], [], []⟩,
    NodeDescriptor.decode_encode foldedHosts_hostNames hnew, hstore, rfl, by decide +kernel, by decide +kernel⟩

end Radiata
