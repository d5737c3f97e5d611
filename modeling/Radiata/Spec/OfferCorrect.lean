import Mathlib.Data.List.Flatten
import Radiata.Native.Offer
import Radiata.Spec.CborCorrect
import Radiata.Spec.RegistryBuild

/-!
# Node offers

What `node_offer` puts into the offer of a registry: every label at the digest of its
definition, and every mandatory limit at its default. The collections of an offer built
by `FeatureOffer::new` ascend strictly, so a lookup finds the one entry of a key.

## Key results

- `FeatureOffer.Ascending.supportedDigest_eq_some` / `limitValue_eq_some`: lookups are
  membership
- `offers_of_nodeOffer`: the contents of a node's offer
-/

namespace Radiata

open Cbor (Item)
open Reader (Reads)

/-! ## Wire forms -/

theorem SupportedEntryWire.reads {wire : SupportedEntryWire} (hlabel : wire.label.isUtf8 = true)
    (hsize : wire.toItem.size < 2 ^ 64) : Reads decode wire.toItem.encode wire := by
  simp only [toItem, Item.size, Item.sizeAll] at hsize
  refine Cbor.reads_fields (by omega) ?_
  refine (Cbor.reads_str (by omega) hlabel).bind ?_
  exact (Cbor.reads_bytes (by omega)).bind (Reads.pure wire)

theorem LimitEntryWire.reads {wire : LimitEntryWire} (htag : wire.tag.isUtf8 = true)
    (hsize : wire.toItem.size < 2 ^ 64) : Reads decode wire.toItem.encode wire := by
  simp only [toItem, Item.size, Item.sizeAll] at hsize
  refine Cbor.reads_fields (by omega) ?_
  refine (Cbor.reads_str (by omega) htag).bind ?_
  exact (Cbor.reads_u64 wire.value).bind (Reads.pure wire)

theorem FeatureOfferWire.reads {wire : FeatureOfferWire}
    (hsupported : ∀ entry ∈ wire.supported, entry.label.isUtf8 = true)
    (hrequired : ∀ label ∈ wire.required, label.isUtf8 = true)
    (hlimits : ∀ entry ∈ wire.limits, entry.tag.isUtf8 = true) (hsize : wire.toItem.size < 2 ^ 64) :
    Reads decode wire.toItem.encode wire := by
  have hs := Item.length_le_sizeAll (wire.supported.map SupportedEntryWire.toItem)
  have hr := Item.length_le_sizeAll (wire.required.map Item.text)
  have hl := Item.length_le_sizeAll (wire.limits.map LimitEntryWire.toItem)
  rw [List.length_map] at hs hr hl
  simp only [toItem, Item.size, Item.sizeAll, List.length_map] at hsize
  refine Cbor.reads_fields (by omega) ?_
  simp only [Item.encodeAll, Item.encode, Item.encodeAll_map, List.length_map]
  refine (Cbor.reads_vec (by omega) ?_).bind ?_
  · intro entry hentry
    have := Item.size_le_of_mem (List.mem_map_of_mem (f := SupportedEntryWire.toItem) hentry)
    exact SupportedEntryWire.reads (hsupported entry hentry) (by omega)
  refine (Cbor.reads_vec (by omega) ?_).bind ?_
  · intro label hlabel
    have := Item.size_le_of_mem (List.mem_map_of_mem (f := Item.text) hlabel)
    simp only [Item.size] at this
    exact Cbor.reads_str (by omega) (hrequired label hlabel)
  refine (Cbor.reads_vec (by omega) ?_).bind (Reads.pure wire)
  intro entry hentry
  have := Item.size_le_of_mem (List.mem_map_of_mem (f := LimitEntryWire.toItem) hentry)
  exact LimitEntryWire.reads (hlimits entry hentry) (by omega)

private theorem nodup_fst {κ ν : Type} [LinearOrder κ] {l : List (κ × ν)}
    (h : l.Pairwise (fun a b => a.1 < b.1)) : (l.map Prod.fst).Nodup := by
  rw [List.Nodup, List.pairwise_map]
  exact h.imp ne_of_lt

/-- Distinct keys differ between neighbours, in any order. -/
private theorem allAdjacent_insertionSort {α κ : Type} [LinearOrder κ] (key : α → κ) (text : κ → Bytes)
    (htext : Function.Injective text) {l : List α} (h : (l.map key).Nodup) :
    (l.insertionSort (fun a b => key a ≤ key b)).allAdjacent (fun a b => text (key a) ≠ text (key b)) =
      true := by
  rw [List.allAdjacent_iff_isChain]
  have hperm := ((List.perm_insertionSort (fun a b => key a ≤ key b) l).map key).nodup_iff.mpr h
  rw [List.Nodup, List.pairwise_map] at hperm
  refine (hperm.imp ?_).isChain
  intro a b hne
  rw [decide_eq_true_eq]
  exact fun heq => hne (htext heq)

section Offers

variable [DnsName]

theorem LimitEntryWire.size_toItem_le (tag : QualifiedTag) (value : UInt64) :
    (LimitEntryWire.toItem ⟨tag.asStr, value⟩).size ≤ 140 := by
  have htext : (Item.text tag.asStr).size ≤ 130 := Item.size_text_le tag.length_asStr_le
  have hvalue : (Item.uint value).size ≤ 9 := Cbor.headLen_le_nine _
  show Cbor.headLen 2 + ((Item.text tag.asStr).size + ((Item.uint value).size + 0)) ≤ _
  rw [show Cbor.headLen 2 = 1 by decide]
  omega

/-- The collections of an offer ascend strictly. -/
structure FeatureOffer.Ascending (offer : FeatureOffer) : Prop where
  supported : offer.supported.Pairwise (fun a b => a.1 < b.1)
  required : offer.required.Pairwise (· < ·)
  limits : offer.limits.Pairwise (fun a b => a.1 < b.1)

namespace FeatureOffer

variable {offer : FeatureOffer}

variable {supported : List (FeatureTag × Digest)} {limits : List (QualifiedTag × UInt64)}

theorem new_eq_ok {required : List FeatureTag} (h : new supported required limits = .ok offer) :
    offer.supported = supported.insertionSort (fun a b => a.1 ≤ b.1) ∧
      offer.required = required.insertionSort (· ≤ ·) ∧
      offer.limits = limits.insertionSort (fun a b => a.1 ≤ b.1) ∧
      checkOffer offer.supported offer.required offer.limits = .ok () := by
  unfold new at h
  split at h
  · cases h
  · rename_i hcheck
    cases h
    exact ⟨rfl, rfl, rfl, hcheck⟩

theorem ascending_of_new {required : List FeatureTag}
    (h : new supported required limits = .ok offer) :
    offer.Ascending := by
  obtain ⟨hs, hr, hl, hcheck⟩ := new_eq_ok h
  obtain ⟨-, -, -, hsu, hru, hlu, -, -⟩ := checkOffer_eq_ok.mp hcheck
  refine ⟨?_, ?_, ?_⟩
  · refine List.pairwise_lt_of_allAdjacent Prod.fst ?_ ?_ hsu
    · intro a b hne heq
      simp [heq] at hne
    · rw [hs]
      exact List.pairwise_insertionSort (fun a b : FeatureTag × Digest => a.1 ≤ b.1) supported
  · refine List.pairwise_lt_of_allAdjacent id ?_ ?_ hru
    · intro a b hne heq
      simp [show a = b from heq] at hne
    · rw [hr]
      exact List.pairwise_insertionSort (· ≤ ·) required
  · refine List.pairwise_lt_of_allAdjacent Prod.fst ?_ ?_ hlu
    · intro a b hne heq
      simp [heq] at hne
    · rw [hl]
      exact List.pairwise_insertionSort (fun a b : QualifiedTag × UInt64 => a.1 ≤ b.1) limits

theorem Ascending.supportedDigest_eq_some (h : offer.Ascending) {tag : FeatureTag}
    {digest : Digest} :
    offer.supportedDigest tag = some digest ↔ (tag, digest) ∈ offer.supported :=
  List.find?_fst_eq_some_iff (nodup_fst h.supported)

theorem Ascending.limitValue_eq_some (h : offer.Ascending) {tag : QualifiedTag} {value : UInt64} :
    offer.limitValue tag = some value ↔ (tag, value) ∈ offer.limits :=
  List.find?_fst_eq_some_iff (nodup_fst h.limits)

end FeatureOffer

/-! ## The offer of a registry -/

/-- The contents of a node's offer. -/
structure Offers (registry : FeatureRegistry) (offer : FeatureOffer) : Prop where
  ascending : offer.Ascending
  digests : ∀ tag definition, registry.get tag = some definition →
    ∃ digest, definition.definitionDigest = .ok digest
  supported : ∀ tag digest, (tag, digest) ∈ offer.supported ↔
    ∃ definition, registry.get tag = some definition ∧ definition.definitionDigest = .ok digest
  limits : ∀ tag value, (tag, value) ∈ offer.limits ↔
    ∃ label definition limit, registry.get label = some definition ∧ limit ∈ definition.limits ∧
      limit.mandatory = true ∧ limit.tag = tag ∧ limit.default = value

variable {registry : FeatureRegistry} {callerRequired : Finset FeatureTag}

variable {offer : FeatureOffer}

theorem offers_of_nodeOffer (h : nodeOffer registry callerRequired = .ok offer) :
    Offers registry offer := by
  simp only [nodeOffer, Except.bind_eq_ok, Except.rejectIf_eq_ok, exists_const] at h
  obtain ⟨supported, hsupported, session, -, -, hnew⟩ := h
  obtain ⟨hs, -, hl, -⟩ := FeatureOffer.new_eq_ok hnew
  rw [Except.mapM_eq_ok] at hsupported
  refine ⟨FeatureOffer.ascending_of_new hnew, ?_, ?_, ?_⟩
  · intro tag definition hget
    have hmem := (SortedMap.mem_toList_iff _ tag definition).mpr hget
    obtain ⟨pair, -, hpair⟩ := List.Forall₂.exists_of_mem_right hsupported.flip hmem
    obtain ⟨digest, hdigest, -⟩ := Except.bind_eq_ok.mp hpair
    exact ⟨digest, hdigest⟩
  · intro tag digest
    rw [hs, List.mem_insertionSort]
    constructor
    · intro hmem
      obtain ⟨⟨label, definition⟩, hentry, hpair⟩ := List.Forall₂.exists_of_mem_right hsupported hmem
      obtain ⟨digest', hdigest, heq⟩ := Except.bind_eq_ok.mp hpair
      cases heq
      exact ⟨definition, (SortedMap.mem_toList_iff _ _ _).mp hentry, hdigest⟩
    · rintro ⟨definition, hget, hdigest⟩
      have hmem := (SortedMap.mem_toList_iff _ tag definition).mpr hget
      obtain ⟨pair, hpairMem, hpair⟩ := List.Forall₂.exists_of_mem_right hsupported.flip hmem
      obtain ⟨digest', hdigest', heq⟩ := Except.bind_eq_ok.mp hpair
      rw [hdigest] at hdigest'
      cases hdigest'
      cases heq
      exact hpairMem
  · intro tag value
    rw [hl, List.mem_insertionSort, List.mem_flatMap]
    constructor
    · rintro ⟨⟨label, definition⟩, hentry, hmem⟩
      obtain ⟨limit, hlimit, heq⟩ := List.mem_map.mp hmem
      cases heq
      obtain ⟨hin, hmandatory⟩ := List.mem_filter.mp hlimit
      exact ⟨label, definition, limit, (SortedMap.mem_toList_iff _ _ _).mp hentry, hin, hmandatory,
        rfl, rfl⟩
    · rintro ⟨label, definition, limit, hget, hin, hmandatory, rfl, rfl⟩
      exact ⟨(label, definition), (SortedMap.mem_toList_iff _ _ _).mpr hget,
        List.mem_map_of_mem (List.mem_filter.mpr ⟨hin, hmandatory⟩)⟩

theorem new_of_nodeOffer (h : nodeOffer registry callerRequired = .ok offer) :
    ∃ supported required limits, FeatureOffer.new supported required limits = .ok offer := by
  simp only [nodeOffer, Except.bind_eq_ok, Except.rejectIf_eq_ok, exists_const] at h
  obtain ⟨supported, -, session, -, -, hnew⟩ := h
  exact ⟨_, _, _, hnew⟩

variable {session : List FeatureTag}

/-- A node requires the session features and what its caller requires. -/
theorem mem_required_of_nodeOffer (h : nodeOffer registry callerRequired = .ok offer)
    (hsession : requiredSessionFeatures = .ok session) (tag : FeatureTag) :
    tag ∈ offer.required ↔ tag ∈ callerRequired ∪ session.toFinset := by
  simp only [nodeOffer, Except.bind_eq_ok, Except.rejectIf_eq_ok, exists_const] at h
  obtain ⟨supported, -, session', hsession', -, hnew⟩ := h
  rw [hsession] at hsession'
  cases hsession'
  obtain ⟨-, hr, -, -⟩ := FeatureOffer.new_eq_ok hnew
  rw [hr, List.mem_insertionSort, Finset.mem_sort]

/-! ## When a node has an offer -/

variable {supported : List (FeatureTag × Digest)}

/-- Collections with distinct keys within the capacities make an offer. -/
theorem FeatureOffer.exists_new {required : List FeatureTag}
    {limits : List (QualifiedTag × UInt64)} (hs : supported.length ≤ maxSupportedLabels)
    (hr : required.length ≤ maxRequiredLabels) (hl : limits.length ≤ maxNegotiatedLimits)
    (hsupported : (supported.map Prod.fst).Nodup) (hrequired : required.Nodup)
    (hlimits : (limits.map Prod.fst).Nodup)
    (hcategory : ∀ entry ∈ limits, entry.1.category = categoryLimits)
    (hsub : ∀ tag ∈ required, ∃ entry ∈ supported, entry.1 = tag) :
    ∃ offer, FeatureOffer.new supported required limits = .ok offer := by
  have hcheck : checkOffer (supported.insertionSort (fun a b => a.1 ≤ b.1))
      (required.insertionSort (· ≤ ·)) (limits.insertionSort (fun a b => a.1 ≤ b.1)) = .ok () := by
    refine checkOffer_eq_ok.mpr ⟨by simpa using hs, by simpa using hr, by simpa using hl, ?_, ?_, ?_,
      ?_, ?_⟩
    · exact allAdjacent_insertionSort _ CategoryTag.asStr (fun _ _ => CategoryTag.ext_asStr)
        hsupported
    · exact allAdjacent_insertionSort id CategoryTag.asStr
        (fun _ _ => CategoryTag.ext_asStr) (by simpa using hrequired)
    · exact allAdjacent_insertionSort _ QualifiedTag.asStr (fun _ _ => QualifiedTag.ext_asStr)
        hlimits
    · exact fun entry hentry => hcategory entry ((List.mem_insertionSort _).mp hentry)
    · intro tag htag
      obtain ⟨entry, hentry, heq⟩ := hsub tag ((List.mem_insertionSort _).mp htag)
      exact ⟨entry, (List.mem_insertionSort _).mpr hentry, heq⟩
  unfold new
  split
  · rename_i e herror
    rw [hcheck] at herror
    cases herror
  · exact ⟨_, rfl⟩

/-- The labels of the digests are those of the definitions. -/
private theorem keys_of_mapM {entries : List (FeatureTag × FeatureDefinition)}
    (h : (entries.mapM fun entry => do return (entry.1, ← entry.2.definitionDigest)) =
      (.ok supported : Result _)) : supported.map Prod.fst = entries.map Prod.fst := by
  induction Except.mapM_eq_ok.mp h with
  | nil => rfl
  | cons hentry _ ih =>
    obtain ⟨digest, -, hpair⟩ := Except.bind_eq_ok.mp hentry
    cases hpair
    rw [List.map_cons, List.map_cons, ih (Except.mapM_eq_ok.mpr (by assumption))]

/-- The mandatory limits of a registry at their defaults. -/
private def mandatoryEntries (registry : FeatureRegistry) : List (QualifiedTag × UInt64) :=
  registry.definitions.toList.flatMap fun entry =>
    (entry.2.limits.filter LimitDefinition.mandatory).map fun limit => (limit.tag, limit.default)

private theorem mandatoryEntries_sublist (registry : FeatureRegistry) :
    ((mandatoryEntries registry).map Prod.fst).Sublist
      (limitTags (registry.definitions.toList.map Prod.snd)) := by
  rw [mandatoryEntries, limitTags, List.flatMap_map, List.map_flatMap]
  apply List.Sublist.flatMap_right
  intro entry _
  rw [List.map_map]
  exact List.filter_sublist.map LimitDefinition.tag

/-- A node has an offer if its definitions have digests, stay within the capacities and
    include what is required. -/
theorem exists_nodeOffer (hsession : requiredSessionFeatures = .ok session)
    (hdigests : ∀ tag definition, registry.get tag = some definition →
      ∃ digest, definition.definitionDigest = .ok digest)
    (hlabels : registry.definitions.toList.length ≤ maxSupportedLabels)
    (hlimits : (limitTags (registry.definitions.toList.map Prod.snd)).length ≤ maxNegotiatedLimits)
    (hrequired : ∀ tag ∈ callerRequired ∪ session.toFinset,
      ∃ definition, registry.get tag = some definition) :
    ∃ offer, nodeOffer registry callerRequired = .ok offer := by
  obtain ⟨supported, hsupported⟩ : ∃ supported, (registry.definitions.toList.mapM fun entry => do
      return (entry.1, ← entry.2.definitionDigest)) = (.ok supported : Result _) := by
    refine Except.exists_mapM_eq_ok fun entry hentry => ?_
    obtain ⟨digest, hdigest⟩ := hdigests entry.1 entry.2 ((SortedMap.mem_toList_iff _ _ _).mp hentry)
    exact ⟨(entry.1, digest), by rw [hdigest]; rfl⟩
  have hkeys := keys_of_mapM hsupported
  have hknown : ∀ tag ∈ callerRequired ∪ session.toFinset, ∃ entry ∈ supported, entry.1 = tag := by
    intro tag htag
    obtain ⟨definition, hget⟩ := hrequired tag htag
    have hmem : tag ∈ supported.map Prod.fst := by
      rw [hkeys]
      exact List.mem_map_of_mem (f := Prod.fst) ((SortedMap.mem_toList_iff _ _ _).mpr hget)
    exact List.mem_map.mp hmem
  have hcard : (callerRequired ∪ session.toFinset).sort.length ≤ maxRequiredLabels := by
    have hsub : callerRequired ∪ session.toFinset ⊆ (supported.map Prod.fst).toFinset := by
      intro tag htag
      obtain ⟨entry, hentry, rfl⟩ := hknown tag htag
      exact List.mem_toFinset.mpr (List.mem_map_of_mem hentry)
    have hle := (Finset.card_le_card hsub).trans (List.toFinset_card_le _)
    rw [hkeys, List.length_map] at hle
    rw [Finset.length_sort]
    exact hle.trans hlabels
  have hcategory : ∀ entry ∈ mandatoryEntries registry, entry.1.category = categoryLimits := by
    intro entry hentry
    obtain ⟨source, -, hentry⟩ := List.mem_flatMap.mp hentry
    obtain ⟨limit, -, rfl⟩ := List.mem_map.mp hentry
    exact limit.inCategory
  have htags := mandatoryEntries_sublist registry
  have hcount : (mandatoryEntries registry).length ≤ maxNegotiatedLimits := by
    have hle := htags.length_le
    rw [List.length_map] at hle
    omega
  have hlength : supported.length ≤ maxSupportedLabels := by
    have hle := congrArg List.length hkeys
    rw [List.length_map, List.length_map] at hle
    omega
  obtain ⟨offer, hnew⟩ := FeatureOffer.exists_new hlength hcard hcount
    (by rw [hkeys]; exact SortedMap.nodup_keys _) (Finset.sort_nodup _ _)
    (registry.nodup_limitTags.sublist htags) hcategory
    (fun tag htag => hknown tag ((Finset.mem_sort _).mp htag))
  have hrequired : ¬ ((callerRequired ∪ session.toFinset).sort.any fun tag =>
      !supported.any fun entry => entry.1 = tag) = true := by
    simpa using hknown
  refine ⟨offer, ?_⟩
  simp only [nodeOffer, hsupported, hsession, Result.ok_bind, Except.rejectIf_of_not _ hrequired]
  exact hnew

/-- A registry of acceptable definitions has an offer for every required set of its labels. -/
theorem exists_nodeOffer_of_build {builtins source : List FeatureDefinition}
    {rank : FeatureTag → Nat} (hbuild : FeatureRegistry.build source = .ok registry)
    (h : Acceptable builtins source rank) (hsession : requiredSessionFeatures = .ok session)
    (hlabels : source.length ≤ maxSupportedLabels)
    (hlimits : (limitTags source).length ≤ maxNegotiatedLimits)
    (hrequired : ∀ tag ∈ callerRequired ∪ session.toFinset, ∃ definition ∈ source, definition.tag = tag) :
    ∃ offer, nodeOffer registry callerRequired = .ok offer := by
  have hget := FeatureRegistry.get_of_build hbuild
  have hperm := perm_of_collectDefinitions h.labels (FeatureRegistry.collect_of_build hbuild)
  refine exists_nodeOffer hsession ?_ ?_ ?_ ?_
  · intro tag definition hdefinition
    exact h.digests definition ((hget tag definition).mp hdefinition).1
  · rw [← List.length_map (f := Prod.snd), hperm.length_eq]
    exact hlabels
  · rw [limitTags, (hperm.flatMap_right _).length_eq]
    exact hlimits
  · intro tag htag
    obtain ⟨definition, hmem, heq⟩ := hrequired tag htag
    exact ⟨definition, (hget tag definition).mpr ⟨hmem, heq⟩⟩

/-! ## Encoding and reading back -/

namespace FeatureOffer

variable {offer : FeatureOffer}

/-- The size of an offer with at most `n` labels. -/
theorem size_wire_le_of {n : Nat} (hlen : offer.supported.length ≤ n)
    (hlen' : offer.required.length ≤ n) :
    offer.wire.toItem.size ≤
      1 + (Cbor.headLen n + n * 165) + (Cbor.headLen n + n * 130) + (2 + 128 * 140) := by
  have hsupported : (Item.array (offer.wire.supported.map SupportedEntryWire.toItem)).size ≤
      Cbor.headLen n + n * 165 := by
    rw [wire, List.map_map]
    refine Item.size_array_map_le hlen ?_
    intro entry _
    have htext : (Item.text entry.1.asStr).size ≤ 130 := Item.size_text_le entry.1.tag.length_asStr_le
    have hdigest : (Item.bytes entry.2.asBytes).size = 34 := by
      rw [Item.size, entry.2.width]
      decide
    show Cbor.headLen 2 + ((Item.text entry.1.asStr).size + ((Item.bytes entry.2.asBytes).size + 0)) ≤ _
    rw [show Cbor.headLen 2 = 1 by decide]
    omega
  have hrequired : (Item.array (offer.wire.required.map Item.text)).size ≤
      Cbor.headLen n + n * 130 := by
    rw [wire, List.map_map]
    refine Item.size_array_map_le hlen' ?_
    intro tag _
    exact Item.size_text_le tag.tag.length_asStr_le
  have hlimits : (Item.array (offer.wire.limits.map LimitEntryWire.toItem)).size ≤ 2 + 128 * 140 := by
    rw [wire, List.map_map]
    refine Item.size_array_map_le offer.wellFormed.limitsCapacity ?_
    intro entry _
    exact LimitEntryWire.size_toItem_le entry.1 entry.2
  show Cbor.headLen 3 + ((Item.array _).size + ((Item.array _).size + ((Item.array _).size + 0))) ≤ _
  rw [show Cbor.headLen 3 = 1 by decide]
  omega

theorem size_wire_le (offer : FeatureOffer) : offer.wire.toItem.size ≤ 55687 :=
  size_wire_le_of offer.wellFormed.supportedCapacity offer.wellFormed.requiredCapacity

theorem fits_wire (offer : FeatureOffer) : Fits controlCborLimits 0 offer.wire.toItem := by
  have htag : ∀ tag : QualifiedTag, tag.asStr.isUtf8 = true := fun tag => tag.ascii.isUtf8
  have hs := offer.wellFormed.supportedCapacity
  have hr := offer.wellFormed.requiredCapacity
  have hl := offer.wellFormed.limitsCapacity
  simp only [maxSupportedLabels, maxRequiredLabels, maxNegotiatedLimits] at hs hr hl
  simp only [FeatureOfferWire.toItem, Fits, FitsAll, fitsAll_iff, wire, controlCborLimits,
    List.length_map, List.length_cons, List.length_nil, List.mem_map, and_true]
  refine ⟨by omega, by omega, ⟨by omega, by omega, ?_⟩, ⟨by omega, by omega, ?_⟩, by omega, by omega, ?_⟩
  · rintro item ⟨entry, ⟨source, -, rfl⟩, rfl⟩
    simp only [SupportedEntryWire.toItem, Fits, FitsAll, List.length_cons, List.length_nil, and_true]
    exact ⟨by omega, by omega, htag source.1.tag⟩
  · rintro item ⟨label, ⟨tag, -, rfl⟩, rfl⟩
    exact htag tag.tag
  · rintro item ⟨entry, ⟨source, -, rfl⟩, rfl⟩
    simp only [LimitEntryWire.toItem, Fits, FitsAll, List.length_cons, List.length_nil, and_true]
    exact ⟨by omega, by omega, htag source.1⟩

/-- The capacities of an offer keep it within the body limit. -/
theorem encode_eq_ok (offer : FeatureOffer) : offer.encode = .ok offer.wire.toItem.encode := by
  have hencode := encodeCanonical_item FeatureOfferWire.codec offer.wire rfl
    (by decide) (by decide) offer.fits_wire (by decide)
  have hsize : offer.wire.toItem.size ≤ controlCborLimits.maxBodyLen :=
    offer.size_wire_le.trans (by decide)
  rw [if_pos hsize] at hencode
  exact hencode

theorem reads_wire (offer : FeatureOffer) :
    Reads FeatureOfferWire.decode offer.wire.toItem.encode offer.wire := by
  have hsize := offer.size_wire_le
  refine FeatureOfferWire.reads ?_ ?_ ?_ (by omega)
  · intro entry hentry
    obtain ⟨source, -, rfl⟩ := List.mem_map.mp hentry
    exact source.1.tag.ascii.isUtf8
  · intro label hlabel
    obtain ⟨tag, -, rfl⟩ := List.mem_map.mp hlabel
    exact tag.tag.ascii.isUtf8
  · intro entry hentry
    obtain ⟨source, -, rfl⟩ := List.mem_map.mp hentry
    exact source.1.ascii.isUtf8

/-- The collections of an ascending offer read back from its wire form. -/
theorem readWire_wire (hhosts : FoldedHosts) (h : offer.Ascending) :
    readWire offer.wire = .ok (offer.supported, offer.required, offer.limits) := by
  have hfeature : ∀ tag : FeatureTag, FeatureTag.parse tag.asStr = .ok tag :=
    CategoryTag.parse_asStr hhosts (by decide) _
  have hsupported : mapOrdered SupportedEntryWire.label "feature offer supported ordering"
      (fun entry => do
        let digest ← fixedBytes 32 entry.digest "feature offer digest"
        return (← FeatureTag.parse entry.label, Digest.fromBytes digest)) none offer.wire.supported =
      .ok offer.supported := by
    refine mapOrdered_map h.supported fun entry _ => ?_
    simp only [fixedBytes_digest, hfeature, Result.ok_bind]
    rfl
  have hrequired : mapOrdered id "feature offer required ordering" FeatureTag.parse none
      offer.wire.required = .ok offer.required :=
    mapOrdered_map h.required fun tag _ => hfeature tag
  have hlimits : mapOrdered LimitEntryWire.tag "feature offer limits ordering"
      (fun entry => do
        let tag ← QualifiedTag.parse entry.tag
        Except.rejectIf (tag.category ≠ categoryLimits) (.invalidInput "feature offer limit category")
        return (tag, entry.value)) none offer.wire.limits = .ok offer.limits := by
    refine mapOrdered_map h.limits fun entry hentry => ?_
    have hcategory := offer.wellFormed.limitsCategory entry hentry
    have hparse : QualifiedTag.parse entry.1.asStr = .ok entry.1 :=
      entry.1.reparses hhosts (by rw [hcategory]; decide)
    simp only [hparse, Result.ok_bind, Except.rejectIf_of_not _ (not_not.mpr hcategory)]
    rfl
  have hsub : ¬ (offer.required.any fun tag => !offer.supported.any fun entry => entry.1 = tag) =
      true := by
    simpa using offer.wellFormed.requiredSupported
  have hs : ¬ offer.wire.supported.length > maxSupportedLabels := by
    simpa [wire] using offer.wellFormed.supportedCapacity
  have hr : ¬ offer.wire.required.length > maxRequiredLabels := by
    simpa [wire] using offer.wellFormed.requiredCapacity
  have hl : ¬ offer.wire.limits.length > maxNegotiatedLimits := by
    simpa [wire] using offer.wellFormed.limitsCapacity
  simp only [readWire, Except.rejectIf_of_not _ hs, Except.rejectIf_of_not _ hr,
    Except.rejectIf_of_not _ hl, hsupported, hrequired, hlimits, Result.ok_bind,
    Except.rejectIf_of_not _ hsub]
  rfl

theorem fromWire_wire (hhosts : FoldedHosts) (h : offer.Ascending) :
    fromWire offer.wire = .ok offer := by
  have hread := readWire_wire hhosts h
  unfold fromWire
  split
  · rename_i e herror
    rw [hread] at herror
    cases herror
  · rename_i supported required limits hok
    rw [hread] at hok
    cases hok
    rfl

/-- Reading the bytes of an ascending offer checks its limits and returns it. -/
theorem decode_encode (hhosts : FoldedHosts) (h : offer.Ascending) (registry : FeatureRegistry) :
    decode offer.wire.toItem.encode registry = (do offer.validateLimits registry; return offer) := by
  have hstrict : decodeCanonicalStrict FeatureOfferWire.codec offer.wire.toItem.encode
      controlCborLimits "feature offer canonical form" = .ok offer.wire :=
    decodeStrict_of_encodeCanonical _ offer.reads_wire offer.encode_eq_ok
  simp only [decode, hstrict, fromWire_wire hhosts h, Result.ok_bind]

end FeatureOffer

end Offers

/-! ## Sample offers -/

private theorem sampleExtension_capacities :
    letI := DnsName.hostNames
    sampleBuiltins.length ≤ maxSupportedLabels ∧ (limitTags sampleBuiltins).length ≤ maxNegotiatedLimits ∧
      (sampleBuiltins ++ [sampleExtension]).length ≤ maxSupportedLabels ∧
      (limitTags (sampleBuiltins ++ [sampleExtension])).length ≤ maxNegotiatedLimits := by
  decide +kernel

/-- The built-in registry and one with an extension, each with the offer of its node. -/
theorem exists_sampleOffers :
    letI := DnsName.hostNames
    ∃ (plain extended : FeatureRegistry) (offer offer' : FeatureOffer),
      FeatureRegistry.build sampleBuiltins = .ok plain ∧
      FeatureRegistry.build (sampleBuiltins ++ [sampleExtension]) = .ok extended ∧
      nodeOffer plain ∅ = .ok offer ∧ nodeOffer extended ∅ = .ok offer' := by
  let _ := DnsName.hostNames
  obtain ⟨plain, hplain⟩ := FeatureRegistry.exists_build builtinDefinitions_hostNames
    nodup_sampleBuiltins acceptable_sampleBuiltins
  obtain ⟨extended, hextended⟩ := FeatureRegistry.exists_build builtinDefinitions_hostNames
    nodup_sampleBuiltins acceptable_sampleExtension
  have hsession : ∀ tag ∈ (∅ : Finset FeatureTag) ∪ sampleLabels.toFinset,
      ∃ definition ∈ sampleBuiltins, definition.tag = tag := by
    intro tag htag
    rw [Finset.empty_union, List.mem_toFinset] at htag
    exact sampleLabels_builtin tag htag
  obtain ⟨offer, hoffer⟩ := exists_nodeOffer_of_build hplain acceptable_sampleBuiltins
    requiredSessionFeatures_hostNames sampleExtension_capacities.1 sampleExtension_capacities.2.1 hsession
  obtain ⟨offer', hoffer'⟩ := exists_nodeOffer_of_build hextended acceptable_sampleExtension
    requiredSessionFeatures_hostNames sampleExtension_capacities.2.2.1 sampleExtension_capacities.2.2.2
    (fun tag htag => by
      obtain ⟨definition, hmem, heq⟩ := hsession tag htag
      exact ⟨definition, List.mem_append_left _ hmem, heq⟩)
  exact ⟨plain, extended, offer, offer', hplain, hextended, hoffer, hoffer'⟩

end Radiata
