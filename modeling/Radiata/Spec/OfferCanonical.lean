import Radiata.Spec.OfferInterop
import Radiata.Spec.TagCorrect

/-!
# Offers from other nodes

`FeatureOffer::decode` compares the texts of an offer as they stand on the wire and parses
each of them afterwards, which folds its domain to lowercase. A text with a capital letter
is therefore accepted and changed: two texts may become one label, the order may be lost,
and the offer encodes to other bytes. Without capital letters the offer is canonical.

## Key results

- `FeatureOffer.wire_eq_iff`: an offer keeps its wire form unless that has a capital letter
- `decoded_offer_canonical_iff`: which accepted byte strings are canonical
-/

namespace Radiata

open FeatureOffer

/-- The labels and tags of an offer on the wire. -/
def FeatureOfferWire.texts (wire : FeatureOfferWire) : List Bytes :=
  wire.supported.map SupportedEntryWire.label ++ wire.required ++ wire.limits.map LimitEntryWire.tag

section Offers

variable [DnsName]

/-! ## The wire form of an accepted offer -/

variable {offer : FeatureOffer}

variable {wire : FeatureOfferWire}

/-- What `from_wire` reads, entry by entry. -/
theorem fromWire_eq_ok (h : fromWire wire = .ok offer) :
    (wire.supported.map SupportedEntryWire.label).IsChain (· < ·) ∧
      wire.required.IsChain (· < ·) ∧ (wire.limits.map LimitEntryWire.tag).IsChain (· < ·) ∧
      List.Forall₂ (fun entry read => FeatureTag.parse entry.label = .ok read.1 ∧
        read.2.asBytes = entry.digest) wire.supported offer.supported ∧
      List.Forall₂ (fun label tag => FeatureTag.parse label = .ok tag)
        wire.required offer.required ∧
      List.Forall₂ (fun entry read => QualifiedTag.parse entry.tag = .ok read.1 ∧
        read.2 = entry.value) wire.limits offer.limits := by
  unfold fromWire at h
  split at h
  · cases h
  rename_i supported required limits hread
  cases h
  simp only [readWire, Except.bind_eq_ok, Except.rejectIf_eq_ok, exists_const, mapOrdered_eq_ok,
    Result.mapM_eq_ok, Result.pure_eq_ok, Except.ok.injEq, Prod.mk.injEq] at hread
  obtain ⟨-, -, -, _, ⟨hs, hsupported⟩, _, ⟨hr, hrequired⟩, _, ⟨hl, hlimits⟩, -, rfl, rfl, rfl⟩ :=
    hread
  refine ⟨by simpa using hs, by simpa using hr, by simpa using hl, ?_, hrequired, ?_⟩
  · refine hsupported.imp ?_
    rintro entry read ⟨digest, hdigest, tag, htag, rfl⟩
    unfold fixedBytes at hdigest
    split at hdigest
    · cases hdigest
      exact ⟨htag, rfl⟩
    · cases hdigest
  · refine hlimits.imp ?_
    rintro entry read ⟨tag, htag, -, rfl⟩
    exact ⟨htag, rfl⟩

/-- An accepted offer keeps its wire form unless that has a capital letter. -/
theorem FeatureOffer.wire_eq_iff (h : fromWire wire = .ok offer) :
    offer.wire = wire ↔ ∀ text ∈ wire.texts, Uncapitalized text := by
  obtain ⟨-, -, -, hsupported, hrequired, hlimits⟩ := fromWire_eq_ok h
  have hs := hsupported.map_eq_iff (g := fun read => ⟨read.1.asStr, read.2.asBytes⟩)
    (P := fun entry => Uncapitalized entry.label) fun entry read ⟨htag, hdigest⟩ => by
      rw [← CategoryTag.asStr_eq_iff htag, hdigest]
      cases entry
      simp
  have hr := hrequired.map_eq_iff (g := CategoryTag.asStr) (P := Uncapitalized)
    fun label tag htag => CategoryTag.asStr_eq_iff htag
  have hl := hlimits.map_eq_iff (g := fun read => ⟨read.1.asStr, read.2⟩)
    (P := fun entry => Uncapitalized entry.tag) fun entry read ⟨htag, hvalue⟩ => by
      rw [← QualifiedTag.asStr_eq_iff htag, hvalue]
      cases entry
      simp
  cases wire
  simp only [FeatureOffer.wire, FeatureOfferWire.mk.injEq, FeatureOfferWire.texts,
    List.forall_mem_append, List.forall_mem_map] at hs hr hl ⊢
  rw [hs, hr, hl, and_assoc]

/-- An offer that keeps its wire form ascends as that does. -/
theorem FeatureOffer.ascending_of_wire (h : fromWire wire = .ok offer) (hwire : offer.wire = wire) :
    offer.Ascending := by
  obtain ⟨hs, hr, hl, -⟩ := fromWire_eq_ok h
  rw [← hwire] at hs hr hl
  simp only [FeatureOffer.wire, List.map_map] at hs hr hl
  refine ⟨?_, ?_, ?_⟩
  · have hpairwise := List.isChain_iff_pairwise.mp hs
    rwa [List.pairwise_map] at hpairwise
  · have hpairwise := List.isChain_iff_pairwise.mp hr
    rwa [List.pairwise_map] at hpairwise
  · have hpairwise := List.isChain_iff_pairwise.mp hl
    rwa [List.pairwise_map] at hpairwise

/-! ## Canonical offers -/

/-- Every collection of the offer ascends strictly, the required labels are supported, and
    the offer encodes to the bytes. -/
def FeatureOffer.Canonical (offer : FeatureOffer) (bytes : Bytes) : Prop :=
  offer.Ascending ∧ (∀ tag ∈ offer.required, ∃ entry ∈ offer.supported, entry.1 = tag) ∧
    offer.encode = .ok bytes

/-- No text of the offer that the bytes hold has a capital letter. -/
def OfferUncapitalized (bytes : Bytes) : Prop :=
  ∀ wire, decodeCanonicalStrict FeatureOfferWire.codec bytes controlCborLimits
    "feature offer canonical form" = .ok wire → ∀ text ∈ wire.texts, Uncapitalized text

/-- An accepted byte string is what its offer encodes to exactly where it holds no capital
    letter. -/
theorem FeatureOffer.canonical_iff {bytes : Bytes} {registry : FeatureRegistry}
    (h : decode bytes registry = .ok offer) :
    offer.Canonical bytes ↔ OfferUncapitalized bytes := by
  simp only [decode] at h
  obtain ⟨wire, hwire, h⟩ := Result.bind_eq_ok.mp h
  obtain ⟨read, hread, h⟩ := Result.bind_eq_ok.mp h
  obtain ⟨-, -, h⟩ := Result.bind_eq_ok.mp h
  cases h
  have huncapitalized : OfferUncapitalized bytes ↔ ∀ text ∈ wire.texts, Uncapitalized text := by
    simp only [OfferUncapitalized, hwire, Except.ok.injEq, forall_eq']
  rw [huncapitalized, ← FeatureOffer.wire_eq_iff hread]
  constructor
  · rintro ⟨-, -, hencode⟩
    -- the bytes read back as the wire form of the offer
    have hstrict := decodeStrict_of_encodeCanonical "feature offer canonical form"
      offer.reads_wire hencode
    rw [hwire] at hstrict
    cases hstrict
    rfl
  · intro heq
    refine ⟨FeatureOffer.ascending_of_wire hread heq, offer.wellFormed.requiredSupported, ?_⟩
    rw [FeatureOffer.encode, heq]
    exact encodeCanonical_of_decodeStrict hwire

/-- An accepted offer is canonical exactly where its bytes hold no capital letter, and a
    built offer reads back from its bytes. -/
theorem decoded_offer_canonical_iff (hhosts : FoldedHosts) :
    (∀ bytes registry offer, decode bytes registry = .ok offer →
      (offer.Canonical bytes ↔ OfferUncapitalized bytes)) ∧
    ∀ supported required limits registry offer bytes,
      FeatureOffer.new supported required limits = .ok offer →
      offer.validateLimits registry = .ok () → offer.encode = .ok bytes →
        decode bytes registry = .ok offer := by
  constructor
  · intro bytes registry offer hdecode
    exact FeatureOffer.canonical_iff hdecode
  · intro supported required limits registry offer bytes hnew hlimits hencode
    have hbytes : bytes = offer.wire.toItem.encode := by
      rw [offer.encode_eq_ok] at hencode
      cases hencode
      rfl
    rw [hbytes, decode_encode hhosts (ascending_of_new hnew) registry, hlimits]
    rfl

end Offers

theorem sample_offer_canonical :
    letI := DnsName.hostNames
    FoldedHosts ∧ ∃ (registry : FeatureRegistry) (offer : FeatureOffer) (bytes : Bytes),
      decode bytes registry = .ok offer ∧ offer.Canonical bytes ∧ OfferUncapitalized bytes := by
  let _ := DnsName.hostNames
  obtain ⟨registry, -, offer, -, -, -, hoffer, -⟩ := exists_sampleOffers
  obtain ⟨hiff, hback⟩ := decoded_offer_canonical_iff foldedHosts_hostNames
  obtain ⟨supported, required, limits, hnew⟩ := new_of_nodeOffer hoffer
  have hoffers := offers_of_nodeOffer hoffer
  have hdecode := hback supported required limits registry offer _ hnew (validateLimits_own hoffers)
    offer.encode_eq_ok
  have hcanonical : offer.Canonical offer.wire.toItem.encode :=
    ⟨hoffers.ascending, offer.wellFormed.requiredSupported, offer.encode_eq_ok⟩
  exact ⟨foldedHosts_hostNames, registry, offer, offer.wire.toItem.encode, hdecode, hcanonical,
    (hiff _ registry offer hdecode).mp hcanonical⟩

/-! ## One label in two cases -/

/-- An offer that supports one label twice, with and without a capital letter. -/
def capitalOffer : FeatureOfferWire where
  supported := [⟨Bytes.utf8 "A.example/features/x", List.replicate 32 0⟩,
    ⟨Bytes.utf8 "a.example/features/x", List.replicate 32 0⟩]
  required := []
  limits := []

def foldedLabel : Bytes := Bytes.utf8 "a.example/features/x"

private theorem capitalOffer_strict :
    decodeCanonicalStrict FeatureOfferWire.codec capitalOffer.toItem.encode controlCborLimits
      "feature offer canonical form" = .ok capitalOffer := by
  decide +kernel

private theorem capitalOffer_read :
    (@readWire .hostNames capitalOffer).toOption.map (fun fields =>
      (fields.1.map fun entry => @CategoryTag.asStr .hostNames _ entry.1, fields.2.2.length)) =
        some ([foldedLabel, foldedLabel], 0) := by
  decide +kernel

private theorem foldedLabel_unknown :
    ∀ definition ∈ sampleBuiltins, @CategoryTag.asStr .hostNames _
      (@FeatureDefinition.tag .hostNames definition) ≠ foldedLabel := by
  decide +kernel

/-- The built-in registry accepts the offer, with one label twice. -/
theorem capital_offer_accepted :
    letI := DnsName.hostNames
    ∃ (registry : FeatureRegistry) (offer : FeatureOffer),
      FeatureRegistry.build sampleBuiltins = .ok registry ∧
      decode capitalOffer.toItem.encode registry = .ok offer ∧
      ¬ (offer.supported.map fun entry => entry.1.asStr).Nodup ∧
      ¬ offer.supported.Pairwise (fun a b => a.1.asStr < b.1.asStr) ∧
      offer.encode ≠ .ok capitalOffer.toItem.encode := by
  let _ := DnsName.hostNames
  obtain ⟨registry, hregistry⟩ := FeatureRegistry.exists_build builtinDefinitions_hostNames
    nodup_sampleBuiltins acceptable_sampleBuiltins
  obtain ⟨⟨supported, required, limits⟩, hread, hlabels⟩ :=
    Option.map_eq_some_iff.mp capitalOffer_read
  rw [Result.toOption_eq_some] at hread
  simp only [Prod.mk.injEq, List.length_eq_zero_iff] at hlabels
  obtain ⟨hsupported, rfl⟩ := hlabels
  obtain ⟨offer, hoffer, hsupported', hlimits'⟩ :
      ∃ offer, fromWire capitalOffer = .ok offer ∧ offer.supported = supported ∧
        offer.limits = [] := by
    unfold fromWire
    split
    · rename_i e herror
      rw [hread] at herror
      cases herror
    · rename_i hok
      rw [hread] at hok
      cases hok
      exact ⟨_, rfl, rfl, rfl⟩
  rw [← hsupported'] at hsupported
  -- no built-in feature has the label, so no limit is expected
  have hexpected : offer.expectedLimits registry = .empty := by
    have hnone : ∀ entry ∈ offer.supported, registry.get entry.1 = none := by
      intro entry hentry
      by_contra hsome
      obtain ⟨definition, hget⟩ := Option.ne_none_iff_exists'.mp hsome
      obtain ⟨hmem, htag⟩ := (FeatureRegistry.get_of_build hregistry _ _).mp hget
      have hlabel : entry.1.asStr ∈ [foldedLabel, foldedLabel] :=
        hsupported ▸ List.mem_map_of_mem (f := fun entry => CategoryTag.asStr entry.1) hentry
      apply foldedLabel_unknown definition hmem
      rw [htag]
      simpa using hlabel
    rw [expectedLimits, List.flatMap_eq_nil_iff.mpr]
    · rfl
    · intro entry hentry
      rw [hnone entry hentry]
  have hvalid : offer.validateLimits registry = .ok () := by
    rw [validateLimits_eq_ok, hexpected, hlimits']
    exact ⟨rfl, by simp⟩
  have hdecode : decode capitalOffer.toItem.encode registry = .ok offer := by
    simp only [decode, capitalOffer_strict, hoffer, hvalid, Result.ok_bind]
    rfl
  have hnodup : ¬ (offer.supported.map fun entry => entry.1.asStr).Nodup := by
    rw [hsupported]
    decide
  have hunsorted : ¬ offer.supported.Pairwise (fun a b => a.1.asStr < b.1.asStr) := by
    intro hsorted
    apply hnodup
    rw [List.Nodup, List.pairwise_map]
    exact hsorted.imp fun hlt heq => absurd heq hlt.ne
  refine ⟨registry, offer, hregistry, hdecode, hnodup, hunsorted, ?_⟩
  intro hencode
  have hstrict := decodeStrict_of_encodeCanonical "feature offer canonical form"
    offer.reads_wire hencode
  rw [capitalOffer_strict] at hstrict
  have hwire := congrArg (fun wire => wire.supported.map SupportedEntryWire.label)
    (Except.ok.inj hstrict)
  simp only [FeatureOffer.wire, List.map_map] at hwire
  have hlabels : [Bytes.utf8 "A.example/features/x", Bytes.utf8 "a.example/features/x"] =
      [foldedLabel, foldedLabel] := hwire.trans hsupported
  exact absurd hlabels (by decide)

end Radiata
