import Radiata.Spec.OfferCorrect
import Radiata.Spec.SelectionCorrect

/-!
# Reading the offer of another registry

`node_offer` lists the mandatory limits of every label of its own registry, and
`FeatureOffer::decode` wants exactly the mandatory limits of the labels the receiver
knows. Between registries that agree on the labels they share, the receiver accepts
exactly when it knows every label of the sender that owns a mandatory limit.

## Key results

- `validateLimits_eq_ok`: what the limit check says
- `node_offer_accepted_iff`: when the offer of one registry is accepted by another
-/

namespace Radiata

section Interop

variable [DnsName]

namespace FeatureOffer

variable {offer : FeatureOffer} {registry : FeatureRegistry}

theorem validateLimits_eq_ok :
    offer.validateLimits registry = .ok () ↔
      offer.limits.length = (offer.expectedLimits registry).toList.length ∧
      ∀ entry ∈ offer.limits, ∃ limit, (offer.expectedLimits registry).get entry.1 = some limit ∧
        limit.contains entry.2 = true := by
  simp only [validateLimits, Except.seq_eq_ok, Except.rejectIf_eq_ok, not_not, Except.forM_eq_ok]
  refine and_congr_right fun _ => forall_congr' fun entry => imp_congr_right fun _ => ?_
  cases hget : (offer.expectedLimits registry).get entry.1 with
  | none => simp
  | some limit =>
    simp only [Except.rejectIf_eq_ok, not_not]
    constructor
    · intro h
      exact ⟨limit, rfl, h⟩
    · intro h
      obtain ⟨other, hsome, hcontains⟩ := h
      cases hsome
      exact hcontains

/-- An expected limit is a mandatory limit of a supported label. -/
theorem of_get_expectedLimits {tag : QualifiedTag} {limit : LimitDefinition}
    (h : (offer.expectedLimits registry).get tag = some limit) :
    limit.tag = tag ∧ ∃ label ∈ offer.supported.map Prod.fst, ∃ definition,
      registry.get label = some definition ∧ limit ∈ definition.limits ∧ limit.mandatory = true := by
  rcases SortedMap.mem_of_get_foldl_insert h with ⟨hmem, htag⟩ | hempty
  · refine ⟨htag, ?_⟩
    obtain ⟨entry, hentry, hlimit⟩ := List.mem_flatMap.mp hmem
    cases hget : registry.get entry.1 with
    | none => rw [hget] at hlimit; cases hlimit
    | some definition =>
      rw [hget] at hlimit
      obtain ⟨hin, hmandatory⟩ := List.mem_filter.mp hlimit
      exact ⟨entry.1, List.mem_map_of_mem hentry, definition, hget, hin, hmandatory⟩
  · cases hempty

theorem isSome_get_expectedLimits {label : FeatureTag} {definition : FeatureDefinition}
    {limit : LimitDefinition} (hlabel : label ∈ offer.supported.map Prod.fst)
    (hget : registry.get label = some definition) (hlimit : limit ∈ definition.limits)
    (hmandatory : limit.mandatory = true) :
    ((offer.expectedLimits registry).get limit.tag).isSome = true := by
  refine SortedMap.isSome_get_foldl_insert (Or.inl ⟨limit, ?_, rfl⟩)
  obtain ⟨entry, hentry, rfl⟩ := List.mem_map.mp hlabel
  refine List.mem_flatMap.mpr ⟨entry, hentry, ?_⟩
  rw [hget]
  exact List.mem_filter.mpr ⟨hlimit, hmandatory⟩

end FeatureOffer

variable {label : FeatureTag} {definition : FeatureDefinition} {limit : LimitDefinition}

/-- Two definitions of a registry that own one limit tag own it under one label. -/
theorem FeatureRegistry.limit_unique (registry : FeatureRegistry) {label' : FeatureTag}
    {definition' : FeatureDefinition} {limit' : LimitDefinition}
    (hget : registry.get label = some definition) (hget' : registry.get label' = some definition')
    (hlimit : limit ∈ definition.limits) (hlimit' : limit' ∈ definition'.limits)
    (htag : limit.tag = limit'.tag) : label = label' ∧ limit = limit' := by
  have hmem : ∀ {label definition}, registry.get label = some definition →
      definition ∈ registry.definitions.toList.map Prod.snd := fun hget =>
    List.mem_map_of_mem ((SortedMap.mem_toList_iff _ _ _).mpr hget)
  have hsame : definition = definition' := by
    by_contra hne
    have : Std.Symm (Function.onFun List.Disjoint fun definition : FeatureDefinition =>
        definition.limits.map LimitDefinition.tag) := ⟨fun _ _ h => List.Disjoint.symm h⟩
    have hdisjoint := (List.nodup_flatMap.mp registry.nodup_limitTags).2.forall
      (hmem hget) (hmem hget') hne
    refine hdisjoint (List.mem_map_of_mem hlimit) ?_
    rw [htag]
    exact List.mem_map_of_mem hlimit'
  subst hsame
  refine ⟨?_, ?_⟩
  · rw [← registry.tag_of_get hget, ← registry.tag_of_get hget']
  · exact List.inj_on_of_nodup_map definition.limitsDistinct hlimit hlimit' htag

/-- The receiver knows every label of the sender that owns a mandatory limit. -/
def KnowsLimitOwners (receiver sender : FeatureRegistry) : Prop :=
  ∀ label definition, sender.get label = some definition →
    (∃ limit ∈ definition.limits, limit.mandatory = true) →
    ∃ definition', receiver.get label = some definition'

/-- The definitions of two registries agree on every label they share. -/
def SharedAgree (registry registry' : FeatureRegistry) : Prop :=
  ∀ label definition definition', registry.get label = some definition →
    registry'.get label = some definition' → definition.wire = definition'.wire

variable {offer : FeatureOffer}

theorem mem_labels_iff {registry : FeatureRegistry} (hoffers : Offers registry offer) :
    label ∈ offer.supported.map Prod.fst ↔ ∃ definition, registry.get label = some definition := by
  constructor
  · intro hmem
    obtain ⟨⟨label, digest⟩, hentry, rfl⟩ := List.mem_map.mp hmem
    obtain ⟨definition, hget, -⟩ := (hoffers.supported _ _).mp hentry
    exact ⟨definition, hget⟩
  · rintro ⟨definition, hget⟩
    obtain ⟨digest, hdigest⟩ := hoffers.digests label definition hget
    exact List.mem_map_of_mem (f := Prod.fst) ((hoffers.supported label digest).mpr ⟨definition, hget, hdigest⟩)

variable {sender receiver : FeatureRegistry}

/-- The limits the receiver expects are limits the sender offers. -/
theorem mem_limits_of_expected (hoffers : Offers sender offer)
    (hagree : SharedAgree sender receiver) {tag : QualifiedTag}
    (h : (offer.expectedLimits receiver).get tag = some limit) :
    ∃ label definition, sender.get label = some definition ∧ limit ∈ definition.limits ∧
      limit.mandatory = true ∧ limit.tag = tag ∧ (∃ known, receiver.get label = some known) := by
  obtain ⟨htag, label, hlabel, known, hget, hin, hmandatory⟩ := FeatureOffer.of_get_expectedLimits h
  obtain ⟨definition, hsender⟩ := (mem_labels_iff hoffers).mp hlabel
  have hwire := hagree label definition known hsender hget
  exact ⟨label, definition, hsender, (FeatureDefinition.mem_limits_of_wire_eq hwire limit).mpr hin,
    hmandatory, htag, known, hget⟩

/-- The receiver expects the limits of the owners it knows. -/
theorem isSome_expected_of_known (hoffers : Offers sender offer)
    (hagree : SharedAgree sender receiver) {known : FeatureDefinition}
    (hget : sender.get label = some definition) (hknown : receiver.get label = some known)
    (hlimit : limit ∈ definition.limits) (hmandatory : limit.mandatory = true) :
    ((offer.expectedLimits receiver).get limit.tag).isSome = true := by
  have hwire := hagree label definition known hget hknown
  exact FeatureOffer.isSome_get_expectedLimits ((mem_labels_iff hoffers).mpr ⟨definition, hget⟩)
    hknown ((FeatureDefinition.mem_limits_of_wire_eq hwire limit).mp hlimit) hmandatory

private theorem nodup_offerTags (h : offer.Ascending) :
    (offer.limits.map Prod.fst).Nodup := by
  rw [List.Nodup, List.pairwise_map]
  exact h.limits.imp ne_of_lt

/-- A receiver that knows the limit owners accepts the limits. -/
theorem validateLimits_of_knows (hoffers : Offers sender offer)
    (hagree : SharedAgree sender receiver) (hknows : KnowsLimitOwners receiver sender) :
    offer.validateLimits receiver = .ok () := by
  have hexpected : ∀ tag value, (tag, value) ∈ offer.limits →
      ∃ limit, (offer.expectedLimits receiver).get tag = some limit ∧ limit.contains value = true := by
    intro tag value hmem
    obtain ⟨label, definition, limit, hget, hin, hmandatory, rfl, rfl⟩ :=
      (hoffers.limits tag value).mp hmem
    obtain ⟨known, hknown⟩ := hknows label definition hget ⟨limit, hin, hmandatory⟩
    obtain ⟨found, hfound⟩ := Option.isSome_iff_exists.mp
      (isSome_expected_of_known hoffers hagree hget hknown hin hmandatory)
    obtain ⟨label', definition', hget', hin', -, htag, -⟩ :=
      mem_limits_of_expected hoffers hagree hfound
    obtain ⟨-, rfl⟩ := sender.limit_unique hget' hget hin' hin htag
    refine ⟨found, hfound, ?_⟩
    have hfloor := found.range.aboveFloor
    have hceiling := found.range.belowCeiling
    simp only [LimitDefinition.contains, LimitRange.contains, LimitDefinition.default,
      Bool.and_eq_true]
    exact ⟨decide_eq_true hfloor, decide_eq_true hceiling⟩
  refine FeatureOffer.validateLimits_eq_ok.mpr ⟨?_, fun entry hentry => hexpected _ _ hentry⟩
  -- the offered and the expected tags are the same, without repetition
  have hperm : (offer.limits.map Prod.fst).Perm
      ((offer.expectedLimits receiver).toList.map Prod.fst) := by
    refine (List.perm_ext_iff_of_nodup (nodup_offerTags hoffers.ascending)
      (SortedMap.nodup_keys _)).mpr fun tag => ?_
    rw [SortedMap.mem_keys]
    constructor
    · intro hmem
      obtain ⟨⟨tag, value⟩, hentry, rfl⟩ := List.mem_map.mp hmem
      obtain ⟨limit, hlimit, -⟩ := hexpected tag value hentry
      rw [hlimit]
      rfl
    · intro hsome
      obtain ⟨limit, hlimit⟩ := Option.isSome_iff_exists.mp hsome
      obtain ⟨label, definition, hget, hin, hmandatory, htag, -⟩ :=
        mem_limits_of_expected hoffers hagree hlimit
      have hentry : (tag, limit.default) ∈ offer.limits :=
        (hoffers.limits _ _).mpr ⟨label, definition, limit, hget, hin, hmandatory, htag, rfl⟩
      exact List.mem_map_of_mem (f := Prod.fst) hentry
  simpa using hperm.length_eq

/-- A registry accepts the limits of its own offers. -/
theorem validateLimits_own {registry : FeatureRegistry} (hoffers : Offers registry offer) :
    offer.validateLimits registry = .ok () := by
  refine validateLimits_of_knows hoffers ?_ fun label definition hget _ => ⟨definition, hget⟩
  intro label definition definition' hget hget'
  rw [hget] at hget'
  cases hget'
  rfl

/-- A receiver that accepts the limits knows the limit owners. -/
theorem knows_of_validateLimits (hoffers : Offers sender offer)
    (hagree : SharedAgree sender receiver) (h : offer.validateLimits receiver = .ok ()) :
    KnowsLimitOwners receiver sender := by
  obtain ⟨-, hall⟩ := FeatureOffer.validateLimits_eq_ok.mp h
  rintro label definition hget ⟨limit, hlimit, hmandatory⟩
  have hentry : (limit.tag, limit.default) ∈ offer.limits :=
    (hoffers.limits _ _).mpr ⟨label, definition, limit, hget, hlimit, hmandatory, rfl, rfl⟩
  obtain ⟨found, hfound, -⟩ := hall _ hentry
  obtain ⟨label', definition', hget', hin', -, htag, known, hknown⟩ :=
    mem_limits_of_expected hoffers hagree hfound
  -- the tag has one owner in the sender's registry
  obtain ⟨rfl, -⟩ := sender.limit_unique hget' hget hin' hlimit htag
  exact ⟨known, hknown⟩

/-- The bytes of a node's offer are accepted by a registry that agrees with the node's on
    the shared labels if and only if it knows every label that owns a mandatory limit;
    then the offer is carried whole, and only labels the receiver knows are selected. -/
theorem node_offer_accepted_iff (hhosts : FoldedHosts) (sender receiver : FeatureRegistry)
    (hagree : SharedAgree sender receiver) (callerRequired : Finset FeatureTag) (offer : FeatureOffer)
    (hoffer : nodeOffer sender callerRequired = .ok offer) :
    ∃ bytes, offer.encode = .ok bytes ∧
      ((∃ decoded, FeatureOffer.decode bytes receiver = .ok decoded ∧ decoded = offer ∧
          ∀ localOffer localRequired selection,
            select receiver localOffer decoded localRequired decoded.required = .ok selection →
            ∀ label ∈ selection.features, ∃ definition, receiver.get label = some definition) ↔
        KnowsLimitOwners receiver sender) := by
  have hoffers := offers_of_nodeOffer hoffer
  refine ⟨_, offer.encode_eq_ok, ?_⟩
  rw [FeatureOffer.decode_encode hhosts hoffers.ascending]
  constructor
  · rintro ⟨decoded, hdecoded, -⟩
    obtain ⟨hvalid, -⟩ := Except.seq_eq_ok.mp hdecoded
    exact knows_of_validateLimits hoffers hagree hvalid
  · intro hknows
    refine ⟨offer, ?_, rfl, ?_⟩
    · rw [validateLimits_of_knows hoffers hagree hknows]
      rfl
    · intro localOffer localRequired selection hselect label hlabel
      obtain ⟨-, selected, rfl, -, -, -, hfeatures, -⟩ := select_eq_ok.mp hselect
      rw [hfeatures] at hlabel
      exact known_of_mem_fixedPoint ((Finset.mem_sort _).mp hlabel)

end Interop

/-- A registry with one more feature reads the offer of the built-in one. -/
theorem sample_offer_accepted_iff :
    letI := DnsName.hostNames
    ∃ (sender receiver : FeatureRegistry) (offer : FeatureOffer) (bytes : Bytes),
      SharedAgree sender receiver ∧ nodeOffer sender ∅ = .ok offer ∧ offer.encode = .ok bytes ∧
      KnowsLimitOwners receiver sender ∧ FeatureOffer.decode bytes receiver = .ok offer := by
  let _ := DnsName.hostNames
  obtain ⟨plain, extended, offer, offer', hplain, hextended, hoffer, -⟩ := exists_sampleOffers
  have hagree : SharedAgree plain extended := by
    intro label definition definition' hget hget'
    rw [eq_of_get_samples hplain hextended hget hget']
  have hknows : KnowsLimitOwners extended plain := by
    intro label definition hget _
    obtain ⟨hmem, hlabel⟩ := (FeatureRegistry.get_of_build hplain _ _).mp hget
    exact ⟨definition, (FeatureRegistry.get_of_build hextended _ _).mpr
      ⟨List.mem_append_left _ hmem, hlabel⟩⟩
  obtain ⟨bytes, hbytes, haccepted⟩ :=
    node_offer_accepted_iff foldedHosts_hostNames plain extended hagree ∅ offer hoffer
  obtain ⟨decoded, hdecoded, rfl, -⟩ := haccepted.mpr hknows
  exact ⟨plain, extended, decoded, bytes, hagree, hoffer, hbytes, hknows, hdecoded⟩

private theorem sampleExtension_mandatory :
    letI := DnsName.hostNames
    ∃ limit ∈ sampleExtension.limits, limit.mandatory = true := by
  decide +kernel

/-- The built-in registry refuses the offer of a node whose one further label is optional
    and owns a mandatory limit. -/
theorem sample_offer_refused :
    letI := DnsName.hostNames
    ∃ (sender receiver : FeatureRegistry) (offer : FeatureOffer) (bytes : Bytes) (e : Error),
      SharedAgree sender receiver ∧ nodeOffer sender ∅ = .ok offer ∧
      (∀ label ∈ offer.required, ∃ definition, receiver.get label = some definition) ∧
      offer.encode = .ok bytes ∧ FeatureOffer.decode bytes receiver = .error e := by
  let _ := DnsName.hostNames
  obtain ⟨plain, extended, -, offer, hplain, hextended, -, hoffer⟩ := exists_sampleOffers
  have hagree : SharedAgree extended plain := by
    intro label definition definition' hget hget'
    rw [eq_of_get_samples hplain hextended hget' hget]
  have hlabels := acceptable_sampleExtension.labels
  rw [List.map_append, List.nodup_append] at hlabels
  have hunknown : ¬ KnowsLimitOwners plain extended := by
    intro hknows
    have hget : extended.get sampleExtension.tag = some sampleExtension :=
      (FeatureRegistry.get_of_build hextended _ _).mpr ⟨by simp, rfl⟩
    obtain ⟨definition, hdefinition⟩ := hknows _ _ hget sampleExtension_mandatory
    obtain ⟨hmem, hlabel⟩ := (FeatureRegistry.get_of_build hplain _ _).mp hdefinition
    exact hlabels.2.2 _ (List.mem_map_of_mem hmem) _ (by simp) hlabel
  have hrequired : ∀ label ∈ offer.required, ∃ definition, plain.get label = some definition := by
    intro label hlabel
    have hsession := (mem_required_of_nodeOffer hoffer requiredSessionFeatures_hostNames label).mp hlabel
    rw [Finset.empty_union, List.mem_toFinset] at hsession
    obtain ⟨definition, hmem, heq⟩ := sampleLabels_builtin label hsession
    exact ⟨definition, (FeatureRegistry.get_of_build hplain _ _).mpr ⟨hmem, heq⟩⟩
  have hdecode := FeatureOffer.decode_encode foldedHosts_hostNames
    (offers_of_nodeOffer hoffer).ascending plain
  cases hlimits : offer.validateLimits plain with
  | ok => exact absurd (knows_of_validateLimits (offers_of_nodeOffer hoffer) hagree hlimits) hunknown
  | error e =>
    rw [hlimits] at hdecode
    exact ⟨extended, plain, offer, _, e, hagree, hoffer, hrequired, offer.encode_eq_ok, hdecode⟩

end Radiata
