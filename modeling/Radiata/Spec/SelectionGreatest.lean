import Radiata.Spec.SelectionCorrect
import Mathlib.Order.Bounds.Basic

/-!
# The greatest dependency-closed common set

`select` drops labels without their dependencies until no more is dropped. What stays is
the greatest set of shared labels that holds a definition for each of its labels and all
the dependencies of that definition. A selection fails only for a label that both offers
name with other digests, a conflict inside that set, a required label outside it or a
mandatory limit of it that one offer does not name.

## Key results

- `isGreatest_dependencyFixedPoint`: the fixed point is the greatest closed subset
- `select_error_iff`: what a selection fails for
- `select_greatest`: what a selection returns
-/

namespace Radiata

section Selection

variable [DnsName]

/-! ## Closed sets -/

/-- Every label of the set has a definition whose dependencies lie in the set. -/
def DependencyClosed (registry : FeatureRegistry) (selected : Finset FeatureTag) : Prop :=
  ∀ tag ∈ selected, ∃ definition, registry.get tag = some definition ∧
    ∀ dependency ∈ definition.dependencies, dependency ∈ selected

variable {registry : FeatureRegistry} {selected : Finset FeatureTag}

theorem supportedBy_iff {tag : FeatureTag} : supportedBy registry selected tag = true ↔
      ∃ definition, registry.get tag = some definition ∧
        ∀ dependency ∈ definition.dependencies, dependency ∈ selected := by
  unfold supportedBy
  cases registry.get tag with
  | none => simp
  | some definition => simp

theorem dependencyClosed_iff :
    DependencyClosed registry selected ↔
      ∀ tag ∈ selected, supportedBy registry selected tag = true := by
  simp only [DependencyClosed, supportedBy_iff]

/-- A label stays supported in a larger set. -/
theorem supportedBy_mono {larger : Finset FeatureTag} (hsub : selected ⊆ larger)
    {tag : FeatureTag} (h : supportedBy registry selected tag = true) :
    supportedBy registry larger tag = true := by
  obtain ⟨definition, hget, hdependencies⟩ := supportedBy_iff.mp h
  exact supportedBy_iff.mpr ⟨definition, hget, fun dependency hdependency =>
    hsub (hdependencies dependency hdependency)⟩

/-- No round of the loop drops a label of a closed set. -/
theorem subset_dependencyFixedPoint {closed : Finset FeatureTag}
    (hclosed : DependencyClosed registry closed) (hsub : closed ⊆ selected) :
    closed ⊆ dependencyFixedPoint registry selected := by
  fun_induction dependencyFixedPoint registry selected
  case case1 selected retained hcard => exact hsub
  case case2 selected retained hcard ih =>
    apply ih
    intro tag htag
    have hsupported := dependencyClosed_iff.mp hclosed tag htag
    exact Finset.mem_filter.mpr ⟨hsub htag, supportedBy_mono hsub hsupported⟩

/-- The loop ends in the greatest closed subset. -/
theorem isGreatest_dependencyFixedPoint (registry : FeatureRegistry)
    (selected : Finset FeatureTag) :
    IsGreatest {subset | subset ⊆ selected ∧ DependencyClosed registry subset}
      (dependencyFixedPoint registry selected) := by
  constructor
  · constructor
    · exact dependencyFixedPoint_subset registry selected
    · exact dependencyClosed_iff.mpr fun tag htag => supportedBy_of_mem_fixedPoint htag
  · intro subset hsubset
    exact subset_dependencyFixedPoint hsubset.2 hsubset.1

/-! ## Shared labels -/

/-- Both offers support the label with one digest. -/
def Shares (offer offer' : FeatureOffer) (tag : FeatureTag) : Prop :=
  ∃ digest, (tag, digest) ∈ offer.supported ∧ (tag, digest) ∈ offer'.supported

/-- The sets of shared labels that hold what their labels depend on. -/
def closedShared (registry : FeatureRegistry) (offer offer' : FeatureOffer) :
    Set (Finset FeatureTag) :=
  {selected | (∀ tag ∈ selected, Shares offer offer' tag) ∧ DependencyClosed registry selected}

/-- Both offers support the label, with other digests or with one that is not the digest of
    the definition the registry has for it. A definition above the limits of its canonical
    record has no digest, so no offer carries it. -/
def Mismatched (registry : FeatureRegistry) (offer offer' : FeatureOffer) (tag : FeatureTag) :
    Prop :=
  ∃ digest digest', (tag, digest) ∈ offer.supported ∧ (tag, digest') ∈ offer'.supported ∧
    (digest ≠ digest' ∨
      ∃ definition, registry.get tag = some definition ∧ definition.definitionDigest ≠ .ok digest)

variable {offer offer' : FeatureOffer}

/-- The digest checks pass exactly where no label is mismatched. -/
theorem matches_iff (hoffer' : offer'.Ascending) :
    (∀ entry ∈ offer.supported, Matches registry offer' entry.1 entry.2) ↔
      ¬ ∃ tag, Mismatched registry offer offer' tag := by
  constructor
  · rintro hmatches ⟨tag, digest, digest', hentry, hentry', hwrong⟩
    have hremote := hoffer'.supportedDigest_eq_some.mpr hentry'
    obtain ⟨hsame, hregistry⟩ := hmatches (tag, digest) hentry digest' hremote
    rcases hwrong with hne | ⟨definition, hget, hdigest⟩
    · exact hne hsame.symm
    · exact hdigest (hregistry definition hget)
  · intro hnone entry hentry digest' hremote
    have hentry' := hoffer'.supportedDigest_eq_some.mp hremote
    by_contra hwrong
    apply hnone
    refine ⟨entry.1, entry.2, digest', hentry, hentry', ?_⟩
    by_cases hsame : digest' = entry.2
    · right
      by_contra hregistry
      apply hwrong
      refine ⟨hsame, fun definition hget => ?_⟩
      by_contra hdigest
      exact hregistry ⟨definition, hget, hdigest⟩
    · exact Or.inl fun heq => hsame heq.symm

/-- Without a mismatch the common labels are the shared ones. -/
theorem mem_commonLabels_iff_shares (hnone : ¬ ∃ tag, Mismatched registry offer offer' tag)
    {tag : FeatureTag} :
    tag ∈ commonLabels offer offer' ↔ Shares offer offer' tag := by
  rw [mem_commonLabels]
  constructor
  · rintro ⟨hlocal, hremote⟩
    obtain ⟨⟨label, digest⟩, hentry, rfl⟩ := List.mem_map.mp hlocal
    obtain ⟨⟨label', digest'⟩, hentry', heq⟩ := List.mem_map.mp hremote
    cases heq
    by_cases hsame : digest = digest'
    · rw [← hsame] at hentry'
      exact ⟨digest, hentry, hentry'⟩
    · exact absurd ⟨label, digest, digest', hentry, hentry', Or.inl hsame⟩ hnone
  · rintro ⟨digest, hentry, hentry'⟩
    exact ⟨List.mem_map_of_mem (f := Prod.fst) hentry, List.mem_map_of_mem (f := Prod.fst) hentry'⟩

theorem isGreatest_closedShared {registry : FeatureRegistry} {offer offer' : FeatureOffer}
    (hnone : ¬ ∃ tag, Mismatched registry offer offer' tag) :
    IsGreatest (closedShared registry offer offer')
      (dependencyFixedPoint registry (commonLabels offer offer')) := by
  have hsets : closedShared registry offer offer' =
      {subset | subset ⊆ commonLabels offer offer' ∧ DependencyClosed registry subset} := by
    ext subset
    simp only [closedShared, Set.mem_ofPred_eq, Finset.subset_iff,
      mem_commonLabels_iff_shares hnone]
  rw [hsets]
  exact isGreatest_dependencyFixedPoint registry (commonLabels offer offer')

/-! ## Rejections -/

/-- Two labels of the set conflict. -/
def HasConflict (registry : FeatureRegistry) (selected : Finset FeatureTag) : Prop :=
  ∃ tag ∈ selected, ∃ definition, registry.get tag = some definition ∧
    ∃ conflict ∈ definition.conflicts, conflict ∈ selected

/-- A mandatory limit of a label in the set is missing from an offer. -/
def LacksLimit (registry : FeatureRegistry) (offer offer' : FeatureOffer)
    (selected : Finset FeatureTag) : Prop :=
  ∃ tag ∈ selected, ∃ definition, registry.get tag = some definition ∧
    ∃ limit ∈ definition.limits, limit.mandatory = true ∧
      (offer.limitValue limit.tag = none ∨ offer'.limitValue limit.tag = none)

/-- The documented reasons to reject two offers. -/
def Rejected (registry : FeatureRegistry) (offer offer' : FeatureOffer)
    (required required' : List FeatureTag) : Prop :=
  (∃ tag, Mismatched registry offer offer' tag) ∨
    ∃ selected, IsGreatest (closedShared registry offer offer') selected ∧
      (HasConflict registry selected ∨
        (∃ tag ∈ required ++ required', registry.get tag = none ∨ tag ∉ selected) ∨
        LacksLimit registry offer offer' selected)

theorem forM_rejectConflicts_eq_ok (hclosed : DependencyClosed registry selected) :
    selected.sort.forM (rejectConflicts registry selected) = .ok () ↔
      ¬ HasConflict registry selected := by
  rw [Except.forM_eq_ok]
  constructor
  · rintro hchecked ⟨tag, htag, definition, hget, conflict, hconflict, hmem⟩
    have hlabel := hchecked tag ((Finset.mem_sort _).mpr htag)
    exact (rejectConflicts_eq_ok hget).mp hlabel conflict hconflict hmem
  · intro hnone tag htag
    have hin := (Finset.mem_sort _).mp htag
    obtain ⟨definition, hget, -⟩ := hclosed tag hin
    rw [rejectConflicts_eq_ok hget]
    intro conflict hconflict hmem
    exact hnone ⟨tag, hin, definition, hget, conflict, hconflict, hmem⟩

theorem mem_mandatoryLimits_iff {limit : LimitDefinition} :
    limit ∈ mandatoryLimits registry selected.sort ↔
      ∃ tag ∈ selected, ∃ definition, registry.get tag = some definition ∧
        limit ∈ definition.limits ∧ limit.mandatory = true := by
  rw [mandatoryLimits, List.mem_flatMap]
  constructor
  · rintro ⟨tag, htag, hlimit⟩
    cases hget : registry.get tag with
    | none => simp [hget] at hlimit
    | some definition =>
      rw [hget] at hlimit
      exact ⟨tag, (Finset.mem_sort _).mp htag, definition, hget, List.mem_filter.mp hlimit⟩
  · rintro ⟨tag, htag, definition, hget, hlimit⟩
    refine ⟨tag, (Finset.mem_sort _).mpr htag, ?_⟩
    rw [hget]
    exact List.mem_filter.mpr hlimit

theorem bothOffer_iff {tag : QualifiedTag} :
    BothOffer offer offer' tag ↔
      ¬ (offer.limitValue tag = none ∨ offer'.limitValue tag = none) := by
  simp only [BothOffer, not_or, Option.ne_none_iff_exists']

theorem bothOffer_mandatory_iff {registry : FeatureRegistry} {offer offer' : FeatureOffer}
    {selected : Finset FeatureTag} :
    (∀ limit ∈ mandatoryLimits registry selected.sort, BothOffer offer offer' limit.tag) ↔
      ¬ LacksLimit registry offer offer' selected := by
  constructor
  · rintro hboth ⟨tag, htag, definition, hget, limit, hlimit, hmandatory, hmissing⟩
    have hoffered := hboth limit
      (mem_mandatoryLimits_iff.mpr ⟨tag, htag, definition, hget, hlimit, hmandatory⟩)
    exact bothOffer_iff.mp hoffered hmissing
  · intro hnone limit hlimit
    obtain ⟨tag, htag, definition, hget, hin, hmandatory⟩ := mem_mandatoryLimits_iff.mp hlimit
    rw [bothOffer_iff]
    intro hmissing
    exact hnone ⟨tag, htag, definition, hget, limit, hin, hmandatory, hmissing⟩

/-- The bytes of the greatest closed set always fit. -/
theorem encode_selected (hoffer : offer.Ascending) (hsub : selected ⊆ commonLabels offer offer')
    (hboth : ∀ limit ∈ mandatoryLimits registry selected.sort, BothOffer offer offer' limit.tag) :
    ∃ bytes, encodeCanonical (encodeOnly SelectionWire.toItem)
      (selectionWire selected.sort (insertMinima offer offer' .empty
        ((mandatoryLimits registry selected.sort).map LimitDefinition.tag)).toList)
      controlCborLimits = .ok bytes := by
  have hcount : selected.sort.length ≤ 128 := by
    have hcommon := length_commonLabels_le offer offer'
    have hcapacity := offer.wellFormed.supportedCapacity
    have hcard := Finset.card_le_card hsub
    rw [Finset.length_sort] at hcommon ⊢
    unfold maxSupportedLabels at hcapacity
    omega
  exact ⟨_, encode_selectionWire hcount (length_insertMinima_le hoffer hboth)⟩

variable {required' : List FeatureTag}

variable {required : List FeatureTag}

/-- A selection succeeds where no reason to reject holds. -/
theorem select_of_not_rejected (hoffer : offer.Ascending) (hoffer' : offer'.Ascending)
    (h : ¬ Rejected registry offer offer' required required') :
    ∃ selection, select registry offer offer' required required' = .ok selection := by
  have hnone : ¬ ∃ tag, Mismatched registry offer offer' tag := fun hsome => h (Or.inl hsome)
  have hgreatest := isGreatest_closedShared hnone
  have hclosed := hgreatest.1.2
  have hreasons := fun hreason => h (Or.inr ⟨_, hgreatest, hreason⟩)
  have hboth := (@bothOffer_mandatory_iff _ registry offer offer' _).mpr
    fun hlacks => hreasons (Or.inr (Or.inr hlacks))
  obtain ⟨bytes, hencode⟩ := encode_selected hoffer (dependencyFixedPoint_subset registry _) hboth
  refine ⟨⟨_, _, bytes⟩, select_eq_ok.mpr ⟨(matches_iff hoffer').mpr hnone, _, rfl, ?_, ?_, hboth,
    rfl, rfl, hencode⟩⟩
  · exact (forM_rejectConflicts_eq_ok hclosed).mpr fun hconflict => hreasons (Or.inl hconflict)
  · intro tag htag
    by_contra hmissing
    apply hreasons
    refine Or.inr (Or.inl ⟨tag, ?_, Or.inr hmissing⟩)
    simpa only [Finset.mem_union, List.mem_toFinset, List.mem_append] using htag

/-- A selection that succeeded has no reason to be rejected. -/
theorem not_rejected_of_select (hoffer' : offer'.Ascending) {selection : Selection}
    (h : select registry offer offer' required required' = .ok selection) :
    ¬ Rejected registry offer offer' required required' := by
  obtain ⟨hmatches, selected, rfl, hconflicts, hrequired, hboth, -, -, -⟩ := select_eq_ok.mp h
  have hnone := (matches_iff hoffer').mp hmatches
  have hgreatest := isGreatest_closedShared hnone
  rintro (hmismatch | ⟨other, hother, hreason⟩)
  · exact hnone hmismatch
  -- the greatest set is unique, so the reason is about the computed one
  rw [hother.unique hgreatest] at hreason
  rcases hreason with hconflict | ⟨tag, htag, hmissing⟩ | hlacks
  · exact (forM_rejectConflicts_eq_ok hgreatest.1.2).mp hconflicts hconflict
  · have hin := hrequired tag (by
      simpa only [Finset.mem_union, List.mem_toFinset, List.mem_append] using htag)
    rcases hmissing with hunknown | houtside
    · obtain ⟨definition, hget⟩ := known_of_mem_fixedPoint hin
      rw [hget] at hunknown
      cases hunknown
    · exact houtside hin
  · exact bothOffer_mandatory_iff.mp hboth hlacks

/-- `select` fails exactly for a documented reason. -/
theorem select_error_iff (hoffer : offer.Ascending) (hoffer' : offer'.Ascending) :
    (∃ e, select registry offer offer' required required' = .error e) ↔
      Rejected registry offer offer' required required' := by
  constructor
  · rintro ⟨e, herror⟩
    by_contra hno
    obtain ⟨selection, hok⟩ := select_of_not_rejected hoffer hoffer' hno
    rw [hok] at herror
    cases herror
  · intro hrejected
    cases hselect : select registry offer offer' required required' with
    | error e => exact ⟨e, rfl⟩
    | ok selection => exact absurd hrejected (not_rejected_of_select hoffer' hselect)

/-- `select` computes the greatest dependency-closed set of the labels two offers share,
    without a conflict and with every required label, and fails exactly for a documented
    reason. -/
theorem select_greatest (registry : FeatureRegistry) (offer offer' : FeatureOffer)
    (required required' : List FeatureTag) (hoffer : offer.Ascending)
    (hoffer' : offer'.Ascending) :
    (∀ selection, select registry offer offer' required required' = .ok selection →
      ∃ selected, IsGreatest (closedShared registry offer offer') selected ∧
        selection.features = selected.sort ∧ ¬ HasConflict registry selected ∧
        ∀ tag ∈ required ++ required', tag ∈ selected) ∧
    ((∃ e, select registry offer offer' required required' = .error e) ↔
      Rejected registry offer offer' required required') := by
  constructor
  · intro selection hselect
    obtain ⟨hmatches, selected, rfl, hconflicts, hrequired, -, hfeatures, -, -⟩ :=
      select_eq_ok.mp hselect
    have hgreatest := isGreatest_closedShared ((matches_iff hoffer').mp hmatches)
    refine ⟨_, hgreatest, hfeatures, (forM_rejectConflicts_eq_ok hgreatest.1.2).mp hconflicts, ?_⟩
    intro tag htag
    apply hrequired
    simpa only [Finset.mem_union, List.mem_toFinset, List.mem_append] using htag
  · exact select_error_iff hoffer hoffer'

end Selection

theorem sample_select_greatest :
    letI := DnsName.hostNames
    ∃ (registry : FeatureRegistry) (offer offer' : FeatureOffer),
      offer.Ascending ∧ offer'.Ascending ∧
      (∀ selection, select registry offer offer' offer.required offer'.required = .ok selection →
        ∃ selected, IsGreatest (closedShared registry offer offer') selected ∧
          selection.features = selected.sort ∧ ¬ HasConflict registry selected ∧
          ∀ tag ∈ offer.required ++ offer'.required, tag ∈ selected) ∧
      ((∃ e, select registry offer offer' offer.required offer'.required = .error e) ↔
        Rejected registry offer offer' offer.required offer'.required) := by
  let _ := DnsName.hostNames
  obtain ⟨plain, extended, offer, offer', -, -, hoffer, hoffer'⟩ := exists_sampleOffers
  have hascending := (offers_of_nodeOffer hoffer).ascending
  have hascending' := (offers_of_nodeOffer hoffer').ascending
  exact ⟨extended, offer, offer', hascending, hascending',
    select_greatest extended offer offer' offer.required offer'.required hascending hascending'⟩

end Radiata
