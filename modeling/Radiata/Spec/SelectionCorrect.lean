import Radiata.Native.Selection
import Radiata.Spec.OfferCorrect

/-!
# Both peers select the same features

Two nodes with different registries run `select` on the same pair of offers, each
against its own registry. On the labels both registries hold, equal digests mean equal
canonical records, so the two runs drop the same labels, meet the same conflicts and
merge the same limits.

## Key results

- `dependencyFixedPoint_congr`: the fixed point depends on the common labels only
- `select_swap`: a selection does not depend on which offer is the local one
- `min_of_mem_limits`: every effective limit is the minimum of the offered values
- `node_selections_agree`: both runs fail, or both return one selection
-/

namespace Radiata

open Cbor (Item)
open Except (okOr)

private theorem uint64_min_comm (a b : UInt64) : min a b = min b a := by
  show (if a ≤ b then a else b) = if b ≤ a then b else a
  by_cases hab : a ≤ b
  · by_cases hba : b ≤ a
    · rw [if_pos hab, if_pos hba]
      rw [UInt64.le_iff_toNat_le] at hab hba
      exact UInt64.toNat_inj.mp (Nat.le_antisymm hab hba)
    · rw [if_pos hab, if_neg hba]
  · have hba : b ≤ a := by
      rw [UInt64.le_iff_toNat_le] at hab ⊢
      omega
    rw [if_neg hab, if_pos hba]

section Selection

variable [DnsName]

/-! ## The dependency fixed point -/

theorem dependencyFixedPoint_subset (registry : FeatureRegistry) (selected : Finset FeatureTag) :
    dependencyFixedPoint registry selected ⊆ selected := by
  fun_induction dependencyFixedPoint registry selected
  case case1 selected retained hcard => exact Finset.Subset.refl selected
  case case2 selected retained hcard ih => exact ih.trans (Finset.filter_subset _ _)

variable {registry : FeatureRegistry} {selected : Finset FeatureTag} {tag : FeatureTag}

/-- Every label of the fixed point is known and has its dependencies. -/
theorem supportedBy_of_mem_fixedPoint (h : tag ∈ dependencyFixedPoint registry selected) :
    supportedBy registry (dependencyFixedPoint registry selected) tag = true := by
  fun_induction dependencyFixedPoint registry selected
  case case1 selected retained hcard =>
    have heq : retained = selected := Finset.eq_of_subset_of_card_le (Finset.filter_subset _ _) hcard.ge
    rw [← heq] at h
    exact (Finset.mem_filter.mp h).2
  case case2 selected retained hcard ih => exact ih h

theorem known_of_mem_fixedPoint (h : tag ∈ dependencyFixedPoint registry selected) :
    ∃ definition, registry.get tag = some definition := by
  have hsupported := supportedBy_of_mem_fixedPoint h
  unfold supportedBy at hsupported
  split at hsupported
  · rename_i definition hget
    exact ⟨definition, hget⟩
  · cases hsupported

variable {registry' : FeatureRegistry} {common : Finset FeatureTag}

/-- Registries that judge the labels of a set alike have the same fixed point below it. -/
theorem dependencyFixedPoint_congr (hsame : ∀ selected ⊆ common, ∀ tag ∈ selected,
      supportedBy registry selected tag = supportedBy registry' selected tag) :
    dependencyFixedPoint registry common = dependencyFixedPoint registry' common := by
  have hall : ∀ selected ⊆ common,
      dependencyFixedPoint registry selected = dependencyFixedPoint registry' selected := by
    intro selected
    fun_induction dependencyFixedPoint registry selected
    case case1 selected retained hcard =>
      intro hsub
      have hretained : (selected.filter fun tag => supportedBy registry' selected tag) = retained :=
        Finset.filter_congr fun tag htag => by rw [hsame selected hsub tag htag]
      rw [dependencyFixedPoint, hretained, if_pos hcard]
    case case2 selected retained hcard ih =>
      intro hsub
      have hretained : (selected.filter fun tag => supportedBy registry' selected tag) = retained :=
        Finset.filter_congr fun tag htag => by rw [hsame selected hsub tag htag]
      rw [ih ((Finset.filter_subset _ _).trans hsub)]
      conv_rhs => rw [dependencyFixedPoint, hretained]
      rw [if_neg hcard]
  exact hall common (Finset.Subset.refl common)

/-! ## Agreeing registries -/

/-- On the labels of `common` both registries hold definitions with one canonical record,
    or none. -/
def AgreeOn (common : Finset FeatureTag) (registry registry' : FeatureRegistry) : Prop :=
  ∀ tag ∈ common, Option.Rel (fun definition definition' => definition.wire = definition'.wire)
    (registry.get tag) (registry'.get tag)

theorem AgreeOn.get (h : AgreeOn common registry registry') (htag : tag ∈ common) :
    (registry.get tag = none ∧ registry'.get tag = none) ∨
      ∃ definition definition', registry.get tag = some definition ∧
        registry'.get tag = some definition' ∧ definition.wire = definition'.wire := by
  have hrel := h tag htag
  generalize registry.get tag = left, registry'.get tag = right at hrel
  cases hrel with
  | none => exact Or.inl ⟨rfl, rfl⟩
  | some hwire => exact Or.inr ⟨_, _, rfl, rfl, hwire⟩

theorem AgreeOn.refl (common : Finset FeatureTag) (registry : FeatureRegistry) :
    AgreeOn common registry registry := by
  intro tag _
  cases registry.get tag with
  | none => exact .none
  | some definition => exact .some rfl

theorem AgreeOn.symm (h : AgreeOn common registry registry') :
    AgreeOn common registry' registry := by
  intro tag htag
  rcases h.get htag with ⟨hget, hget'⟩ | ⟨definition, definition', hget, hget', hwire⟩
  · rw [hget, hget']
    exact .none
  · rw [hget, hget']
    exact .some hwire.symm

theorem AgreeOn.mono (h : AgreeOn common registry registry') (hsub : selected ⊆ common) :
    AgreeOn selected registry registry' := fun tag htag => h tag (hsub htag)

variable {definition : FeatureDefinition}

/-- A definition of one registry has a partner with the same record in the other. -/
theorem AgreeOn.partner (h : AgreeOn common registry registry') (htag : tag ∈ common)
    (hget : registry.get tag = some definition) :
    ∃ definition', registry'.get tag = some definition' ∧ definition.wire = definition'.wire := by
  rcases h.get htag with ⟨hnone, -⟩ | ⟨definition₁, definition', hget₁, hget', hwire⟩
  · rw [hnone] at hget
    cases hget
  · rw [hget] at hget₁
    cases hget₁
    exact ⟨definition', hget', hwire⟩

theorem AgreeOn.supportedBy_eq (h : AgreeOn common registry registry')
    (selected : Finset FeatureTag) (htag : tag ∈ common) :
    supportedBy registry selected tag = supportedBy registry' selected tag := by
  unfold supportedBy
  rcases h.get htag with ⟨hget, hget'⟩ | ⟨definition, definition', hget, hget', hwire⟩
  · rw [hget, hget']
  · rw [hget, hget']
    show definition.dependencies.all _ = definition'.dependencies.all _
    rw [Bool.eq_iff_iff, List.all_eq_true, List.all_eq_true]
    simp only [FeatureDefinition.mem_dependencies_of_wire_eq hwire]

theorem AgreeOn.fixedPoint_eq (h : AgreeOn common registry registry') :
    dependencyFixedPoint registry common = dependencyFixedPoint registry' common :=
  dependencyFixedPoint_congr fun selected hsub _ htag => h.supportedBy_eq selected (hsub htag)

/-! ## Steps 1 and 2 -/

/-- The labels both offers support. -/
def commonLabels (localOffer remoteOffer : FeatureOffer) : Finset FeatureTag :=
  (localOffer.supported.map Prod.fst).toFinset.filter fun tag =>
    (remoteOffer.supportedDigest tag).isSome

/-- A supported label carries the digest of the other offer and of the registry, where
    these have one. -/
def Matches (registry : FeatureRegistry) (remoteOffer : FeatureOffer) (tag : FeatureTag)
    (digest : Digest) : Prop :=
  ∀ remoteDigest, remoteOffer.supportedDigest tag = some remoteDigest → remoteDigest = digest ∧
    ∀ definition, registry.get tag = some definition → definition.definitionDigest = .ok digest

variable {remoteOffer : FeatureOffer}

variable {selected' : Finset FeatureTag} {entry : FeatureTag × Digest}

theorem intersectLabel_eq_ok :
    intersectLabel registry remoteOffer selected entry = .ok selected' ↔
      Matches registry remoteOffer entry.1 entry.2 ∧
        selected' = if (remoteOffer.supportedDigest entry.1).isSome then insert entry.1 selected
          else selected := by
  unfold intersectLabel Matches
  cases remoteOffer.supportedDigest entry.1 with
  | none => simp [eq_comm]
  | some remoteDigest =>
    cases registry.get entry.1 with
    | none =>
      simp only [Except.seq_eq_ok, Except.rejectIf_eq_ok, not_not, Except.pure_eq]
      simp [eq_comm]
    | some definition =>
      cases hdigest : definition.definitionDigest with
      | error e =>
        simp only [hdigest, Except.seq_eq_ok, Except.rejectIf_eq_ok, not_not]
        simp [hdigest]
      | ok registryDigest =>
        simp only [hdigest, Except.seq_eq_ok, Except.rejectIf_eq_ok, not_not, Except.pure_eq]
        simp only [Except.ok.injEq, Option.some.injEq, forall_eq', Option.isSome_some, if_true,
          hdigest, and_assoc, eq_comm (a := selected')]

theorem foldlM_intersectLabel_eq_ok {supported : List (FeatureTag × Digest)} :
    supported.foldlM (intersectLabel registry remoteOffer) selected = .ok selected' ↔
      (∀ entry ∈ supported, Matches registry remoteOffer entry.1 entry.2) ∧
        selected' = selected ∪ (supported.map Prod.fst).toFinset.filter fun tag =>
          (remoteOffer.supportedDigest tag).isSome := by
  induction supported generalizing selected with
  | nil =>
    rw [List.foldlM_nil, Except.pure_eq, Except.ok.injEq, eq_comm]
    simp
  | cons entry supported ih =>
    -- the label of the entry joins the set before the remaining ones
    have hunion : (if (remoteOffer.supportedDigest entry.1).isSome then insert entry.1 selected
          else selected) ∪ ((supported.map Prod.fst).toFinset.filter fun tag =>
            (remoteOffer.supportedDigest tag).isSome) =
        selected ∪ ((entry :: supported).map Prod.fst).toFinset.filter fun tag =>
          (remoteOffer.supportedDigest tag).isSome := by
      ext tag
      by_cases hsome : (remoteOffer.supportedDigest entry.1).isSome = true
      · rw [if_pos hsome]
        simp only [Finset.mem_union, Finset.mem_insert, Finset.mem_filter, List.mem_toFinset,
          List.map_cons, List.mem_cons]
        grind
      · rw [if_neg hsome]
        simp only [Finset.mem_union, Finset.mem_filter, List.mem_toFinset, List.map_cons,
          List.mem_cons]
        grind
    rw [List.foldlM_cons, Except.bind_eq_ok, ← hunion, List.forall_mem_cons]
    simp only [intersectLabel_eq_ok, ih]
    constructor
    · rintro ⟨next, ⟨hmatches, rfl⟩, hrest, hselected⟩
      exact ⟨⟨hmatches, hrest⟩, hselected⟩
    · rintro ⟨⟨hmatches, hrest⟩, hselected⟩
      exact ⟨_, ⟨hmatches, rfl⟩, hrest, hselected⟩

variable {localOffer : FeatureOffer}

theorem intersect_eq_ok :
    localOffer.supported.foldlM (intersectLabel registry remoteOffer) ∅ = .ok common ↔
      (∀ entry ∈ localOffer.supported, Matches registry remoteOffer entry.1 entry.2) ∧
        common = commonLabels localOffer remoteOffer := by
  rw [foldlM_intersectLabel_eq_ok, Finset.empty_union]
  rfl

variable {offer : FeatureOffer}

theorem isSome_supportedDigest :
    (offer.supportedDigest tag).isSome = true ↔ tag ∈ offer.supported.map Prod.fst := by
  rw [FeatureOffer.supportedDigest, Option.isSome_map, List.find?_isSome]
  simp

theorem mem_commonLabels :
    tag ∈ commonLabels localOffer remoteOffer ↔
      tag ∈ localOffer.supported.map Prod.fst ∧ tag ∈ remoteOffer.supported.map Prod.fst := by
  rw [commonLabels, Finset.mem_filter, List.mem_toFinset, isSome_supportedDigest]

theorem commonLabels_comm (localOffer remoteOffer : FeatureOffer) :
    commonLabels localOffer remoteOffer = commonLabels remoteOffer localOffer := by
  ext tag
  rw [mem_commonLabels, mem_commonLabels, and_comm]

/-- The digests of the common labels match for one side if they match for the other. -/
theorem matches_swap (hlocal : localOffer.Ascending) (hremote : remoteOffer.Ascending)
    (hagree : AgreeOn (commonLabels localOffer remoteOffer) registry registry')
    (h : ∀ entry ∈ localOffer.supported, Matches registry remoteOffer entry.1 entry.2) :
    ∀ entry ∈ remoteOffer.supported, Matches registry' localOffer entry.1 entry.2 := by
  rintro ⟨tag, digest⟩ hentry localDigest hlocalDigest
  have hlocalMem := hlocal.supportedDigest_eq_some.mp hlocalDigest
  have hremoteDigest := hremote.supportedDigest_eq_some.mpr hentry
  obtain ⟨hsame, hregistry⟩ := h _ hlocalMem digest hremoteDigest
  refine ⟨hsame.symm, ?_⟩
  intro definition' hget'
  have hcommon : tag ∈ commonLabels localOffer remoteOffer :=
    mem_commonLabels.mpr ⟨List.mem_map_of_mem hlocalMem, List.mem_map_of_mem hentry⟩
  obtain ⟨definition, hget, hwire⟩ := (hagree.symm).partner hcommon hget'
  rw [FeatureDefinition.definitionDigest, hwire]
  show definition.definitionDigest = .ok digest
  rw [hsame]
  exact hregistry definition hget

/-! ## Steps 4 to 6 -/

theorem rejectConflicts_eq_ok (hget : registry.get tag = some definition) :
    rejectConflicts registry selected tag = .ok () ↔
      ∀ conflict ∈ definition.conflicts, conflict ∉ selected := by
  simp only [rejectConflicts, hget, okOr, Except.ok_bind_eq]
  rw [Except.forM_eq_ok]
  refine forall_congr' fun conflict => imp_congr_right fun _ => ?_
  split
  · rename_i hmem
    exact ⟨fun h => (by cases h), fun h => absurd hmem h⟩
  · rename_i hmem
    exact ⟨fun _ => hmem, fun _ => rfl⟩

theorem AgreeOn.rejectConflicts_eq_ok (h : AgreeOn selected registry registry')
    (hok : selected.sort.forM (rejectConflicts registry selected) = .ok ()) :
    selected.sort.forM (rejectConflicts registry' selected) = .ok () := by
  rw [Except.forM_eq_ok] at hok ⊢
  intro tag htag
  have hin : tag ∈ selected := (Finset.mem_sort _).mp htag
  have hlabel := hok tag htag
  have hknown := hlabel
  simp only [rejectConflicts, Except.bind_eq_ok, Except.okOr_eq_ok] at hknown
  obtain ⟨definition, hget, -⟩ := hknown
  obtain ⟨definition', hget', hwire⟩ := h.partner hin hget
  rw [Radiata.rejectConflicts_eq_ok hget] at hlabel
  rw [Radiata.rejectConflicts_eq_ok hget']
  intro conflict hconflict
  exact hlabel conflict ((FeatureDefinition.mem_conflicts_of_wire_eq hwire conflict).mpr hconflict)

theorem checkRequired_eq_ok
    (hknown : ∀ tag ∈ selected, ∃ definition, registry.get tag = some definition) :
    checkRequired registry selected tag = .ok () ↔ tag ∈ selected := by
  simp only [checkRequired, Except.seq_eq_ok, Except.rejectIf_eq_ok, not_not]
  constructor
  · exact fun h => h.2
  · intro htag
    obtain ⟨definition, hget⟩ := hknown tag htag
    exact ⟨by rw [hget]; simp, htag⟩

/-! ## Effective limits -/

/-- The minimum of the offered values of a limit. -/
def offeredMinimum (localOffer remoteOffer : FeatureOffer) (tag : QualifiedTag) : UInt64 :=
  min ((localOffer.limitValue tag).getD 0) ((remoteOffer.limitValue tag).getD 0)

/-- The mandatory limits of the labels in a row. -/
def mandatoryLimits (registry : FeatureRegistry) (labels : List FeatureTag) : List LimitDefinition :=
  labels.flatMap fun tag =>
    match registry.get tag with
    | some definition => definition.limits.filter LimitDefinition.mandatory
    | none => []

/-- Both offers name a value for a limit. -/
def BothOffer (localOffer remoteOffer : FeatureOffer) (tag : QualifiedTag) : Prop :=
  (∃ value, localOffer.limitValue tag = some value) ∧ ∃ value, remoteOffer.limitValue tag = some value

theorem BothOffer.symm {tag : QualifiedTag} (h : BothOffer localOffer remoteOffer tag) :
    BothOffer remoteOffer localOffer tag := ⟨h.2, h.1⟩

theorem offeredMinimum_comm (localOffer remoteOffer : FeatureOffer) (tag : QualifiedTag) :
    offeredMinimum localOffer remoteOffer tag = offeredMinimum remoteOffer localOffer tag :=
  uint64_min_comm _ _

variable {limit : LimitDefinition}

theorem effectiveLimit_eq_ok {effective effective' : SortedMap QualifiedTag UInt64} :
    effectiveLimit localOffer remoteOffer effective limit = .ok effective' ↔
      BothOffer localOffer remoteOffer limit.tag ∧
        effective' = effective.insert limit.tag (offeredMinimum localOffer remoteOffer limit.tag) := by
  simp only [effectiveLimit, Except.bind_eq_ok, Except.okOr_eq_ok, Except.pure_eq, Except.ok.injEq]
  constructor
  · rintro ⟨localValue, hlocal, remoteValue, hremote, rfl⟩
    refine ⟨⟨⟨localValue, hlocal⟩, remoteValue, hremote⟩, ?_⟩
    rw [offeredMinimum, hlocal, hremote]
    rfl
  · rintro ⟨⟨⟨localValue, hlocal⟩, remoteValue, hremote⟩, rfl⟩
    refine ⟨localValue, hlocal, remoteValue, hremote, ?_⟩
    rw [offeredMinimum, hlocal, hremote]
    rfl

/-- The map of the minima of some limits. -/
def insertMinima (localOffer remoteOffer : FeatureOffer) (effective : SortedMap QualifiedTag UInt64)
    (tags : List QualifiedTag) : SortedMap QualifiedTag UInt64 :=
  tags.foldl (fun m tag => m.insert tag (offeredMinimum localOffer remoteOffer tag)) effective

/-- A fold over limits inserts their minima, if both offers name them all. -/
theorem foldlM_effectiveLimit_eq_ok {limits : List LimitDefinition}
    {effective effective' : SortedMap QualifiedTag UInt64} :
    limits.foldlM (effectiveLimit localOffer remoteOffer) effective = .ok effective' ↔
      (∀ limit ∈ limits, BothOffer localOffer remoteOffer limit.tag) ∧
        effective' =
          insertMinima localOffer remoteOffer effective (limits.map LimitDefinition.tag) := by
  induction limits generalizing effective with
  | nil =>
    rw [List.foldlM_nil, Except.pure_eq, Except.ok.injEq, eq_comm]
    simp [insertMinima]
  | cons limit limits ih =>
    rw [List.foldlM_cons, Except.bind_eq_ok, List.forall_mem_cons]
    simp only [effectiveLimit_eq_ok, ih]
    constructor
    · rintro ⟨next, ⟨hboth, rfl⟩, hrest, heffective⟩
      exact ⟨⟨hboth, hrest⟩, heffective⟩
    · rintro ⟨⟨hboth, hrest⟩, heffective⟩
      exact ⟨_, ⟨hboth, rfl⟩, hrest, heffective⟩

theorem foldlM_effectiveLimits_eq_ok {labels : List FeatureTag}
    (hknown : ∀ tag ∈ labels, ∃ definition, registry.get tag = some definition)
    {effective effective' : SortedMap QualifiedTag UInt64} :
    labels.foldlM (effectiveLimits registry localOffer remoteOffer) effective = .ok effective' ↔
      (∀ limit ∈ mandatoryLimits registry labels, BothOffer localOffer remoteOffer limit.tag) ∧
        effective' = insertMinima localOffer remoteOffer effective
          ((mandatoryLimits registry labels).map LimitDefinition.tag) := by
  induction labels generalizing effective with
  | nil =>
    rw [List.foldlM_nil, Except.pure_eq, Except.ok.injEq, eq_comm]
    simp [mandatoryLimits, insertMinima]
  | cons tag labels ih =>
    obtain ⟨definition, hget⟩ := hknown tag (List.mem_cons_self ..)
    have hsplit : mandatoryLimits registry (tag :: labels) =
        definition.limits.filter LimitDefinition.mandatory ++ mandatoryLimits registry labels := by
      simp only [mandatoryLimits, List.flatMap_cons, hget]
    have hlabel : ∀ effective, effectiveLimits registry localOffer remoteOffer effective tag =
        (definition.limits.filter LimitDefinition.mandatory).foldlM
          (effectiveLimit localOffer remoteOffer) effective := by
      intro effective
      simp only [effectiveLimits, hget, okOr, Except.ok_bind_eq]
    rw [List.foldlM_cons, Except.bind_eq_ok, hsplit, List.forall_mem_append, List.map_append]
    simp only [hlabel, foldlM_effectiveLimit_eq_ok,
      ih (fun other hother => hknown other (List.mem_cons_of_mem tag hother))]
    constructor
    · rintro ⟨next, ⟨hboth, rfl⟩, hrest, heffective⟩
      refine ⟨⟨hboth, hrest⟩, ?_⟩
      rw [heffective, insertMinima, insertMinima, insertMinima, List.foldl_append]
    · rintro ⟨⟨hboth, hrest⟩, heffective⟩
      refine ⟨_, ⟨hboth, rfl⟩, hrest, ?_⟩
      rw [heffective, insertMinima, insertMinima, insertMinima, List.foldl_append]

/-- Agreeing registries own the same mandatory limits. -/
theorem AgreeOn.mem_mandatoryLimits (h : AgreeOn selected registry registry')
    (hlimit : limit ∈ mandatoryLimits registry selected.sort) :
    limit ∈ mandatoryLimits registry' selected.sort := by
  obtain ⟨tag, htag, hin⟩ := List.mem_flatMap.mp hlimit
  cases hget : registry.get tag with
  | none =>
    rw [hget] at hin
    cases hin
  | some definition =>
    rw [hget] at hin
    obtain ⟨hin, hmandatory⟩ := List.mem_filter.mp hin
    obtain ⟨definition', hget', hwire⟩ := h.partner ((Finset.mem_sort _).mp htag) hget
    refine List.mem_flatMap.mpr ⟨tag, htag, ?_⟩
    rw [hget']
    exact List.mem_filter.mpr
      ⟨(FeatureDefinition.mem_limits_of_wire_eq hwire limit).mp hin, hmandatory⟩

/-- The minima depend on which limits there are, not on their order or the side. -/
theorem insertMinima_eq {tags : List QualifiedTag} (tags' : List QualifiedTag)
    (h : ∀ tag, tag ∈ tags ↔ tag ∈ tags') :
    insertMinima localOffer remoteOffer .empty tags = insertMinima remoteOffer localOffer .empty tags' := by
  refine SortedMap.ext_get fun tag => ?_
  rw [insertMinima, insertMinima, SortedMap.get_foldl_insert, SortedMap.get_foldl_insert,
    offeredMinimum_comm]
  by_cases hmem : tag ∈ tags'
  · rw [if_pos hmem, if_pos ((h tag).mpr hmem)]
  · rw [if_neg hmem, if_neg fun htag => hmem ((h tag).mp htag)]

/-! ## The two runs -/

variable {selection : Selection}

variable {localRequired remoteRequired : List FeatureTag}

/-- What a successful selection consists of. -/
theorem select_eq_ok :
    select registry localOffer remoteOffer localRequired remoteRequired = .ok selection ↔
      (∀ entry ∈ localOffer.supported, Matches registry remoteOffer entry.1 entry.2) ∧
      ∃ selected, selected = dependencyFixedPoint registry (commonLabels localOffer remoteOffer) ∧
      selected.sort.forM (rejectConflicts registry selected) = .ok () ∧
      (∀ tag ∈ localRequired.toFinset ∪ remoteRequired.toFinset, tag ∈ selected) ∧
      (∀ limit ∈ mandatoryLimits registry selected.sort,
        BothOffer localOffer remoteOffer limit.tag) ∧
      selection.features = selected.sort ∧
      selection.limits = (insertMinima localOffer remoteOffer .empty
        ((mandatoryLimits registry selected.sort).map LimitDefinition.tag)).toList ∧
      encodeCanonical (encodeOnly SelectionWire.toItem)
        (selectionWire selection.features selection.limits) controlCborLimits =
          .ok selection.bytes := by
  simp only [select, Except.bind_eq_ok, intersect_eq_ok]
  constructor
  · rintro ⟨common, ⟨hmatches, rfl⟩, _, hconflicts, _, hrequired, effective, heffective, hbytes⟩
    have hknown : ∀ tag ∈ (dependencyFixedPoint registry (commonLabels localOffer remoteOffer)).sort,
        ∃ definition, registry.get tag = some definition := fun tag htag =>
      known_of_mem_fixedPoint ((Finset.mem_sort _).mp htag)
    obtain ⟨hboth, rfl⟩ := (foldlM_effectiveLimits_eq_ok hknown).mp heffective
    refine ⟨hmatches, _, rfl, hconflicts, ?_, hboth, ?_⟩
    · intro tag htag
      have hchecked := Except.forM_eq_ok.mp hrequired tag ((Finset.mem_sort _).mpr htag)
      exact (checkRequired_eq_ok fun _ => known_of_mem_fixedPoint).mp hchecked
    · split at hbytes
      · cases hbytes
      · rename_i bytes hencode
        cases hbytes
        exact ⟨rfl, rfl, hencode⟩
  · rintro ⟨hmatches, selected, rfl, hconflicts, hrequired, hboth, hfeatures, hlimits, hencode⟩
    have hknown : ∀ tag ∈ (dependencyFixedPoint registry (commonLabels localOffer remoteOffer)).sort,
        ∃ definition, registry.get tag = some definition := fun tag htag =>
      known_of_mem_fixedPoint ((Finset.mem_sort _).mp htag)
    refine ⟨_, ⟨hmatches, rfl⟩, (), hconflicts, (), ?_, _,
      (foldlM_effectiveLimits_eq_ok hknown).mpr ⟨hboth, rfl⟩, ?_⟩
    · refine Except.forM_eq_ok.mpr fun tag htag => ?_
      exact (checkRequired_eq_ok fun _ => known_of_mem_fixedPoint).mpr
        (hrequired tag ((Finset.mem_sort _).mp htag))
    · rw [hfeatures, hlimits] at hencode
      simp only [hencode, Except.pure_eq, Except.ok.injEq]
      cases selection
      simp_all

/-- A selection computed on one side is the selection of the other side. -/
theorem select_swap (hlocal : localOffer.Ascending) (hremote : remoteOffer.Ascending)
    (hagree : AgreeOn (commonLabels localOffer remoteOffer) registry registry')
    (h : select registry localOffer remoteOffer localRequired remoteRequired = .ok selection) :
    select registry' remoteOffer localOffer remoteRequired localRequired = .ok selection := by
  obtain ⟨hmatches, selected, hselected, hconflicts, hrequired, hboth, hfeatures, hlimits, hencode⟩ :=
    select_eq_ok.mp h
  have hselected' : selected =
      dependencyFixedPoint registry' (commonLabels remoteOffer localOffer) := by
    rw [hselected, hagree.fixedPoint_eq, commonLabels_comm]
  have hsub : selected ⊆ commonLabels localOffer remoteOffer := by
    rw [hselected]
    exact dependencyFixedPoint_subset _ _
  have hagreeSelected := hagree.mono hsub
  refine select_eq_ok.mpr ⟨matches_swap hlocal hremote hagree hmatches, selected, hselected',
    hagreeSelected.rejectConflicts_eq_ok hconflicts, ?_, ?_, hfeatures, ?_, hencode⟩
  · intro tag htag
    exact hrequired tag (by rwa [Finset.union_comm] at htag)
  · intro limit hlimit
    exact (hboth limit (hagreeSelected.symm.mem_mandatoryLimits hlimit)).symm
  · rw [hlimits, insertMinima_eq ((mandatoryLimits registry' selected.sort).map
      LimitDefinition.tag)]
    intro tag
    simp only [List.mem_map]
    constructor
    · rintro ⟨limit, hlimit, rfl⟩
      exact ⟨limit, hagreeSelected.mem_mandatoryLimits hlimit, rfl⟩
    · rintro ⟨limit, hlimit, rfl⟩
      exact ⟨limit, hagreeSelected.symm.mem_mandatoryLimits hlimit, rfl⟩

/-! ## Two nodes -/

/-- `definition_digest` is injective on the definitions that two registries hold for one
    label: equal digests come from equal canonical records. -/
def DigestsInjective (registry registry' : FeatureRegistry) : Prop :=
  ∀ tag definition definition' digest, registry.get tag = some definition →
    registry'.get tag = some definition' → definition.definitionDigest = .ok digest →
    definition'.definitionDigest = .ok digest → definition.wire = definition'.wire

theorem DigestsInjective.symm (h : DigestsInjective registry registry') :
    DigestsInjective registry' registry := by
  intro tag definition definition' digest hget hget' hdigest hdigest'
  exact (h tag definition' definition digest hget' hget hdigest' hdigest).symm

variable {offer' : FeatureOffer}

/-- Registries whose offers match on the common labels agree there. -/
theorem agreeOn_of_matches (hoffers : Offers registry offer) (hoffers' : Offers registry' offer')
    (hinjective : DigestsInjective registry registry')
    (h : ∀ entry ∈ offer.supported, Matches registry offer' entry.1 entry.2) :
    AgreeOn (commonLabels offer offer') registry registry' := by
  intro tag htag
  obtain ⟨hlocal, hremote⟩ := mem_commonLabels.mp htag
  obtain ⟨⟨label, digest⟩, hentry, rfl⟩ := List.mem_map.mp hlocal
  obtain ⟨⟨label', digest'⟩, hentry', heq⟩ := List.mem_map.mp hremote
  cases heq
  obtain ⟨definition, hget, hdigest⟩ := (hoffers.supported _ _).mp hentry
  obtain ⟨definition', hget', hdigest'⟩ := (hoffers'.supported _ _).mp hentry'
  obtain ⟨hsame, -⟩ := h _ hentry digest' (hoffers'.ascending.supportedDigest_eq_some.mpr hentry')
  rw [hsame] at hdigest'
  show Option.Rel _ (registry.get label) (registry'.get label)
  rw [hget, hget']
  exact .some (hinjective label definition definition' digest hget hget' hdigest hdigest')

/-- A selection of one node is the selection of the other. -/
theorem select_of_select (hoffers : Offers registry offer) (hoffers' : Offers registry' offer')
    (hinjective : DigestsInjective registry registry')
    (h : select registry offer offer' offer.required offer'.required = .ok selection) :
    select registry' offer' offer offer'.required offer.required = .ok selection :=
  select_swap hoffers.ascending hoffers'.ascending
    (agreeOn_of_matches hoffers hoffers' hinjective (select_eq_ok.mp h).1) h

theorem min_of_mem_limits {required required' : List FeatureTag}
    (h : select registry offer offer' required required' = .ok selection) {tag : QualifiedTag}
    {value : UInt64} (hmem : (tag, value) ∈ selection.limits) :
    ∃ offered offered', offer.limitValue tag = some offered ∧ offer'.limitValue tag = some offered' ∧
      value = min offered offered' := by
  obtain ⟨-, selected, -, -, -, hboth, -, hlimits, -⟩ := select_eq_ok.mp h
  rw [hlimits, SortedMap.mem_toList_iff, insertMinima, SortedMap.get_foldl_insert] at hmem
  split at hmem
  · rename_i htag
    obtain ⟨limit, hlimit, rfl⟩ := List.mem_map.mp htag
    obtain ⟨⟨offered, hoffered⟩, offered', hoffered'⟩ := hboth limit hlimit
    refine ⟨offered, offered', hoffered, hoffered', ?_⟩
    rw [← Option.some.inj hmem, offeredMinimum, hoffered, hoffered']
    rfl
  · cases hmem

/-- Two nodes always negotiate the same selection: both fail, or both return one selection
    whose limits are the minima of the offered values. -/
theorem node_selections_agree (registry registry' : FeatureRegistry)
    (callerRequired callerRequired' : Finset FeatureTag) (offer offer' : FeatureOffer)
    (hoffer : nodeOffer registry callerRequired = .ok offer)
    (hoffer' : nodeOffer registry' callerRequired' = .ok offer')
    (hinjective : DigestsInjective registry registry') :
    ((∃ e, select registry offer offer' offer.required offer'.required = .error e) ∧
        ∃ e, select registry' offer' offer offer'.required offer.required = .error e) ∨
      ∃ selection, select registry offer offer' offer.required offer'.required = .ok selection ∧
        select registry' offer' offer offer'.required offer.required = .ok selection ∧
        ∀ tag value, (tag, value) ∈ selection.limits → ∃ offered offered',
          offer.limitValue tag = some offered ∧ offer'.limitValue tag = some offered' ∧
            value = min offered offered' := by
  have hoffers := offers_of_nodeOffer hoffer
  have hoffers' := offers_of_nodeOffer hoffer'
  cases hone : select registry offer offer' offer.required offer'.required with
  | ok selection =>
    have hother := select_of_select hoffers hoffers' hinjective hone
    exact Or.inr ⟨selection, rfl, hother, fun tag value hmem => min_of_mem_limits hone hmem⟩
  | error e =>
    refine Or.inl ⟨⟨e, rfl⟩, ?_⟩
    cases hother : select registry' offer' offer offer'.required offer.required with
    | error e' => exact ⟨e', rfl⟩
    | ok selection =>
      rw [select_of_select hoffers' hoffers hinjective.symm hother] at hone
      cases hone

/-! ## Two offers of one registry -/

/-- A set that holds the dependencies of its labels is its own fixed point. -/
theorem dependencyFixedPoint_eq_self
    (h : ∀ tag ∈ selected, supportedBy registry selected tag = true) :
    dependencyFixedPoint registry selected = selected := by
  have hretained : (selected.filter fun tag => supportedBy registry selected tag) = selected :=
    Finset.filter_true_of_mem h
  rw [dependencyFixedPoint, hretained, if_pos rfl]

variable {limits : List (QualifiedTag × UInt64)}

/-- The size of a selection of at most `n` labels. -/
theorem size_selectionWire_le {features : List FeatureTag} {n : Nat}
    (hfeatures : features.length ≤ n) (hlimits : limits.length ≤ 128) :
    (selectionWire features limits).toItem.size ≤
      1 + (Cbor.headLen n + n * 130) + (2 + 128 * 140) := by
  have hlabels : (Item.array ((selectionWire features limits).features.map .text)).size ≤
      Cbor.headLen n + n * 130 := by
    rw [selectionWire, List.map_map]
    refine Item.size_array_map_le hfeatures ?_
    intro tag _
    exact Item.size_text_le tag.tag.length_asStr_le
  have hvalues : (Item.array ((selectionWire features limits).limits.map LimitEntryWire.toItem)).size ≤
      2 + 128 * 140 := by
    rw [selectionWire, List.map_map]
    refine Item.size_array_map_le hlimits ?_
    intro entry _
    exact LimitEntryWire.size_toItem_le entry.1 entry.2
  show Cbor.headLen 2 + ((Item.array _).size + ((Item.array _).size + 0)) ≤ _
  rw [show Cbor.headLen 2 = 1 by decide]
  omega

/-- The bytes of a selection within the capacities. -/
theorem encode_selectionWire {features : List FeatureTag} (hfeatures : features.length ≤ 128)
    (hlimits : limits.length ≤ 128) :
    encodeCanonical (encodeOnly SelectionWire.toItem) (selectionWire features limits)
      controlCborLimits = .ok (selectionWire features limits).toItem.encode := by
  have hfits : Fits controlCborLimits 0 (selectionWire features limits).toItem := by
    simp only [SelectionWire.toItem, selectionWire, Fits, FitsAll, fitsAll_iff, controlCborLimits,
      List.length_map, List.length_cons, List.length_nil, List.mem_map, and_true]
    refine ⟨by omega, by omega, ⟨by omega, by omega, ?_⟩, by omega, by omega, ?_⟩
    · rintro item ⟨label, ⟨tag, -, rfl⟩, rfl⟩
      exact tag.tag.ascii.isUtf8
    · rintro item ⟨entry, ⟨source, -, rfl⟩, rfl⟩
      simp only [LimitEntryWire.toItem, Fits, FitsAll, List.length_cons, List.length_nil, and_true]
      exact ⟨by omega, by omega, source.1.ascii.isUtf8⟩
  rw [encodeCanonical_item _ _ rfl (by decide) (by decide) hfits (by decide), if_pos]
  exact (size_selectionWire_le hfeatures hlimits).trans (by decide)

/-- The labels of two offers of one registry. -/
theorem mem_commonLabels_of_offers (hoffers : Offers registry offer)
    (hoffers' : Offers registry offer') :
    tag ∈ commonLabels offer offer' ↔ ∃ definition, registry.get tag = some definition := by
  have hlabels : ∀ {offer : FeatureOffer}, Offers registry offer →
      (tag ∈ offer.supported.map Prod.fst ↔ ∃ definition, registry.get tag = some definition) := by
    intro offer hoffers
    constructor
    · intro hmem
      obtain ⟨⟨label, digest⟩, hentry, rfl⟩ := List.mem_map.mp hmem
      obtain ⟨definition, hget, -⟩ := (hoffers.supported _ _).mp hentry
      exact ⟨definition, hget⟩
    · rintro ⟨definition, hget⟩
      obtain ⟨digest, hdigest⟩ := hoffers.digests tag definition hget
      exact List.mem_map_of_mem (f := Prod.fst) ((hoffers.supported _ _).mpr ⟨definition, hget, hdigest⟩)
  rw [mem_commonLabels, hlabels hoffers, hlabels hoffers', and_self]

/-- Two offers of one registry name all its mandatory limits. -/
theorem bothOffer_of_offers (hoffers : Offers registry offer) (hoffers' : Offers registry offer')
    {labels : List FeatureTag} (hlimit : limit ∈ mandatoryLimits registry labels) :
    BothOffer offer offer' limit.tag := by
  obtain ⟨tag, -, hlimit⟩ := List.mem_flatMap.mp hlimit
  cases hget : registry.get tag with
  | none => rw [hget] at hlimit; cases hlimit
  | some definition =>
    rw [hget] at hlimit
    obtain ⟨hin, hmandatory⟩ := List.mem_filter.mp hlimit
    have hentry : ∃ label definition limit', registry.get label = some definition ∧
        limit' ∈ definition.limits ∧ limit'.mandatory = true ∧ limit'.tag = limit.tag ∧
        limit'.default = limit.default := ⟨tag, definition, limit, hget, hin, hmandatory, rfl, rfl⟩
    exact ⟨⟨limit.default, hoffers.ascending.limitValue_eq_some.mpr ((hoffers.limits _ _).mpr hentry)⟩,
      limit.default, hoffers'.ascending.limitValue_eq_some.mpr ((hoffers'.limits _ _).mpr hentry)⟩

/-- Every effective limit is one of the offered limits. -/
theorem length_insertMinima_le {limits : List LimitDefinition} (hascending : offer.Ascending)
    (h : ∀ limit ∈ limits, BothOffer offer offer' limit.tag) :
    (insertMinima offer offer' .empty (limits.map LimitDefinition.tag)).toList.length ≤ 128 := by
  have hsub : (insertMinima offer offer' .empty (limits.map LimitDefinition.tag)).toList.map Prod.fst ⊆
      offer.limits.map Prod.fst := by
    intro tag htag
    obtain ⟨⟨tag, value⟩, hentry, rfl⟩ := List.mem_map.mp htag
    rw [SortedMap.mem_toList_iff, insertMinima, SortedMap.get_foldl_insert] at hentry
    split at hentry
    · rename_i hin
      obtain ⟨limit, hlimit, rfl⟩ := List.mem_map.mp hin
      obtain ⟨⟨offered, hoffered⟩, -⟩ := h limit hlimit
      exact List.mem_map.mpr ⟨(limit.tag, offered), hascending.limitValue_eq_some.mp hoffered, rfl⟩
    · cases hentry
  have hle := ((SortedMap.nodup_keys _).subperm hsub).length_le
  rw [List.length_map, List.length_map] at hle
  exact hle.trans offer.wellFormed.limitsCapacity

theorem length_commonLabels_le (offer offer' : FeatureOffer) :
    (commonLabels offer offer').sort.length ≤ offer.supported.length := by
  rw [Finset.length_sort]
  have hsub : commonLabels offer offer' ⊆ (offer.supported.map Prod.fst).toFinset := by
    intro tag htag
    exact List.mem_toFinset.mpr (mem_commonLabels.mp htag).1
  have hle := (Finset.card_le_card hsub).trans (List.toFinset_card_le _)
  rwa [List.length_map] at hle

theorem known_of_required (hoffers : Offers registry offer) (htag : tag ∈ offer.required) :
    ∃ definition, registry.get tag = some definition := by
  obtain ⟨⟨label, digest⟩, hentry, rfl⟩ := offer.wellFormed.requiredSupported tag htag
  obtain ⟨definition, hget, -⟩ := (hoffers.supported _ _).mp hentry
  exact ⟨definition, hget⟩

theorem matches_of_offers (hoffers : Offers registry offer) (hoffers' : Offers registry offer')
    (hentry : entry ∈ offer.supported) :
    Matches registry offer' entry.1 entry.2 := by
  intro remoteDigest hremote
  obtain ⟨definition, hget, hdigest⟩ := (hoffers.supported _ _).mp hentry
  obtain ⟨definition', hget', hdigest'⟩ :=
    (hoffers'.supported _ _).mp (hoffers'.ascending.supportedDigest_eq_some.mp hremote)
  rw [hget] at hget'
  cases hget'
  rw [hdigest] at hdigest'
  cases hdigest'
  refine ⟨rfl, fun other hother => ?_⟩
  rw [hget] at hother
  cases hother
  exact hdigest

/-- Two offers of one registry without conflicts select all its labels. -/
theorem exists_select (hoffers : Offers registry offer) (hoffers' : Offers registry offer')
    (hconflicts : ∀ tag definition, registry.get tag = some definition → definition.conflicts = [])
    (hdependencies : ∀ tag definition, registry.get tag = some definition →
      ∀ dependency ∈ definition.dependencies, ∃ other, registry.get dependency = some other) :
    ∃ selection, select registry offer offer' offer.required offer'.required = .ok selection ∧
      selection.bytes = (selectionWire selection.features selection.limits).toItem.encode ∧
      selection.features.length ≤ offer.supported.length ∧ selection.limits.length ≤ 128 ∧
      ∀ tag, tag ∈ selection.features ↔ ∃ definition, registry.get tag = some definition := by
  have hcommon : ∀ tag, tag ∈ commonLabels offer offer' ↔
      ∃ definition, registry.get tag = some definition := fun tag =>
    mem_commonLabels_of_offers hoffers hoffers'
  have hfixed : commonLabels offer offer' = dependencyFixedPoint registry (commonLabels offer offer') := by
    refine (dependencyFixedPoint_eq_self fun tag htag => ?_).symm
    obtain ⟨definition, hget⟩ := (hcommon tag).mp htag
    simp only [supportedBy, hget, List.all_eq_true, decide_eq_true_eq]
    exact fun dependency hdependency =>
      (hcommon dependency).mpr (hdependencies tag definition hget dependency hdependency)
  have hboth : ∀ limit ∈ mandatoryLimits registry (commonLabels offer offer').sort,
      BothOffer offer offer' limit.tag := fun limit => bothOffer_of_offers hoffers hoffers'
  have hforM : (commonLabels offer offer').sort.forM
      (rejectConflicts registry (commonLabels offer offer')) = .ok () := by
    refine Except.forM_eq_ok.mpr fun tag htag => ?_
    obtain ⟨definition, hget⟩ := (hcommon tag).mp ((Finset.mem_sort _).mp htag)
    rw [rejectConflicts_eq_ok hget, hconflicts tag definition hget]
    simp
  have hrequired : ∀ tag ∈ offer.required.toFinset ∪ offer'.required.toFinset,
      tag ∈ commonLabels offer offer' := by
    intro tag htag
    rw [hcommon]
    rcases Finset.mem_union.mp htag with htag | htag
    · exact known_of_required hoffers (List.mem_toFinset.mp htag)
    · exact known_of_required hoffers' (List.mem_toFinset.mp htag)
  have hcount := length_commonLabels_le offer offer'
  have hcount' := length_insertMinima_le hoffers.ascending hboth
  have hencode := encode_selectionWire (hcount.trans offer.wellFormed.supportedCapacity) hcount'
  generalize hlimits : (insertMinima offer offer' .empty ((mandatoryLimits registry
    (commonLabels offer offer').sort).map LimitDefinition.tag)).toList = limits at hencode hcount'
  generalize hbytes : (selectionWire (commonLabels offer offer').sort limits).toItem.encode = bytes
    at hencode
  have hselect : select registry offer offer' offer.required offer'.required =
      .ok ⟨(commonLabels offer offer').sort, limits, bytes⟩ :=
    select_eq_ok.mpr ⟨fun entry => matches_of_offers hoffers hoffers', commonLabels offer offer',
      hfixed, hforM, hrequired, hboth, rfl, hlimits.symm, hencode⟩
  refine ⟨_, hselect, hbytes.symm, hcount, hcount', fun tag => ?_⟩
  rw [Finset.mem_sort]
  exact hcommon tag

end Selection

/-- The shared definitions of the sample registries are the same. -/
theorem eq_of_get_samples {plain extended : @FeatureRegistry .hostNames}
    (hplain : @FeatureRegistry.build .hostNames sampleBuiltins = .ok plain)
    (hextended : @FeatureRegistry.build .hostNames (sampleBuiltins ++ [sampleExtension]) = .ok extended)
    {label : @FeatureTag .hostNames} {definition definition' : @FeatureDefinition .hostNames}
    (hget : @FeatureRegistry.get .hostNames plain label = some definition)
    (hget' : @FeatureRegistry.get .hostNames extended label = some definition') :
    definition = definition' := by
  let _ := DnsName.hostNames
  obtain ⟨hmem, hlabel⟩ := (FeatureRegistry.get_of_build hplain _ _).mp hget
  obtain ⟨hmem', hlabel'⟩ := (FeatureRegistry.get_of_build hextended _ _).mp hget'
  exact List.inj_on_of_nodup_map acceptable_sampleExtension.labels (List.mem_append_left _ hmem) hmem'
    (hlabel.trans hlabel'.symm)

theorem sample_selections_agree :
    letI := DnsName.hostNames
    ∃ (registry registry' : FeatureRegistry) (offer offer' : FeatureOffer),
      nodeOffer registry ∅ = .ok offer ∧ nodeOffer registry' ∅ = .ok offer' ∧
      DigestsInjective registry registry' ∧
      (((∃ e, select registry offer offer' offer.required offer'.required = .error e) ∧
          ∃ e, select registry' offer' offer offer'.required offer.required = .error e) ∨
        ∃ selection, select registry offer offer' offer.required offer'.required = .ok selection ∧
          select registry' offer' offer offer'.required offer.required = .ok selection ∧
          ∀ tag value, (tag, value) ∈ selection.limits → ∃ offered offered',
            offer.limitValue tag = some offered ∧ offer'.limitValue tag = some offered' ∧
              value = min offered offered') := by
  let _ := DnsName.hostNames
  obtain ⟨plain, extended, offer, offer', hplain, hextended, hoffer, hoffer'⟩ := exists_sampleOffers
  have hinjective : DigestsInjective plain extended := by
    intro tag definition definition' digest hget hget' _ _
    rw [eq_of_get_samples hplain hextended hget hget']
  exact ⟨plain, extended, offer, offer', hoffer, hoffer', hinjective,
    node_selections_agree plain extended ∅ ∅ offer offer' hoffer hoffer' hinjective⟩

end Radiata
