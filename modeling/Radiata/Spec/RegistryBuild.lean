import Radiata.Spec.RegistryCorrect

/-!
# Registries that build

A list of definitions with distinct labels, no conflicts and no cycle is accepted by
`FeatureRegistry::build`, as is its extension by definitions of other domains that
depend on nothing.

## Key results

- `checkDependencies_of_rank`: dependencies of smaller rank make no cycle
- `FeatureRegistry.exists_build`: acceptable definitions build a registry
- `Acceptable.extend`: extending acceptable definitions
-/

namespace Radiata

section Build

variable [DnsName]

/-! ## Dependencies -/

/-- Every dependency is registered and ranks below the label that names it. -/
def Ranked (definitions : Definitions) (rank : FeatureTag → Nat) : Prop :=
  ∀ tag definition, definitions.get tag = some definition → ∀ dependency ∈ definition.dependencies,
    rank dependency < rank tag ∧ ∃ other, definitions.get dependency = some other

variable {definitions : Definitions} {rank : FeatureTag → Nat}

/-- The labels under a search rank above what it visits next. -/
theorem exists_visit (hranked : Ranked definitions rank) {fuel : Nat} {tag : FeatureTag}
    {marks : SortedMap FeatureTag Mark} (hfuel : unmarked definitions marks < fuel)
    (hknown : ∃ definition, definitions.get tag = some definition)
    (habove : ∀ other, marks.get other = some .visiting → rank tag < rank other) :
    ∃ marks', visit definitions fuel tag marks = .ok marks' ∧
      ∀ other, marks'.get other = some .visiting → marks.get other = some .visiting := by
  induction fuel generalizing tag marks with
  | zero => omega
  | succ fuel ih =>
    obtain ⟨definition, hget⟩ := hknown
    unfold visit
    cases hmark : marks.get tag with
    | some mark =>
      cases mark with
      | done => exact ⟨marks, rfl, fun _ h => h⟩
      | visiting => exact absurd (habove tag hmark) (Nat.lt_irrefl _)
    | none =>
      have hless := unmarked_insert_lt .visiting hget hmark
      -- while the dependencies are searched, the label itself is the lowest one under search
      have hstep : ∀ last dependency, dependency ∈ definition.dependencies →
          (unmarked definitions last < fuel ∧ ∀ other, last.get other = some .visiting →
            (marks.insert tag .visiting).get other = some .visiting) →
          ∃ next, visit definitions fuel dependency last = .ok next ∧
            unmarked definitions next < fuel ∧ ∀ other, next.get other = some .visiting →
              (marks.insert tag .visiting).get other = some .visiting := by
        intro last dependency hdependency hlast
        obtain ⟨hsmall, hsub⟩ := hlast
        obtain ⟨hrank, hregistered⟩ := hranked tag definition hget dependency hdependency
        have hlowest : ∀ other, last.get other = some .visiting → rank dependency < rank other := by
          intro other hother
          have hvisiting := hsub other hother
          rw [SortedMap.get_insert] at hvisiting
          split at hvisiting
          · rename_i heq
            rw [heq]
            exact hrank
          · exact Nat.lt_trans hrank (habove other hvisiting)
        obtain ⟨next, hvisit, hkept⟩ := ih hsmall hregistered hlowest
        have hfewer := unmarked_visit_le hvisit
        exact ⟨next, hvisit, by omega, fun other hother => hsub other (hkept other hother)⟩
      obtain ⟨last, hlast, -, hvisiting⟩ := Except.exists_foldlM_eq_ok hstep
        ⟨show unmarked definitions (marks.insert tag .visiting) < fuel by omega, fun _ h => h⟩
      refine ⟨last.insert tag .done, ?_, ?_⟩
      · simp only [hget, hlast, Result.ok_bind]
        rfl
      · intro other hother
        by_cases heq : other = tag
        · subst heq
          rw [SortedMap.get_insert_self] at hother
          cases hother
        · rw [SortedMap.get_insert_ne _ _ heq] at hother
          have hinside := hvisiting other hother
          rwa [SortedMap.get_insert_ne _ _ heq] at hinside

/-- Dependencies of smaller rank make no cycle. -/
theorem checkDependencies_of_rank (hranked : Ranked definitions rank) :
    checkDependencies definitions = .ok () := by
  have hbound : ∀ marks, unmarked definitions marks < definitions.toList.length + 1 := fun marks =>
    Nat.lt_succ_of_le (List.length_filter_le _ _)
  have hstep : ∀ marks tag, tag ∈ definitions.toList.map Prod.fst →
      (∀ other, SortedMap.get marks other ≠ some Mark.visiting) →
      ∃ next, visit definitions (definitions.toList.length + 1) tag marks = .ok next ∧
        ∀ other, next.get other ≠ some .visiting := by
    intro marks tag htag hnone
    obtain ⟨⟨label, definition⟩, hmem, rfl⟩ := List.mem_map.mp htag
    have hget := (SortedMap.mem_toList_iff _ _ _).mp hmem
    obtain ⟨next, hvisit, hkept⟩ := exists_visit hranked (hbound marks) ⟨definition, hget⟩
      (fun other hother => absurd hother (hnone other))
    exact ⟨next, hvisit, fun other hother => hnone other (hkept other hother)⟩
  obtain ⟨marks, hmarks, -⟩ := Except.exists_foldlM_eq_ok hstep (s := .empty) (by simp)
  rw [checkDependencies, hmarks]
  rfl

/-! ## Building -/

/-- What makes `FeatureRegistry::build` accept definitions without conflicts. -/
structure Acceptable (builtins source : List FeatureDefinition) (rank : FeatureTag → Nat) : Prop where
  labels : (source.map FeatureDefinition.tag).Nodup
  reserved : ∀ definition ∈ source, definition.tag.domain = builtinDomain → definition ∈ builtins
  digests : ∀ definition ∈ source, ∃ digest, definition.definitionDigest = .ok digest
  dependencies : ∀ definition ∈ source, ∀ tag ∈ definition.dependencies,
    rank tag < rank definition.tag ∧ ∃ other ∈ source, other.tag = tag
  conflicts : ∀ definition ∈ source, definition.conflicts = []
  limits : (limitTags source).Nodup
  protocols : (protocolTags source).Nodup

variable {source : List FeatureDefinition}

/-- Definitions with distinct labels are collected. -/
theorem exists_collectDefinitions (h : (source.map FeatureDefinition.tag).Nodup) :
    ∃ definitions, collectDefinitions source = .ok definitions := by
  have hcollect : ∀ (source : List FeatureDefinition) (map : Definitions),
      (source.map FeatureDefinition.tag).Nodup →
      (∀ definition ∈ source, map.get definition.tag = none) →
      ∃ definitions, source.foldlM (fun map definition =>
        if map.contains definition.tag then
          .error (.invalidInput "feature registry duplicate label")
        else .ok (map.insert definition.tag definition)) map = (.ok definitions : Result Definitions) := by
    intro source
    induction source with
    | nil => exact fun map _ _ => ⟨map, rfl⟩
    | cons definition source ih =>
      intro map hnodup hfresh
      rw [List.map_cons, List.nodup_cons] at hnodup
      have habsent : ¬ map.contains definition.tag = true := by
        simp [SortedMap.contains, hfresh definition (List.mem_cons_self ..)]
      rw [List.foldlM_cons, if_neg habsent]
      refine ih _ hnodup.2 ?_
      intro other hother
      have hne : other.tag ≠ definition.tag := by
        intro heq
        exact hnodup.1 (heq ▸ List.mem_map_of_mem hother)
      rw [SortedMap.get_insert_ne _ _ hne]
      exact hfresh other (List.mem_cons_of_mem definition hother)
  exact hcollect source .empty h (fun _ _ => rfl)

/-- Collected definitions have distinct labels. -/
theorem nodup_of_collectDefinitions (h : collectDefinitions source = .ok definitions) :
    (source.map FeatureDefinition.tag).Nodup := by
  have hcollect : ∀ (source : List FeatureDefinition) (map : Definitions),
      source.foldlM (fun map definition =>
        if map.contains definition.tag then
          .error (.invalidInput "feature registry duplicate label")
        else .ok (map.insert definition.tag definition)) map = (.ok definitions : Result Definitions) →
      (source.map FeatureDefinition.tag).Nodup ∧
        ∀ definition ∈ source, map.get definition.tag = none := by
    intro source
    induction source with
    | nil => exact fun map _ => ⟨List.nodup_nil, by simp⟩
    | cons definition source ih =>
      intro map hfold
      rw [List.foldlM_cons, Except.bind_eq_ok] at hfold
      obtain ⟨next, hstep, hrest⟩ := hfold
      split at hstep
      · cases hstep
      · rename_i hnew
        cases hstep
        obtain ⟨hnodup, hfresh⟩ := ih _ hrest
        -- a later definition was not in the map after this one went in
        have hother : ∀ other ∈ source, other.tag ≠ definition.tag ∧ map.get other.tag = none := by
          intro other hmem
          have hnone := hfresh other hmem
          rw [SortedMap.get_insert] at hnone
          split at hnone
          · cases hnone
          · rename_i hne
            exact ⟨hne, hnone⟩
        refine ⟨?_, List.forall_mem_cons.mpr ⟨?_, fun other hmem => (hother other hmem).2⟩⟩
        · rw [List.map_cons, List.nodup_cons]
          refine ⟨fun hmem => ?_, hnodup⟩
          obtain ⟨other, hsource, heq⟩ := List.mem_map.mp hmem
          exact (hother other hsource).1 heq
        · simpa [SortedMap.contains] using hnew
  exact (hcollect source .empty h).1

/-- A collected map holds the definitions of its source. -/
theorem perm_of_collectDefinitions (hnodup : (source.map FeatureDefinition.tag).Nodup)
    (h : collectDefinitions source = .ok definitions) :
    (definitions.toList.map Prod.snd).Perm source := by
  have htags : (definitions.toList.map Prod.snd).map FeatureDefinition.tag =
      definitions.toList.map Prod.fst := by
    rw [List.map_map]
    refine List.map_congr_left fun entry hentry => ?_
    exact ((get_of_collectDefinitions h _ _).mp ((SortedMap.mem_toList_iff _ _ _).mp hentry)).2
  refine (List.perm_ext_iff_of_nodup ?_ hnodup.of_map).mpr fun definition => ?_
  · refine List.Nodup.of_map FeatureDefinition.tag ?_
    rw [htags]
    exact SortedMap.nodup_keys _
  · constructor
    · intro hmem
      obtain ⟨entry, hentry, rfl⟩ := List.mem_map.mp hmem
      exact ((get_of_collectDefinitions h _ _).mp ((SortedMap.mem_toList_iff _ _ _).mp hentry)).1
    · intro hmem
      have hget := (get_of_collectDefinitions h definition.tag definition).mpr ⟨hmem, rfl⟩
      exact List.mem_map_of_mem (f := Prod.snd) ((SortedMap.mem_toList_iff _ _ _).mpr hget)

namespace FeatureRegistry

theorem collect_of_build {source : List FeatureDefinition} {registry : FeatureRegistry}
    (h : build source = .ok registry) : collectDefinitions source = .ok registry.definitions := by
  unfold build at h
  split at h
  · cases h
  · rename_i hcollect
    split at h
    · cases h
    · cases h
      exact hcollect

theorem get_of_build {source : List FeatureDefinition} {registry : FeatureRegistry}
    (h : build source = .ok registry) (tag : FeatureTag) (definition : FeatureDefinition) :
    registry.get tag = some definition ↔ definition ∈ source ∧ definition.tag = tag :=
  get_of_collectDefinitions (collect_of_build h) tag definition

/-- A registry is built from the collected definitions exactly when they pass the checks. -/
theorem exists_build_iff (source : List FeatureDefinition) :
    (∃ registry, build source = .ok registry) ↔
      ∃ definitions, collectDefinitions source = .ok definitions ∧
        checkRegistry definitions = .ok () := by
  constructor
  · rintro ⟨registry, hbuild⟩
    exact ⟨registry.definitions, collect_of_build hbuild, registry.checked⟩
  · rintro ⟨definitions, hcollect, hcheck⟩
    refine ⟨⟨definitions, ⟨source, hcollect⟩, hcheck⟩, ?_⟩
    unfold build
    split
    · rename_i herror
      rw [hcollect] at herror
      cases herror
    · rename_i found hfound
      rw [hcollect] at hfound
      cases hfound
      split
      · rename_i herror
        rw [hcheck] at herror
        cases herror
      · rfl

end FeatureRegistry

/-- Acceptable definitions build a registry. -/
theorem FeatureRegistry.exists_build {builtins : List FeatureDefinition}
    (hbuiltins : builtinDefinitions = .ok builtins)
    (hnodup : (builtins.map FeatureDefinition.tag).Nodup) (h : Acceptable builtins source rank) :
    ∃ registry, FeatureRegistry.build source = .ok registry := by
  obtain ⟨definitions, hcollect⟩ := exists_collectDefinitions h.labels
  have hget := get_of_collectDefinitions hcollect
  have hperm := perm_of_collectDefinitions h.labels hcollect
  have hreserved : (definitions.toList.map Prod.snd).forM (checkReservedNamespace · builtins) =
      .ok () := by
    refine Except.forM_eq_ok.mpr fun definition hdefinition => ?_
    have hmem := hperm.mem_iff.mp hdefinition
    obtain ⟨digest, hdigest⟩ := h.digests definition hmem
    by_cases hdomain : definition.tag.domain = builtinDomain
    · exact checkReservedNamespace_of_mem hnodup (h.reserved definition hmem hdomain) hdigest
    · rw [checkReservedNamespace, if_pos hdomain]
      rfl
  have hranked : Ranked definitions rank := by
    intro tag definition hdefinition dependency hdependency
    obtain ⟨hmem, rfl⟩ := (hget _ _).mp hdefinition
    obtain ⟨hrank, other, hother, heq⟩ := h.dependencies definition hmem dependency hdependency
    exact ⟨hrank, other, (hget _ _).mpr ⟨hother, heq⟩⟩
  have hconflicts : checkConflicts definitions = .ok () := by
    refine Except.forM_eq_ok.mpr fun entry hentry => ?_
    rw [h.conflicts entry.2 (hperm.mem_iff.mp (List.mem_map_of_mem hentry))]
    rfl
  obtain ⟨owned, howned⟩ := (exists_checkOwnership_iff (definitions.toList.map Prod.snd)).mpr
    ⟨(hperm.flatMap_right _).nodup_iff.mpr h.limits,
      (hperm.flatMap_right _).nodup_iff.mpr h.protocols⟩
  have hcheck : checkRegistry definitions = .ok () := by
    simp only [checkRegistry, hbuiltins, hreserved, checkDependencies_of_rank hranked, hconflicts,
      checkUniqueOwnership, howned, Result.ok_bind]
    rfl
  exact (FeatureRegistry.exists_build_iff source).mpr ⟨definitions, hcollect, hcheck⟩

/-- Definitions of other domains that depend on nothing extend acceptable ones. -/
theorem Acceptable.extend {builtins extension : List FeatureDefinition}
    (h : Acceptable builtins source rank)
    (hlabels : ((source ++ extension).map FeatureDefinition.tag).Nodup)
    (hdomain : ∀ definition ∈ extension, definition.tag.domain ≠ builtinDomain)
    (hdigests : ∀ definition ∈ extension, ∃ digest, definition.definitionDigest = .ok digest)
    (hdependencies : ∀ definition ∈ extension, definition.dependencies = [])
    (hconflicts : ∀ definition ∈ extension, definition.conflicts = [])
    (hlimits : (limitTags (source ++ extension)).Nodup)
    (hprotocols : (protocolTags (source ++ extension)).Nodup) :
    Acceptable builtins (source ++ extension) rank where
  labels := hlabels
  reserved := by
    intro definition hmem hreserved
    rcases List.mem_append.mp hmem with hmem | hmem
    · exact h.reserved definition hmem hreserved
    · exact absurd hreserved (hdomain definition hmem)
  digests := by
    intro definition hmem
    rcases List.mem_append.mp hmem with hmem | hmem
    · exact h.digests definition hmem
    · exact hdigests definition hmem
  dependencies := by
    intro definition hmem tag htag
    rcases List.mem_append.mp hmem with hmem | hmem
    · obtain ⟨hrank, other, hother, heq⟩ := h.dependencies definition hmem tag htag
      exact ⟨hrank, other, List.mem_append_left _ hother, heq⟩
    · rw [hdependencies definition hmem] at htag
      cases htag
  conflicts := by
    intro definition hmem
    rcases List.mem_append.mp hmem with hmem | hmem
    · exact h.conflicts definition hmem
    · exact hconflicts definition hmem
  limits := hlimits
  protocols := hprotocols

end Build

/-! ## The built-in registry -/

private theorem ok_of_toOption {α : Type} {x : Result α} {a : α} (h : x.toOption = some a) :
    x = .ok a := by
  cases x with
  | error e => cases h
  | ok b =>
    cases h
    rfl

/-- The built-in definitions, with host names as domains. -/
def sampleBuiltins : List (@FeatureDefinition .hostNames) :=
  letI := DnsName.hostNames
  builtinDefinitions.toOption.get (by decide +kernel)

theorem builtinDefinitions_hostNames : @builtinDefinitions .hostNames = .ok sampleBuiltins :=
  ok_of_toOption (Option.some_get _).symm

/-- The labels every session requires. -/
def sampleLabels : List (@FeatureTag .hostNames) :=
  letI := DnsName.hostNames
  requiredSessionFeatures.toOption.get (by decide +kernel)

theorem requiredSessionFeatures_hostNames :
    @requiredSessionFeatures .hostNames = .ok sampleLabels :=
  ok_of_toOption (Option.some_get _).symm

theorem sampleLabels_builtin :
    letI := DnsName.hostNames
    ∀ tag ∈ sampleLabels, ∃ definition ∈ sampleBuiltins, definition.tag = tag := by
  decide +kernel

theorem nodup_sampleBuiltins :
    (sampleBuiltins.map (@FeatureDefinition.tag .hostNames)).Nodup := by
  decide +kernel

/-- The place of a label in the chain of built-in dependencies. -/
def builtinRank (tag : @FeatureTag .hostNames) : Nat :=
  letI := DnsName.hostNames
  [authEd25519Session, sessionCore, dataMessages].findIdx (fun text => decide (text = tag.asStr))

private theorem sampleBuiltins_small :
    letI := DnsName.hostNames
    ∀ definition ∈ sampleBuiltins, definition.dependencies.length ≤ 64 ∧
      definition.conflicts.length ≤ 64 ∧ definition.protocols.length ≤ 64 ∧
      definition.limits.length ≤ 64 ∧ definition.testOwner.length ≤ 64 ∧
      definition.testOwner.isUtf8 = true := by
  decide +kernel

private theorem sampleBuiltins_checked :
    letI := DnsName.hostNames
    (∀ definition ∈ sampleBuiltins, ∀ tag ∈ definition.dependencies,
      builtinRank tag < builtinRank definition.tag ∧ ∃ other ∈ sampleBuiltins, other.tag = tag) ∧
    (∀ definition ∈ sampleBuiltins, definition.conflicts = []) ∧
    (limitTags sampleBuiltins).Nodup ∧ (protocolTags sampleBuiltins).Nodup := by
  decide +kernel

theorem acceptable_sampleBuiltins :
    @Acceptable .hostNames sampleBuiltins sampleBuiltins builtinRank := by
  let _ := DnsName.hostNames
  obtain ⟨hdependencies, hconflicts, hlimits, hprotocols⟩ := sampleBuiltins_checked
  refine ⟨nodup_sampleBuiltins, fun _ h _ => h, ?_, hdependencies, hconflicts, hlimits, hprotocols⟩
  intro definition hmem
  obtain ⟨hdeps, hconfs, hprots, hlims, howner, hutf8⟩ := sampleBuiltins_small definition hmem
  exact ⟨_, definition.definitionDigest_eq_ok hdeps hconfs hprots hlims howner hutf8⟩

/-- An extension feature that owns a mandatory limit. -/
def sampleExtension : @FeatureDefinition .hostNames :=
  letI := DnsName.hostNames
  (do
    let tag ← FeatureTag.parse (Bytes.utf8 "testing.example/features/window")
    let range ← LimitRange.new 1 16 4
    let limit ← LimitDefinition.new (← QualifiedTag.parse (Bytes.utf8 "testing.example/limits/window"))
      .u16 .count range tag true
    (← FeatureDefinition.new tag (.fill 0)).limit limit : Result FeatureDefinition).toOption.get
      (by decide +kernel)

private theorem sampleExtension_plain :
    letI := DnsName.hostNames
    sampleExtension.tag.domain ≠ builtinDomain ∧ sampleExtension.dependencies = [] ∧
      sampleExtension.conflicts = [] ∧ sampleExtension.protocols = [] ∧
      sampleExtension.limits.length = 1 ∧ sampleExtension.testOwner = [] := by
  decide +kernel

private theorem sampleExtension_apart :
    letI := DnsName.hostNames
    ((sampleBuiltins ++ [sampleExtension]).map FeatureDefinition.tag).Nodup ∧
      (limitTags (sampleBuiltins ++ [sampleExtension])).Nodup ∧
      (protocolTags (sampleBuiltins ++ [sampleExtension])).Nodup := by
  decide +kernel

theorem acceptable_sampleExtension :
    @Acceptable .hostNames sampleBuiltins (sampleBuiltins ++ [sampleExtension]) builtinRank := by
  let _ := DnsName.hostNames
  obtain ⟨hdomain, hdependencies, hconflicts, hprotocols, hlimits, howner⟩ := sampleExtension_plain
  obtain ⟨hlabels, hlimitTags, hprotocolTags⟩ := sampleExtension_apart
  have hdigest := sampleExtension.definitionDigest_eq_ok (by simp [hdependencies])
    (by simp [hconflicts]) (by simp [hprotocols]) (by omega) (by simp [howner]) (by simp [howner]; rfl)
  refine acceptable_sampleBuiltins.extend hlabels ?_ ?_ ?_ ?_ hlimitTags hprotocolTags
  · simpa using hdomain
  · simpa using ⟨_, hdigest⟩
  · simpa using hdependencies
  · simpa using hconflicts

end Radiata
