import Radiata.Native.Feature
import Radiata.Spec.CborCorrect

/-!
# What an accepted registry holds

The checks of `FeatureRegistry::build` and the canonical record of a definition, as
facts about the definitions: labels name their definitions, every limit tag has one
owner, and two definitions with one canonical record have the same dependencies,
conflicts and limits.

## Key results

- `checkDependencies_ne_exhausted`: the bound on the search depth is never reached
- `FeatureRegistry.nodup_limitTags`: every limit tag has one owner
- `FeatureDefinition.mem_limits_of_wire_eq`: the canonical record determines the limits
-/

namespace Radiata

open Cbor (Item)

/-- Keys that are inserted one by one as new are distinct. -/
theorem nodup_of_insertOwned {κ : Type} [LinearOrder κ] {context : String} {keys : List κ}
    {owned owned' : SortedMap κ Unit} (h : keys.foldlM (insertOwned context) owned = .ok owned') :
    keys.Nodup ∧ (∀ key ∈ keys, owned.get key = none) ∧
      ∀ key, owned'.contains key = true ↔ owned.contains key = true ∨ key ∈ keys := by
  induction keys generalizing owned with
  | nil =>
    cases h
    simp
  | cons key keys ih =>
    rw [List.foldlM_cons, Except.bind_eq_ok] at h
    obtain ⟨next, hnext, hrest⟩ := h
    simp only [insertOwned] at hnext
    split at hnext
    · cases hnext
    · rename_i hnew
      cases hnext
      obtain ⟨hnodup, hfresh, hkeys⟩ := ih hrest
      have habsent : owned.get key = none := by
        simpa [SortedMap.contains] using hnew
      refine ⟨List.nodup_cons.mpr ⟨?_, hnodup⟩, ?_, ?_⟩
      · intro hmem
        have := hfresh key hmem
        rw [SortedMap.get_insert_self] at this
        cases this
      · intro other hother
        rcases List.mem_cons.mp hother with rfl | hother
        · exact habsent
        · have := hfresh other hother
          rw [SortedMap.get_insert] at this
          split at this
          · cases this
          · exact this
      · intro other
        rw [hkeys, List.mem_cons, SortedMap.contains, SortedMap.get_insert]
        split
        · rename_i heq
          simp [heq]
        · rename_i hne
          simp [SortedMap.contains, hne]

/-- Distinct new keys are inserted one by one. -/
theorem exists_insertOwned {κ : Type} [LinearOrder κ] (context : String) {keys : List κ}
    (owned : SortedMap κ Unit) (hnodup : keys.Nodup) (hfresh : ∀ key ∈ keys, owned.get key = none) :
    ∃ owned', keys.foldlM (insertOwned context) owned = .ok owned' := by
  induction keys generalizing owned with
  | nil => exact ⟨owned, rfl⟩
  | cons key keys ih =>
    obtain ⟨hnew, hnodup⟩ := List.nodup_cons.mp hnodup
    have habsent : ¬ owned.contains key = true := by
      simp [SortedMap.contains, hfresh key (List.mem_cons_self ..)]
    obtain ⟨owned', howned'⟩ := ih (owned.insert key ()) hnodup (by
      intro other hother
      have hne : other ≠ key := fun heq => hnew (heq ▸ hother)
      rw [SortedMap.get_insert_ne _ _ hne]
      exact hfresh other (List.mem_cons_of_mem key hother))
    refine ⟨owned', ?_⟩
    rw [List.foldlM_cons, insertOwned, if_neg habsent]
    exact howned'

private theorem limitWidth_wire_injective : Function.Injective LimitWidth.wire := by
  intro a b h
  cases a <;> cases b <;> first | rfl | exact absurd h (by decide)

private theorem limitUnit_wire_injective : Function.Injective LimitUnit.wire := by
  intro a b h
  cases a <;> cases b <;> first | rfl | exact absurd h (by decide)

variable [DnsName]

/-! ## Collecting definitions -/

variable {definitions : Definitions}

variable {source : List FeatureDefinition}

/-- One label of the loop: it must be new. -/
private theorem collect_step {map : Definitions} (h : source.foldlM (fun map definition =>
      if map.contains definition.tag then .error (.invalidInput "feature registry duplicate label")
      else .ok (map.insert definition.tag definition)) map = (.ok definitions : Result Definitions))
    (tag : FeatureTag) (definition : FeatureDefinition) :
    definitions.get tag = some definition ↔
      (definition ∈ source ∧ definition.tag = tag) ∨ map.get tag = some definition := by
  induction source generalizing map with
  | nil =>
    cases h
    simp
  | cons next source ih =>
    rw [List.foldlM_cons, Except.bind_eq_ok] at h
    obtain ⟨map', hstep, hrest⟩ := h
    split at hstep
    · cases hstep
    · rename_i hnew
      cases hstep
      rw [ih hrest, SortedMap.get_insert]
      have habsent : map.get next.tag = none := by simpa [SortedMap.contains] using hnew
      by_cases htag : tag = next.tag
      · subst htag
        rw [if_pos rfl, habsent]
        simp only [List.mem_cons, Option.some.injEq, reduceCtorEq, or_false]
        constructor
        · rintro (⟨hmem, htag⟩ | rfl)
          · exact ⟨Or.inr hmem, htag⟩
          · exact ⟨Or.inl rfl, rfl⟩
        · rintro ⟨rfl | hmem, htag⟩
          · exact Or.inr rfl
          · exact Or.inl ⟨hmem, htag⟩
      · rw [if_neg htag]
        simp only [List.mem_cons]
        constructor
        · rintro (⟨hmem, heq⟩ | hget)
          · exact Or.inl ⟨Or.inr hmem, heq⟩
          · exact Or.inr hget
        · rintro (⟨rfl | hmem, heq⟩ | hget)
          · exact absurd heq.symm htag
          · exact Or.inl ⟨hmem, heq⟩
          · exact Or.inr hget

/-- A collected map holds the definitions of the source under their labels. -/
theorem get_of_collectDefinitions (h : collectDefinitions source = .ok definitions)
    (tag : FeatureTag) (definition : FeatureDefinition) :
    definitions.get tag = some definition ↔ definition ∈ source ∧ definition.tag = tag := by
  rw [collect_step h, SortedMap.get_empty]
  simp

variable {tag : FeatureTag} {definition : FeatureDefinition}

theorem FeatureRegistry.tag_of_get (registry : FeatureRegistry)
    (h : registry.get tag = some definition) :
    definition.tag = tag := by
  obtain ⟨source, hsource⟩ := registry.built
  exact ((get_of_collectDefinitions hsource tag definition).mp h).2

/-! ## The dependency search -/

/-- The labels of the registry without a mark. -/
def unmarked (definitions : Definitions) (marks : SortedMap FeatureTag Mark) : Nat :=
  (definitions.toList.filter fun entry => marks.get entry.1 = none).length

private theorem unmarked_sublist (definitions : Definitions) (marks : SortedMap FeatureTag Mark)
    (tag : FeatureTag) (mark : Mark) :
    (definitions.toList.filter fun entry => (marks.insert tag mark).get entry.1 = none).Sublist
      (definitions.toList.filter fun entry => marks.get entry.1 = none) := by
  refine List.monotone_filter_right _ ?_
  intro entry hentry
  rw [decide_eq_true_eq, SortedMap.get_insert] at hentry
  split at hentry
  · cases hentry
  · exact decide_eq_true hentry

theorem unmarked_insert_le (definitions : Definitions) (marks : SortedMap FeatureTag Mark)
    (tag : FeatureTag) (mark : Mark) :
    unmarked definitions (marks.insert tag mark) ≤ unmarked definitions marks :=
  (unmarked_sublist definitions marks tag mark).length_le

/-- Marking a label of the registry leaves one fewer. -/
theorem unmarked_insert_lt {marks : SortedMap FeatureTag Mark} (mark : Mark)
    (hget : definitions.get tag = some definition) (hmark : marks.get tag = none) :
    unmarked definitions (marks.insert tag mark) < unmarked definitions marks := by
  have hmem : (tag, definition) ∈ definitions.toList :=
    (SortedMap.mem_toList_iff definitions tag definition).mpr hget
  refine Nat.lt_of_le_of_ne (unmarked_insert_le definitions marks tag mark) ?_
  intro heq
  have hsub := unmarked_sublist definitions marks tag mark
  have hin : (tag, definition) ∈ definitions.toList.filter fun entry => marks.get entry.1 = none :=
    List.mem_filter.mpr ⟨hmem, decide_eq_true hmark⟩
  rw [← hsub.eq_of_length heq] at hin
  have hnone := of_decide_eq_true (List.mem_filter.mp hin).2
  rw [SortedMap.get_insert_self] at hnone
  cases hnone

/-- A search only adds marks. -/
theorem unmarked_visit_le {fuel : Nat} {marks marks' : SortedMap FeatureTag Mark}
    (h : visit definitions fuel tag marks = .ok marks') :
    unmarked definitions marks' ≤ unmarked definitions marks := by
  induction fuel generalizing tag marks marks' with
  | zero => cases h
  | succ fuel ih =>
    rw [visit] at h
    split at h
    · cases h
      exact Nat.le_refl _
    · cases h
    · split at h
      · cases h
      · rename_i definition _
        obtain ⟨last, hlast, hdone⟩ := Except.bind_eq_ok.mp h
        cases hdone
        have hfold : unmarked definitions last ≤ unmarked definitions (marks.insert tag .visiting) := by
          refine Except.foldlM_invariant
            (P := fun last => unmarked definitions last ≤ unmarked definitions (marks.insert tag .visiting))
            ?_ (Nat.le_refl _) hlast
          intro s dependency t _ hs hvisit
          exact Nat.le_trans (ih hvisit) hs
        have hdone := unmarked_insert_le definitions last tag .done
        have hvisiting := unmarked_insert_le definitions marks tag .visiting
        omega

def exhausted : Error := .internal "feature registry depth"

theorem visit_ne_exhausted {fuel : Nat} {marks : SortedMap FeatureTag Mark}
    (h : unmarked definitions marks < fuel) :
    visit definitions fuel tag marks ≠ .error exhausted := by
  induction fuel generalizing tag marks with
  | zero => omega
  | succ fuel ih =>
    rw [visit]
    split
    · exact fun h => (by cases h)
    · exact fun h => (by cases h)
    · rename_i hmark
      split
      · exact fun h => (by cases h)
      · rename_i definition hget
        have hless := unmarked_insert_lt .visiting hget hmark
        refine Except.bind_ne_error ?_ (fun _ _ h => (by cases h))
        refine Except.foldlM_ne_error (P := fun marks => unmarked definitions marks < fuel) ?_ (by omega)
        intro marks dependency _ hmarks
        exact ⟨ih hmarks, fun marks' hvisit => Nat.lt_of_le_of_lt (unmarked_visit_le hvisit) hmarks⟩

/-- The bound on the search depth is never reached: the search is the one of the source. -/
theorem checkDependencies_ne_exhausted (definitions : Definitions) :
    checkDependencies definitions ≠ .error exhausted := by
  have hbound : ∀ marks, unmarked definitions marks < definitions.toList.length + 1 := fun marks =>
    Nat.lt_succ_of_le (List.length_filter_le _ _)
  refine Except.bind_ne_error ?_ (fun _ _ h => (by cases h))
  refine Except.foldlM_ne_error (P := fun _ => True) ?_ trivial
  intro marks tag _ _
  exact ⟨visit_ne_exhausted (hbound marks), fun _ _ => trivial⟩

/-- The definition of the label has its dependencies in the registry. -/
def DependenciesKnown (definitions : Definitions) (tag : FeatureTag) : Prop :=
  ∃ definition, definitions.get tag = some definition ∧
    ∀ dependency ∈ definition.dependencies, ∃ other, definitions.get dependency = some other

/-- What the search knows of the labels it has marked. -/
def MarksKnown (definitions : Definitions) (marks : SortedMap FeatureTag Mark) : Prop :=
  (∀ tag, marks.get tag = some .visiting → ∃ definition, definitions.get tag = some definition) ∧
    ∀ tag, marks.get tag = some .done → DependenciesKnown definitions tag

theorem MarksKnown.insert_visiting {marks : SortedMap FeatureTag Mark}
    (h : MarksKnown definitions marks) (hget : definitions.get tag = some definition) :
    MarksKnown definitions (marks.insert tag .visiting) := by
  constructor
  · intro other hother
    rw [SortedMap.get_insert] at hother
    split at hother
    · rename_i heq
      exact ⟨definition, heq ▸ hget⟩
    · exact h.1 other hother
  · intro other hother
    rw [SortedMap.get_insert] at hother
    split at hother
    · cases hother
    · exact h.2 other hother

theorem MarksKnown.insert_done {marks : SortedMap FeatureTag Mark}
    (h : MarksKnown definitions marks) (hknown : DependenciesKnown definitions tag) :
    MarksKnown definitions (marks.insert tag .done) := by
  constructor
  · intro other hother
    rw [SortedMap.get_insert] at hother
    split at hother
    · cases hother
    · exact h.1 other hother
  · intro other hother
    rw [SortedMap.get_insert] at hother
    split at hother
    · rename_i heq
      exact heq ▸ hknown
    · exact h.2 other hother

/-- A search that succeeds has met every dependency in the registry. -/
theorem known_of_visit {fuel : Nat} {marks marks' : SortedMap FeatureTag Mark}
    (hmarks : MarksKnown definitions marks) (h : visit definitions fuel tag marks = .ok marks') :
    MarksKnown definitions marks' ∧ DependenciesKnown definitions tag := by
  induction fuel generalizing tag marks marks' with
  | zero => cases h
  | succ fuel ih =>
    rw [visit] at h
    split at h
    · rename_i hdone
      cases h
      exact ⟨hmarks, hmarks.2 tag hdone⟩
    · cases h
    · split at h
      · cases h
      · rename_i definition hget
        obtain ⟨last, hlast, hdone⟩ := Except.bind_eq_ok.mp h
        cases hdone
        -- the nested searches keep the invariant and each knows its dependency
        obtain ⟨hkept, hknown⟩ := Except.foldlM_forall (P := MarksKnown definitions)
          (Q := DependenciesKnown definitions) (fun _ _ _ _ hs hvisit => ih hs hvisit)
          (hmarks.insert_visiting hget) hlast
        have htag : DependenciesKnown definitions tag := by
          refine ⟨definition, hget, fun dependency hdependency => ?_⟩
          obtain ⟨other, hother, -⟩ := hknown dependency hdependency
          exact ⟨other, hother⟩
        exact ⟨hkept.insert_done htag, htag⟩

/-- The dependencies of a registered definition are registered. -/
theorem FeatureRegistry.dependency_known (registry : FeatureRegistry) {dependency : FeatureTag}
    (hget : registry.get tag = some definition)
    (hdependency : dependency ∈ definition.dependencies) :
    ∃ other, registry.get dependency = some other := by
  obtain ⟨builtins, -, hchecked⟩ := Except.bind_eq_ok.mp registry.checked
  obtain ⟨-, hchecked⟩ := Except.seq_eq_ok.mp hchecked
  obtain ⟨hsearch, -⟩ := Except.seq_eq_ok.mp hchecked
  simp only [checkDependencies, Except.bind_eq_ok] at hsearch
  obtain ⟨marks, hmarks, -⟩ := hsearch
  have hempty : MarksKnown registry.definitions .empty := by
    constructor <;> intro other hother <;> simp at hother
  obtain ⟨-, hknown⟩ := Except.foldlM_forall (P := MarksKnown registry.definitions)
    (Q := DependenciesKnown registry.definitions) (fun _ _ _ _ hs hvisit => known_of_visit hs hvisit)
    hempty hmarks
  have hkey : tag ∈ registry.definitions.toList.map Prod.fst :=
    List.mem_map_of_mem (f := Prod.fst) ((SortedMap.mem_toList_iff _ _ _).mpr hget)
  obtain ⟨found, hfound, hall⟩ := hknown tag hkey
  rw [FeatureRegistry.get, hfound] at hget
  cases hget
  exact hall dependency hdependency

/-! ## Unique ownership -/

/-- The limit tags that the definitions own. -/
def limitTags (definitions : List FeatureDefinition) : List QualifiedTag :=
  definitions.flatMap fun definition => definition.limits.map LimitDefinition.tag

/-- The protocol tags that the definitions own. -/
def protocolTags (definitions : List FeatureDefinition) : List ProtocolTag :=
  definitions.flatMap FeatureDefinition.protocols

/-- The limits and the protocols are claimed apart from each other. -/
theorem foldlM_checkOwnership_eq_ok {definitions : List FeatureDefinition}
    {owned owned' : SortedMap QualifiedTag Unit × SortedMap ProtocolTag Unit} :
    definitions.foldlM checkOwnership owned = .ok owned' ↔
      (limitTags definitions).foldlM (insertOwned "feature registry duplicate limit owner") owned.1 =
        .ok owned'.1 ∧
      (protocolTags definitions).foldlM (insertOwned "feature registry duplicate protocol owner")
        owned.2 = .ok owned'.2 := by
  induction definitions generalizing owned with
  | nil =>
    simp only [limitTags, protocolTags, List.flatMap_nil, List.foldlM_nil, Except.pure_eq,
      Except.ok.injEq, Prod.ext_iff]
  | cons definition definitions ih =>
    simp only [limitTags, protocolTags] at ih
    simp only [limitTags, protocolTags, List.foldlM_cons, List.flatMap_cons, List.foldlM_append,
      Except.bind_eq_ok, ih, checkOwnership, Except.pure_eq, Except.ok.injEq]
    constructor
    · rintro ⟨_, ⟨limits, hlimits, protocols, hprotocols, rfl⟩, hrest, hrest'⟩
      exact ⟨⟨limits, hlimits, hrest⟩, ⟨protocols, hprotocols, hrest'⟩⟩
    · rintro ⟨⟨limits, hlimits, hrest⟩, ⟨protocols, hprotocols, hrest'⟩⟩
      exact ⟨(limits, protocols), ⟨limits, hlimits, protocols, hprotocols, rfl⟩, hrest, hrest'⟩

/-- Ownership is unique exactly when no tag is claimed twice. -/
theorem exists_checkOwnership_iff (definitions : List FeatureDefinition) :
    (∃ owned, definitions.foldlM checkOwnership (.empty, .empty) = .ok owned) ↔
      (limitTags definitions).Nodup ∧ (protocolTags definitions).Nodup := by
  constructor
  · rintro ⟨owned, howned⟩
    obtain ⟨hlimits, hprotocols⟩ := foldlM_checkOwnership_eq_ok.mp howned
    exact ⟨(nodup_of_insertOwned hlimits).1, (nodup_of_insertOwned hprotocols).1⟩
  · rintro ⟨hlimits, hprotocols⟩
    obtain ⟨limits, hlimitsOk⟩ := exists_insertOwned "feature registry duplicate limit owner" .empty
      hlimits (fun _ _ => rfl)
    obtain ⟨protocols, hprotocolsOk⟩ := exists_insertOwned
      "feature registry duplicate protocol owner" .empty hprotocols (fun _ _ => rfl)
    exact ⟨(limits, protocols), foldlM_checkOwnership_eq_ok.mpr ⟨hlimitsOk, hprotocolsOk⟩⟩

/-- Every limit tag of a registry has one owner. -/
theorem FeatureRegistry.nodup_limitTags (registry : FeatureRegistry) :
    (limitTags (registry.definitions.toList.map Prod.snd)).Nodup := by
  have h := registry.checked
  simp only [checkRegistry, checkUniqueOwnership, Except.bind_eq_ok] at h
  obtain ⟨-, -, -, -, -, -, -, -, owned, howned, -⟩ := h
  exact ((exists_checkOwnership_iff _).mp ⟨owned, howned⟩).1

/-! ## The canonical record -/

namespace FeatureDefinition

/-- The tags of two sorted collections of texts are the same. -/
private theorem mem_of_sort_eq {category : Bytes} {as bs : List (CategoryTag category)}
    (h : (as.map CategoryTag.asStr).insertionSort (· ≤ ·) =
      (bs.map CategoryTag.asStr).insertionSort (· ≤ ·)) (tag : CategoryTag category) :
    tag ∈ as ↔ tag ∈ bs := by
  have hmem : ∀ l : List (CategoryTag category),
      tag.asStr ∈ (l.map CategoryTag.asStr).insertionSort (· ≤ ·) ↔ tag ∈ l := by
    intro l
    rw [List.mem_insertionSort, List.mem_map_of_injective (fun _ _ => CategoryTag.ext_asStr)]
  rw [← hmem as, h, hmem bs]

variable {a b : FeatureDefinition}

theorem mem_dependencies_of_wire_eq (h : a.wire = b.wire) (tag : FeatureTag) :
    tag ∈ a.dependencies ↔ tag ∈ b.dependencies :=
  mem_of_sort_eq (congrArg DefinitionWire.dependencies h) tag

theorem mem_conflicts_of_wire_eq (h : a.wire = b.wire) (tag : FeatureTag) :
    tag ∈ a.conflicts ↔ tag ∈ b.conflicts :=
  mem_of_sort_eq (congrArg DefinitionWire.conflicts h) tag

theorem limitWire_injective :
    Function.Injective (LimitDefinition.wire : LimitDefinition → LimitDefinitionWire) := by
  intro a b h
  simp only [LimitDefinition.wire, LimitDefinitionWire.mk.injEq] at h
  obtain ⟨htag, hwidth, hunit, hfloor, hceiling, hdefault, howner, hmandatory⟩ := h
  have hrange : a.range = b.range := by
    cases ha : a.range
    cases hb : b.range
    simp_all
  have htag : a.tag = b.tag := QualifiedTag.ext_asStr htag
  have hwidth := limitWidth_wire_injective hwidth
  have hunit := limitUnit_wire_injective hunit
  have howner : a.owner = b.owner := CategoryTag.ext_asStr howner
  cases a
  cases b
  simp_all

/-- The canonical record determines the limits. -/
theorem mem_limits_of_wire_eq (h : a.wire = b.wire) (limit : LimitDefinition) :
    limit ∈ a.limits ↔ limit ∈ b.limits := by
  have hmem : ∀ definition : FeatureDefinition,
      limit.wire ∈ definition.wire.limits ↔ limit ∈ definition.limits := by
    intro definition
    rw [wire, List.mem_insertionSort, List.mem_map_of_injective limitWire_injective]
  rw [← hmem a, h, hmem b]

/-! ## Digests of small definitions -/

private theorem fits_tags {category : Bytes} (tags : List (CategoryTag category)) {depth : Nat} :
    ∀ item ∈ ((tags.map CategoryTag.asStr).insertionSort (· ≤ ·)).map Item.text,
      Fits definitionLimits depth item := by
  intro item hitem
  obtain ⟨text, htext, rfl⟩ := List.mem_map.mp hitem
  obtain ⟨tag, -, rfl⟩ := List.mem_map.mp ((List.mem_insertionSort _).mp htext)
  exact tag.tag.ascii.isUtf8

private theorem size_tags_le {category : Bytes} {tags : List (CategoryTag category)}
    (h : tags.length ≤ 64) :
    (Item.array (((tags.map CategoryTag.asStr).insertionSort (· ≤ ·)).map .text)).size ≤
      2 + 64 * 130 := by
  refine Item.size_array_map_le (n := 64) (by simpa using h) ?_
  intro text htext
  obtain ⟨tag, -, rfl⟩ := List.mem_map.mp ((List.mem_insertionSort _).mp htext)
  exact Item.size_text_le tag.tag.length_asStr_le

private theorem fits_limit (limit : LimitDefinition) :
    Fits definitionLimits 2 limit.wire.toItem := by
  simp only [LimitDefinitionWire.toItem, Fits, FitsAll, definitionLimits, List.length_cons,
    List.length_nil, LimitDefinition.wire, and_true, true_and]
  exact ⟨by omega, by omega, limit.tag.ascii.isUtf8, limit.owner.tag.ascii.isUtf8⟩

private theorem size_limit_le (limit : LimitDefinition) : limit.wire.toItem.size ≤ 307 := by
  have htag : (Item.text limit.wire.tag).size ≤ 130 := Item.size_text_le limit.tag.length_asStr_le
  have howner : (Item.text limit.wire.owner).size ≤ 130 :=
    Item.size_text_le limit.owner.tag.length_asStr_le
  have huint : ∀ n : UInt64, (Item.uint n).size ≤ 9 := fun n => Cbor.headLen_le_nine _
  have hwidth := huint limit.wire.width
  have hunit := huint limit.wire.unit
  have hfloor := huint limit.wire.floor
  have hceiling := huint limit.wire.ceiling
  have hdefault := huint limit.wire.default
  show Cbor.headLen 8 + ((Item.text _).size + ((Item.uint _).size + ((Item.uint _).size +
    ((Item.uint _).size + ((Item.uint _).size + ((Item.uint _).size + ((Item.text _).size +
      (1 + 0)))))))) ≤ _
  rw [show Cbor.headLen 8 = 1 by decide]
  omega

/-- A definition with few entries has a digest. -/
theorem definitionDigest_eq_ok (self : FeatureDefinition) (hdependencies : self.dependencies.length ≤ 64)
    (hconflicts : self.conflicts.length ≤ 64) (hprotocols : self.protocols.length ≤ 64)
    (hlimits : self.limits.length ≤ 64) (howner : self.testOwner.length ≤ 64)
    (hutf8 : self.testOwner.isUtf8 = true) :
    self.definitionDigest = .ok (sha256 self.wire.toItem.encode) := by
  have hfits : Fits definitionLimits 0 self.wire.toItem := by
    simp only [DefinitionWire.toItem, Fits, FitsAll, fitsAll_iff, definitionLimits,
      List.length_cons, List.length_nil, List.length_map, wire, List.length_insertionSort,
      and_true, true_and]
    refine ⟨by omega, by omega, self.tag.tag.ascii.isUtf8, ⟨by omega, by omega, ?_⟩,
      ⟨by omega, by omega, ?_⟩, ⟨by omega, by omega, ?_⟩, ⟨by omega, by omega, ?_⟩, hutf8⟩
    · exact fits_tags self.dependencies
    · exact fits_tags self.conflicts
    · exact fits_tags self.protocols
    · intro item hitem
      obtain ⟨limitWire, hlimitWire, rfl⟩ := List.mem_map.mp hitem
      obtain ⟨limit, -, rfl⟩ := List.mem_map.mp ((List.mem_insertionSort _).mp hlimitWire)
      exact fits_limit limit
  have hsize : self.wire.toItem.size ≤ 65536 := by
    have htag : (Item.text self.wire.tag).size ≤ 130 := Item.size_text_le self.tag.tag.length_asStr_le
    have hfingerprint : (Item.bytes self.wire.fingerprint).size = 34 := by
      rw [wire, Item.size, self.fingerprint.width]
      decide
    have hdeps : (Item.array (self.wire.dependencies.map .text)).size ≤ 2 + 64 * 130 :=
      size_tags_le hdependencies
    have hconfs : (Item.array (self.wire.conflicts.map .text)).size ≤ 2 + 64 * 130 :=
      size_tags_le hconflicts
    have hprots : (Item.array (self.wire.protocols.map .text)).size ≤ 2 + 64 * 130 :=
      size_tags_le hprotocols
    have hlims : (Item.array (self.wire.limits.map LimitDefinitionWire.toItem)).size ≤
        2 + 64 * 307 := by
      refine Item.size_array_map_le (n := 64) ?_ ?_
      · simpa [wire] using hlimits
      · intro limitWire hlimitWire
        obtain ⟨limit, -, rfl⟩ := List.mem_map.mp ((List.mem_insertionSort _).mp hlimitWire)
        exact size_limit_le limit
    have howner : (Item.text self.wire.testOwner).size ≤ 2 + 64 := Item.size_text_le howner
    show Cbor.headLen 7 + ((Item.text _).size + ((Item.bytes _).size + ((Item.array _).size +
      ((Item.array _).size + ((Item.array _).size + ((Item.array _).size +
        ((Item.text _).size + 0))))))) ≤ _
    rw [show Cbor.headLen 7 = 1 by decide]
    omega
  have hencode := encodeCanonical_item (encodeOnly DefinitionWire.toItem) self.wire rfl
    (by decide) (by decide) hfits (by decide)
  rw [if_pos (show _ ≤ definitionLimits.maxBodyLen from hsize)] at hencode
  simp only [definitionDigest, hencode, Result.ok_bind]
  rfl

end FeatureDefinition

private theorem foldlM_reservedCandidate_true (definition : FeatureDefinition) (digest : Digest)
    (candidates : List FeatureDefinition) :
    candidates.foldlM (reservedCandidate definition digest) true = .ok true := by
  induction candidates with
  | nil => rfl
  | cons candidate candidates ih => exact ih

/-- A definition with the digest of the built-in definition of its tag. -/
def Frozen (builtins : List FeatureDefinition) (definition : FeatureDefinition) : Prop :=
  ∃ candidate ∈ builtins, candidate.tag = definition.tag ∧
    ∃ digest, candidate.definitionDigest = .ok digest ∧ definition.definitionDigest = .ok digest

/-- The loop over the built-in definitions finds the one with the tag and the digest. -/
theorem foldlM_reservedCandidate_iff (definition : FeatureDefinition) (digest : Digest)
    {candidates : List FeatureDefinition} (hnodup : (candidates.map FeatureDefinition.tag).Nodup) :
    candidates.foldlM (reservedCandidate definition digest) false = .ok true ↔
      ∃ candidate ∈ candidates, candidate.tag = definition.tag ∧
        candidate.definitionDigest = .ok digest := by
  induction candidates with
  | nil => simp [pure, Except.pure]
  | cons candidate candidates ih =>
    rw [List.map_cons, List.nodup_cons] at hnodup
    have ih := ih hnodup.2
    by_cases htag : candidate.tag = definition.tag
    · -- no later candidate has the tag, so this one decides
      have hlater : ¬ ∃ other ∈ candidates, other.tag = definition.tag ∧
          other.definitionDigest = .ok digest := by
        rintro ⟨other, hmem, heq, -⟩
        exact hnodup.1 (htag ▸ heq ▸ List.mem_map_of_mem hmem)
      simp only [List.mem_cons, exists_eq_or_imp, htag, true_and, hlater, or_false]
      cases hdigest : candidate.definitionDigest with
      | error e =>
        simp [List.foldlM_cons, reservedCandidate, htag, hdigest, bind, Except.bind]
      | ok actual =>
        have hstep : reservedCandidate definition digest false candidate =
            .ok (decide (actual = digest)) := by
          simp [reservedCandidate, htag, hdigest, pure, Except.pure, bind, Except.bind]
        rw [List.foldlM_cons, hstep, Result.ok_bind]
        by_cases heq : actual = digest
        · rw [decide_eq_true heq, heq, foldlM_reservedCandidate_true]
          simp
        · rw [decide_eq_false heq]
          simp [ih, hlater, heq]
    · have hskip : reservedCandidate definition digest false candidate = .ok false := by
        simp [reservedCandidate, htag, pure, Except.pure]
      rw [List.foldlM_cons, hskip, Result.ok_bind, ih]
      simp [htag]

variable {builtins : List FeatureDefinition}

/-- A definition passes the check of its namespace exactly when it is frozen or belongs to
    another domain. -/
theorem checkReservedNamespace_eq_ok_iff (hnodup : (builtins.map FeatureDefinition.tag).Nodup) :
    checkReservedNamespace definition builtins = .ok () ↔
      (definition.tag.domain = builtinDomain → Frozen builtins definition) := by
  by_cases hdomain : definition.tag.domain = builtinDomain
  · simp only [checkReservedNamespace, Frozen, hdomain, ne_eq, not_true, if_false, forall_const,
      Except.bind_eq_ok]
    constructor
    · rintro ⟨digest, hdigest, found, hfound, hanswer⟩
      cases found with
      | false => cases hanswer
      | true =>
        obtain ⟨candidate, hmem, htag, hcandidate⟩ :=
          (foldlM_reservedCandidate_iff definition digest hnodup).mp hfound
        exact ⟨candidate, hmem, htag, digest, hcandidate, hdigest⟩
    · rintro ⟨candidate, hmem, htag, digest, hcandidate, hdigest⟩
      refine ⟨digest, hdigest, true, ?_, rfl⟩
      exact (foldlM_reservedCandidate_iff definition digest hnodup).mpr
        ⟨candidate, hmem, htag, hcandidate⟩
  · refine iff_of_true ?_ fun h => absurd h hdomain
    rw [checkReservedNamespace, if_pos hdomain]
    rfl

/-- A built-in definition passes the check of its namespace. -/
theorem checkReservedNamespace_of_mem {digest : Digest}
    (hnodup : (builtins.map FeatureDefinition.tag).Nodup) (hmem : definition ∈ builtins)
    (hdigest : definition.definitionDigest = .ok digest) :
    checkReservedNamespace definition builtins = .ok () :=
  (checkReservedNamespace_eq_ok_iff hnodup).mpr fun _ =>
    ⟨definition, hmem, rfl, digest, hdigest, hdigest⟩

end Radiata
