import Radiata.ForStd.Acyclic
import Radiata.Spec.RegistryBuild

/-!
# The graphs that build

`FeatureRegistry::build` accepts exactly the well-formed lists of definitions. The
depth-first search shares its marks between the roots: a label marked as done is one
from which every descent along dependencies ends, so it is on no cycle and hides none.
Conversely a finite graph without cycles has a rank, and along a rank every search
succeeds.

## Key results

- `acc_of_visit`: what a search that succeeds has shown
- `checkDependencies_eq_ok_iff`: the search accepts exactly the closed acyclic graphs
- `FeatureRegistry.build_iff_wellFormed`: the whole of `build`
-/

namespace Radiata

section Graph

variable [DnsName]

/-! ## The relations of a list of definitions -/

/-- A definition of the list names a dependency. -/
def DependsOn (source : List FeatureDefinition) (tag dependency : FeatureTag) : Prop :=
  ∃ definition ∈ source, definition.tag = tag ∧ dependency ∈ definition.dependencies

/-- A definition of the list names a conflict. -/
def ConflictsWith (source : List FeatureDefinition) (tag conflict : FeatureTag) : Prop :=
  ∃ definition ∈ source, definition.tag = tag ∧ conflict ∈ definition.conflicts

/-- A definition of the list has the label. -/
def Defines (source : List FeatureDefinition) (tag : FeatureTag) : Prop :=
  ∃ definition ∈ source, definition.tag = tag

/-- The lists of definitions a registry is made of. -/
structure WellFormedGraph (builtins source : List FeatureDefinition) : Prop where
  labels : (source.map FeatureDefinition.tag).Nodup
  reserved : ∀ definition ∈ source, definition.tag.domain = builtinDomain →
    Frozen builtins definition
  dependenciesClosed : ∀ tag dependency, DependsOn source tag dependency → Defines source dependency
  acyclic : ∀ tag, ¬ Relation.TransGen (DependsOn source) tag tag
  conflictsIrreflexive : ∀ tag, ¬ ConflictsWith source tag tag
  conflictsSymmetric : ∀ tag conflict, ConflictsWith source tag conflict →
    ConflictsWith source conflict tag
  conflictsClosed : ∀ tag conflict, ConflictsWith source tag conflict → Defines source conflict
  limits : (limitTags source).Nodup
  protocols : (protocolTags source).Nodup

/-! ## The dependency search -/

/-- The dependencies among the definitions of a map. -/
def Edge (definitions : Definitions) (tag dependency : FeatureTag) : Prop :=
  ∃ definition, definitions.get tag = some definition ∧ dependency ∈ definition.dependencies

/-- Every descent from a label marked as done ends. -/
def DoneEnds (definitions : Definitions) (marks : SortedMap FeatureTag Mark) : Prop :=
  ∀ tag, marks.get tag = some .done → Acc (fun b a => Edge definitions a b) tag

variable {definitions : Definitions}

theorem DoneEnds.insert_visiting {marks : SortedMap FeatureTag Mark}
    (h : DoneEnds definitions marks) (tag : FeatureTag) :
    DoneEnds definitions (marks.insert tag .visiting) := by
  intro other hother
  rw [SortedMap.get_insert] at hother
  split at hother
  · cases hother
  · exact h other hother

theorem DoneEnds.insert_done {marks : SortedMap FeatureTag Mark} (h : DoneEnds definitions marks)
    {tag : FeatureTag} (hends : Acc (fun b a => Edge definitions a b) tag) :
    DoneEnds definitions (marks.insert tag .done) := by
  intro other hother
  rw [SortedMap.get_insert] at hother
  split at hother
  · rename_i heq
    exact heq ▸ hends
  · exact h other hother

/-- A search that succeeds has followed every descent from its label to the end. -/
theorem acc_of_visit {fuel : Nat} {tag : FeatureTag} {marks marks' : SortedMap FeatureTag Mark}
    (hmarks : DoneEnds definitions marks) (h : visit definitions fuel tag marks = .ok marks') :
    DoneEnds definitions marks' ∧ Acc (fun b a => Edge definitions a b) tag := by
  induction fuel generalizing tag marks marks' with
  | zero => cases h
  | succ fuel ih =>
    rw [visit] at h
    split at h
    · -- a label that is done was searched before, perhaps from another root
      rename_i hdone
      cases h
      exact ⟨hmarks, hmarks tag hdone⟩
    · cases h
    · split at h
      · cases h
      · rename_i definition hget
        obtain ⟨last, hlast, hdone⟩ := Except.bind_eq_ok.mp h
        cases hdone
        obtain ⟨hkept, hends⟩ := Except.foldlM_forall (P := DoneEnds definitions)
          (Q := Acc fun b a => Edge definitions a b) (fun _ _ _ _ hs hvisit => ih hs hvisit)
          (hmarks.insert_visiting tag) hlast
        have htag : Acc (fun b a => Edge definitions a b) tag := by
          constructor
          intro dependency hedge
          obtain ⟨found, hfound, hdependency⟩ := hedge
          rw [hget] at hfound
          cases hfound
          exact hends dependency hdependency
        exact ⟨hkept.insert_done htag, htag⟩

/-- The labels of a map that are dependencies of its definitions and registered. -/
def EdgesClosed (definitions : Definitions) : Prop :=
  ∀ tag dependency, Edge definitions tag dependency → ∃ other, definitions.get dependency = some other

/-- The search from all labels succeeds exactly on closed graphs without cycles. -/
theorem checkDependencies_eq_ok_iff (definitions : Definitions) :
    checkDependencies definitions = .ok () ↔
      EdgesClosed definitions ∧ ∀ tag, ¬ Relation.TransGen (Edge definitions) tag tag := by
  constructor
  · intro h
    simp only [checkDependencies, Except.bind_eq_ok] at h
    obtain ⟨marks, hmarks, -⟩ := h
    have hkey : ∀ tag definition, definitions.get tag = some definition →
        tag ∈ definitions.toList.map Prod.fst := fun tag definition hget =>
      List.mem_map_of_mem (f := Prod.fst) ((SortedMap.mem_toList_iff _ _ _).mpr hget)
    constructor
    · intro tag dependency hedge
      obtain ⟨definition, hget, hdependency⟩ := hedge
      have hempty : MarksKnown definitions .empty := by
        constructor <;> intro other hother <;> simp at hother
      obtain ⟨-, hknown⟩ := Except.foldlM_forall (P := MarksKnown definitions)
        (Q := DependenciesKnown definitions) (fun _ _ _ _ hs hvisit => known_of_visit hs hvisit)
        hempty hmarks
      obtain ⟨found, hfound, hall⟩ := hknown tag (hkey tag definition hget)
      rw [hget] at hfound
      cases hfound
      exact hall dependency hdependency
    · intro tag hcycle
      have hempty : DoneEnds definitions .empty := by
        intro other hother
        simp at hother
      obtain ⟨-, hends⟩ := Except.foldlM_forall (P := DoneEnds definitions)
        (Q := Acc fun b a => Edge definitions a b) (fun _ _ _ _ hs hvisit => acc_of_visit hs hvisit)
        hempty hmarks
      -- a label on a cycle has a dependency, so it is registered and one of the roots
      obtain ⟨next, ⟨definition, hget, -⟩, -⟩ := Relation.TransGen.head'_iff.mp hcycle
      exact Relation.not_transGen_self_of_acc (hends tag (hkey tag definition hget)) hcycle
  · rintro ⟨hclosed, hacyclic⟩
    obtain ⟨rank, hrank⟩ := Relation.exists_rank_of_acyclic
      (definitions.toList.map Prod.fst).toFinset
      (fun tag dependency hedge => by
        obtain ⟨other, hother⟩ := hclosed tag dependency hedge
        rw [List.mem_toFinset]
        exact List.mem_map_of_mem (f := Prod.fst) ((SortedMap.mem_toList_iff _ _ _).mpr hother))
      hacyclic
    have hranked : Ranked definitions rank := by
      intro tag definition hget dependency hdependency
      have hedge : Edge definitions tag dependency := ⟨definition, hget, hdependency⟩
      exact ⟨hrank tag dependency hedge, hclosed tag dependency hedge⟩
    exact checkDependencies_of_rank hranked

/-! ## Conflicts -/

theorem checkConflict_eq_ok_iff {definition : FeatureDefinition} {conflict : FeatureTag} :
    checkConflict definitions definition conflict = .ok () ↔
      conflict ≠ definition.tag ∧ ∃ other, definitions.get conflict = some other ∧
        definition.tag ∈ other.conflicts := by
  unfold checkConflict
  by_cases hself : conflict = definition.tag
  · rw [if_pos hself]
    exact iff_of_false (fun h => by cases h) fun h => h.1 hself
  · rw [if_neg hself]
    cases hget : definitions.get conflict with
    | none => simp
    | some other =>
      by_cases hmem : definition.tag ∈ other.conflicts
      · simp [hmem, hself]
      · simp [hmem]

/-- The conflicts of all definitions pass exactly when each is answered by the other side. -/
theorem checkConflicts_eq_ok_iff (definitions : Definitions) :
    checkConflicts definitions = .ok () ↔
      ∀ tag definition, definitions.get tag = some definition → ∀ conflict ∈ definition.conflicts,
        conflict ≠ definition.tag ∧ ∃ other, definitions.get conflict = some other ∧
          definition.tag ∈ other.conflicts := by
  simp only [checkConflicts, Except.forM_eq_ok, checkConflict_eq_ok_iff]
  constructor
  · intro h tag definition hget
    exact h (tag, definition) ((SortedMap.mem_toList_iff _ _ _).mpr hget)
  · intro h entry hentry
    exact h entry.1 entry.2 ((SortedMap.mem_toList_iff _ _ _).mp hentry)

/-! ## The whole of `build` -/

/-- The edges of the collected map are the dependencies of the list. -/
theorem edge_iff_dependsOn {source : List FeatureDefinition}
    (h : collectDefinitions source = .ok definitions) (tag dependency : FeatureTag) :
    Edge definitions tag dependency ↔ DependsOn source tag dependency := by
  simp only [Edge, DependsOn, get_of_collectDefinitions h, and_assoc]

/-- The checks of the collected map are the conditions on the list. -/
theorem checkRegistry_iff_wellFormed {builtins source : List FeatureDefinition}
    (hbuiltins : builtinDefinitions = .ok builtins)
    (hnodup : (builtins.map FeatureDefinition.tag).Nodup)
    (hcollect : collectDefinitions source = .ok definitions) :
    checkRegistry definitions = .ok () ↔ WellFormedGraph builtins source := by
  have hlabels := nodup_of_collectDefinitions hcollect
  have hperm := perm_of_collectDefinitions hlabels hcollect
  have hget := get_of_collectDefinitions hcollect
  have hedges : Edge definitions = DependsOn source := by
    funext tag dependency
    exact propext (edge_iff_dependsOn hcollect tag dependency)
  have hdefined : ∀ tag, (∃ other, definitions.get tag = some other) ↔ Defines source tag := by
    intro tag
    simp only [hget, Defines]
  -- each check on the map, read on the list
  have hreserved : (definitions.toList.map Prod.snd).forM (checkReservedNamespace · builtins) =
      .ok () ↔ ∀ definition ∈ source, definition.tag.domain = builtinDomain →
        Frozen builtins definition := by
    simp only [Except.forM_eq_ok, checkReservedNamespace_eq_ok_iff hnodup, hperm.mem_iff]
  have hdependencies : checkDependencies definitions = .ok () ↔
      (∀ tag dependency, DependsOn source tag dependency → Defines source dependency) ∧
        ∀ tag, ¬ Relation.TransGen (DependsOn source) tag tag := by
    rw [checkDependencies_eq_ok_iff, EdgesClosed, hedges]
    simp only [hdefined]
  have hconflicts : checkConflicts definitions = .ok () ↔
      (∀ tag, ¬ ConflictsWith source tag tag) ∧
      (∀ tag conflict, ConflictsWith source tag conflict → ConflictsWith source conflict tag) ∧
        ∀ tag conflict, ConflictsWith source tag conflict → Defines source conflict := by
    rw [checkConflicts_eq_ok_iff]
    simp only [hget]
    constructor
    · intro h
      refine ⟨?_, ?_, ?_⟩
      · rintro tag ⟨definition, hmem, rfl, hself⟩
        exact (h _ definition ⟨hmem, rfl⟩ _ hself).1 rfl
      · rintro tag conflict ⟨definition, hmem, rfl, hconflict⟩
        obtain ⟨-, other, ⟨hother, heq⟩, hback⟩ := h _ definition ⟨hmem, rfl⟩ conflict hconflict
        exact ⟨other, hother, heq, hback⟩
      · rintro tag conflict ⟨definition, hmem, rfl, hconflict⟩
        obtain ⟨-, other, hother, -⟩ := h _ definition ⟨hmem, rfl⟩ conflict hconflict
        exact ⟨other, hother⟩
    · rintro ⟨hirreflexive, hsymmetric, -⟩ tag definition ⟨hmem, rfl⟩ conflict hconflict
      obtain ⟨other, hother, heq, hback⟩ :=
        hsymmetric definition.tag conflict ⟨definition, hmem, rfl, hconflict⟩
      refine ⟨?_, other, ⟨hother, heq⟩, hback⟩
      intro hself
      exact hirreflexive definition.tag ⟨definition, hmem, rfl, hself ▸ hconflict⟩
  have hownership : checkUniqueOwnership definitions = .ok () ↔
      (limitTags source).Nodup ∧ (protocolTags source).Nodup := by
    have hlimits : (limitTags (definitions.toList.map Prod.snd)).Nodup ↔ (limitTags source).Nodup :=
      (hperm.flatMap_right _).nodup_iff
    have hprotocols :
        (protocolTags (definitions.toList.map Prod.snd)).Nodup ↔ (protocolTags source).Nodup :=
      (hperm.flatMap_right _).nodup_iff
    rw [← hlimits, ← hprotocols]
    refine Iff.trans ?_ (exists_checkOwnership_iff (definitions.toList.map Prod.snd))
    simp only [checkUniqueOwnership, Except.bind_eq_ok]
    exact exists_congr fun owned => and_iff_left rfl
  simp only [checkRegistry, hbuiltins, Except.ok_bind_eq, Except.seq_eq_ok, hreserved, hdependencies,
    hconflicts, hownership]
  constructor
  · rintro ⟨hres, ⟨hclosed, hacyclic⟩, ⟨hirr, hsymm, hconf⟩, hlim, hprot⟩
    exact ⟨hlabels, hres, hclosed, hacyclic, hirr, hsymm, hconf, hlim, hprot⟩
  · intro h
    exact ⟨h.reserved, ⟨h.dependenciesClosed, h.acyclic⟩,
      ⟨h.conflictsIrreflexive, h.conflictsSymmetric, h.conflictsClosed⟩, h.limits, h.protocols⟩

/-! ## The built-in definitions -/

namespace QualifiedTag

/-- A text in lowercase with three accepted components parses to a tag with that text. -/
theorem exists_parse_lowercase {host category name : Bytes} (hhost : slash ∉ host)
    (hcategory : slash ∉ category) (hname : slash ∉ name)
    (haccepted : AcceptedComponents host category name) (hlower : host.map toAsciiLowercase = host) :
    ∃ tag, parse (host ++ slash :: (category ++ slash :: name)) = .ok tag ∧
      tag.asStr = host ++ slash :: (category ++ slash :: name) ∧ tag.category = category := by
  have hvalidate := (validateTag_eq_ok_iff hhost hcategory hname).mpr ⟨haccepted, rfl⟩
  have hfields : parseTagFields (host ++ slash :: (category ++ slash :: name)) =
      .ok (host ++ slash :: (category ++ slash :: name), host.length,
        host.length + 1 + category.length) := by
    simp only [parseTagFields, hvalidate, Result.ok_bind, List.take_left', List.drop_left', hlower]
    rfl
  obtain ⟨tag, hparse, hvalue⟩ := parse_of_fields hfields
  refine ⟨tag, hparse, hvalue, ?_⟩
  obtain ⟨host', category', name', c⟩ := components_of_parse hparse
  obtain ⟨-, hrest⟩ := Bytes.append_cons_inj_of_notMem hhost c.hostBare c.text_eq
  obtain ⟨hcat, -⟩ := Bytes.append_cons_inj_of_notMem hcategory c.categoryBare hrest
  rw [c.category_eq, hcat]

end QualifiedTag

/-- A text under the built-in domain parses, as far as its other components are valid. -/
theorem exists_parse_builtin (hdomain : DnsName.parses builtinDomain = true) (text : Bytes)
    (category name : Bytes)
    (htext : text = builtinDomain ++ slash :: (category ++ slash :: name))
    (hchecks : (slash ∉ category ∧ slash ∉ name) ∧ text.length ≤ maxTagLen ∧
      text.all (· < 0x80) = true ∧ validNameComponent category = true ∧
      validNameComponent name = true ∧ category ≠ categoryCrypto) :
    ∃ tag, QualifiedTag.parse text = .ok tag ∧ tag.asStr = text ∧ tag.category = category := by
  subst htext
  obtain ⟨⟨hcategory, hname⟩, hlength, hascii, hvalidCategory, hvalidName, hcrypto⟩ := hchecks
  have hhost : slash ∉ builtinDomain := by decide
  have hvalid : validDnsHostname builtinDomain = true := by
    rw [validDnsHostname, hdomain]
    decide
  have hlength' : builtinDomain.length = 18 := by decide
  refine QualifiedTag.exists_parse_lowercase hhost hcategory hname ?_ (by decide)
  refine ⟨?_, hlength, .of_all hascii, hvalid, hvalidCategory, hvalidName, fun h => hcrypto h.2⟩
  rw [List.length_append, hlength', minTagLen]
  omega

/-- A label under the built-in domain. -/
theorem exists_builtinLabel (hdomain : DnsName.parses builtinDomain = true) (text : Bytes)
    (category name : Bytes) (context : String)
    (htext : text = builtinDomain ++ slash :: (category ++ slash :: name))
    (hchecks : (slash ∉ category ∧ slash ∉ name) ∧ text.length ≤ maxTagLen ∧
      text.all (· < 0x80) = true ∧ validNameComponent category = true ∧
      validNameComponent name = true ∧ category ≠ categoryCrypto) :
    ∃ tag : CategoryTag category, CategoryTag.parse context text = .ok tag ∧ tag.asStr = text := by
  obtain ⟨tag, hparse, hvalue, hcategory⟩ := exists_parse_builtin hdomain _ category name htext hchecks
  refine ⟨⟨tag, hcategory⟩, ?_, hvalue⟩
  simp only [CategoryTag.parse, hparse, Result.ok_bind, dif_pos hcategory]
  rfl

namespace FeatureDefinition

/-- A new dependency is added. -/
theorem exists_dependency (self : FeatureDefinition) {tag : FeatureTag} (hself : tag ≠ self.tag)
    (hmem : tag ∉ self.dependencies) :
    ∃ next, self.dependency tag = .ok next ∧ next.tag = self.tag ∧ next.limits = self.limits ∧
      next.protocols = self.protocols := by
  unfold dependency
  rw [dif_neg hself, dif_neg hmem]
  exact ⟨_, rfl, rfl, rfl, rfl⟩

/-- A new limit of the definition is added. -/
theorem exists_limit (self : FeatureDefinition) (limit : LimitDefinition)
    (howner : limit.owner = self.tag) (hmem : limit.tag ∉ self.limits.map LimitDefinition.tag) :
    ∃ next, self.limit limit = .ok next ∧ next.tag = self.tag ∧ next.protocols = self.protocols := by
  unfold FeatureDefinition.limit
  rw [dif_neg (not_not.mpr howner), dif_neg hmem]
  exact ⟨_, rfl, rfl, rfl⟩

/-- A new protocol is added. -/
theorem exists_protocol (self : FeatureDefinition) (tag : ProtocolTag) (hmem : tag ∉ self.protocols) :
    ∃ next, self.protocol tag = .ok next ∧ next.tag = self.tag := by
  unfold protocol
  rw [dif_neg hmem]
  exact ⟨_, rfl, rfl⟩

end FeatureDefinition

/-- A limit definition of the right category and width. -/
theorem exists_limitDefinition {tag : QualifiedTag} (width : LimitWidth) (unit : LimitUnit)
    (range : LimitRange) (owner : FeatureTag) (mandatory : Bool)
    (hcategory : tag.category = categoryLimits) (hwidth : range.ceiling ≤ width.maximum) :
    ∃ limit, LimitDefinition.new tag width unit range owner mandatory = .ok limit ∧
      limit.owner = owner := by
  unfold LimitDefinition.new
  rw [dif_neg (not_not.mpr hcategory), dif_neg (UInt64.not_lt.mpr hwidth)]
  exact ⟨_, rfl, rfl⟩

/-- The built-in definitions are there if their domain is a host name, with one definition
    for each label. -/
theorem exists_builtinDefinitions (hdomain : DnsName.parses builtinDomain = true) :
    ∃ builtins, builtinDefinitions = .ok builtins ∧
      (builtins.map FeatureDefinition.tag).Nodup := by
  obtain ⟨auth, hauth, hauthText⟩ := exists_builtinLabel hdomain authEd25519Session
    categoryFeatures (Bytes.utf8 "auth-ed25519-session") "feature tag" (by decide) (by decide +kernel)
  obtain ⟨session, hsession, hsessionText⟩ := exists_builtinLabel hdomain sessionCore
    categoryFeatures (Bytes.utf8 "session-core") "feature tag" (by decide) (by decide +kernel)
  obtain ⟨data, hdata, hdataText⟩ := exists_builtinLabel hdomain dataMessages
    categoryFeatures (Bytes.utf8 "data-messages") "feature tag" (by decide) (by decide +kernel)
  obtain ⟨direct, hdirect, hdirectText⟩ := exists_builtinLabel hdomain directRequest
    categoryFeatures (Bytes.utf8 "direct-request") "feature tag" (by decide) (by decide +kernel)
  obtain ⟨routed, hrouted, hroutedText⟩ := exists_builtinLabel hdomain routedDelivery
    categoryFeatures (Bytes.utf8 "routed-delivery") "feature tag" (by decide) (by decide +kernel)
  obtain ⟨protocol, hprotocol, -⟩ := exists_builtinLabel hdomain directRequestProtocol
    categoryProtocols (Bytes.utf8 "direct-request") "protocol tag" (by decide) (by decide +kernel)
  obtain ⟨body, hbody, -, hbodyCategory⟩ := exists_parse_builtin hdomain dataBodyBytesLimit
    categoryLimits (Bytes.utf8 "data-body-bytes") (by decide) (by decide +kernel)
  obtain ⟨flight, hflight, -, hflightCategory⟩ := exists_parse_builtin hdomain
    inFlightRequestsLimit categoryLimits (Bytes.utf8 "in-flight-requests") (by decide)
    (by decide +kernel)
  have hne : ∀ {a b : FeatureTag} {s t : Bytes}, a.asStr = s → b.asStr = t → s ≠ t → a ≠ b := by
    intro a b s t ha hb hst heq
    exact hst (by rw [← ha, ← hb, heq])
  -- each builder step of the source succeeds
  let start := fun tag : FeatureTag =>
    FeatureDefinition.unchecked tag (builtinFingerprint tag) builtinTestOwner
  obtain ⟨sessionDef, hsessionDef, hsessionTag, -, -⟩ := FeatureDefinition.exists_dependency
    (start session) (hne hauthText hsessionText (by decide)) (List.not_mem_nil)
  obtain ⟨dataDep, hdataDep, hdataTag, hdataLimits, -⟩ := FeatureDefinition.exists_dependency
    (start data) (hne hsessionText hdataText (by decide)) (List.not_mem_nil)
  obtain ⟨bodyLimit, hbodyLimit, hbodyOwner⟩ := exists_limitDefinition .u32 .bytes
    ⟨dataBodyFloor, dataBodyCeiling, dataBodyDefault, by decide, by decide⟩ data true
    hbodyCategory (by decide)
  obtain ⟨dataDef, hdataDef, hdataDefTag, -⟩ := FeatureDefinition.exists_limit dataDep
    bodyLimit (hbodyOwner.trans hdataTag.symm) (by rw [hdataLimits]; exact List.not_mem_nil)
  obtain ⟨directDep, hdirectDep, hdirectTag, hdirectLimits, hdirectProtocols⟩ :=
    FeatureDefinition.exists_dependency (start direct)
      (hne hdataText hdirectText (by decide)) (List.not_mem_nil)
  obtain ⟨flightLimit, hflightLimit, hflightOwner⟩ := exists_limitDefinition .u16 .count
    ⟨inFlightFloor, inFlightCeiling, inFlightDefault, by decide, by decide⟩ direct true
    hflightCategory (by decide)
  obtain ⟨directLim, hdirectLim, hdirectLimTag, hdirectLimProtocols⟩ :=
    FeatureDefinition.exists_limit directDep flightLimit
      (hflightOwner.trans hdirectTag.symm) (by rw [hdirectLimits]; exact List.not_mem_nil)
  obtain ⟨directDef, hdirectDef, hdirectDefTag⟩ := FeatureDefinition.exists_protocol
    directLim protocol
    (by rw [hdirectLimProtocols, hdirectProtocols]; exact List.not_mem_nil)
  obtain ⟨routedDef, hroutedDef, hroutedTag, -, -⟩ := FeatureDefinition.exists_dependency
    (start routed) (hne hdataText hroutedText (by decide)) (List.not_mem_nil)
  have hbodyRange : LimitRange.new dataBodyFloor dataBodyCeiling dataBodyDefault =
      .ok ⟨dataBodyFloor, dataBodyCeiling, dataBodyDefault, by decide, by decide⟩ := by decide
  have hflightRange : LimitRange.new inFlightFloor inFlightCeiling inFlightDefault =
      .ok ⟨inFlightFloor, inFlightCeiling, inFlightDefault, by decide, by decide⟩ := by decide
  refine ⟨[start auth, sessionDef, dataDef, directDef, routedDef], ?_, ?_⟩
  · simp only [builtinDefinitions, builtin, FeatureTag.parse, ProtocolTag.parse, hauth, hsession,
      hdata, hdirect, hrouted, hprotocol, hbody, hflight, hbodyRange, hflightRange, Result.ok_bind,
      Except.pure_eq, Except.ok_bind_eq]
    rw [hsessionDef, Result.ok_bind, hdataDep, Result.ok_bind, hbodyLimit, Result.ok_bind, hdataDef,
      Result.ok_bind, hdirectDep, Result.ok_bind, hflightLimit, Result.ok_bind, hdirectLim,
      Result.ok_bind, hdirectDef, Result.ok_bind, hroutedDef, Result.ok_bind]
  · have htexts : ([start auth, sessionDef, dataDef, directDef, routedDef].map
        FeatureDefinition.tag).map CategoryTag.asStr =
          [authEd25519Session, sessionCore, dataMessages, directRequest, routedDelivery] := by
      simp only [List.map_cons, List.map_nil, hsessionTag, hdataDefTag, hdataTag, hdirectDefTag,
        hdirectLimTag, hdirectTag, hroutedTag]
      simp only [start, FeatureDefinition.unchecked, hauthText, hsessionText, hdataText, hdirectText,
        hroutedText]
    refine List.Nodup.of_map CategoryTag.asStr ?_
    rw [htexts]
    decide +kernel

/-- `FeatureRegistry::build` accepts exactly the well-formed lists, and its search always
    ends. -/
theorem FeatureRegistry.build_iff_wellFormed (hdomain : DnsName.parses builtinDomain = true) :
    ∃ builtins, builtinDefinitions = .ok builtins ∧
      (∀ source, (∃ registry, FeatureRegistry.build source = .ok registry) ↔
        WellFormedGraph builtins source) ∧
      ∀ definitions : Definitions, checkDependencies definitions ≠ .error exhausted := by
  obtain ⟨builtins, hbuiltins, hnodup⟩ := exists_builtinDefinitions hdomain
  refine ⟨builtins, hbuiltins, ?_, checkDependencies_ne_exhausted⟩
  intro source
  rw [exists_build_iff]
  constructor
  · rintro ⟨definitions, hcollect, hcheck⟩
    exact (checkRegistry_iff_wellFormed hbuiltins hnodup hcollect).mp hcheck
  · intro h
    obtain ⟨definitions, hcollect⟩ := exists_collectDefinitions h.labels
    exact ⟨definitions, hcollect, (checkRegistry_iff_wellFormed hbuiltins hnodup hcollect).mpr h⟩

end Graph

/-- The law of `build` over host names. -/
theorem build_iff_wellFormed_hostNames :
    letI := DnsName.hostNames
    ∃ builtins, builtinDefinitions = .ok builtins ∧
      (∀ source, (∃ registry, FeatureRegistry.build source = .ok registry) ↔
        WellFormedGraph builtins source) ∧
      ∀ definitions : Definitions, checkDependencies definitions ≠ .error exhausted :=
  letI := DnsName.hostNames
  FeatureRegistry.build_iff_wellFormed (by decide)

end Radiata
