import Mathlib.Data.List.MinMax
import Radiata.Spec.DescriptorCorrect

/-!
# Delivering descriptors in different orders

A replica keeps the highest revision it is given, except that a removal marker keeps every
live descriptor out for good. Two replicas that are given the same descriptors of a node
therefore agree exactly if none of them is a removal marker or the one of the highest revision
is: otherwise the replica that gets the highest revision first keeps it, and the replica that
gets a removal marker first never takes it.

## Key results

- `absorbed_rule`: what a delivered descriptor says about the stored one
- `descriptors_converge_iff`: when the order of delivery does not matter
-/

namespace Radiata

section Converge

variable [DnsName]

/-! ## What a replica holds -/

/-- A descriptor has been taken into account: a later one is stored, or a removal marker that
    keeps it out. -/
def Absorbed (key : EntryKey) (descriptor : NodeDescriptor) (entries : Entries) : Prop :=
  ∃ value current, entries.get key = some value ∧ decodeDescriptor value.asBytes = .ok current ∧
    (descriptor.revision ≤ current.revision ∨ current.removed = true ∧ descriptor.removed = false)

/-- The stored descriptor is one of those delivered, and the binding of the node is there. -/
def Known (key binding : EntryKey) (operations : List NodeDescriptor) (entries : Entries) : Prop :=
  (entries.get binding).isSome = true ∧ ∀ value, entries.get key = some value →
    ∃ current ∈ operations, descriptorKey current.node = .ok key ∧
      decodeDescriptor value.asBytes = .ok current

variable {descriptor : NodeDescriptor}

/-- A descriptor that is not stored has been taken into account. -/
theorem storeDescriptor_answer {entries : Entries} {error : Error} {key binding : EntryKey}
    (hkey : descriptorKey descriptor.node = .ok key)
    (hbinding : identityBindingKey descriptor.node = .ok binding)
    (hbound : (entries.get binding).isSome = true)
    (h : storeDescriptor descriptor entries = .ok (.answer error)) :
    Absorbed key descriptor entries := by
  obtain ⟨key', hkey', h⟩ := Result.bind_eq_ok.mp h
  obtain rfl : key = key' := Except.ok.inj (hkey.symm.trans hkey')
  obtain ⟨conflict, hconflict, h⟩ := Result.bind_eq_ok.mp h
  cases conflict with
  | none =>
    obtain ⟨bytes, -, h⟩ := Result.bind_eq_ok.mp h
    cases h
  | some answer =>
    cases hstored : entries.get key with
    | none =>
      simp only [storeConflict, hstored, firstConflict] at hconflict
      split at hconflict
      · cases hconflict
      · simp only [hbinding, Result.ok_bind, hbound, if_true] at hconflict
        cases hconflict
    | some value =>
      simp only [storeConflict, hstored] at hconflict
      obtain ⟨existing, hexisting, hconflict⟩ := Result.bind_eq_ok.mp hconflict
      refine ⟨value, existing, hstored, hexisting, ?_⟩
      by_cases hrevision : descriptor.revision ≤ existing.revision
      · exact Or.inl hrevision
      · by_cases hremoved : existing.removed = true ∧ ¬ descriptor.removed = true
        · exact Or.inr ⟨hremoved.1, by simpa using hremoved.2⟩
        · simp only [descriptorConflict, if_neg hrevision, if_neg hremoved] at hconflict
          cases hconflict

/-- A descriptor taken into account stays so when a later one replaces the stored one. -/
theorem Absorbed.replace {key : EntryKey} {new : NodeDescriptor} {before after : Entries}
    {value : StoreValue} (h : Absorbed key descriptor before)
    (hreplaces : Replaces new before key value) (hafter : after.get key = some value) :
    Absorbed key descriptor after := by
  obtain ⟨old, current, hold, hcurrent, habsorbed⟩ := h
  obtain ⟨existing, hexisting, hless, hremoved⟩ := hreplaces.later old hold
  obtain rfl : current = existing := Except.ok.inj (hcurrent.symm.trans hexisting)
  refine ⟨value, new, hafter, hreplaces.written, ?_⟩
  rcases habsorbed with hle | ⟨hmarker, hlive⟩
  · exact Or.inl (UInt64.le_of_lt (UInt64.lt_of_le_of_lt hle hless))
  · exact Or.inr ⟨hremoved hmarker, hlive⟩

section Replica

variable {node : NodeId} {key binding : EntryKey}

/-- The rule of a replica that keeps the binding of a node. -/
theorem absorbed_rule (hhosts : FoldedHosts) (hkey : descriptorKey node = .ok key)
    (hbinding : identityBindingKey node = .ok binding) :
    PutSystem.Rule (descriptorCalls (· = node)).toPutProtocol (Known key binding)
      fun descriptor entries => descriptor.node = node → Absorbed key descriptor entries where
  start := by
    intro operations operation entries ⟨hbound, hknown⟩
    refine ⟨hbound, fun value hvalue => ?_⟩
    obtain ⟨current, hmem, hcurrent⟩ := hknown value hvalue
    exact ⟨current, List.mem_append_left _ hmem, hcurrent⟩
  same := by
    intro operations before after hsame ⟨hbound, hknown⟩
    have hentry := hsame key (Or.inl ⟨node, hkey⟩)
    have hpinned := hsame binding (Or.inr ⟨node, rfl, hbinding⟩)
    refine ⟨⟨hpinned ▸ hbound, fun value hvalue => hknown value (hentry ▸ hvalue)⟩, ?_⟩
    intro descriptor habsorbed hnode
    obtain ⟨value, current, hvalue, hrest⟩ := habsorbed hnode
    exact ⟨value, current, hentry.trans hvalue, hrest⟩
  put := by
    intro operations descriptor before after key' value hmem ⟨hbound, hknown⟩ hdecide hputs
    have hreplaces := storeDescriptor_put hhosts hdecide
    have hentry := hputs key (Or.inl ⟨node, hkey⟩)
    have hpinned := hputs binding (Or.inr ⟨node, rfl, hbinding⟩)
    have hapart : binding ≠ key' := by
      intro heq
      have htext := (identityBindingKey_eq_ok hbinding).1
      rw [heq, (descriptorKey_eq_ok hreplaces.own).1] at htext
      exact absurd htext (by decide)
    rw [if_neg hapart] at hpinned
    by_cases hsame : key = key'
    · -- The record of the node is replaced.
      subst hsame
      rw [if_pos rfl] at hentry
      refine ⟨⟨hpinned ▸ hbound, fun stored hstored => ?_⟩, fun _ => ?_, fun other hother hnode => ?_⟩
      · obtain rfl : value = stored := Option.some.inj (hentry.symm.trans hstored)
        exact ⟨descriptor, hmem, hreplaces.own, hreplaces.written⟩
      · exact ⟨value, descriptor, hentry, hreplaces.written, Or.inl (UInt64.le_refl _)⟩
      · exact (hother hnode).replace hreplaces hentry
    · rw [if_neg hsame] at hentry
      refine ⟨⟨hpinned ▸ hbound, fun stored hstored => hknown stored (hentry ▸ hstored)⟩,
        fun hnode => ?_, fun other hother hnode => ?_⟩
      · have hown := hreplaces.own
        rw [hnode, hkey] at hown
        exact absurd (Except.ok.inj hown) hsame
      · obtain ⟨stored, current, hstored, hrest⟩ := hother hnode
        exact ⟨stored, current, hentry.trans hstored, hrest⟩
  answer := by
    intro operations descriptor entries error ⟨hbound, _⟩ hdecide hnode
    exact storeDescriptor_answer (hnode ▸ hkey) (hnode ▸ hbinding) hbound hdecide

variable {entries : Entries} {value : StoreValue} {descriptor : NodeDescriptor}

theorem readDescriptor_of_get (hkey : descriptorKey node = .ok key)
    (hvalue : entries.get key = some value)
    (hdecode : decodeDescriptor value.asBytes = .ok descriptor) :
    readDescriptor entries node = .ok (some descriptor) := by
  simp only [readDescriptor, hkey, Result.ok_bind, hvalue, hdecode]
  rfl

theorem readDescriptor_of_none (hkey : descriptorKey node = .ok key)
    (hnone : entries.get key = none) : readDescriptor entries node = .ok none := by
  simp only [readDescriptor, hkey, Result.ok_bind, hnone]
  rfl

/-- A run of a replica without a descriptor of the node, which is given exactly `descriptors`:
    each was stored or refused by `store_descriptor_ctx`, or skipped by `apply_page_ctx`. -/
def Delivers (node : NodeId) (key binding : EntryKey) (descriptors : List NodeDescriptor)
    (s : PageSystem NodeDescriptor Error) : Prop :=
  ∃ origin : ReferenceState, origin.entries.get key = none ∧
    (origin.entries.get binding).isSome = true ∧
    (PageSystem.runs (descriptorCalls (· = node)) origin).Reachable s ∧
    (∀ descriptor ∈ s.system.operations, descriptor.node = node → descriptor ∈ descriptors) ∧
    ∀ descriptor ∈ descriptors, s.system.Delivered descriptor ∨
      ∃ task ∈ s.tasks, descriptor ∈ task.skipped

variable {descriptors : List NodeDescriptor} {s t : PageSystem NodeDescriptor Error}

/-- A replica holds one of the descriptors, and has taken each into account. -/
theorem Delivers.final (hhosts : FoldedHosts) (hkey : descriptorKey node = .ok key)
    (hbinding : identityBindingKey node = .ok binding)
    (hnode : ∀ descriptor ∈ descriptors, descriptor.node = node)
    (h : Delivers node key binding descriptors s) :
    (∀ descriptor ∈ descriptors, Absorbed key descriptor s.system.store.entries) ∧
      ∀ value, s.system.store.entries.get key = some value →
        ∃ current ∈ descriptors, decodeDescriptor value.asBytes = .ok current := by
  obtain ⟨origin, hempty, hbound, hs, hsubset, hall⟩ := h
  have hrule := absorbed_rule hhosts hkey hbinding
  have horigin : Known key binding [] origin.entries :=
    ⟨hbound, fun value hvalue => absurd (hempty.symm.trans hvalue) (by simp)⟩
  obtain ⟨⟨-, hknown⟩, habsorbed⟩ := PageSystem.holds_of_reachable hrule horigin hs
  refine ⟨fun descriptor hmem => ?_, fun value hvalue => ?_⟩
  · rcases hall descriptor hmem with hdelivered | ⟨task, htask, hskipped⟩
    · exact habsorbed descriptor hdelivered (hnode descriptor hmem)
    · refine PageSystem.skipped_of_reachable hrule horigin ?_ hs task htask descriptor hskipped
        (hnode descriptor hmem)
      intro operations item entries hP hadmits hitem
      replace hadmits : admitsDescriptor item entries = false := hadmits
      cases hstored : entries.get key with
      | none =>
        simp only [admitsDescriptor, hitem, readDescriptor_of_none hkey hstored] at hadmits
        cases hadmits
      | some value =>
        obtain ⟨current, -, -, hcurrent⟩ := hP.2 value hstored
        simp only [admitsDescriptor, hitem, readDescriptor_of_get hkey hstored hcurrent] at hadmits
        exact ⟨value, current, hstored, hcurrent, Or.inl (by simpa using hadmits)⟩
  · obtain ⟨current, hmem, hown, hcurrent⟩ := hknown value hvalue
    exact ⟨current, hsubset current hmem (descriptorKey_inj hown hkey), hcurrent⟩

/-- The condition for agreement: no removal marker, or one of the highest revision. -/
def Settled (descriptors : List NodeDescriptor) : Prop :=
  (∀ descriptor ∈ descriptors, descriptor.removed = false) ∨
    ∃ marker ∈ descriptors, marker.removed = true ∧
      ∀ descriptor ∈ descriptors, descriptor.revision ≤ marker.revision

/-- Under the condition a replica holds a descriptor of the highest revision. -/
theorem Settled.highest {current : NodeDescriptor} (h : Settled descriptors)
    (hcurrent : current ∈ descriptors) (hvalue : entries.get key = some value)
    (hdecode : decodeDescriptor value.asBytes = .ok current)
    (habsorbed : ∀ descriptor ∈ descriptors, Absorbed key descriptor entries) :
    ∀ descriptor ∈ descriptors, descriptor.revision ≤ current.revision := by
  have hkept : ∀ descriptor ∈ descriptors, descriptor.revision ≤ current.revision ∨
      current.removed = true ∧ descriptor.removed = false := by
    intro descriptor hmem
    obtain ⟨stored, existing, hstored, hexisting, hcases⟩ := habsorbed descriptor hmem
    obtain rfl : value = stored := Option.some.inj (hvalue.symm.trans hstored)
    obtain rfl : current = existing := Except.ok.inj (hdecode.symm.trans hexisting)
    exact hcases
  intro descriptor hmem
  rcases h with hlive | ⟨marker, hmarker, hremoved, hmax⟩
  · rcases hkept descriptor hmem with hle | ⟨hmarked, -⟩
    · exact hle
    · rw [hlive current hcurrent] at hmarked
      cases hmarked
  · rcases hkept marker hmarker with hle | ⟨-, hunmarked⟩
    · exact UInt64.le_trans (hmax descriptor hmem) hle
    · rw [hremoved] at hunmarked
      cases hunmarked

/-- Under the condition two replicas agree. -/
theorem Settled.agree (h : Settled descriptors) (hhosts : FoldedHosts)
    (hkey : descriptorKey node = .ok key) (hbinding : identityBindingKey node = .ok binding)
    (hnode : ∀ descriptor ∈ descriptors, descriptor.node = node)
    (hcontent : ∀ a ∈ descriptors, ∀ b ∈ descriptors, a.revision = b.revision → a = b)
    (hs : Delivers node key binding descriptors s) (ht : Delivers node key binding descriptors t) :
    readDescriptor s.system.store.entries node = readDescriptor t.system.store.entries node := by
  obtain ⟨hsAbsorbed, hsKnown⟩ := hs.final hhosts hkey hbinding hnode
  obtain ⟨htAbsorbed, htKnown⟩ := ht.final hhosts hkey hbinding hnode
  cases hcases : descriptors with
  | nil =>
    -- Nothing is delivered, so nothing is stored.
    have hempty : ∀ {entries : Entries}, (∀ value, entries.get key = some value →
        ∃ current ∈ descriptors, decodeDescriptor value.asBytes = .ok current) →
        entries.get key = none := by
      intro entries hknown
      cases hstored : entries.get key with
      | none => rfl
      | some value =>
        obtain ⟨current, hmem, -⟩ := hknown value hstored
        rw [hcases] at hmem
        cases hmem
    rw [readDescriptor_of_none hkey (hempty hsKnown), readDescriptor_of_none hkey (hempty htKnown)]
  | cons first rest =>
    have hfirst : first ∈ descriptors := hcases ▸ List.mem_cons_self ..
    obtain ⟨value, current, hvalue, hcurrent, -⟩ := hsAbsorbed first hfirst
    obtain ⟨value', current', hvalue', hcurrent', -⟩ := htAbsorbed first hfirst
    obtain ⟨found, hmem, hfound⟩ := hsKnown value hvalue
    obtain ⟨found', hmem', hfound'⟩ := htKnown value' hvalue'
    have hle := h.highest hmem hvalue hfound hsAbsorbed found' hmem'
    have hge := h.highest hmem' hvalue' hfound' htAbsorbed found hmem
    have hsame : found = found' := hcontent found hmem found' hmem' (UInt64.le_antisymm hge hle)
    rw [readDescriptor_of_get hkey hvalue hfound, readDescriptor_of_get hkey hvalue' hfound', hsame]

/-! ## Runs that do not agree -/

/-- The engine has its namespace wherever descriptors have theirs: the host is the same. -/
theorem exists_internalNamespace (hkey : descriptorKey node = .ok key) :
    ∃ internal, internalNamespace = .ok internal := by
  obtain ⟨tag, htag, -⟩ := Result.bind_eq_ok.mp hkey
  have hslash : slash ∉ builtinDomain ∧ slash ∉ Bytes.utf8 "metadata" ∧
      slash ∉ Bytes.utf8 "node-descriptor-v1" ∧ slash ∉ Bytes.utf8 "receipt-internal-v1" := by
    decide
  obtain ⟨hhost, hcategory, hdescriptor, hreceipt⟩ := hslash
  have htext : nodeDescriptorNamespaceText = builtinDomain ++ slash :: (Bytes.utf8 "metadata" ++
      slash :: Bytes.utf8 "node-descriptor-v1") := by decide
  have hfields := QualifiedTag.asStr_of_parse htag
  rw [htext] at hfields
  obtain ⟨⟨d, c⟩, hvalidated, -⟩ := Result.bind_eq_ok.mp hfields
  obtain ⟨haccepted, -⟩ := (validateTag_eq_ok_iff hhost hcategory hdescriptor).mp hvalidated
  have hinternal : AcceptedComponents builtinDomain (Bytes.utf8 "metadata")
      (Bytes.utf8 "receipt-internal-v1") :=
    ⟨by decide, by decide, .of_all (by decide), haccepted.hostValid, haccepted.categoryValid,
      by decide, haccepted.unreserved⟩
  have hvalid := (validateTag_eq_ok_iff hhost hcategory hreceipt).mpr ⟨hinternal, rfl⟩
  have hparse : ∃ fields, parseTagFields internalNamespaceText = .ok fields := by
    have hinternalText : internalNamespaceText = builtinDomain ++ slash ::
        (Bytes.utf8 "metadata" ++ slash :: Bytes.utf8 "receipt-internal-v1") := by decide
    rw [hinternalText, parseTagFields, hvalid, Result.ok_bind]
    exact ⟨_, rfl⟩
  obtain ⟨⟨value, d, c⟩, hfields⟩ := hparse
  obtain ⟨internal, hparsed, -⟩ := QualifiedTag.parse_of_fields hfields
  exact ⟨internal, hparsed⟩

/-- A replica with the binding of the node and nothing else. -/
def boundReplica (binding : EntryKey) : ReferenceState :=
  ⟨0, SortedMap.empty.insert binding ⟨[]⟩, .empty⟩

/-- What is stored keeps a descriptor out. -/
theorem storeDescriptor_refused {existing : NodeDescriptor}
    (hkey : descriptorKey descriptor.node = .ok key) (hvalue : entries.get key = some value)
    (hdecode : decodeDescriptor value.asBytes = .ok existing)
    (h : descriptor.revision ≤ existing.revision ∨
      existing.removed = true ∧ descriptor.removed = false) :
    ∃ error, storeDescriptor descriptor entries = .ok (.answer error) := by
  simp only [storeDescriptor, hkey, Result.ok_bind, storeConflict, hvalue, hdecode]
  unfold descriptorConflict
  by_cases hrevision : descriptor.revision ≤ existing.revision
  · rw [if_pos hrevision]
    exact ⟨_, rfl⟩
  · obtain ⟨hremoved, hlive⟩ := h.resolve_left hrevision
    rw [if_neg hrevision, if_pos ⟨hremoved, by simp [hlive]⟩]
    exact ⟨_, rfl⟩

/-- A run in which one descriptor comes first and keeps the others out. -/
theorem exists_delivers (hhosts : FoldedHosts) (hkey : descriptorKey node = .ok key)
    (hbinding : identityBindingKey node = .ok binding)
    (hnode : ∀ descriptor ∈ descriptors, descriptor.node = node) {first : NodeDescriptor}
    (hfirst : first ∈ descriptors) {bytes : Bytes} (hbytes : first.encode = .ok bytes)
    (hrest : ∀ descriptor ∈ descriptors, descriptor.revision ≤ first.revision ∨
      first.removed = true ∧ descriptor.removed = false) :
    ∃ s, Delivers node key binding descriptors s ∧
      readDescriptor s.system.store.entries node = .ok (some first) := by
  obtain ⟨internal, hinternal⟩ := exists_internalNamespace hkey
  have hbindingText := (identityBindingKey_eq_ok hbinding).1
  have hkeyText := (descriptorKey_eq_ok hkey).1
  have hapart : key ≠ binding := by
    intro heq
    rw [heq, hbindingText] at hkeyText
    exact absurd hkeyText (by decide)
  have hmarker : (⟨internal, usedIdKey firstTransaction⟩ : EntryKey) ≠ binding := by
    intro heq
    rw [← heq, asStr_of_internalNamespace hinternal] at hbindingText
    exact absurd hbindingText (by decide)
  have hmarker' : (⟨internal, usedIdKey secondTransaction⟩ : EntryKey) ≠ binding := by
    intro heq
    rw [← heq, asStr_of_internalNamespace hinternal] at hbindingText
    exact absurd hbindingText (by decide)
  -- The first call finds nothing stored and the binding in place.
  have hempty : (boundReplica binding).entries.get key = none :=
    (SortedMap.get_insert_ne _ _ hapart).trans rfl
  have hbound : ((boundReplica binding).entries.get binding).isSome = true := by
    simp [boundReplica]
  have hdecide : storeDescriptor first (boundReplica binding).entries = .ok (.put key ⟨bytes⟩) := by
    simp only [storeDescriptor, hnode first hfirst, hkey, Result.ok_bind, storeConflict, hempty,
      firstConflict, hbinding, hbound, if_true, hbytes]
    split <;> rfl
  have hinit : (PageSystem.runs (descriptorCalls (· = node)) (boundReplica binding)).Reachable
      ⟨⟨boundReplica binding, []⟩, []⟩ := .init rfl
  obtain ⟨receipt, after, -, hinstalled, hdone⟩ := PageSystem.exists_put hinit
    (fun _ _ => List.not_mem_nil) trivial hinternal
    (⟨rfl, (SortedMap.get_insert_ne _ _ hmarker).trans rfl⟩ :
      PageSystem.Lacks (boundReplica binding) internal firstTransaction)
    (show 0 + 1 < 2 ^ 64 by decide) hdecide
  have hstored := hdone.put
  have hfresh : after.receipts.get secondTransaction = none :=
    (hdone.ids secondTransaction (by decide)
      ⟨rfl, (SortedMap.get_insert_ne _ _ hmarker').trans rfl⟩).1
  have hwritten := NodeDescriptor.decode_encode hhosts hbytes
  -- Every further call finds the first descriptor.
  obtain ⟨t, ht, hstore, hoperations, -, hdelivered⟩ := PageSystem.reach_answers hinstalled
    (PageSystem.Idle.finish (fun _ _ => List.not_mem_nil) after first (.installed receipt)) hfresh descriptors
    fun descriptor hmem => ⟨trivial, storeDescriptor_refused ((hnode descriptor hmem).symm ▸ hkey)
      hstored hwritten (hrest descriptor hmem)⟩
  refine ⟨t, ⟨boundReplica binding, hempty, hbound, ht, fun descriptor hmem _ => ?_,
    fun descriptor hmem => Or.inl (hdelivered descriptor hmem)⟩, ?_⟩
  · rw [hoperations] at hmem
    rcases List.mem_append.mp hmem with hbefore | hlisted
    · rw [List.mem_singleton.mp hbefore]
      exact hfirst
    · exact hlisted
  · rw [hstore]
    exact readDescriptor_of_get hkey hstored hwritten

/-- Among the descriptors of some kind there is one of the highest revision. -/
theorem exists_highest (p : NodeDescriptor → Bool) (h : ∃ d ∈ descriptors, p d = true) :
    ∃ d ∈ descriptors, p d = true ∧
      ∀ e ∈ descriptors, p e = true → e.revision ≤ d.revision := by
  obtain ⟨d, hd, hp⟩ := h
  have hmem : d ∈ descriptors.filter p := List.mem_filter.mpr ⟨hd, hp⟩
  cases hmax : (descriptors.filter p).argmax fun d => d.revision.toNat with
  | none =>
    rw [List.argmax_eq_none.mp hmax] at hmem
    cases hmem
  | some m =>
    obtain ⟨hm, hpm⟩ := List.mem_filter.mp (List.argmax_mem hmax)
    refine ⟨m, hm, hpm, fun e he hpe => ?_⟩
    have hle := List.le_of_mem_argmax (List.mem_filter.mpr ⟨he, hpe⟩) hmax
    exact UInt64.le_iff_toNat_le.mpr hle

/-- Without the condition two replicas come to disagree. -/
theorem exists_disagreement (hhosts : FoldedHosts) (hkey : descriptorKey node = .ok key)
    (hbinding : identityBindingKey node = .ok binding)
    (hnode : ∀ descriptor ∈ descriptors, descriptor.node = node)
    (hencode : ∀ descriptor ∈ descriptors, ∃ bytes, descriptor.encode = .ok bytes)
    (h : ¬ Settled descriptors) :
    ∃ s t, Delivers node key binding descriptors s ∧ Delivers node key binding descriptors t ∧
      readDescriptor s.system.store.entries node ≠ readDescriptor t.system.store.entries node := by
  obtain ⟨hremoved, hlater⟩ := not_or.mp h
  have hmarked : ∃ d ∈ descriptors, d.removed = true := by
    by_contra hnone
    refine hremoved fun d hd => ?_
    cases hflag : d.removed with
    | true => exact absurd ⟨d, hd, hflag⟩ hnone
    | false => rfl
  obtain ⟨marker, hmarker, hmarkerRemoved, hmarkerMax⟩ := exists_highest _ hmarked
  obtain ⟨latest, hlatest, -, hlatestMax⟩ :=
    exists_highest (fun _ => true) ⟨marker, hmarker, rfl⟩
  have hlive : latest.removed = false := by
    cases hflag : latest.removed with
    | true => exact absurd ⟨latest, hlatest, hflag, fun d hd => hlatestMax d hd rfl⟩ hlater
    | false => rfl
  obtain ⟨bytes, hbytes⟩ := hencode marker hmarker
  obtain ⟨bytes', hbytes'⟩ := hencode latest hlatest
  -- The marker first: it keeps out what is live, and what is not is no later.
  obtain ⟨s, hs, hsRead⟩ := exists_delivers hhosts hkey hbinding hnode hmarker hbytes
    fun d hd => by
      cases hflag : d.removed with
      | true => exact Or.inl (hmarkerMax d hd hflag)
      | false => exact Or.inr ⟨hmarkerRemoved, rfl⟩
  obtain ⟨t, ht, htRead⟩ := exists_delivers hhosts hkey hbinding hnode hlatest hbytes'
    fun d hd => Or.inl (hlatestMax d hd rfl)
  refine ⟨s, t, hs, ht, fun heq => ?_⟩
  rw [hsRead, htRead] at heq
  have hsame : marker = latest := Option.some.inj (Except.ok.inj heq)
  rw [hsame, hlive] at hmarkerRemoved
  cases hmarkerRemoved

/-- The order of delivery does not matter exactly if there is no removal marker or the
    descriptor of the highest revision is one. -/
theorem descriptors_converge_iff (hhosts : FoldedHosts) (hkey : descriptorKey node = .ok key)
    (hbinding : identityBindingKey node = .ok binding)
    (hnode : ∀ descriptor ∈ descriptors, descriptor.node = node)
    (hencode : ∀ descriptor ∈ descriptors, ∃ bytes, descriptor.encode = .ok bytes)
    (hcontent : ∀ a ∈ descriptors, ∀ b ∈ descriptors, a.revision = b.revision → a = b) :
    (∀ s t, Delivers node key binding descriptors s → Delivers node key binding descriptors t →
      readDescriptor s.system.store.entries node = readDescriptor t.system.store.entries node) ↔
    (∀ descriptor ∈ descriptors, descriptor.removed = false) ∨
      ∃ marker ∈ descriptors, marker.removed = true ∧
        ∀ descriptor ∈ descriptors, descriptor.revision ≤ marker.revision := by
  constructor
  · intro hagree
    by_contra hsettled
    obtain ⟨s, t, hs, ht, hne⟩ :=
      exists_disagreement hhosts hkey hbinding hnode hencode hsettled
    exact hne (hagree s t hs ht)
  · intro hsettled s t hs ht
    exact Settled.agree hsettled hhosts hkey hbinding hnode hcontent hs ht

end Replica

end Converge

/-! ## A removal and a return -/

private theorem exists_sampleBinding : ∃ binding,
    @identityBindingKey .hostNames sampleNode = .ok binding :=
  Result.exists_of_isSome_toOption (by decide)

/-- A descriptor and its removal are taken in either order. -/
theorem removal_converges :
    letI := DnsName.hostNames
    ∃ key binding, descriptorKey sampleNode = .ok key ∧
      identityBindingKey sampleNode = .ok binding ∧
      ∀ s t, Delivers sampleNode key binding
          [sampleDescriptor 1 false, sampleDescriptor 2 true] s →
        Delivers sampleNode key binding
          [sampleDescriptor 1 false, sampleDescriptor 2 true] t →
        readDescriptor s.system.store.entries sampleNode =
          readDescriptor t.system.store.entries sampleNode := by
  let _ := DnsName.hostNames
  obtain ⟨key, hkey⟩ := exists_sampleKey
  obtain ⟨binding, hbinding⟩ := exists_sampleBinding
  refine ⟨key, binding, hkey, hbinding, ?_⟩
  have hencode : ∀ d ∈ [sampleDescriptor 1 false, sampleDescriptor 2 true], ∃ bytes,
      d.encode = .ok bytes := by
    intro d hd
    exact exists_sampleBytes d (by simp at hd ⊢; tauto)
  refine (descriptors_converge_iff foldedHosts_hostNames hkey hbinding (by decide) hencode
    (by decide)).mpr (Or.inr ?_)
  exact ⟨sampleDescriptor 2 true, by simp, rfl, by decide⟩

/-- A removal and a later return are not: the replica that gets the removal first keeps it. -/
theorem return_diverges :
    letI := DnsName.hostNames
    ∃ key binding, descriptorKey sampleNode = .ok key ∧
      identityBindingKey sampleNode = .ok binding ∧
      ∃ s t, Delivers sampleNode key binding
          [sampleDescriptor 2 true, sampleDescriptor 3 false] s ∧
        Delivers sampleNode key binding
          [sampleDescriptor 2 true, sampleDescriptor 3 false] t ∧
        readDescriptor s.system.store.entries sampleNode ≠
          readDescriptor t.system.store.entries sampleNode := by
  let _ := DnsName.hostNames
  obtain ⟨key, hkey⟩ := exists_sampleKey
  obtain ⟨binding, hbinding⟩ := exists_sampleBinding
  refine ⟨key, binding, hkey, hbinding, ?_⟩
  have hencode : ∀ d ∈ [sampleDescriptor 2 true, sampleDescriptor 3 false], ∃ bytes,
      d.encode = .ok bytes := by
    intro d hd
    exact exists_sampleBytes d (List.mem_cons_of_mem _ hd)
  refine exists_disagreement foldedHosts_hostNames hkey hbinding (by decide) hencode ?_
  rintro (hlive | ⟨marker, hmarker, hremoved, hmax⟩)
  · exact absurd (hlive (sampleDescriptor 2 true) (by simp)) (by decide)
  · simp only [List.mem_cons, List.not_mem_nil, or_false] at hmarker
    rcases hmarker with rfl | rfl
    · exact absurd (hmax (sampleDescriptor 3 false) (by simp)) (by decide)
    · cases hremoved

end Radiata
