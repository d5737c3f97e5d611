import Radiata.Spec.EngineInvariant

/-!
# The reference index along a run

In every state a run reaches, the head record of a receipt counts its edges, an
anchor stands only where there is neither head nor edge, and only an active
receipt has any of them. So the audit of the index never fails.

## Key results

- `referenceIndex_consistent`
-/

namespace Radiata

section

variable [DnsName]

/-! ## The invariant of one receipt -/

/-- Head, anchor, marker and edges of the receipt `t` agree. -/
structure IndexAgrees (internal : StoreNamespace) (m : Entries) (t : TransactionId) : Prop where
  head_none : m.get (record internal t .head) = none → edgeCount internal m t = 0
  head_some : ∀ value, m.get (record internal t .head) = some value →
    ∃ count, decodeReferenceCount value = .ok count ∧ count.toNat = edgeCount internal m t
  anchor : m.get (record internal t .anchor) ≠ none → m.get (record internal t .head) = none
  active : m.get (record internal t .head) ≠ none ∨ m.get (record internal t .anchor) ≠ none →
    MarkerActive internal m t

namespace IndexAgrees

variable {internal : StoreNamespace} {m m' : Entries} {t : TransactionId}

/-- A receipt without an active marker has no head, no anchor and no edge. -/
theorem of_not_active (h : IndexAgrees internal m t) (hmarker : ¬ MarkerActive internal m t) :
    m.get (record internal t .head) = none ∧ m.get (record internal t .anchor) = none ∧
      edgeCount internal m t = 0 := by
  have hhead : m.get (record internal t .head) = none := by
    by_contra hne
    exact hmarker (h.active (.inl hne))
  have hanchor : m.get (record internal t .anchor) = none := by
    by_contra hne
    exact hmarker (h.active (.inr hne))
  exact ⟨hhead, hanchor, h.head_none hhead⟩

/-- A receipt with an edge has a head and no anchor. -/
theorem of_edge (h : IndexAgrees internal m t) (hedges : edgeCount internal m t ≠ 0) :
    m.get (record internal t .head) ≠ none ∧ m.get (record internal t .anchor) = none := by
  have hhead : m.get (record internal t .head) ≠ none := fun hnone => hedges (h.head_none hnone)
  refine ⟨hhead, ?_⟩
  by_contra hne
  exact hhead (h.anchor hne)

/-- An index with a fresh head and no anchor agrees. -/
theorem of_count {count : UInt64} (hmarker : MarkerActive internal m t)
    (hhead : m.get (record internal t .head) = some (encodeReferenceCount count))
    (hanchor : m.get (record internal t .anchor) = none) (hpositive : 0 < count.toNat)
    (hedges : edgeCount internal m t = count.toNat) : IndexAgrees internal m t := by
  have hcount : count ≠ 0 := by
    rintro rfl
    exact absurd hpositive (by decide)
  refine ⟨?_, ?_, fun hne => absurd hanchor hne, fun _ => hmarker⟩
  · intro hnone
    rw [hhead] at hnone
    cases hnone
  · intro value hvalue
    rw [hhead] at hvalue
    cases hvalue
    exact ⟨count, decodeReferenceCount_encode hcount, hedges.symm⟩

/-- An index without head and edges agrees if the receipt is active or has no anchor. -/
theorem of_empty (hhead : m.get (record internal t .head) = none)
    (hedges : edgeCount internal m t = 0)
    (hactive : m.get (record internal t .anchor) ≠ none → MarkerActive internal m t) :
    IndexAgrees internal m t := by
  refine ⟨fun _ => hedges, ?_, fun _ => hhead, ?_⟩
  · intro value hvalue
    rw [hhead] at hvalue
    cases hvalue
  · rintro (hne | hne)
    · exact absurd hhead hne
    · exact hactive hne

/-- The same head, anchor and edges under a marker that stays active. -/
theorem of_same (h : IndexAgrees internal m t)
    (hhead : m'.get (record internal t .head) = m.get (record internal t .head))
    (hanchor : m'.get (record internal t .anchor) = m.get (record internal t .anchor))
    (hedges : edgeCount internal m' t = edgeCount internal m t)
    (hmarker : MarkerActive internal m t → MarkerActive internal m' t) :
    IndexAgrees internal m' t := by
  refine ⟨?_, ?_, ?_, ?_⟩
  · rw [hhead, hedges]
    exact h.head_none
  · rw [hhead, hedges]
    exact h.head_some
  · rw [hhead, hanchor]
    exact h.anchor
  · rw [hhead, hanchor]
    exact fun hne => hmarker (h.active hne)

/-- Every change of a receipt keeps its index. -/
theorem change {cleanup : Option Cleanup} {id : TransactionId} (h : IndexAgrees internal m t)
    (hchange : RecordChange internal m m' cleanup id t) : IndexAgrees internal m' t := by
  have hfree : m.get (record internal t .marker) = none → ¬ MarkerActive internal m t := by
    intro hnone hactive
    rw [MarkerActive, hnone] at hactive
    cases hactive
  cases hchange with
  | untouched hid hsame hedges =>
    refine h.of_same (hsame .head) (hsame .anchor) hedges ?_
    rw [MarkerActive, MarkerActive, hsame .marker]
    exact fun hactive => hactive
  | created hid hfresh hmarker hsame hedges =>
    exact h.of_same (hsame .head (by simp)) (hsame .anchor (by simp)) hedges (fun _ => hmarker)
  | selfReferenced count hid hfresh hmarker hhead hanchor hpositive hedges =>
    obtain ⟨-, hnone, hzero⟩ := h.of_not_active (hfree hfresh)
    exact of_count hmarker hhead (hanchor.trans hnone) hpositive (by omega)
  | added count hid hactive hmarker hhead hanchor hpositive hedges =>
    exact of_count hmarker hhead hanchor hpositive hedges
  | removed count hid hactive hmarker hbefore hhead hanchor hedges hnone =>
    have hnoAnchor := hanchor.trans (h.of_edge hbefore).2
    by_cases hzero : count = 0
    · subst hzero
      exact of_empty (hhead.trans (if_pos rfl)) hedges (fun hne => absurd hnoAnchor hne)
    · refine of_count hmarker (hhead.trans (if_neg hzero)) hnoAnchor ?_ hedges
      exact Nat.pos_of_ne_zero (fun heq => hzero (UInt64.toNat_inj.mp heq))
  | anchored retention now hid hclock hactive hanchor hhead hsame hbefore hedges =>
    refine of_empty ((hsame .head (by simp)).trans hhead) hedges ?_
    intro _
    rw [MarkerActive, hsame .marker (by simp)]
    exact hactive
  | forgotten anchor retention now anchoredAt hid hclock hactive hmarker hhead hbefore hanchor
      hsame hnone hedges hanchored hdue =>
    exact of_empty ((hsame .head (by simp) (by simp)).trans hhead) hedges
      (fun hne => absurd hanchor hne)

end IndexAgrees

/-! ## Records of the internal namespace -/

/-- Every entry of the internal namespace is a record, and edges are empty. -/
def EntriesFormed (internal : StoreNamespace) (m : Entries) : Prop :=
  ∀ key value, m.get ⟨internal, key⟩ = some value →
    ∃ t kind, key = RecordKind.key t kind ∧ ((∃ token, kind = .edge token) → value = ⟨[]⟩)

variable {internal : StoreNamespace}

/-- Planned operations put only records into the internal namespace. -/
theorem Profile.formed {m : Entries} {cleanup : Option Cleanup} {id t : TransactionId}
    {planned : List StoreOperation} (h : Profile internal m cleanup id t planned)
    {op : StoreOperation} (hop : op ∈ planned) :
    Formed internal op := by
  obtain ⟨front, piece, back, rfl, hpiece, havoids⟩ := h
  simp only [List.mem_append] at hop
  rcases hop with (hop | hop) | hop
  · exact (havoids op (by simp [hop])).formed
  · rcases hpiece with rfl | hpiece
    · cases hop
    · exact hpiece.formed hop
  · exact (havoids op (by simp [hop])).formed

theorem EntriesFormed.applyOperation {m : Entries} {op : StoreOperation}
    (h : EntriesFormed internal m) (hop : Formed internal op) :
    EntriesFormed internal (applyOperation m op) := by
  intro key value hvalue
  rw [get_applyOperation] at hvalue
  cases op with
  | check _ _ _ => exact h key value hvalue
  | forgetReceipt _ _ => exact h key value hvalue
  | put namespaceTag key' expected value' =>
    simp only [StoreOperation.written] at hvalue
    split at hvalue
    · rename_i heq
      cases heq
      cases hvalue
      exact hop rfl
    · exact h key value hvalue
  | delete namespaceTag key' expected =>
    simp only [StoreOperation.written] at hvalue
    split at hvalue
    · cases hvalue
    · exact h key value hvalue

theorem EntriesFormed.applyOperations {m : Entries} {ops : List StoreOperation}
    (h : EntriesFormed internal m) (hops : ∀ op ∈ ops, Formed internal op) :
    EntriesFormed internal (ops.foldl Radiata.applyOperation m) := by
  induction ops generalizing m with
  | nil => exact h
  | cons op ops ih =>
    exact ih (h.applyOperation (hops op (List.mem_cons_self ..)))
      (fun o ho => hops o (List.mem_cons_of_mem op ho))

/-! ## Runs -/

/-- The entries of a reachable store. -/
structure IndexInv (internal : StoreNamespace) (m : Entries) : Prop where
  agrees : ∀ t, IndexAgrees internal m t
  formed : EntriesFormed internal m

theorem indexInv_of_fresh (internal : StoreNamespace) (generation : UInt64) :
    IndexInv internal (ReferenceState.fresh generation).entries := by
  have hget : ∀ k, (ReferenceState.fresh generation).entries.get k = none := SortedMap.get_empty
  refine ⟨?_, ?_⟩
  · intro t
    exact .of_empty (hget _) (SortedMap.countKeys_empty _) (fun hne => absurd (hget _) hne)
  · intro key value hvalue
    rw [hget] at hvalue
    cases hvalue

theorem CommitRecord.AppliedAs.indexInv {r : CommitRecord} {planned : List StoreOperation}
    (h : r.AppliedAs internal planned) (hinv : IndexInv internal r.before.entries) :
    IndexInv internal r.after.entries := by
  refine ⟨fun t => (hinv.agrees t).change (h.change t), ?_⟩
  rw [h.entries, h.operations]
  refine hinv.formed.applyOperations ?_
  intro op hop
  rcases List.mem_append.mp hop with hop | hop
  · exact (h.profile r.id).formed hop
  · rw [List.mem_singleton.mp hop]
    exact fun _ => ⟨r.id, .marker, rfl, by simp⟩

theorem indexInv_of_reachable (hns : internalNamespace = .ok internal) {s : Engine}
    (h : Engine.system.Reachable s) : IndexInv internal s.store.entries := by
  refine h.invariant (P := fun s => IndexInv internal s.store.entries) ?_ ?_
  · rintro s ⟨⟨generation, hstore⟩, -⟩
    rw [hstore]
    exact indexInv_of_fresh internal generation
  · intro s t hs hinv hstep
    rcases Engine.step_cases (Engine.inv_of_reachable hs) hstep with
      ⟨hstore, -⟩ | ⟨r, -, hbefore, hafter, -, -, hrecord⟩
    · rw [hstore]
      exact hinv
    · rw [← hbefore] at hinv
      rw [hafter]
      rcases (hrecord internal hns).2 with hsame | ⟨-, planned, happlied⟩
      · rw [hsame]
        exact hinv
      · exact happlied.indexInv hinv

/-! ## The audit -/

theorem edgeCount_eq_zero_iff {m : Entries} {t : TransactionId} :
    edgeCount internal m t = 0 ↔ ∀ token, m.get (record internal t (.edge token)) = none := by
  rw [edgeCount, SortedMap.countKeys_eq_zero_iff]
  constructor
  · intro h token
    rw [Option.eq_none_iff_forall_ne_some]
    intro edge hedge
    exact absurd (h _ edge hedge) (by simp [isEdge_edge])
  · intro h k v hv
    cases hk : isEdge internal t k with
    | false => rfl
    | true =>
      obtain ⟨token, rfl⟩ := isEdge_iff.mp hk
      rw [h token] at hv
      cases hv

/-- The audit succeeds on a consistent index, with the stored anchor or with none. -/
theorem IndexInv.audit {snapshot : StoreSnapshot} (h : IndexInv internal snapshot.entries)
    (t : TransactionId) {anchor : Option StoreValue}
    (hanchor : anchor = snapshot.get internal (eligibilityAnchorKey t) ∨ anchor = none) :
    ∃ count, auditReferenceIndex snapshot internal t (snapshot.get internal (referenceHeadKey t))
      anchor = .ok count := by
  have hagrees := h.agrees t
  refine auditReferenceIndex_of_agree ?_ hagrees.head_none hagrees.head_some ?_
  · intro e he
    obtain ⟨hget, hns, hpre⟩ := mem_scan.mp he
    rw [hns] at hget
    obtain ⟨t', kind, hkey, hvalue⟩ := h.formed e.key e.value hget
    rw [hkey] at hpre
    obtain ⟨rfl, token, rfl⟩ := RecordKind.edge_of_prefix hpre
    refine ⟨?_, by rw [hvalue ⟨token, rfl⟩]⟩
    rw [hkey]
    exact length_referenceEdgeKey t' token
  · intro hne
    rcases hanchor with rfl | rfl
    · exact hagrees.head_none (hagrees.anchor hne)
    · exact absurd rfl hne

/-- In every reachable state the reference index of every receipt is consistent, and
    its audit succeeds. -/
theorem referenceIndex_consistent {internal : StoreNamespace}
    (hns : internalNamespace = .ok internal) {s : Engine} (h : Engine.system.Reachable s)
    (t : TransactionId) :
    ((∃ head, s.store.entries.get (record internal t .head) = some head) ↔
      ∃ token edge, s.store.entries.get (record internal t (.edge token)) = some edge) ∧
    (∀ head, s.store.entries.get (record internal t .head) = some head →
      ∃ count, decodeReferenceCount head = .ok count ∧
        count.toNat = edgeCount internal s.store.entries t) ∧
    ((∃ anchor, s.store.entries.get (record internal t .anchor) = some anchor) →
      s.store.entries.get (record internal t .head) = none ∧
        ∀ token, s.store.entries.get (record internal t (.edge token)) = none) ∧
    ((∃ kind value, kind ≠ .marker ∧ s.store.entries.get (record internal t kind) = some value) →
      MarkerActive internal s.store.entries t) ∧
    ∀ anchor, anchor = s.store.snapshot.get internal (eligibilityAnchorKey t) ∨ anchor = none →
      ∃ count, auditReferenceIndex s.store.snapshot internal t
        (s.store.snapshot.get internal (referenceHeadKey t)) anchor = .ok count := by
  have hinv := indexInv_of_reachable hns h
  have hagrees := hinv.agrees t
  have hhead : (∃ token edge, s.store.entries.get (record internal t (.edge token)) = some edge) →
      s.store.entries.get (record internal t .head) ≠ none := by
    rintro ⟨token, edge, hedge⟩
    refine (hagrees.of_edge ?_).1
    intro hzero
    rw [edgeCount_eq_zero_iff.mp hzero token] at hedge
    cases hedge
  refine ⟨⟨?_, ?_⟩, hagrees.head_some, ?_, ?_, fun anchor hanchor => hinv.audit t hanchor⟩
  · rintro ⟨head, hsome⟩
    obtain ⟨count, hdecode, hcount⟩ := hagrees.head_some head hsome
    by_contra hnone
    have hzero : edgeCount internal s.store.entries t = 0 := by
      rw [edgeCount_eq_zero_iff]
      intro token
      rw [Option.eq_none_iff_forall_ne_some]
      exact fun edge hedge => hnone ⟨token, edge, hedge⟩
    rw [hzero] at hcount
    exact decodeReferenceCount_ne_zero hdecode (UInt64.toNat_inj.mp hcount)
  · exact fun hedge => Option.ne_none_iff_exists'.mp (hhead hedge)
  · rintro ⟨anchor, hanchor⟩
    have hnone := hagrees.anchor (by rw [hanchor]; simp)
    exact ⟨hnone, edgeCount_eq_zero_iff.mp (hagrees.head_none hnone)⟩
  · rintro ⟨kind, value, hkind, hvalue⟩
    cases kind with
    | marker => exact absurd rfl hkind
    | head => exact hagrees.active (.inl (by rw [hvalue]; simp))
    | anchor => exact hagrees.active (.inr (by rw [hvalue]; simp))
    | edge token => exact hagrees.active (.inl (hhead ⟨token, value, hvalue⟩))

end

/-- A transaction that references its own receipt. -/
def selfReferenceRun : @Engine .hostNames :=
  letI := DnsName.hostNames
  Engine.run [.prepareTransactionWithReceiptChanges default [] [.addSelf [default]]]

theorem referenceIndex_consistent_selfReferenceRun :
    letI := DnsName.hostNames
    selfReferenceRun.log.length = 1 ∧
    ∃ internal, internalNamespace = .ok internal ∧
      ((∃ head, selfReferenceRun.store.entries.get (record internal default .head) = some head) ↔
        ∃ token edge,
          selfReferenceRun.store.entries.get (record internal default (.edge token)) = some edge) := by
  let _ := DnsName.hostNames
  obtain ⟨internal, hns⟩ := exists_internalNamespace_hostNames
  refine ⟨by decide +kernel, internal, hns, ?_⟩
  have hreachable : Engine.system.Reachable selfReferenceRun := Engine.reachable_run _
  exact (referenceIndex_consistent hns hreachable default).1

end Radiata
