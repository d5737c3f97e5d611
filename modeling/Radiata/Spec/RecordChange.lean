import Radiata.Spec.EngineBuilders

/-!
# What a committed transaction does to a receipt

`RecordChange` is the abstract step of one receipt's records: seven cases over
the marker, the head, the anchor and the edges. Every transaction a builder
submits makes one of these changes to every receipt, so each property of the
receipt engine is a case analysis over `RecordChange`.

## Key results

- `RecordChange.of_profile`
-/

namespace Radiata

variable [DnsName]

/-- What a transaction `id` does to the records of the receipt `t`. -/
inductive RecordChange (internal : StoreNamespace) (m m' : Entries) (cleanup : Option Cleanup)
    (id t : TransactionId) : Prop where
  | untouched (hid : t ≠ id)
      (hsame : ∀ kind, m'.get (record internal t kind) = m.get (record internal t kind))
      (hedges : edgeCount internal m' t = edgeCount internal m t)
  | created (hid : t = id) (hfresh : m.get (record internal t .marker) = none)
      (hmarker : MarkerActive internal m' t)
      (hsame : ∀ kind, kind ≠ .marker →
        m'.get (record internal t kind) = m.get (record internal t kind))
      (hedges : edgeCount internal m' t = edgeCount internal m t)
  | selfReferenced (count : UInt64) (hid : t = id)
      (hfresh : m.get (record internal t .marker) = none) (hmarker : MarkerActive internal m' t)
      (hhead : m'.get (record internal t .head) = some (encodeReferenceCount count))
      (hanchor : m'.get (record internal t .anchor) = m.get (record internal t .anchor))
      (hpositive : 0 < count.toNat)
      (hedges : edgeCount internal m' t = edgeCount internal m t + count.toNat)
  | added (count : UInt64) (hid : t ≠ id) (hactive : MarkerActive internal m t)
      (hmarker : MarkerActive internal m' t)
      (hhead : m'.get (record internal t .head) = some (encodeReferenceCount count))
      (hanchor : m'.get (record internal t .anchor) = none)
      (hpositive : 0 < count.toNat) (hedges : edgeCount internal m' t = count.toNat)
  | removed (count : UInt64) (hid : t ≠ id) (hactive : MarkerActive internal m t)
      (hmarker : MarkerActive internal m' t)
      (hbefore : edgeCount internal m t ≠ 0)
      (hhead : m'.get (record internal t .head) =
        if count = 0 then none else some (encodeReferenceCount count))
      (hanchor : m'.get (record internal t .anchor) = m.get (record internal t .anchor))
      (hedges : edgeCount internal m' t = count.toNat)
      (hnone : ∀ token, m.get (record internal t (.edge token)) = none →
        m'.get (record internal t (.edge token)) = none)
  | anchored (retention : Duration) (now : SystemTime) (hid : t ≠ id)
      (hclock : cleanup = some ⟨t, retention, now⟩) (hactive : MarkerActive internal m t)
      (hanchor : m'.get (record internal t .anchor) = some ⟨encodeWallTime now⟩)
      (hhead : m.get (record internal t .head) = none)
      (hsame : ∀ kind, kind ≠ .anchor →
        m'.get (record internal t kind) = m.get (record internal t kind))
      (hbefore : edgeCount internal m t = 0)
      (hedges : edgeCount internal m' t = 0)
  | forgotten (anchor : StoreValue) (retention : Duration) (now anchoredAt : SystemTime)
      (hid : t ≠ id) (hclock : cleanup = some ⟨t, retention, now⟩)
      (hactive : MarkerActive internal m t)
      (hmarker : m'.get (record internal t .marker) = some (markerValue forgottenMarkerValue))
      (hhead : m.get (record internal t .head) = none)
      (hbefore : m.get (record internal t .anchor) = some anchor)
      (hanchor : m'.get (record internal t .anchor) = none)
      (hsame : ∀ kind, kind ≠ .marker → kind ≠ .anchor →
        m'.get (record internal t kind) = m.get (record internal t kind))
      (hnone : edgeCount internal m t = 0) (hedges : edgeCount internal m' t = 0)
      (hanchored : decodeWallTime anchor.asBytes = .ok anchoredAt)
      (hdue : anchoredAt.nanos + retention.nanos ≤ now.nanos)

/-! ## Operations of a piece -/

variable {internal : StoreNamespace} {t : TransactionId} {op : StoreOperation}

theorem Avoids.written (h : Avoids internal t op) (kind : RecordKind) :
    op.written (record internal t kind) = none := by
  cases hw : op.written (record internal t kind) with
  | none => rfl
  | some w => exact absurd (StoreOperation.identity_of_written hw) (h.records kind)

theorem Avoids.addsKey (h : Avoids internal t op) : op.addsKey (isEdge internal t) = false := by
  cases hadds : op.addsKey (isEdge internal t) with
  | false => rfl
  | true =>
    cases op with
    | put namespaceTag key expected value =>
      cases expected with
      | exact digest => cases hadds
      | absent =>
        obtain ⟨token, htoken⟩ := isEdge_iff.mp hadds
        exact absurd (congrArg StoreOperationIdentity.key htoken) (h.records (.edge token))
    | _ => cases hadds

theorem Avoids.removesKey (h : Avoids internal t op) :
    op.removesKey (isEdge internal t) = false := by
  cases hremoves : op.removesKey (isEdge internal t) with
  | false => rfl
  | true =>
    cases op with
    | delete namespaceTag key expected =>
      obtain ⟨token, htoken⟩ := isEdge_iff.mp hremoves
      exact absurd (congrArg StoreOperationIdentity.key htoken) (h.records (.edge token))
    | _ => cases hremoves

theorem isEdge_of_ne_edge (internal : StoreNamespace) (t : TransactionId) {kind : RecordKind}
    (h : ∀ token, kind ≠ .edge token) : isEdge internal t (record internal t kind) = false := by
  cases hedge : isEdge internal t (record internal t kind) with
  | false => rfl
  | true =>
    obtain ⟨-, token, htoken⟩ := isEdge_record hedge
    exact absurd htoken (h token)

/-- A put of a record that is not an edge adds no edge. -/
theorem addsKey_put (internal : StoreNamespace) (t : TransactionId) (kind : RecordKind)
    (expected : StoreExpectation) (value : StoreValue) (h : ∀ token, kind ≠ .edge token) :
    StoreOperation.addsKey (isEdge internal t) (.put internal (kind.key t) expected value)
      = false := by
  cases expected with
  | absent => exact isEdge_of_ne_edge internal t h
  | exact digest => rfl

/-- A delete of a record that is not an edge removes no edge. -/
theorem removesKey_delete (internal : StoreNamespace) (t : TransactionId) (kind : RecordKind)
    (expected : Digest) (h : ∀ token, kind ≠ .edge token) :
    StoreOperation.removesKey (isEdge internal t) (.delete internal (kind.key t) expected)
      = false :=
  isEdge_of_ne_edge internal t h

theorem countP_putEdge (internal : StoreNamespace) (t : TransactionId)
    (tokens : List ReceiptReferenceToken) :
    (tokens.map (putEdge internal t)).countP (·.addsKey (isEdge internal t)) = tokens.length ∧
      (tokens.map (putEdge internal t)).countP (·.removesKey (isEdge internal t)) = 0 := by
  rw [List.countP_map, List.countP_map, List.countP_eq_length, List.countP_eq_zero]
  exact ⟨fun token _ => isEdge_edge internal t token, fun _ _ => Bool.false_ne_true⟩

theorem countP_deleteEdge (internal : StoreNamespace) (t : TransactionId)
    (edges : List (ReceiptReferenceToken × Digest)) :
    (edges.map (deleteEdge internal t)).countP (·.addsKey (isEdge internal t)) = 0 ∧
      (edges.map (deleteEdge internal t)).countP (·.removesKey (isEdge internal t))
        = edges.length := by
  rw [List.countP_map, List.countP_map, List.countP_eq_length, List.countP_eq_zero]
  exact ⟨fun _ _ => Bool.false_ne_true, fun edge _ => isEdge_edge internal t edge.1⟩

/-! ## Accepted transactions -/

/-- The operations of an accepted transaction: `front` and `back` avoid the receipt
    `t`, `piece` is about it, and the marker put ends the list. -/
structure Accepted (internal : StoreNamespace) (m : Entries) (r : Receipts)
    (id t : TransactionId) (front piece back : List StoreOperation) : Prop where
  nodup : ((front ++ piece ++ back ++ [putMarker internal id]).map StoreOperation.identity).Nodup
  conditions : ∀ op ∈ front ++ piece ++ back ++ [putMarker internal id],
    conditionMatches m r op = true
  avoids : ∀ op ∈ front ++ back, Avoids internal t op

namespace Accepted

variable {internal : StoreNamespace} {m : Entries} {r : Receipts} {id t : TransactionId}
  {front piece back : List StoreOperation}

theorem marker_absent (h : Accepted internal m r id t front piece back) :
    m.get (record internal id .marker) = none :=
  conditionMatches_put_absent.mp (h.conditions (putMarker internal id) (by simp))

theorem marker_after (h : Accepted internal m r id t front piece back) :
    MarkerActive internal
      ((front ++ piece ++ back ++ [putMarker internal id]).foldl applyOperation m) id := by
  have hmem : putMarker internal id ∈ front ++ piece ++ back ++ [putMarker internal id] := by simp
  exact get_applyOperations_of_written m h.nodup hmem (if_pos rfl)

/-- An active receipt is not the transaction itself. -/
theorem ne_of_active (h : Accepted internal m r id t front piece back)
    (hactive : MarkerActive internal m t) : t ≠ id := by
  rintro rfl
  rw [MarkerActive, h.marker_absent] at hactive
  cases hactive

/-- A record some operation of the piece writes. -/
theorem get_of_mem (h : Accepted internal m r id t front piece back) (op : StoreOperation)
    (hop : op ∈ piece) {k : EntryKey} {w : Option StoreValue} (hw : op.written k = some w) :
    ((front ++ piece ++ back ++ [putMarker internal id]).foldl applyOperation m).get k = w :=
  get_applyOperations_of_written m h.nodup (by simp [hop]) hw

/-- A record no operation of the piece writes. -/
theorem get_of_not_written (h : Accepted internal m r id t front piece back) {kind : RecordKind}
    (hkind : t ≠ id ∨ kind ≠ .marker)
    (hpiece : ∀ op ∈ piece, op.written (record internal t kind) = none) :
    ((front ++ piece ++ back ++ [putMarker internal id]).foldl applyOperation m).get
      (record internal t kind) = m.get (record internal t kind) := by
  refine get_applyOperations_of_not_written m ?_
  intro op hop
  simp only [List.mem_append, List.mem_singleton] at hop
  rcases hop with ((hop | hop) | hop) | rfl
  · exact (h.avoids op (by simp [hop])).written kind
  · exact hpiece op hop
  · exact (h.avoids op (by simp [hop])).written kind
  · refine if_neg ?_
    intro heq
    have hrecord : record internal t kind = record internal id .marker := heq
    obtain ⟨ht, hmarker⟩ := record_inj hrecord
    exact hkind.elim (fun hne => hne ht) (fun hne => hne hmarker)

/-- The number of edges changes by what the piece adds and removes. -/
theorem edgeCount_eq (h : Accepted internal m r id t front piece back) :
    edgeCount internal
        ((front ++ piece ++ back ++ [putMarker internal id]).foldl applyOperation m) t
        + piece.countP (·.removesKey (isEdge internal t)) =
      edgeCount internal m t + piece.countP (·.addsKey (isEdge internal t)) := by
  have hcount := countKeys_applyOperations (isEdge internal t) h.nodup h.conditions
  have hmarkerAdds : (putMarker internal id).addsKey (isEdge internal t) = false := by
    cases hedge : isEdge internal t (record internal id .marker) with
    | false => exact hedge
    | true =>
      obtain ⟨-, token, htoken⟩ := isEdge_record hedge
      cases htoken
  have hmarkerRemoves : (putMarker internal id).removesKey (isEdge internal t) = false := rfl
  have hzero : ∀ ops : List StoreOperation, (∀ op ∈ ops, Avoids internal t op) →
      ops.countP (·.addsKey (isEdge internal t)) = 0 ∧
        ops.countP (·.removesKey (isEdge internal t)) = 0 := by
    intro ops havoids
    rw [List.countP_eq_zero, List.countP_eq_zero]
    exact ⟨fun op hop => by simp [(havoids op hop).addsKey],
      fun op hop => by simp [(havoids op hop).removesKey]⟩
  obtain ⟨hfrontAdds, hfrontRemoves⟩ := hzero front (fun op hop => h.avoids op (by simp [hop]))
  obtain ⟨hbackAdds, hbackRemoves⟩ := hzero back (fun op hop => h.avoids op (by simp [hop]))
  simp only [List.countP_append, List.countP_singleton, hfrontAdds, hfrontRemoves, hbackAdds,
    hbackRemoves, hmarkerAdds, hmarkerRemoves, Bool.false_eq_true, if_false, Nat.zero_add,
    Nat.add_zero] at hcount
  exact hcount

end Accepted

section Change

variable {internal : StoreNamespace} {m : Entries} {r : Receipts} {cleanup : Option Cleanup}
  {id t : TransactionId} {front back : List StoreOperation}

variable {expected : StoreExpectation}

/-- A put or delete of one record leaves the records of other kinds. -/
private theorem written_put_ne (kind : RecordKind) {kind' : RecordKind} {value : StoreValue}
    (h : kind' ≠ kind) :
    (StoreOperation.put internal (kind.key t) expected value).written (record internal t kind')
      = none :=
  if_neg (fun heq => h (record_inj heq).2)

private theorem written_delete_ne (kind : RecordKind) {kind' : RecordKind} {expected : Digest}
    (h : kind' ≠ kind) :
    (StoreOperation.delete internal (kind.key t) expected).written (record internal t kind')
      = none :=
  if_neg (fun heq => h (record_inj heq).2)

private theorem RecordChange.of_none (h : Accepted internal m r id t front [] back) :
    RecordChange internal m
      ((front ++ [] ++ back ++ [putMarker internal id]).foldl applyOperation m) cleanup id t := by
  have hedges := h.edgeCount_eq
  simp only [List.countP_nil, Nat.add_zero] at hedges
  by_cases hid : t = id
  · subst hid
    exact .created rfl h.marker_absent h.marker_after
      (fun kind hkind => h.get_of_not_written (.inr hkind) (by simp)) hedges
  · exact .untouched hid (fun kind => h.get_of_not_written (.inl hid) (by simp)) hedges

/-- The head records of a piece add and remove no edge. -/
private theorem addsKey_putHead (expected : StoreExpectation) (value : StoreValue) :
    StoreOperation.addsKey (isEdge internal t)
      (.put internal (referenceHeadKey t) expected value) = false :=
  addsKey_put internal t .head expected value (by simp)

private theorem removesKey_deleteHead (digest : Digest) :
    StoreOperation.removesKey (isEdge internal t)
      (.delete internal (referenceHeadKey t) digest) = false :=
  removesKey_delete internal t .head digest (by simp)

private theorem removesKey_deleteAnchor (digest : Digest) :
    StoreOperation.removesKey (isEdge internal t)
      (.delete internal (eligibilityAnchorKey t) digest) = false :=
  removesKey_delete internal t .anchor digest (by simp)

variable {tokens : List ReceiptReferenceToken}

private theorem RecordChange.of_selfReference {additional : UInt64} (hself : t = id)
    (htokens : tokens ≠ []) (hcount : additional.toNat = tokens.length)
    (h : Accepted internal m r id t front
      (.put internal (referenceHeadKey t) .absent (encodeReferenceCount additional) ::
        tokens.map (putEdge internal t)) back) :
    RecordChange internal m
      ((front ++ (.put internal (referenceHeadKey t) .absent (encodeReferenceCount additional) ::
        tokens.map (putEdge internal t)) ++ back ++ [putMarker internal id]).foldl
        applyOperation m) cleanup id t := by
  subst hself
  have hedges := h.edgeCount_eq
  rw [List.countP_cons, List.countP_cons, (countP_putEdge internal t tokens).1,
    (countP_putEdge internal t tokens).2, addsKey_putHead] at hedges
  simp only [StoreOperation.removesKey, Bool.false_eq_true, if_false, Nat.add_zero] at hedges
  refine .selfReferenced additional rfl h.marker_absent h.marker_after ?_ ?_ ?_ ?_
  · exact h.get_of_mem _ (List.mem_cons_self ..) (if_pos rfl)
  · refine h.get_of_not_written (.inr (by simp)) ?_
    intro op hop
    rcases List.mem_cons.mp hop with rfl | hop
    · exact written_put_ne .head (by simp)
    · obtain ⟨token, -, rfl⟩ := List.mem_map.mp hop
      exact written_put_ne (.edge token) (by simp)
  · rw [hcount]
    exact List.length_pos_of_ne_nil htokens
  · rw [hcount]
    exact hedges

variable {piece : List StoreOperation}

private theorem RecordChange.of_add {next : UInt64} (hactive : MarkerActive internal m t)
    (htokens : tokens ≠ []) (hcount : next.toNat = edgeCount internal m t + tokens.length)
    (hpiece : piece = .put internal (referenceHeadKey t) expected (encodeReferenceCount next) ::
      tokens.map (putEdge internal t) ++ ((m.get (record internal t .anchor)).map fun anchor =>
        StoreOperation.delete internal (eligibilityAnchorKey t) anchor.digest).toList)
    (h : Accepted internal m r id t front piece back) :
    RecordChange internal m
      ((front ++ piece ++ back ++ [putMarker internal id]).foldl applyOperation m)
      cleanup id t := by
  have hid := h.ne_of_active hactive
  have hedges := h.edgeCount_eq
  have hadds : piece.countP (·.addsKey (isEdge internal t)) = tokens.length := by
    rw [hpiece, List.countP_append, List.countP_cons, (countP_putEdge internal t tokens).1,
      addsKey_putHead]
    cases m.get (record internal t .anchor) <;> rfl
  have hremoves : piece.countP (·.removesKey (isEdge internal t)) = 0 := by
    rw [hpiece, List.countP_append, List.countP_cons, (countP_putEdge internal t tokens).2]
    cases m.get (record internal t .anchor) with
    | none => rfl
    | some anchor =>
      rw [Option.map_some, Option.toList_some, List.countP_singleton, removesKey_deleteAnchor]
      rfl
  have hwritten : ∀ op ∈ piece, ∀ kind, kind ≠ .head → kind ≠ .anchor →
      (∀ token, kind ≠ .edge token) → op.written (record internal t kind) = none := by
    intro op hop kind hhead hanchor hedge
    rw [hpiece] at hop
    rcases List.mem_append.mp hop with hop | hop
    · rcases List.mem_cons.mp hop with rfl | hop
      · exact written_put_ne .head hhead
      · obtain ⟨token, -, rfl⟩ := List.mem_map.mp hop
        exact written_put_ne (.edge token) (hedge token)
    · rw [Option.mem_toList, Option.map_eq_some_iff] at hop
      obtain ⟨anchor, -, rfl⟩ := hop
      exact written_delete_ne .anchor hanchor
  refine .added next hid hactive ?_ ?_ ?_ ?_ ?_
  · rw [MarkerActive, h.get_of_not_written (.inl hid) (fun op hop =>
      hwritten op hop .marker (by simp) (by simp) (by simp))]
    exact hactive
  · refine h.get_of_mem
      (.put internal (referenceHeadKey t) expected (encodeReferenceCount next)) ?_ (if_pos rfl)
    rw [hpiece]
    simp
  · -- an existing anchor is deleted, an absent one stays absent
    cases hanchor : m.get (record internal t .anchor) with
    | some anchor =>
      refine h.get_of_mem (.delete internal (eligibilityAnchorKey t) anchor.digest) ?_
        (if_pos rfl)
      rw [hpiece, hanchor]
      simp
    | none =>
      rw [h.get_of_not_written (.inl hid), hanchor]
      intro op hop
      rw [hpiece, hanchor] at hop
      rcases List.mem_append.mp hop with hop | hop
      · rcases List.mem_cons.mp hop with rfl | hop
        · exact written_put_ne .head (by simp)
        · obtain ⟨token, -, rfl⟩ := List.mem_map.mp hop
          exact written_put_ne (.edge token) (by simp)
      · cases hop
  · have := List.length_pos_of_ne_nil htokens
    omega
  · omega

private theorem RecordChange.of_remove {edges : List (ReceiptReferenceToken × Digest)}
    {head : StoreValue} {remaining : UInt64} (hactive : MarkerActive internal m t)
    (hedges : edges ≠ []) (hcount : remaining.toNat + edges.length = edgeCount internal m t)
    {last : StoreOperation}
    (hlast : last = if remaining = 0 then .delete internal (referenceHeadKey t) head.digest
      else .put internal (referenceHeadKey t) (.exact head.digest) (encodeReferenceCount remaining))
    (h : Accepted internal m r id t front (edges.map (deleteEdge internal t) ++ [last]) back) :
    RecordChange internal m
      ((front ++ (edges.map (deleteEdge internal t) ++ [last]) ++ back ++
        [putMarker internal id]).foldl applyOperation m) cleanup id t := by
  have hid := h.ne_of_active hactive
  have hlastHead : ∀ kind, kind ≠ .head → last.written (record internal t kind) = none := by
    intro kind hkind
    rw [hlast]
    split
    · exact written_delete_ne .head hkind
    · exact written_put_ne .head hkind
  have hsame : ∀ kind, kind ≠ .head → (∀ token, kind ≠ .edge token) →
      ((front ++ (edges.map (deleteEdge internal t) ++ [last]) ++ back ++
        [putMarker internal id]).foldl applyOperation m).get (record internal t kind)
        = m.get (record internal t kind) := by
    intro kind hhead hedge
    refine h.get_of_not_written (.inl hid) ?_
    intro op hop
    rcases List.mem_append.mp hop with hop | hop
    · obtain ⟨edge, -, rfl⟩ := List.mem_map.mp hop
      exact written_delete_ne (.edge edge.1) (hedge edge.1)
    · rw [List.mem_singleton.mp hop]
      exact hlastHead kind hhead
  have htotal := h.edgeCount_eq
  have hlastCount : last.addsKey (isEdge internal t) = false ∧
      last.removesKey (isEdge internal t) = false := by
    rw [hlast]
    split
    · exact ⟨rfl, removesKey_deleteHead head.digest⟩
    · exact ⟨rfl, rfl⟩
  rw [List.countP_append, List.countP_append, List.countP_singleton, List.countP_singleton,
    (countP_deleteEdge internal t edges).1, (countP_deleteEdge internal t edges).2, hlastCount.1,
    hlastCount.2] at htotal
  simp only [Bool.false_eq_true, if_false, Nat.add_zero] at htotal
  have hpositive := List.length_pos_of_ne_nil hedges
  refine .removed remaining hid hactive ?_ (by omega) ?_ ?_ (by omega) ?_
  · rw [MarkerActive, hsame .marker (by simp) (by simp)]
    exact hactive
  · refine h.get_of_mem last (by simp) ?_
    rw [hlast]
    split <;> exact if_pos rfl
  · exact hsame .anchor (by simp) (by simp)
  · intro token habsent
    by_cases hmem : token ∈ edges.map Prod.fst
    · obtain ⟨edge, hedge, rfl⟩ := List.mem_map.mp hmem
      exact h.get_of_mem (deleteEdge internal t edge)
        (List.mem_append_left _ (List.mem_map_of_mem hedge)) (if_pos rfl)
    · rw [h.get_of_not_written (.inl hid), habsent]
      intro op hop
      rcases List.mem_append.mp hop with hop | hop
      · obtain ⟨edge, hedge, rfl⟩ := List.mem_map.mp hop
        refine written_delete_ne (.edge edge.1) ?_
        intro heq
        cases heq
        exact hmem (List.mem_map_of_mem hedge)
      · rw [List.mem_singleton.mp hop]
        exact hlastHead _ (by simp)

private theorem RecordChange.of_anchoring {retention : Duration} {now : SystemTime}
    (hactive : MarkerActive internal m t) (hnone : edgeCount internal m t = 0)
    (hclock : cleanup = some ⟨t, retention, now⟩)
    (hpiece : piece = [.check internal (referenceHeadKey t) .absent,
      .put internal (eligibilityAnchorKey t) .absent ⟨encodeWallTime now⟩])
    (h : Accepted internal m r id t front piece back) :
    RecordChange internal m
      ((front ++ piece ++ back ++ [putMarker internal id]).foldl applyOperation m)
      cleanup id t := by
  have hid := h.ne_of_active hactive
  have hput : StoreOperation.addsKey (isEdge internal t)
      (.put internal (eligibilityAnchorKey t) .absent ⟨encodeWallTime now⟩) = false :=
    addsKey_put internal t .anchor _ _ (by simp)
  have hadds : piece.countP (·.addsKey (isEdge internal t)) = 0 := by
    rw [hpiece, List.countP_cons, List.countP_singleton, hput]
    rfl
  have hremoves : piece.countP (·.removesKey (isEdge internal t)) = 0 := by
    rw [hpiece]
    rfl
  have hedges := h.edgeCount_eq
  refine .anchored retention now hid hclock hactive ?_ ?_ ?_ hnone (by omega)
  · exact h.get_of_mem (.put internal (eligibilityAnchorKey t) .absent ⟨encodeWallTime now⟩)
      (by rw [hpiece]; simp) (if_pos rfl)
  · exact conditionMatches_check_absent.mp (h.conditions
      (.check internal (referenceHeadKey t) .absent) (by rw [hpiece]; simp))
  · intro kind hkind
    refine h.get_of_not_written (.inl hid) ?_
    intro op hop
    rw [hpiece] at hop
    simp only [List.mem_cons, List.not_mem_nil, or_false] at hop
    rcases hop with rfl | rfl
    · rfl
    · exact written_put_ne .anchor hkind

private theorem RecordChange.of_forgetting {anchor : StoreValue} {digest : Digest}
    {retention : Duration} {now anchoredAt : SystemTime} (hactive : MarkerActive internal m t)
    (hnone : edgeCount internal m t = 0)
    (hanchor : m.get (record internal t .anchor) = some anchor)
    (hclock : cleanup = some ⟨t, retention, now⟩)
    (hanchored : decodeWallTime anchor.asBytes = .ok anchoredAt)
    (hdue : anchoredAt.nanos + retention.nanos ≤ now.nanos)
    (hpiece : piece = [.check internal (referenceHeadKey t) .absent,
      .delete internal (eligibilityAnchorKey t) anchor.digest,
      .put internal (usedIdKey t) (.exact (markerValue activeMarkerValue).digest)
        (markerValue forgottenMarkerValue),
      .forgetReceipt t digest]) (h : Accepted internal m r id t front piece back) :
    RecordChange internal m
      ((front ++ piece ++ back ++ [putMarker internal id]).foldl applyOperation m)
      cleanup id t := by
  have hid := h.ne_of_active hactive
  have hedges := h.edgeCount_eq
  have hadds : piece.countP (·.addsKey (isEdge internal t)) = 0 := by
    rw [hpiece]
    rfl
  have hremoves : piece.countP (·.removesKey (isEdge internal t)) = 0 := by
    rw [hpiece]
    simp only [List.countP_cons, List.countP_nil, removesKey_deleteAnchor]
    rfl
  refine .forgotten anchor retention now anchoredAt hid hclock hactive ?_ ?_ hanchor ?_ ?_ hnone
    (by omega) hanchored hdue
  · exact h.get_of_mem (.put internal (usedIdKey t)
      (.exact (markerValue activeMarkerValue).digest) (markerValue forgottenMarkerValue))
      (by rw [hpiece]; simp) (if_pos rfl)
  · exact conditionMatches_check_absent.mp (h.conditions
      (.check internal (referenceHeadKey t) .absent) (by rw [hpiece]; simp))
  · exact h.get_of_mem (.delete internal (eligibilityAnchorKey t) anchor.digest)
      (by rw [hpiece]; simp) (if_pos rfl)
  · intro kind hmarker hkind
    refine h.get_of_not_written (.inl hid) ?_
    intro op hop
    rw [hpiece] at hop
    simp only [List.mem_cons, List.not_mem_nil, or_false] at hop
    rcases hop with rfl | rfl | rfl | rfl
    · rfl
    · exact written_delete_ne .anchor hkind
    · exact written_put_ne .marker hmarker
    · rfl

/-- An accepted transaction with a profile for `t` changes the records of `t` in one
    of the seven ways. -/
theorem RecordChange.of_profile {planned : List StoreOperation}
    (hprofile : Profile internal m cleanup id t planned)
    (hnodup : ((planned ++ [putMarker internal id]).map StoreOperation.identity).Nodup)
    (hconditions : ∀ op ∈ planned ++ [putMarker internal id], conditionMatches m r op = true) :
    RecordChange internal m ((planned ++ [putMarker internal id]).foldl applyOperation m)
      cleanup id t := by
  obtain ⟨front, piece, back, rfl, hpiece, havoids⟩ := hprofile
  have h : Accepted internal m r id t front piece back := ⟨hnodup, hconditions, havoids⟩
  rcases hpiece with rfl | hpiece
  · exact .of_none h
  cases hpiece with
  | selfReference tokens additional hself htokens hcount =>
    exact .of_selfReference hself htokens hcount h
  | add tokens next expected hactive htokens hcount => exact .of_add hactive htokens hcount rfl h
  | remove edges head remaining hactive hedges hhead hcount =>
    exact .of_remove hactive hedges hcount rfl h
  | anchoring retention now hactive hnone hclock => exact .of_anchoring hactive hnone hclock rfl h
  | forgetting anchor digest retention now anchoredAt hactive hnone hanchor hclock hanchored hdue =>
    exact .of_forgetting hactive hnone hanchor hclock hanchored hdue rfl h

end Change

end Radiata
