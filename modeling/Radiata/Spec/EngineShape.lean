import Radiata.Spec.ApplyCorrect
import Radiata.Spec.EngineRun
import Radiata.Spec.ReceiptAudit

/-!
# What the builders of the receipt engine submit

Seen from one receipt, the operations of a prepared transaction are at most one
`Piece` about that receipt, surrounded by operations that avoid its records, with
the used-id marker of the transaction itself at the end. The pieces are the five
ways the engine changes a reference index: a self reference, an addition, a
removal, an anchoring and a forgetting.

## Key results

- `Prepared.of_…`: every builder submits such a transaction
-/

namespace Radiata

/-! ## Grouped changes -/

/-- A group as `group_receipt_changes` builds it: it has tokens, it does not remove
    from the fresh transaction, and another target is another transaction. -/
structure GroupFormed (selfId : TransactionId) (group : GroupedReceiptChange) : Prop where
  tokens : group.tokens ≠ []
  removeTarget : group.target = none → group.remove = false
  target : ∀ target, group.target = some target → target.transaction ≠ selfId

variable {selfId : TransactionId}

variable {change : ReceiptReferenceChange}

theorem target_toGroup (target : ReceiptIdentity)
    (h : (change.toGroup selfId).target = some target) :
    target.transaction ≠ selfId := by
  have hif : ∀ named : ReceiptIdentity,
      (if named.transaction = selfId then none else some named) = some target →
        target.transaction ≠ selfId := by
    intro named hnamed
    split at hnamed
    · cases hnamed
    · rename_i hne
      cases hnamed
      exact hne
  cases change with
  | addSelf tokens => cases h
  | add named tokens => exact hif named h
  | remove named tokens => exact hif named h

variable {groups : List GroupedReceiptChange}

variable {groups' : List GroupedReceiptChange}

/-- One change adds one well-formed group about a new receipt. -/
theorem groupReceiptChange_eq_ok {seen seen' : List Digest}
    (h : groupReceiptChange selfId (groups, seen) change = .ok (groups', seen')) :
    groups' = groups ++ [change.toGroup selfId] ∧ GroupFormed selfId (change.toGroup selfId) ∧
      (change.toGroup selfId).targetId selfId ∉ groups.map (·.targetId selfId) := by
  simp only [groupReceiptChange] at h
  split at h
  · cases h
  rename_i htokens
  obtain ⟨seen'', -, h⟩ := Result.bind_eq_ok.mp h
  split at h
  · cases h
  rename_i hremove
  split at h
  · cases h
  rename_i hfresh
  cases h
  refine ⟨rfl, ⟨?_, ?_, ?_⟩, ?_⟩
  · simpa using htokens
  · intro hnone
    simpa [hnone] using hremove
  · exact target_toGroup
  · intro hmem
    obtain ⟨earlier, hearlier, heq⟩ := List.mem_map.mp hmem
    exact hfresh (List.any_eq_true.mpr ⟨earlier, hearlier, by simpa using heq⟩)

variable {changes : List ReceiptReferenceChange}

/-- The groups are those of the changes, well formed and about different receipts. -/
theorem foldlM_groupReceiptChange_eq_ok {seen seen' : List Digest}
    (h : changes.foldlM (groupReceiptChange selfId) (groups, seen) = .ok (groups', seen'))
    (hformed : ∀ group ∈ groups, GroupFormed selfId group)
    (hnodup : (groups.map (·.targetId selfId)).Nodup) :
    groups' = groups ++ changes.map (·.toGroup selfId) ∧
      (∀ group ∈ groups', GroupFormed selfId group) ∧
      (groups'.map (·.targetId selfId)).Nodup := by
  induction changes generalizing groups seen with
  | nil => cases h; exact ⟨(List.append_nil _).symm, hformed, hnodup⟩
  | cons change changes ih =>
    rw [List.foldlM_cons] at h
    obtain ⟨⟨middle, seen''⟩, hchange, hrest⟩ := Result.bind_eq_ok.mp h
    obtain ⟨rfl, hgroup, hfresh⟩ := groupReceiptChange_eq_ok hchange
    rw [List.map_cons, List.append_cons]
    refine ih hrest ?_ ?_
    · intro g hg
      rcases List.mem_append.mp hg with hg | hg
      · exact hformed g hg
      · rw [List.mem_singleton.mp hg]
        exact hgroup
    · rw [List.map_append, List.map_singleton]
      exact List.nodup_append.mpr ⟨hnodup, List.nodup_singleton _, by
        intro a ha b hb heq
        rw [List.mem_singleton.mp hb] at heq
        exact hfresh (heq ▸ ha)⟩

theorem groupReceiptChanges_eq_ok (h : groupReceiptChanges selfId changes = .ok groups) :
    groups = changes.map (·.toGroup selfId) ∧ (∀ group ∈ groups, GroupFormed selfId group) ∧
      (groups.map (·.targetId selfId)).Nodup := by
  simp only [groupReceiptChanges] at h
  obtain ⟨⟨groups', seen⟩, hfold, hpure⟩ := Result.bind_eq_ok.mp h
  cases hpure
  exact foldlM_groupReceiptChange_eq_ok hfold (by simp) (by simp)

variable [DnsName]

/-! ## Pieces -/

/-- The edge put and the edge delete of a token. -/
def putEdge (internal : StoreNamespace) (t : TransactionId) (token : ReceiptReferenceToken) :
    StoreOperation :=
  .put internal (referenceEdgeKey t token) .absent ⟨[]⟩

def deleteEdge (internal : StoreNamespace) (t : TransactionId)
    (edge : ReceiptReferenceToken × Digest) : StoreOperation :=
  .delete internal (referenceEdgeKey t edge.1) edge.2

/-- The used-id marker put that ends every prepared transaction. -/
def putMarker (internal : StoreNamespace) (id : TransactionId) : StoreOperation :=
  .put internal (usedIdKey id) .absent (markerValue activeMarkerValue)

/-- The marker of the receipt has the active value. -/
def MarkerActive (internal : StoreNamespace) (m : Entries) (t : TransactionId) : Prop :=
  m.get (record internal t .marker) = some (markerValue activeMarkerValue)

/-- The number of edge records of a receipt. -/
def edgeCount (internal : StoreNamespace) (m : Entries) (t : TransactionId) : Nat :=
  m.countKeys (isEdge internal t)

/-- The operations of a transaction `id` that are about the receipt `t`, read off the
    entries `m`; `cleanup` is the clock reading of a receipt cleanup. -/
inductive Piece (internal : StoreNamespace) (m : Entries) (cleanup : Option Cleanup)
    (id t : TransactionId) : List StoreOperation → Prop where
  | selfReference (tokens : List ReceiptReferenceToken) (additional : UInt64) (hself : t = id)
      (htokens : tokens ≠ []) (hcount : additional.toNat = tokens.length) :
      Piece internal m cleanup id t
        (.put internal (referenceHeadKey t) .absent (encodeReferenceCount additional) ::
          tokens.map (putEdge internal t))
  | add (tokens : List ReceiptReferenceToken) (next : UInt64) (expected : StoreExpectation)
      (hactive : MarkerActive internal m t) (htokens : tokens ≠ [])
      (hcount : next.toNat = edgeCount internal m t + tokens.length) :
      Piece internal m cleanup id t
        (.put internal (referenceHeadKey t) expected (encodeReferenceCount next) ::
          tokens.map (putEdge internal t) ++
          ((m.get (record internal t .anchor)).map fun anchor =>
            StoreOperation.delete internal (eligibilityAnchorKey t) anchor.digest).toList)
  | remove (edges : List (ReceiptReferenceToken × Digest)) (head : StoreValue) (remaining : UInt64)
      (hactive : MarkerActive internal m t) (hedges : edges ≠ [])
      (hhead : m.get (record internal t .head) = some head)
      (hcount : remaining.toNat + edges.length = edgeCount internal m t) :
      Piece internal m cleanup id t
        (edges.map (deleteEdge internal t) ++
          [if remaining = 0 then .delete internal (referenceHeadKey t) head.digest
           else .put internal (referenceHeadKey t) (.exact head.digest)
             (encodeReferenceCount remaining)])
  | anchoring (retention : Duration) (now : SystemTime) (hactive : MarkerActive internal m t)
      (hnone : edgeCount internal m t = 0) (hclock : cleanup = some ⟨t, retention, now⟩) :
      Piece internal m cleanup id t
        [.check internal (referenceHeadKey t) .absent,
         .put internal (eligibilityAnchorKey t) .absent ⟨encodeWallTime now⟩]
  | forgetting (anchor : StoreValue) (digest : Digest) (retention : Duration)
      (now anchoredAt : SystemTime) (hactive : MarkerActive internal m t)
      (hnone : edgeCount internal m t = 0)
      (hanchor : m.get (record internal t .anchor) = some anchor)
      (hclock : cleanup = some ⟨t, retention, now⟩)
      (hanchored : decodeWallTime anchor.asBytes = .ok anchoredAt)
      (hdue : anchoredAt.nanos + retention.nanos ≤ now.nanos) :
      Piece internal m cleanup id t
        [.check internal (referenceHeadKey t) .absent,
         .delete internal (eligibilityAnchorKey t) anchor.digest,
         .put internal (usedIdKey t) (.exact (markerValue activeMarkerValue).digest)
           (markerValue forgottenMarkerValue),
         .forgetReceipt t digest]

/-- What a put leaves in the internal namespace is a record, and an edge is empty. -/
def Formed (internal : StoreNamespace) : StoreOperation → Prop
  | .put namespaceTag key _ value => namespaceTag = internal →
    ∃ t kind, key = RecordKind.key t kind ∧ ((∃ token, kind = .edge token) → value = ⟨[]⟩)
  | _ => True

/-- The operation acts on no record of `t`. -/
structure Avoids (internal : StoreNamespace) (t : TransactionId) (op : StoreOperation) : Prop where
  formed : Formed internal op
  records : ∀ kind, op.identity ≠ .key (record internal t kind)
  receipt : op.identity ≠ .receipt t

/-- Operations seen from the receipt `t`: at most one piece about it. -/
def Profile (internal : StoreNamespace) (m : Entries) (cleanup : Option Cleanup)
    (id t : TransactionId) (ops : List StoreOperation) : Prop :=
  ∃ front piece back, ops = front ++ piece ++ back ∧
    (piece = [] ∨ Piece internal m cleanup id t piece) ∧
    ∀ op ∈ front ++ back, Avoids internal t op

/-- A transaction as the builders submit it from a snapshot. The entries `m` it meets
    are those of the snapshot if the base revision is; `prepare_transaction` reads
    nothing and takes any base revision. -/
structure Prepared (cleanup : Option Cleanup) (snapshot : StoreSnapshot)
    (prepared : PreparedTransaction) : Prop where
  namespaceTag : ∃ internal, internalNamespace = .ok internal
  digest : prepared.transaction.operationDigest = prepared.transaction.computedOperationDigest
  nodup : (prepared.transaction.operations.map StoreOperation.identity).Nodup
  profile : ∀ internal, internalNamespace = .ok internal → ∀ m : Entries,
    (prepared.transaction.baseRevision = snapshot.revision → m = snapshot.entries) →
      ∃ planned, prepared.transaction.operations =
          planned ++ [putMarker internal prepared.transaction.id] ∧
        ∀ t, Profile internal m cleanup prepared.transaction.id t planned

/-! ## Pieces and receipts -/

variable {internal : StoreNamespace} {cleanup : Option Cleanup} {id t : TransactionId}
  {piece : List StoreOperation} {op : StoreOperation}

/-- Every operation of a piece acts on a record of its receipt. -/
theorem Piece.identity {m : Entries} (h : Piece internal m cleanup id t piece) (hop : op ∈ piece) :
    (∃ kind, op.identity = .key (record internal t kind)) ∨ op.identity = .receipt t := by
  cases h with
  | selfReference tokens additional =>
    rcases List.mem_cons.mp hop with rfl | hop
    · exact .inl ⟨.head, rfl⟩
    · obtain ⟨token, -, rfl⟩ := List.mem_map.mp hop
      exact .inl ⟨.edge token, rfl⟩
  | add tokens next expected =>
    rcases List.mem_append.mp hop with hop | hop
    · rcases List.mem_cons.mp hop with rfl | hop
      · exact .inl ⟨.head, rfl⟩
      · obtain ⟨token, -, rfl⟩ := List.mem_map.mp hop
        exact .inl ⟨.edge token, rfl⟩
    · rw [Option.mem_toList, Option.map_eq_some_iff] at hop
      obtain ⟨anchor, -, rfl⟩ := hop
      exact .inl ⟨.anchor, rfl⟩
  | remove edges head remaining =>
    rcases List.mem_append.mp hop with hop | hop
    · obtain ⟨edge, -, rfl⟩ := List.mem_map.mp hop
      exact .inl ⟨.edge edge.1, rfl⟩
    · rw [List.mem_singleton] at hop
      refine .inl ⟨.head, ?_⟩
      rw [hop]
      split <;> rfl
  | anchoring retention now =>
    simp only [List.mem_cons, List.not_mem_nil, or_false] at hop
    rcases hop with rfl | rfl
    · exact .inl ⟨.head, rfl⟩
    · exact .inl ⟨.anchor, rfl⟩
  | forgetting anchor digest retention now anchoredAt =>
    simp only [List.mem_cons, List.not_mem_nil, or_false] at hop
    rcases hop with rfl | rfl | rfl | rfl
    · exact .inl ⟨.head, rfl⟩
    · exact .inl ⟨.anchor, rfl⟩
    · exact .inl ⟨.marker, rfl⟩
    · exact .inr rfl

theorem Piece.formed {m : Entries} (h : Piece internal m cleanup id t piece) (hop : op ∈ piece) :
    Formed internal op := by
  have hhead : ∀ expected value, Formed internal
      (.put internal (referenceHeadKey t) expected value) := by
    intro expected value _
    exact ⟨t, .head, rfl, by simp⟩
  have hedge : ∀ token, Formed internal (putEdge internal t token) := by
    intro token _
    exact ⟨t, .edge token, rfl, fun _ => rfl⟩
  cases h with
  | selfReference tokens additional =>
    rcases List.mem_cons.mp hop with rfl | hop
    · exact hhead _ _
    · obtain ⟨token, -, rfl⟩ := List.mem_map.mp hop
      exact hedge token
  | add tokens next expected =>
    rcases List.mem_append.mp hop with hop | hop
    · rcases List.mem_cons.mp hop with rfl | hop
      · exact hhead _ _
      · obtain ⟨token, -, rfl⟩ := List.mem_map.mp hop
        exact hedge token
    · rw [Option.mem_toList, Option.map_eq_some_iff] at hop
      obtain ⟨anchor, -, rfl⟩ := hop
      trivial
  | remove edges head remaining =>
    rcases List.mem_append.mp hop with hop | hop
    · obtain ⟨edge, -, rfl⟩ := List.mem_map.mp hop
      trivial
    · rw [List.mem_singleton] at hop
      rw [hop]
      split
      · trivial
      · exact hhead _ _
  | anchoring retention now =>
    simp only [List.mem_cons, List.not_mem_nil, or_false] at hop
    rcases hop with rfl | rfl
    · trivial
    · exact fun _ => ⟨t, .anchor, rfl, by simp⟩
  | forgetting anchor digest retention now anchoredAt =>
    simp only [List.mem_cons, List.not_mem_nil, or_false] at hop
    rcases hop with rfl | rfl | rfl | rfl
    · trivial
    · trivial
    · exact fun _ => ⟨t, .marker, rfl, by simp⟩
    · trivial

/-- A piece about one receipt avoids every other. -/
theorem Piece.avoids {m : Entries} {t' : TransactionId} (h : Piece internal m cleanup id t' piece)
    (hne : t' ≠ t) (hop : op ∈ piece) : Avoids internal t op := by
  rcases h.identity hop with ⟨kind, hkind⟩ | hreceipt
  · refine ⟨h.formed hop, ?_, by rw [hkind]; simp⟩
    intro kind' hkind'
    rw [hkind, StoreOperationIdentity.key.injEq] at hkind'
    exact hne (record_inj hkind').1
  · refine ⟨h.formed hop, by rw [hreceipt]; simp, ?_⟩
    rw [hreceipt]
    intro heq
    exact hne (StoreOperationIdentity.receipt.inj heq)

/-- Caller operations avoid every receipt. -/
theorem avoids_of_not_reserved (hns : internalNamespace = .ok internal)
    (hop : operationUsesReservedNamespace op = false) (t : TransactionId) :
    Avoids internal t op := by
  obtain ⟨k, hk, hne⟩ := namespace_ne_of_not_reserved hns hop
  refine ⟨?_, ?_, by rw [hk]; simp⟩
  · cases op with
    | put namespaceTag key expected value =>
      intro heq
      cases hk
      exact absurd heq hne
    | _ => trivial
  intro kind hkind
  rw [hk, StoreOperationIdentity.key.injEq] at hkind
  exact hne (by rw [hkind]; rfl)

/-! ## Profiles -/

section Profiles

variable {internal : StoreNamespace} {m : Entries} {cleanup : Option Cleanup} {id t : TransactionId}

variable {ops : List StoreOperation}

theorem Profile.of_avoids (h : ∀ op ∈ ops, Avoids internal t op) :
    Profile internal m cleanup id t ops :=
  ⟨ops, [], [], by simp, .inl rfl, by simpa using h⟩

variable {piece : List StoreOperation}

theorem Profile.of_piece (h : Piece internal m cleanup id t piece) :
    Profile internal m cleanup id t piece :=
  ⟨[], piece, [], by simp, .inr h, by simp⟩

theorem Profile.append_left {front : List StoreOperation}
    (hfront : ∀ op ∈ front, Avoids internal t op) (h : Profile internal m cleanup id t ops) :
    Profile internal m cleanup id t (front ++ ops) := by
  obtain ⟨front', piece, back, rfl, hpiece, havoids⟩ := h
  refine ⟨front ++ front', piece, back, by simp, hpiece, ?_⟩
  intro op hop
  rw [List.append_assoc, List.mem_append] at hop
  rcases hop with hop | hop
  · exact hfront op hop
  · exact havoids op hop

theorem Profile.append_right {back : List StoreOperation}
    (h : Profile internal m cleanup id t ops) (hback : ∀ op ∈ back, Avoids internal t op) :
    Profile internal m cleanup id t (ops ++ back) := by
  obtain ⟨front, piece, back', rfl, hpiece, havoids⟩ := h
  refine ⟨front, piece, back' ++ back, by simp, hpiece, ?_⟩
  intro op hop
  rw [← List.append_assoc, List.mem_append] at hop
  rcases hop with hop | hop
  · exact havoids op hop
  · exact hback op hop

/-- A transaction about one receipt. -/
theorem Profile.of_piece_about {t' : TransactionId} (h : Piece internal m cleanup id t' piece) :
    Profile internal m cleanup id t piece := by
  by_cases hne : t' = t
  · subst hne
    exact .of_piece h
  · exact .of_avoids (fun op hop => h.avoids hne hop)

/-- Pieces about different receipts. -/
theorem Profile.flatten {targets : List TransactionId} {pieces : List (List StoreOperation)}
    (hpieces : List.Forall₂ (Piece internal m cleanup id) targets pieces) (hnodup : targets.Nodup) :
    Profile internal m cleanup id t pieces.flatten := by
  induction hpieces with
  | nil => exact .of_avoids (by simp)
  | @cons target piece targets pieces hpiece hrest ih =>
    rw [List.nodup_cons] at hnodup
    rw [List.flatten_cons]
    by_cases htarget : target = t
    · subst htarget
      refine (Profile.of_piece hpiece).append_right ?_
      intro op hop
      obtain ⟨piece', hpiece', hop⟩ := List.mem_flatten.mp hop
      obtain ⟨target', htarget', hpiece'⟩ := hrest.exists_of_mem_right hpiece'
      refine hpiece'.avoids ?_ hop
      rintro rfl
      exact hnodup.1 htarget'
    · exact (ih hnodup.2).append_left (fun op hop => hpiece.avoids htarget hop)

end Profiles

variable {ops : List StoreOperation}

variable {baseRevision : StoreRevision} {prepared : PreparedTransaction}

/-- The transaction of `prepare_internal_transaction`. -/
theorem prepareInternalTransaction_eq_ok
    (h : prepareInternalTransaction id baseRevision ops = .ok prepared) :
    ∃ internal, internalNamespace = .ok internal ∧
      ((ops ++ [putMarker internal id]).map StoreOperation.identity).Nodup ∧
      prepared.transaction = ⟨id, digestStoreOperations baseRevision (ops ++ [putMarker internal id]),
        baseRevision, ops ++ [putMarker internal id]⟩ := by
  simp only [prepareInternalTransaction] at h
  obtain ⟨internal, hns, h⟩ := Result.bind_eq_ok.mp h
  obtain ⟨transaction, hnew, h⟩ := Result.bind_eq_ok.mp h
  cases h
  obtain ⟨-, hnodup, htransaction⟩ := StoreTransaction.new_eq_ok.mp hnew
  exact ⟨internal, hns, hnodup, htransaction⟩

variable {snapshot : StoreSnapshot}

/-- A transaction is prepared as soon as its planned operations have a profile. -/
theorem Prepared.of_internal (h : prepareInternalTransaction id baseRevision ops = .ok prepared)
    (hprofile : ∀ internal, internalNamespace = .ok internal → ∀ m : Entries,
      (baseRevision = snapshot.revision → m = snapshot.entries) →
        ∀ t, Profile internal m cleanup id t ops) :
    Prepared cleanup snapshot prepared := by
  obtain ⟨internal, hns, hnodup, htransaction⟩ := prepareInternalTransaction_eq_ok h
  refine ⟨⟨internal, hns⟩, by rw [htransaction]; rfl, by rw [htransaction]; exact hnodup, ?_⟩
  intro internal' hns' m hm
  rw [hns] at hns'
  cases hns'
  rw [htransaction] at hm ⊢
  exact ⟨ops, rfl, hprofile internal hns m hm⟩

/-- The builders that read a snapshot prepare at its revision. -/
theorem Prepared.of_snapshot (hns : internalNamespace = .ok internal)
    (h : prepareInternalTransaction id snapshot.revision ops = .ok prepared)
    (hprofile : ∀ t, Profile internal snapshot.entries cleanup id t ops) :
    Prepared cleanup snapshot prepared := by
  refine .of_internal h ?_
  intro internal' hns' m hm t
  rw [hns] at hns'
  cases hns'
  rw [hm rfl]
  exact hprofile t

/-! ## Built operations -/

theorem verifyLiveMarker_eq_active {value : StoreValue}
    (h : verifyLiveMarker snapshot internal t = .ok (.active value)) :
    MarkerActive internal snapshot.entries t ∧ value = markerValue activeMarkerValue := by
  simp only [verifyLiveMarker] at h
  split at h
  · rename_i found hget
    split at h
    · rename_i hactive
      cases h
      have hvalue : value = markerValue activeMarkerValue := by
        cases value
        exact congrArg StoreValue.mk hactive
      exact ⟨by rw [MarkerActive, ← hvalue]; exact hget, hvalue⟩
    · split at h <;> cases h
  · cases h

variable {tokens : List ReceiptReferenceToken}

variable {additional : UInt64}

theorem buildSelfReferenceOperations_eq_ok (htokens : tokens ≠ [])
    (hcount : additional.toNat = tokens.length)
    (h : buildSelfReferenceOperations snapshot internal id tokens additional = .ok ops) :
    Piece internal snapshot.entries cleanup id id ops := by
  simp only [buildSelfReferenceOperations] at h
  split at h
  · cases h
  obtain ⟨count, -, h⟩ := Result.bind_eq_ok.mp h
  split at h
  · cases h
  cases h
  exact .selfReference tokens additional rfl htokens hcount

variable {edges : List (ReceiptReferenceToken × Option StoreValue)}

/-- The edge puts of the add branch. -/
theorem putEdges_eq_ok {puts : List StoreOperation} (h : edges.mapM (fun (token, edge) =>
      match edge with
      | some _ => throw (.conflict "receipt reference token")
      | none => pure (StoreOperation.put internal (referenceEdgeKey t token) .absent ⟨[]⟩))
        = (.ok puts : Result (List StoreOperation))) :
    puts = (edges.map Prod.fst).map (putEdge internal t) := by
  rw [Result.mapM_eq_ok] at h
  induction h with
  | nil => rfl
  | @cons edge op edges puts hop hrest ih =>
    obtain ⟨token, value⟩ := edge
    cases value with
    | some value => cases hop
    | none =>
      cases hop
      rw [ih]
      rfl

variable {deletes : List StoreOperation}

/-- The edge deletes of the remove branch. -/
theorem deleteEdges_eq_ok (h : edges.mapM (fun (token, edge) =>
      match edge with
      | none => throw (.conflict "receipt reference token")
      | some edge => pure (StoreOperation.delete internal (referenceEdgeKey t token) edge.digest))
        = (.ok deletes : Result (List StoreOperation))) :
    ∃ removed : List (ReceiptReferenceToken × Digest), removed.length = edges.length ∧
      deletes = removed.map (deleteEdge internal t) := by
  rw [Result.mapM_eq_ok] at h
  induction h with
  | nil => exact ⟨[], rfl, rfl⟩
  | @cons edge op edges deletes hop hrest ih =>
    obtain ⟨token, value⟩ := edge
    obtain ⟨removed, hlen, rfl⟩ := ih
    cases value with
    | none => cases hop
    | some value =>
      cases hop
      exact ⟨(token, value.digest) :: removed, by simp [hlen], rfl⟩

theorem deleteAnchor_eq_ok {anchorKey : StoreKey} {anchor : Option StoreValue}
    (h : deleteAnchor internal anchorKey anchor = .ok deletes) :
    deletes = (anchor.map fun anchor =>
      StoreOperation.delete internal anchorKey anchor.digest).toList := by
  cases anchor with
  | none => cases h; rfl
  | some anchor =>
    obtain ⟨time, -, h⟩ := Result.bind_eq_ok.mp h
    cases h
    rfl

theorem buildAddOperations_eq_ok {head : Option StoreValue} {count : UInt64}
    (hactive : MarkerActive internal snapshot.entries t) (htokens : tokens ≠ [])
    (hadditional : additional.toNat = tokens.length)
    (hcount : count.toNat = edgeCount internal snapshot.entries t)
    (h : buildAddOperations internal t
      (tokens.map fun token => (token, snapshot.get internal (referenceEdgeKey t token))) head
      (snapshot.get internal (eligibilityAnchorKey t)) count additional = .ok ops) :
    Piece internal snapshot.entries cleanup id t ops := by
  simp only [buildAddOperations] at h
  split at h
  · rename_i next hnext
    have hnat := checkedAdd_eq_some.mp hnext
    obtain ⟨puts, hputs, h⟩ := Result.bind_eq_ok.mp h
    have hputs : puts = tokens.map (putEdge internal t) := by
      rw [putEdges_eq_ok hputs]
      simp [Function.comp_def]
    obtain ⟨deletes, hdeletes, h⟩ := Result.bind_eq_ok.mp h
    cases h
    rw [hputs, deleteAnchor_eq_ok hdeletes]
    exact .add tokens next (expectationOf head) hactive htokens (by rw [hnat, hcount, hadditional])
  · cases h

theorem buildRemoveOperations_eq_ok {count : UInt64}
    (hactive : MarkerActive internal snapshot.entries t) (htokens : tokens ≠ [])
    (hadditional : additional.toNat = tokens.length)
    (hcount : count.toNat = edgeCount internal snapshot.entries t)
    (h : buildRemoveOperations internal t
      (tokens.map fun token => (token, snapshot.get internal (referenceEdgeKey t token)))
      (snapshot.get internal (referenceHeadKey t)) count additional = .ok ops) :
    Piece internal snapshot.entries cleanup id t ops := by
  simp only [buildRemoveOperations] at h
  split at h
  · cases h
  split at h
  · rename_i head hhead
    split at h
    · cases h
    rename_i hle
    obtain ⟨deletes, hdeletes, h⟩ := Result.bind_eq_ok.mp h
    obtain ⟨removed, hlen, rfl⟩ := deleteEdges_eq_ok hdeletes
    cases h
    rw [List.length_map] at hlen
    refine .remove removed head (count - additional) hactive ?_ hhead ?_
    · intro hnil
      rw [hnil] at hlen
      exact htokens (List.length_eq_zero_iff.mp hlen.symm)
    · rw [UInt64.not_lt, UInt64.le_iff_toNat_le] at hle
      rw [UInt64.toNat_sub_of_le _ _ (UInt64.le_iff_toNat_le.mpr hle), hlen, ← hcount, ← hadditional]
      omega
  · cases h

/-- The operations built for a group are a piece about its receipt. -/
theorem buildReceiptChangeOperations_eq_ok {group : GroupedReceiptChange}
    (hformed : GroupFormed id group)
    (h : buildReceiptChangeOperations snapshot internal id group = .ok ops) :
    Piece internal snapshot.entries cleanup id (group.targetId id) ops := by
  simp only [buildReceiptChangeOperations] at h
  split at h
  · rename_i additional hadditional
    have hadditional := u64TryFrom_eq_some.mp hadditional
    split at h
    · rename_i htarget
      rw [GroupedReceiptChange.targetId, htarget]
      exact buildSelfReferenceOperations_eq_ok hformed.tokens hadditional h
    · rename_i target htarget
      rw [GroupedReceiptChange.targetId, htarget]
      obtain ⟨marker, hmarker, h⟩ := Result.bind_eq_ok.mp h
      cases marker with
      | forgotten => cases h
      | active value =>
        have hactive := (verifyLiveMarker_eq_active hmarker).1
        obtain ⟨count, haudit, h⟩ := Result.bind_eq_ok.mp h
        have hcount := (auditReferenceIndex_eq_ok haudit).1
        split at h
        · exact buildRemoveOperations_eq_ok hactive hformed.tokens hadditional hcount h
        · exact buildAddOperations_eq_ok hactive hformed.tokens hadditional hcount h
  · cases h

/-- The operations built for the groups are pieces, one for each group. -/
theorem pieces_of_buildGroupOperations {snapshot : StoreSnapshot} {internal : StoreNamespace}
    {cleanup : Option Cleanup} {id : TransactionId} {groups : List GroupedReceiptChange}
    {built : List StoreOperation} (hformed : ∀ group ∈ groups, GroupFormed id group)
    (h : buildGroupOperations snapshot internal id groups = .ok built) :
    ∃ pieces, built = pieces.flatten ∧
      List.Forall₂ (Piece internal snapshot.entries cleanup id) (groups.map (·.targetId id))
        pieces := by
  simp only [buildGroupOperations] at h
  obtain ⟨pieces, hpieces, hbuilt⟩ := Result.bind_eq_ok.mp h
  cases hbuilt
  rw [Result.mapM_eq_ok] at hpieces
  refine ⟨pieces, rfl, ?_⟩
  rw [List.forall₂_map_left_iff]
  clear h
  induction hpieces with
  | nil => exact .nil
  | cons hpiece _ ih =>
    refine .cons (buildReceiptChangeOperations_eq_ok (hformed _ (List.mem_cons_self ..)) hpiece) ?_
    exact ih (fun g hg => hformed g (List.mem_cons_of_mem _ hg))

/-- The operations built for the groups have a profile for every receipt. -/
theorem buildGroupOperations_eq_ok {snapshot : StoreSnapshot} {internal : StoreNamespace}
    {cleanup : Option Cleanup} {id : TransactionId} {changes : List ReceiptReferenceChange}
    {groups : List GroupedReceiptChange} {built : List StoreOperation}
    (hgroups : groupReceiptChanges id changes = .ok groups)
    (h : buildGroupOperations snapshot internal id groups = .ok built) (t : TransactionId) :
    Profile internal snapshot.entries cleanup id t built := by
  obtain ⟨-, hformed, hnodup⟩ := groupReceiptChanges_eq_ok hgroups
  obtain ⟨pieces, rfl, hpieces⟩ := pieces_of_buildGroupOperations hformed h
  exact .flatten hpieces hnodup

/-- The operations built for the groups act on records and receipts. -/
theorem identity_of_buildGroupOperations {built : List StoreOperation}
    (hgroups : groupReceiptChanges id changes = .ok groups)
    (h : buildGroupOperations snapshot internal id groups = .ok built) (hop : op ∈ built) :
    (∃ t kind, op.identity = .key (record internal t kind)) ∨ ∃ t, op.identity = .receipt t := by
  have hformed := (groupReceiptChanges_eq_ok hgroups).2.1
  obtain ⟨pieces, rfl, hpieces⟩ :=
    @pieces_of_buildGroupOperations _ snapshot internal none id groups built hformed h
  obtain ⟨piece, hpiece, hop⟩ := List.mem_flatten.mp hop
  obtain ⟨t, -, hpiece⟩ := hpieces.exists_of_mem_right hpiece
  rcases hpiece.identity hop with ⟨kind, hkind⟩ | hreceipt
  · exact .inl ⟨t, kind, hkind⟩
  · exact .inr ⟨t, hreceipt⟩

end Radiata
