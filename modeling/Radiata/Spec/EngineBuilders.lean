import Radiata.Spec.EngineShape

/-!
# Every builder submits a prepared transaction

One lemma per builder, and their union over the calls of a run.

## Key results

- `EngineCall.prepared_of_prepares`
-/

namespace Radiata

variable [DnsName]

variable {internal : StoreNamespace}

/-- Caller operations that passed the reserved check avoid every receipt. -/
theorem avoids_of_any_reserved (hns : internalNamespace = .ok internal)
    {ops : List StoreOperation} (h : ¬ ops.any operationUsesReservedNamespace = true)
    (t : TransactionId) :
    ∀ op ∈ ops, Avoids internal t op := by
  intro op hop
  rw [Bool.not_eq_true, List.any_eq_false] at h
  exact avoids_of_not_reserved hns (by simpa using h op hop) t

variable {callerOperations : List StoreOperation} {prepared : PreparedTransaction}

variable {id : TransactionId}

theorem Prepared.of_prepareTransaction {baseRevision : StoreRevision} (snapshot : StoreSnapshot)
    (h : prepareTransaction id baseRevision callerOperations = .ok prepared) :
    Prepared none snapshot prepared := by
  simp only [prepareTransaction] at h
  split at h
  · cases h
  rename_i hreserved
  refine .of_internal h ?_
  intro internal hns m _ t
  exact .of_avoids (avoids_of_any_reserved hns hreserved t)

variable {snapshot : StoreSnapshot}

variable {changes : List ReceiptReferenceChange}

theorem Prepared.of_prepareTransactionWithReceiptChanges
    (h : prepareTransactionWithReceiptChanges snapshot id callerOperations changes = .ok prepared) :
    Prepared none snapshot prepared := by
  simp only [prepareTransactionWithReceiptChanges] at h
  split at h
  · cases h
  rename_i hreserved
  obtain ⟨internal, hns, h⟩ := Result.bind_eq_ok.mp h
  obtain ⟨groups, hgroups, h⟩ := Result.bind_eq_ok.mp h
  obtain ⟨built, hbuilt, h⟩ := Result.bind_eq_ok.mp h
  exact .of_snapshot hns h fun t => (buildGroupOperations_eq_ok hgroups hbuilt t).append_left
    (avoids_of_any_reserved hns hreserved t)

/-- The journal's namespace is not the reserved one. -/
theorem asStr_pendingNamespace_ne {pending : StoreNamespace}
    (hpending : pendingNamespace = .ok pending) :
    (pending.asStr == internalNamespaceText) = false := by
  simp only [pendingNamespace] at hpending
  obtain ⟨tag, hparse, hpending⟩ := Result.bind_eq_ok.mp hpending
  split at hpending
  · cases hpending
  cases hpending
  have htext : pendingNamespaceText = builtinDomain ++
      slash :: Bytes.utf8 "metadata/pending-transaction-v1" := by decide
  rw [htext] at hparse
  rw [QualifiedTag.asStr_of_parse_lowercase hparse (by decide) (by decide)]
  decide

theorem Prepared.of_prepareJournaledTransaction {purpose : Bytes}
    (h : prepareJournaledTransaction snapshot id purpose callerOperations changes = .ok prepared) :
    Prepared none snapshot prepared := by
  simp only [prepareJournaledTransaction] at h
  obtain ⟨_, -, h⟩ := Result.bind_eq_ok.mp h
  split at h
  · cases h
  rename_i hreserved
  obtain ⟨pending, hpending, h⟩ := Result.bind_eq_ok.mp h
  split at h
  · cases h
  obtain ⟨internal, hns, h⟩ := Result.bind_eq_ok.mp h
  obtain ⟨groups, hgroups, h⟩ := Result.bind_eq_ok.mp h
  obtain ⟨built, hbuilt, h⟩ := Result.bind_eq_ok.mp h
  obtain ⟨record, -, h⟩ := Result.bind_eq_ok.mp h
  obtain ⟨value, -, h⟩ := Result.bind_eq_ok.mp h
  refine .of_snapshot hns h fun t => ?_
  refine ((buildGroupOperations_eq_ok hgroups hbuilt t).append_left
    (avoids_of_any_reserved hns hreserved t)).append_right ?_
  intro op hop
  rw [List.mem_singleton] at hop
  subst hop
  refine avoids_of_not_reserved hns ?_ t
  exact asStr_pendingNamespace_ne hpending

/-- What `load_reference_state` reads. -/
theorem loadReferenceState_eq_ok {t : TransactionId} {edgeToken : Option ReceiptReferenceToken}
    {state : ReceiptReferenceState}
    (h : loadReferenceState snapshot internal t edgeToken = .ok state) :
    ∃ count, auditReferenceIndex snapshot internal t (snapshot.get internal (referenceHeadKey t))
        (snapshot.get internal (eligibilityAnchorKey t)) = .ok count ∧
      state = {
        headKey := referenceHeadKey t
        anchorKey := eligibilityAnchorKey t
        edgeKey := edgeToken.map (referenceEdgeKey t)
        head := snapshot.get internal (referenceHeadKey t)
        edge := (edgeToken.map (referenceEdgeKey t)).bind (snapshot.get internal)
        anchor := snapshot.get internal (eligibilityAnchorKey t)
        auditedCount := count } := by
  simp only [loadReferenceState] at h
  obtain ⟨count, haudit, h⟩ := Result.bind_eq_ok.mp h
  cases h
  exact ⟨count, haudit, rfl⟩

theorem nextReferenceCount_eq_ok {t : TransactionId} {head anchor : Option StoreValue}
    {count next : UInt64}
    (haudit : auditReferenceIndex snapshot internal t head anchor = .ok count)
    (h : nextReferenceCount head = .ok next) :
    next.toNat = edgeCount internal snapshot.entries t + 1 := by
  obtain ⟨hcount, hnone, hsome, -⟩ := auditReferenceIndex_eq_ok haudit
  rw [edgeCount, ← hcount]
  cases head with
  | none =>
    cases h
    rw [hnone rfl]
    rfl
  | some value =>
    obtain ⟨recorded, hdecode, hnext⟩ := Result.bind_eq_ok.mp h
    rw [hsome value rfl] at hdecode
    cases hdecode
    exact incrementReferenceCount_eq_ok hnext

variable {operationId : TransactionId}

variable {target : ReceiptIdentity} {token : ReceiptReferenceToken}

theorem Attempt.submitted_eq_some {ω : Type} {attempt : Result (Attempt ω)}
    (h : Attempt.submitted attempt = some prepared) : ∃ finish, attempt = .ok (.submit prepared finish) := by
  match attempt, h with
  | .ok (.submit _ finish), rfl => exact ⟨finish, rfl⟩

theorem Prepared.of_addReceiptReference
    (h : Attempt.submitted (addReceiptReference snapshot target token operationId)
      = some prepared) :
    Prepared none snapshot prepared := by
  obtain ⟨_, hattempt⟩ := Attempt.submitted_eq_some h
  simp only [addReceiptReference] at hattempt
  obtain ⟨internal, hns, hattempt⟩ := Result.bind_eq_ok.mp hattempt
  obtain ⟨marker, hmarker, hattempt⟩ := Result.bind_eq_ok.mp hattempt
  cases marker with
  | forgotten => cases hattempt
  | active value =>
    obtain ⟨state, hstate, hattempt⟩ := Result.bind_eq_ok.mp hattempt
    obtain ⟨count, haudit, rfl⟩ := loadReferenceState_eq_ok hstate
    simp only [Option.map_some] at hattempt
    split at hattempt
    · cases hattempt
    obtain ⟨next, hnext, hattempt⟩ := Result.bind_eq_ok.mp hattempt
    obtain ⟨deletes, hdeletes, hattempt⟩ := Result.bind_eq_ok.mp hattempt
    obtain ⟨prepared', hprepared, hattempt⟩ := Result.bind_eq_ok.mp hattempt
    cases hattempt
    refine .of_snapshot hns hprepared fun t => ?_
    rw [deleteAnchor_eq_ok hdeletes]
    exact .of_piece_about (.add [token] next _ (verifyLiveMarker_eq_active hmarker).1 (by simp)
      (nextReferenceCount_eq_ok haudit hnext))

theorem Prepared.of_removeReceiptReference
    (h : Attempt.submitted (removeReceiptReference snapshot target token operationId)
      = some prepared) :
    Prepared none snapshot prepared := by
  obtain ⟨_, hattempt⟩ := Attempt.submitted_eq_some h
  simp only [removeReceiptReference] at hattempt
  obtain ⟨internal, hns, hattempt⟩ := Result.bind_eq_ok.mp hattempt
  obtain ⟨marker, hmarker, hattempt⟩ := Result.bind_eq_ok.mp hattempt
  cases marker with
  | forgotten => cases hattempt
  | active value =>
    obtain ⟨state, hstate, hattempt⟩ := Result.bind_eq_ok.mp hattempt
    obtain ⟨audited, haudit, rfl⟩ := loadReferenceState_eq_ok hstate
    simp only [Option.map_some] at hattempt
    split at hattempt
    · rename_i edge hedge
      split at hattempt
      · rename_i head hhead
        obtain ⟨count, hcount, hattempt⟩ := Result.bind_eq_ok.mp hattempt
        obtain ⟨prepared', hprepared, hattempt⟩ := Result.bind_eq_ok.mp hattempt
        cases hattempt
        obtain ⟨haudited, -, hsome, -⟩ := auditReferenceIndex_eq_ok haudit
        rw [hsome head hhead] at hcount
        cases hcount
        have hnonzero := decodeReferenceCount_ne_zero (hsome head hhead)
        have hone : (1 : UInt64) ≤ audited := by
          rw [UInt64.le_iff_toNat_le]
          have hne : audited.toNat ≠ 0 := fun hz => hnonzero (UInt64.toNat_inj.mp hz)
          simpa using Nat.one_le_iff_ne_zero.mpr hne
        have hremaining : audited = 1 ↔ audited - 1 = 0 := by
          rw [← UInt64.toNat_inj, ← UInt64.toNat_inj, UInt64.toNat_sub_of_le _ _ hone]
          rw [UInt64.le_iff_toNat_le] at hone
          simp only [UInt64.toNat_one, UInt64.toNat_zero] at *
          omega
        refine .of_snapshot hns hprepared fun t => ?_
        have hedges : (audited - 1).toNat + [(token, edge.digest)].length
            = edgeCount internal snapshot.entries target.transaction := by
          rw [UInt64.toNat_sub_of_le _ _ hone, edgeCount, ← haudited]
          rw [UInt64.le_iff_toNat_le] at hone
          simp only [UInt64.toNat_one, List.length_singleton] at *
          omega
        have hpiece : Piece internal snapshot.entries none operationId target.transaction _ :=
          .remove [(token, edge.digest)] head (audited - 1) (verifyLiveMarker_eq_active hmarker).1
            (by simp) hhead hedges
        simp only [← hremaining] at hpiece
        exact .of_piece_about hpiece
      · cases hattempt
    · cases hattempt

theorem Prepared.of_cleanupReceipt {receiptRetention : Duration} {now : SystemTime}
    (h : Attempt.submitted (cleanupReceipt snapshot receiptRetention now target operationId)
      = some prepared) :
    Prepared (some ⟨target.transaction, receiptRetention, now⟩) snapshot prepared := by
  obtain ⟨_, hattempt⟩ := Attempt.submitted_eq_some h
  simp only [cleanupReceipt] at hattempt
  obtain ⟨internal, hns, hattempt⟩ := Result.bind_eq_ok.mp hattempt
  obtain ⟨marker, hmarker, hattempt⟩ := Result.bind_eq_ok.mp hattempt
  cases marker with
  | forgotten => cases hattempt
  | active value =>
    obtain ⟨hactive, rfl⟩ := verifyLiveMarker_eq_active hmarker
    obtain ⟨state, hstate, hattempt⟩ := Result.bind_eq_ok.mp hattempt
    obtain ⟨audited, haudit, rfl⟩ := loadReferenceState_eq_ok hstate
    simp only at hattempt
    split at hattempt
    · cases hattempt
    rename_i hzero
    rw [not_not] at hzero
    have hnone : edgeCount internal snapshot.entries target.transaction = 0 := by
      rw [edgeCount, ← (auditReferenceIndex_eq_ok haudit).1, hzero]
      rfl
    split at hattempt
    · obtain ⟨prepared', hprepared, hattempt⟩ := Result.bind_eq_ok.mp hattempt
      cases hattempt
      refine .of_snapshot hns hprepared fun t => ?_
      exact .of_piece_about (.anchoring receiptRetention now hactive hnone rfl)
    · rename_i anchor hanchor
      obtain ⟨anchoredAt, hdecode, hattempt⟩ := Result.bind_eq_ok.mp hattempt
      split at hattempt
      · rename_i deadline hdeadline
        split at hattempt
        · cases hattempt
        rename_i hdue
        obtain ⟨prepared', hprepared, hattempt⟩ := Result.bind_eq_ok.mp hattempt
        cases hattempt
        have hdeadline := SystemTime.ofNanos_eq_some.mp hdeadline
        refine .of_snapshot hns hprepared fun t => ?_
        exact .of_piece_about (.forgetting anchor target.operationDigest receiptRetention now
          anchoredAt hactive hnone hanchor rfl hdecode (by omega))
      · cases hattempt

theorem Prepared.of_cleanupPending {purpose : Bytes}
    (h : Attempt.submitted (cleanupPending snapshot purpose operationId) = some prepared) :
    Prepared none snapshot prepared := by
  obtain ⟨_, hattempt⟩ := Attempt.submitted_eq_some h
  simp only [cleanupPending] at hattempt
  obtain ⟨_, -, hattempt⟩ := Result.bind_eq_ok.mp hattempt
  obtain ⟨pending, hpending, hattempt⟩ := Result.bind_eq_ok.mp hattempt
  obtain ⟨found, -, hattempt⟩ := Result.bind_eq_ok.mp hattempt
  split at hattempt
  · cases hattempt
  · obtain ⟨identity, -, hattempt⟩ := Result.bind_eq_ok.mp hattempt
    obtain ⟨groups, hgroups, hattempt⟩ := Result.bind_eq_ok.mp hattempt
    obtain ⟨internal, hns, hattempt⟩ := Result.bind_eq_ok.mp hattempt
    obtain ⟨built, hbuilt, hattempt⟩ := Result.bind_eq_ok.mp hattempt
    obtain ⟨prepared', hprepared, hattempt⟩ := Result.bind_eq_ok.mp hattempt
    cases hattempt
    refine .of_snapshot hns hprepared fun t => ?_
    rw [← List.singleton_append]
    refine (buildGroupOperations_eq_ok hgroups hbuilt t).append_left ?_
    intro op hop
    rw [List.mem_singleton] at hop
    subst hop
    refine avoids_of_not_reserved hns ?_ t
    exact asStr_pendingNamespace_ne hpending

/-- Every call of a builder submits a prepared transaction. -/
theorem EngineCall.prepared_of_prepares {call : EngineCall}
    (h : call.prepares snapshot = some prepared) :
    Prepared call.cleanup snapshot prepared := by
  cases call with
  | prepareTransaction id baseRevision callerOperations =>
    exact .of_prepareTransaction snapshot (Result.toOption_eq_some.mp h)
  | prepareTransactionWithReceiptChanges id callerOperations changes =>
    exact .of_prepareTransactionWithReceiptChanges (Result.toOption_eq_some.mp h)
  | prepareJournaledTransaction id purpose callerOperations changes =>
    exact .of_prepareJournaledTransaction (Result.toOption_eq_some.mp h)
  | addReceiptReference target token operationId => exact .of_addReceiptReference h
  | removeReceiptReference target token operationId => exact .of_removeReceiptReference h
  | cleanupReceipt receiptRetention now target operationId => exact .of_cleanupReceipt h
  | cleanupPending purpose operationId => exact .of_cleanupPending h

end Radiata
