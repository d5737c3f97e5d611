import Radiata.Native.NodeStore
import Radiata.Spec.CborCorrect
import Radiata.Spec.PendingCorrect
import Radiata.Spec.ReceiptIndex
import Radiata.Spec.UsedId

/-!
# Builders that find the index intact

A builder answers with a report of corruption where a marker, an edge, a head or an anchor is not as
the receipt engine leaves it. The identity layer asks for references to the fresh receipt and for
the removal of the one reference that a record holds on the receipt it was put under. In a run of
the engine such changes never meet a corrupt index.

## Key results

- `Engine.intact_of_reachable`: what a run leaves in the internal namespace
- `BuilderFails.kind_ne`: the errors of the builders
- `Refuses.kind_ne`: the errors of the builders on the store of a disk
-/

namespace Radiata

section

variable {error : Error} {id : TransactionId}

/-- Another kind of error. -/
theorem error_ne {α : Type} (he : error.kind = .storageCorrupt) {other : Error}
    (hother : other.kind ≠ .storageCorrupt) : (.error other : Result α) ≠ .error error := by
  intro h
  rw [Except.error.inj h] at hother
  exact hother he

theorem invalidInput_ne (he : error.kind = .storageCorrupt) : error.kind ≠ .invalidInput := by
  rw [he]
  decide

/-- Malformed changes are an invalid input. -/
theorem groupReceiptChanges_ne (he : error.kind = .storageCorrupt)
    (changes : List ReceiptReferenceChange) : groupReceiptChanges id changes ≠ .error error := by
  have htokens : ∀ (tokens : List ReceiptReferenceToken) seen,
      insertTokens tokens seen ≠ .error error := by
    intro tokens
    induction tokens with
    | nil => exact fun _ => nofun
    | cons token tokens ih =>
      intro seen
      unfold insertTokens
      split
      · exact error_ne he (by decide)
      · exact ih _
  refine Except.bind_ne_error (Except.foldlM_ne_error (P := fun _ => True)
    (fun state change _ _ => ⟨?_, fun _ _ => trivial⟩) trivial) fun _ _ => nofun
  unfold groupReceiptChange
  dsimp only
  split
  · exact error_ne he (by decide)
  refine Except.bind_ne_error (htokens _ _) fun _ _ => ?_
  split
  · exact error_ne he (by decide)
  split
  · exact error_ne he (by decide)
  · exact nofun

variable [DnsName] {internal : StoreNamespace} {snapshot : StoreSnapshot} {t : TransactionId}

/-! ## The index of a run -/

/-- A marker says that its receipt is there or that it was forgotten. -/
def MarkerFormed (internal : StoreNamespace) (m : Entries) (t : TransactionId) : Prop :=
  ∀ value, m.get (record internal t .marker) = some value →
    value.asBytes = activeMarkerValue ∨ value.asBytes = forgottenMarkerValue

theorem RecordChange.markerFormed {m m' : Entries} {cleanup : Option Cleanup}
    (h : RecordChange internal m m' cleanup id t) (hformed : MarkerFormed internal m t) :
    MarkerFormed internal m' t := by
  have hactive : MarkerActive internal m' t → MarkerFormed internal m' t := by
    intro hactive value hvalue
    rw [hactive] at hvalue
    cases hvalue
    exact Or.inl rfl
  have hsame : m'.get (record internal t .marker) = m.get (record internal t .marker) →
      MarkerFormed internal m' t := by
    intro hsame value hvalue
    rw [hsame] at hvalue
    exact hformed value hvalue
  cases h with
  | untouched _ hkept _ => exact hsame (hkept .marker)
  | created _ _ hafter _ _ => exact hactive hafter
  | selfReferenced _ _ _ hafter _ _ _ _ => exact hactive hafter
  | added _ _ _ hafter _ _ _ _ => exact hactive hafter
  | removed _ _ _ hafter _ _ _ _ _ => exact hactive hafter
  | anchored _ _ _ _ _ _ _ hkept _ _ => exact hsame (hkept .marker (by simp))
  | forgotten _ _ _ _ _ _ _ hafter _ _ _ _ _ _ _ _ =>
    intro value hvalue
    rw [hafter] at hvalue
    cases hvalue
    exact Or.inr rfl

/-- The records of the internal namespace are as the engine leaves them. -/
structure Intact (internal : StoreNamespace) (m : Entries) : Prop where
  index : IndexInv internal m
  markers : ∀ t, MarkerFormed internal m t

theorem Engine.intact_of_reachable (hns : internalNamespace = .ok internal) {s : Engine}
    (h : Engine.system.Reachable s) : Intact internal s.store.entries := by
  refine ⟨indexInv_of_reachable hns h, ?_⟩
  refine h.invariant (P := fun s => ∀ t, MarkerFormed internal s.store.entries t) ?_ ?_
  · rintro s ⟨⟨generation, hstore⟩, -⟩ t value hvalue
    rw [hstore, show (ReferenceState.fresh generation).entries.get _ = none from
      SortedMap.get_empty _] at hvalue
    cases hvalue
  · intro s t hs hmarkers hstep
    rcases Engine.step_cases (Engine.inv_of_reachable hs) hstep with
      ⟨hstore, -⟩ | ⟨r, -, hbefore, hafter, -, -, hrecord⟩
    · rw [hstore]
      exact hmarkers
    · rw [← hbefore] at hmarkers
      rw [hafter]
      rcases (hrecord internal hns).2 with hsame | ⟨-, planned, happlied⟩
      · rw [hsame]
        exact hmarkers
      · exact fun t => (happlied.change t).markerFormed (hmarkers t)

/-! ## Operations -/

theorem Intact.verifyLiveMarker_ne (h : Intact internal snapshot.entries)
    (hmarker : snapshot.entries.get (record internal t .marker) ≠ none) :
    verifyLiveMarker snapshot internal t ≠ .error error := by
  unfold verifyLiveMarker
  cases hvalue : snapshot.get internal (usedIdKey t) with
  | none => exact absurd hvalue hmarker
  | some value =>
    dsimp only
    split
    · exact nofun
    split
    · exact nofun
    · rename_i hactive hforgotten
      exact absurd ((h.markers t value hvalue).resolve_left hactive) hforgotten

theorem Intact.audit_ne (h : Intact internal snapshot.entries) {anchor : Option StoreValue}
    (hanchor : anchor = snapshot.get internal (eligibilityAnchorKey t) ∨ anchor = none) :
    auditReferenceIndex snapshot internal t (snapshot.get internal (referenceHeadKey t)) anchor ≠
      .error error := by
  obtain ⟨count, haudit⟩ := h.index.audit t hanchor
  rw [haudit]
  exact nofun

theorem Intact.buildSelfReferenceOperations_ne (h : Intact internal snapshot.entries)
    (he : error.kind = .storageCorrupt) (tokens : List ReceiptReferenceToken)
    (additional : UInt64) :
    buildSelfReferenceOperations snapshot internal id tokens additional ≠ .error error := by
  unfold buildSelfReferenceOperations
  dsimp only
  split
  · exact error_ne he (by decide)
  refine Except.bind_ne_error (h.audit_ne (Or.inr rfl)) fun _ _ => ?_
  split
  · exact error_ne he (by decide)
  · exact nofun

/-- The edge of the one token is counted, so there is a head with a count. -/
theorem buildRemoveOperations_ne (he : error.kind = .storageCorrupt) (token : ReceiptReferenceToken) {count : UInt64}
    {anchor : Option StoreValue} (haudit : auditReferenceIndex snapshot internal t
      (snapshot.get internal (referenceHeadKey t)) anchor = .ok count) :
    buildRemoveOperations internal t [(token, snapshot.get internal (referenceEdgeKey t token))]
      (snapshot.get internal (referenceHeadKey t)) count 1 ≠ .error error := by
  unfold buildRemoveOperations
  cases hedge : snapshot.get internal (referenceEdgeKey t token) with
  | none => exact error_ne he (by decide)
  | some edge =>
    obtain ⟨hcount, hnone, -, -⟩ := auditReferenceIndex_eq_ok haudit
    have hedges : edgeCount internal snapshot.entries t ≠ 0 := by
      rw [Ne, edgeCount_eq_zero_iff]
      intro hempty
      have hnoEdge : snapshot.get internal (referenceEdgeKey t token) = none := hempty token
      rw [hedge] at hnoEdge
      cases hnoEdge
    have hpositive : ¬ count < 1 := by
      rw [UInt64.lt_iff_toNat_lt, hcount]
      exact fun hlt => hedges (Nat.lt_one_iff.mp hlt)
    cases hhead : snapshot.get internal (referenceHeadKey t) with
    | none =>
      rw [hnone hhead] at hpositive
      exact absurd (by decide) hpositive
    | some head =>
      simp only [List.any_cons, List.any_nil, Option.isNone_some, Bool.or_false, Bool.false_eq_true,
        if_false, if_neg hpositive]
      exact nofun

/-- A change that the identity layer asks for. -/
def ReceiptReferenceChange.Owned (s : Engine) : ReceiptReferenceChange → Prop
  | .addSelf _ => True
  | .add _ _ => False
  | .remove target tokens => tokens.length = 1 ∧ ∃ r ∈ s.log, r.Applied ∧ r.id = target.transaction

variable {s : Engine} {change : ReceiptReferenceChange} {changes : List ReceiptReferenceChange}

theorem buildReceiptChangeOperations_ne (hns : internalNamespace = .ok internal)
    (hs : Engine.system.Reachable s) (he : error.kind = .storageCorrupt) (howned : change.Owned s)
    (hformed : GroupFormed id (change.toGroup id)) :
    buildReceiptChangeOperations s.store.snapshot internal id (change.toGroup id) ≠
      .error error := by
  have hintact : Intact internal s.store.snapshot.entries := Engine.intact_of_reachable hns hs
  cases change with
  | add target tokens => cases howned
  | addSelf tokens =>
    unfold buildReceiptChangeOperations ReceiptReferenceChange.toGroup
    dsimp only
    split
    · exact hintact.buildSelfReferenceOperations_ne he _ _
    · exact error_ne he (by decide)
  | remove target tokens =>
    obtain ⟨hone, r, hr, happlied, hid⟩ := howned
    obtain ⟨token, rfl⟩ := List.length_eq_one_iff.mp hone
    by_cases hself : target.transaction = id
    · have hremove := hformed.removeTarget (if_pos hself)
      cases hremove
    have hmarker := (usedInv_of_reachable hns hs).applied r hr happlied
    rw [hid] at hmarker
    have hgroup : (ReceiptReferenceChange.remove target [token]).toGroup id =
        ⟨some target, true, [token]⟩ := by simp [ReceiptReferenceChange.toGroup, hself]
    rw [hgroup]
    unfold buildReceiptChangeOperations
    rw [show u64TryFrom [token].length = some 1 from rfl]
    refine Except.bind_ne_error (hintact.verifyLiveMarker_ne hmarker) fun marker _ => ?_
    cases marker with
    | forgotten => exact error_ne he (by decide)
    | active value =>
      refine Except.bind_ne_error (hintact.audit_ne (Or.inl rfl)) fun count haudit => ?_
      exact buildRemoveOperations_ne he token haudit

theorem buildGroupOperations_ne (hns : internalNamespace = .ok internal)
    (hs : Engine.system.Reachable s) (he : error.kind = .storageCorrupt)
    (howned : ∀ change ∈ changes, change.Owned s) {groups : List GroupedReceiptChange}
    (hgroups : groupReceiptChanges id changes = .ok groups) :
    buildGroupOperations s.store.snapshot internal id groups ≠ .error error := by
  obtain ⟨rfl, hformed, -⟩ := groupReceiptChanges_eq_ok hgroups
  refine Except.bind_ne_error (Except.mapM_ne_error fun group hgroup => ?_) fun _ _ => nofun
  obtain ⟨change, hchange, rfl⟩ := List.mem_map.mp hgroup
  exact buildReceiptChangeOperations_ne hns hs he (howned change hchange) (hformed _ hgroup)

/-! ## Builders -/

theorem bind_internal_ne (hns : internalNamespace = .ok internal) {α : Type}
    {f : StoreNamespace → Result α} (h : f internal ≠ .error error) :
    (internalNamespace >>= f) ≠ .error error := by
  rw [hns]
  exact h

theorem prepareInternalTransaction_ne (hns : internalNamespace = .ok internal)
    (he : error.kind = .storageCorrupt) (base : StoreRevision) (operations : List StoreOperation) :
    prepareInternalTransaction id base operations ≠ .error error := by
  refine bind_internal_ne hns (Except.bind_ne_error ?_ fun _ _ => nofun)
  unfold StoreTransaction.new
  split
  · exact error_ne he (by decide)
  refine Except.bind_ne_error ?_ fun _ _ => nofun
  unfold validateDistinctOperations
  dsimp only
  split
  · exact nofun
  · exact error_ne he (by decide)

/-- A builder of the identity layer fails on a snapshot. -/
inductive BuilderFails (snapshot : StoreSnapshot) (changes : List ReceiptReferenceChange)
    (error : Error) : Prop where
  /-- `prepare_transaction_with_receipt_changes` -/
  | changes (id : TransactionId) (operations : List StoreOperation) :
      prepareTransactionWithReceiptChanges snapshot id operations changes = .error error →
      BuilderFails snapshot changes error
  /-- `prepare_journaled_transaction` -/
  | journaled (id : TransactionId) (purpose : Bytes) (operations : List StoreOperation) :
      prepareJournaledTransaction snapshot id purpose operations changes = .error error →
      BuilderFails snapshot changes error
  /-- `cleanup_pending`, behind its read of the journal record. -/
  | cleanup (id : TransactionId) (operations : List StoreOperation) : (do
        let groups ← groupReceiptChanges id changes
        let internal ← internalNamespace
        let built ← buildGroupOperations snapshot internal id groups
        prepareInternalTransaction id snapshot.revision (operations ++ built)) = .error error →
      BuilderFails snapshot changes error

theorem owned_injectSelfToken (howned : ∀ change ∈ changes, change.Owned s)
    (token : ReceiptReferenceToken) : ∀ change ∈ injectSelfToken token changes, change.Owned s := by
  induction changes with
  | nil =>
    intro change hchange
    rw [List.mem_singleton.mp hchange]
    trivial
  | cons first rest ih =>
    obtain ⟨hfirst, hrest⟩ := List.forall_mem_cons.mp howned
    cases first with
    | addSelf tokens => exact List.forall_mem_cons.mpr ⟨trivial, hrest⟩
    | add target tokens => cases hfirst
    | remove target tokens => exact List.forall_mem_cons.mpr ⟨hfirst, ih hrest⟩

/-- In a run of the engine a builder does not report corruption on the changes of the identity
    layer. -/
theorem BuilderFails.kind_ne (hns : internalNamespace = .ok internal)
    {namespaceTag : StoreNamespace} (hpending : pendingNamespace = .ok namespaceTag)
    (hs : Engine.system.Reachable s) (howned : ∀ change ∈ changes, change.Owned s)
    (h : BuilderFails s.store.snapshot changes error) : error.kind ≠ .storageCorrupt := by
  intro he
  cases h with
  | changes id operations h =>
    refine absurd h ?_
    unfold prepareTransactionWithReceiptChanges
    split
    · exact error_ne he (by decide)
    refine bind_internal_ne hns ?_
    refine Except.bind_ne_error (groupReceiptChanges_ne he _) fun groups hgroups => ?_
    refine Except.bind_ne_error (buildGroupOperations_ne hns hs he howned hgroups) fun _ _ => ?_
    exact prepareInternalTransaction_ne hns he _ _
  | journaled id purpose operations h =>
    refine absurd h ?_
    have hpurpose : validatePurpose purpose ≠ .error error := by
      unfold validatePurpose
      split
      · exact error_ne he (by decide)
      · exact nofun
    unfold prepareJournaledTransaction
    rw [hpending]
    refine Except.bind_ne_error hpurpose fun _ _ => ?_
    split
    · exact error_ne he (by decide)
    show (if _ then _ else _ : Result PreparedTransaction) ≠ _
    split
    · exact error_ne he (by decide)
    refine bind_internal_ne hns ?_
    refine Except.bind_ne_error (groupReceiptChanges_ne he _) fun groups hgroups => ?_
    refine Except.bind_ne_error
      (buildGroupOperations_ne hns hs he (owned_injectSelfToken howned _) hgroups) fun _ _ => ?_
    refine Except.bind_ne_error ?_ fun record _ => ?_
    · unfold PendingTransactionV1.new
      split
      · rename_i herror
        exact fun heq => hpurpose (herror.trans (congrArg Except.error (Except.error.inj heq)))
      split
      · rename_i herror
        intro heq
        rw [Except.error.inj heq] at herror
        revert herror
        unfold validatePlannedOperations
        rw [hpending]
        show (if _ then _ else _ : Result Unit) ≠ _
        split
        · exact error_ne he (by decide)
        · exact nofun
      · exact nofun
    refine Except.bind_ne_error (encodeCanonical_ne_error (invalidInput_ne he) _ _ _) fun _ _ => ?_
    exact prepareInternalTransaction_ne hns he _ _
  | cleanup id operations h =>
    refine absurd h ?_
    refine Except.bind_ne_error (groupReceiptChanges_ne he _) fun groups hgroups => ?_
    refine bind_internal_ne hns ?_
    refine Except.bind_ne_error (buildGroupOperations_ne hns hs he howned hgroups) fun _ _ => ?_
    exact prepareInternalTransaction_ne hns he _ _

/-! ## The store of a disk -/

/-- The transaction puts the record. -/
def RecordTransaction.Puts (transaction : RecordTransaction) (key : MetadataKey)
    (stored : MetadataRecord) : Prop :=
  ∃ expected, .put key expected stored ∈ transaction.batch.actions

/-- A record names the transaction that it was put under, in its field `transaction`. -/
def Names (receipts : List RecordTransaction) (key : MetadataKey) (stored : MetadataRecord)
    (id : TransactionId) : Prop :=
  (∃ transaction ∈ receipts, transaction.Puts key stored) →
    ∃ transaction ∈ receipts, transaction.Puts key stored ∧ transaction.id = id

/-- The receipt changes that go with a list of actions: a record that is put refers to the fresh
    receipt, and one that is deleted gives up its reference to the receipt of the transaction that
    it names. -/
def ChangesOf (receipts : List RecordTransaction) (actions : List RecordAction)
    (changes : List ReceiptReferenceChange) : Prop :=
  ∀ change ∈ changes, (∃ tokens, change = .addSelf tokens) ∨
    ∃ key stored target token, .delete key stored ∈ actions ∧
      Names receipts key stored target.transaction ∧ change = .remove target [token]

/-- A builder fails on a store that a run of the engine has left, in which the transactions of the
    disk were applied. -/
def Refuses (receipts : List RecordTransaction) (actions : List RecordAction) (error : Error) :
    Prop :=
  ∃ (s : Engine) (changes : List ReceiptReferenceChange), Engine.system.Reachable s ∧
    (∀ transaction ∈ receipts, ∃ r ∈ s.log, r.Applied ∧ r.id = transaction.id) ∧
    ChangesOf receipts actions changes ∧ BuilderFails s.store.snapshot changes error

/-- The deleted records were put by applied transactions, so their receipts are marked. -/
theorem Refuses.kind_ne (hns : internalNamespace = .ok internal) {namespaceTag : StoreNamespace}
    (hpending : pendingNamespace = .ok namespaceTag) {receipts : List RecordTransaction}
    {actions : List RecordAction} (hput : ∀ key stored, .delete key stored ∈ actions →
      ∃ transaction ∈ receipts, transaction.Puts key stored)
    (h : Refuses receipts actions error) : error.kind ≠ .storageCorrupt := by
  obtain ⟨s, changes, hs, hcarries, hchanges, hfails⟩ := h
  refine hfails.kind_ne hns hpending hs fun change hchange => ?_
  obtain ⟨tokens, rfl⟩ | ⟨key, stored, target, token, hdelete, hnames, rfl⟩ :=
    hchanges change hchange
  · trivial
  · obtain ⟨transaction, hmem, -, hid⟩ := hnames (hput key stored hdelete)
    obtain ⟨r, hr, happlied, hrid⟩ := hcarries transaction hmem
    exact ⟨rfl, r, hr, happlied, hrid.trans hid⟩

end

end Radiata
