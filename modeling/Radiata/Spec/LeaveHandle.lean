import Radiata.Spec.AdmissionRecordCorrect
import Radiata.Spec.CborCorrect
import Radiata.Spec.FaultFree
import Radiata.Spec.JsonDocumentCorrect

/-!
# The handle of a key that is left

A leave without faults: the intent, the swap of the identity, the wipe, the deletion of the key of
the former identity and the completion. The purpose of the deletion has the handle in hexadecimal,
and a purpose has 128 characters at most.

## Key results

- `validatePurpose_keyDeletion`: the handles whose deletion has a purpose
- `calmly_wipeOldMetadata`: a wipe empties its families
- `leave_completes_iff_handle`: a leave completes exactly if the handle has 58 bytes at most
-/

namespace Radiata

variable {source : CalmSource} {limit : Nat} {s t : Calm}

/-! ## Handles -/

/-- The longest handle whose hexadecimal digits fit a purpose. -/
def maxDeletionHandle : Nat := 58

theorem isPrintable_hexEncode (bytes : Bytes) :
    (hexEncode bytes).all (fun b => 0x20 ≤ b && b ≤ 0x7E) = true := by
  rw [List.all_eq_true]
  intro b hb
  have hdigit := List.all_eq_true.mp (all_isHexDigit_hexEncode bytes) b hb
  simp only [isHexDigit, Bool.or_eq_true, Bool.and_eq_true, decide_eq_true_eq,
    UInt8.le_iff_toNat_le, UInt8.reduceToNat] at hdigit ⊢
  omega

theorem validatePurpose_keyDeletion (handle : KeyHandle) :
    validatePurpose (JournalPurpose.keyDeletion handle).text = .ok () ↔
      handle.asBytes.length ≤ maxDeletionHandle := by
  have hprefix : (Bytes.utf8 "key-delete-").length = 11 := by decide
  have hlength : (JournalPurpose.keyDeletion handle).text.length = 11 + 2 * handle.asBytes.length := by
    rw [JournalPurpose.text, List.length_append, hprefix, length_hexEncode]
  have hprintable : (JournalPurpose.keyDeletion handle).text.all
      (fun b => 0x20 ≤ b && b ≤ 0x7E) = true := by
    rw [JournalPurpose.text, List.all_append, isPrintable_hexEncode, Bool.and_true]
    decide
  have hne : (JournalPurpose.keyDeletion handle).text ≠ [] := by
    intro h
    rw [h] at hlength
    simp at hlength
    omega
  unfold validatePurpose maxDeletionHandle
  rw [hprintable]
  simp [hne, maxPurposeLen, hlength]
  omega

/-! ## Encodings -/

/-- An array of texts, strings and integers is encoded exactly if it is not too long. -/
theorem encodeRecord_array {items : List Cbor.Item} {limits : CborLimits}
    (hdepth : limits.maxDepth ≠ 0) (hcount : items.length ≤ limits.maxCollectionItems)
    (hcollection : limits.maxCollectionItems ≠ 0) (hmax : limits.maxBodyLen < 2 ^ 64)
    (hfits : ∀ item ∈ items, Fits limits 1 item) :
    (∃ bytes, encodeRecord (.array items) limits = .ok bytes) ↔
      (Cbor.Item.array items).size ≤ limits.maxBodyLen := by
  have hlen := (Cbor.Item.array items).length_encode
  unfold encodeRecord encodeCanonical
  dsimp only
  rw [hlen]
  constructor
  · rintro ⟨bytes, h⟩
    by_contra hlong
    rw [if_pos (by omega)] at h
    cases h
  · intro hsize
    rw [if_neg (by omega), validateCanonical_encode hdepth hcollection _ hsize hmax]
    · exact ⟨_, rfl⟩
    · exact ⟨by omega, hcount, fitsAll_iff.mpr hfits⟩

theorem KeyOperationId.ascii (id : KeyOperationId) : id.asStr.Ascii :=
  CanonicalId.ascii (.of_all (by decide)) id

theorem KeyOperationId.length_asStr (id : KeyOperationId) : id.asStr.length = 27 :=
  CanonicalId.length_asStr id

theorem ascii_schema {text : Bytes} (h : text.all (· < 0x80) = true) : text.isUtf8 = true :=
  (Bytes.Ascii.of_all h).isUtf8

theorem size_localIdentity (identity : LocalIdentityV1) : identity.item.size =
    174 + Cbor.headLen identity.handle.asBytes.length + identity.handle.asBytes.length := by
  have hschema : localIdentitySchema.length = 44 := by decide
  have halgorithm : ed25519Algorithm.length = 33 := by decide
  simp only [LocalIdentityV1.item, Cbor.Item.size, Cbor.Item.sizeAll, hschema, halgorithm,
    NodeId.length_asStr, KeyOperationId.length_asStr, ByteValue.width, List.length_cons,
    List.length_nil, show Cbor.headLen 44 = 2 from rfl, show Cbor.headLen 33 = 2 from rfl,
    show Cbor.headLen 26 = 2 from rfl, show Cbor.headLen 27 = 2 from rfl,
    show Cbor.headLen 32 = 2 from rfl, show Cbor.headLen 7 = 1 from rfl,
    show Cbor.headLen (1 : UInt64).toNat = 1 from rfl]
  omega

theorem size_leaveIntent (intent : LeaveIntentV1) : intent.item.size =
    165 + Cbor.headLen intent.formerHandle.asBytes.length + intent.formerHandle.asBytes.length := by
  have hschema : leaveIntentSchema.length = 42 := by decide
  simp only [LeaveIntentV1.item, Cbor.Item.size, Cbor.Item.sizeAll, hschema, NodeId.length_asStr,
    KeyOperationId.length_asStr, ByteValue.width, List.length_cons, List.length_nil,
    show Cbor.headLen 42 = 2 from rfl, show Cbor.headLen 26 = 2 from rfl,
    show Cbor.headLen 27 = 2 from rfl, show Cbor.headLen 32 = 2 from rfl,
    show Cbor.headLen 7 = 1 from rfl, show Cbor.headLen (1 : UInt64).toNat = 1 from rfl]
  omega

theorem encode_localIdentity (identity : LocalIdentityV1) :
    (∃ bytes, identity.encode = .ok bytes) ↔ identity.item.size ≤ 1024 := by
  refine encodeRecord_array (by decide) (Nat.le_of_ble_eq_true rfl) (by decide) (by decide) ?_
  simp only [List.forall_mem_cons, Fits, true_and]
  exact ⟨ascii_schema (by decide), identity.node.ascii.isUtf8, ascii_schema (by decide),
    identity.operation.ascii.isUtf8, (by simp)⟩

variable {identity : LocalIdentityV1}

/-- The intent of a leave is shorter than the record of the identity. -/
theorem encode_leaveIntent (hencode : ∃ bytes, identity.encode = .ok bytes) (node : NodeId)
    (operation : KeyOperationId) : ∃ bytes, LeaveIntentV1.encode
      ⟨identity.node, identity.publicKey, identity.handle, node, operation⟩ = .ok bytes := by
  have hsize := (encode_localIdentity identity).mp hencode
  rw [size_localIdentity] at hsize
  refine (encodeRecord_array (by decide) (Nat.le_of_ble_eq_true rfl) (by decide) (by decide) ?_).mpr ?_
  · simp only [List.forall_mem_cons, Fits, true_and]
    exact ⟨ascii_schema (by decide), identity.node.ascii.isUtf8, node.ascii.isUtf8,
      operation.ascii.isUtf8, (by simp)⟩
  · refine (Nat.le_of_eq (size_leaveIntent _)).trans ?_
    show _ ≤ 1024
    dsimp only
    omega

theorem ascii_text (handle : KeyHandle) : (JournalPurpose.keyDeletion handle).text.isUtf8 = true :=
  (Bytes.Ascii.append (.of_all (by decide)) (ascii_hexEncode _)).isUtf8

variable {handle : KeyHandle}

theorem encode_deletionIntent (hhandle : handle.asBytes.length ≤ maxDeletionHandle)
    (operation : KeyOperationId) (transaction : TransactionId) (base : Nat) : ∃ bytes,
      encodeRecord (KeyDeletionIntentV1.item ⟨operation, handle, .keyDeletion handle⟩ transaction base)
        identityRecordLimits = .ok bytes := by
  unfold maxDeletionHandle at hhandle
  refine (encodeRecord_array (by decide) (Nat.le_of_ble_eq_true rfl) (by decide) (by decide) ?_).mpr ?_
  · simp only [List.forall_mem_cons, Fits, true_and]
    exact ⟨ascii_schema (by decide), operation.ascii.isUtf8, ascii_text handle,
      transaction.ascii.isUtf8, (by simp)⟩
  · have hschema : keyDeletionIntentSchema.length = 49 := by decide
    have hprefix : (Bytes.utf8 "key-delete-").length = 11 := by decide
    have hrevision : (revisionBytes base).length = 8 := rfl
    have hpurpose := Cbor.headLen_le_two (n := 11 + 2 * handle.asBytes.length) (by omega)
    have hheader := Cbor.headLen_le_two (n := handle.asBytes.length) (by omega)
    show Cbor.Item.size _ ≤ 1024
    simp only [Cbor.Item.size, Cbor.Item.sizeAll, hschema, hprefix, hrevision, JournalPurpose.text,
      List.length_append, length_hexEncode, KeyOperationId.length_asStr,
      TransactionId.length_asStr, List.length_cons, List.length_nil,
      show Cbor.headLen 49 = 2 from rfl, show Cbor.headLen 25 = 2 from rfl,
      show Cbor.headLen 27 = 2 from rfl, show Cbor.headLen 8 = 1 from rfl,
      show Cbor.headLen 7 = 1 from rfl, show Cbor.headLen (1 : UInt64).toNat = 1 from rfl]
    omega

theorem encode_tombstone (hhandle : handle.asBytes.length ≤ maxDeletionHandle)
    (operation : KeyOperationId) : ∃ bytes,
      encodeRecord (KeyDeletedV1.item ⟨operation, handle⟩) identityRecordLimits = .ok bytes := by
  unfold maxDeletionHandle at hhandle
  refine (encodeRecord_array (by decide) (Nat.le_of_ble_eq_true rfl) (by decide) (by decide) ?_).mpr ?_
  · simp only [List.forall_mem_cons, Fits, true_and]
    exact ⟨ascii_schema (by decide), operation.ascii.isUtf8, (by simp)⟩
  · have hschema : keyDeletedSchema.length = 41 := by decide
    have hheader := Cbor.headLen_le_two (n := handle.asBytes.length) (by omega)
    show Cbor.Item.size _ ≤ 1024
    simp only [Cbor.Item.size, Cbor.Item.sizeAll, hschema, KeyOperationId.length_asStr,
      List.length_cons, List.length_nil, show Cbor.headLen 41 = 2 from rfl,
      show Cbor.headLen 27 = 2 from rfl, show Cbor.headLen 4 = 1 from rfl,
      show Cbor.headLen (1 : UInt64).toNat = 1 from rfl]
    omega

/-! ## Steps -/

theorem Calm.Becomes.congr {count : Nat} {f g : MetadataKey → Option MetadataRecord}
    (h : s.Becomes source limit count f t) (hfg : ∀ key, f key = g key) :
    s.Becomes source limit count g t :=
  ⟨h.ready, h.vault, fun key => (h.lookup key).trans (hfg key), h.supplied, h.drawn, h.draws⟩

/-! ## The wipe -/

/-- The records of a family. -/
def familySize (store : RecordStore) (family : MetadataFamily) : Nat :=
  (store.scan fun key => key.family = family).length

variable {family : MetadataFamily}

variable {store : RecordStore}

/-- One iteration removes records of the family, and the others stay. -/
theorem wipe_updated (id : TransactionId) (key : MetadataKey) (hkey : key.family ≠ family) :
    Store.updated (wipeActions store family ++ journalAction id none) (store.lookup key) key =
      store.lookup key := by
  refine Store.updated_of_notMem (fun action haction => ?_) _
  rw [journalAction, List.append_nil, wipeActions, List.mem_map] at haction
  obtain ⟨entry, hentry, rfl⟩ := haction
  obtain ⟨-, hfamily⟩ := Store.mem_scan.mp (List.mem_of_mem_take hentry)
  intro heq
  apply hkey
  rw [← heq]
  exact of_decide_eq_true hfamily

theorem wipe_decreases {store' : RecordStore} {id : TransactionId}
    (hne : wipeActions store family ≠ []) (hlookup : ∀ key, store'.lookup key = Store.updated
      (wipeActions store family ++ journalAction id none) (store.lookup key) key) :
    familySize store' family < familySize store family := by
  have hdrop : familySize store' family ≤
      ((store.scan fun key => key.family = family).drop wipeBatch).length := by
    refine Store.length_scan_le fun key value hvalue hfamily => ?_
    rw [hlookup] at hvalue
    -- The key is not among those that were deleted, so it was there before.
    have hnot : ∀ action ∈ wipeActions store family ++ journalAction id none, action.key ≠ key := by
      intro action haction heq
      unfold Store.updated at hvalue
      cases hfind : (wipeActions store family ++ journalAction id none).find?
          fun action => decide (action.key = key) with
      | none => exact List.find?_eq_none.mp hfind action haction (decide_eq_true heq)
      | some found =>
        rw [hfind] at hvalue
        have hmem := List.mem_of_find?_eq_some hfind
        rw [journalAction, List.append_nil, wipeActions, List.mem_map] at hmem
        obtain ⟨entry, -, rfl⟩ := hmem
        cases hvalue
    rw [Store.updated_of_notMem hnot] at hvalue
    have hmem : (key, value) ∈ store.scan fun key => key.family = family :=
      Store.mem_scan.mpr ⟨hvalue, hfamily⟩
    rw [← List.take_append_drop wipeBatch (store.scan fun key => key.family = family),
      List.mem_append] at hmem
    rcases hmem with htake | hdrop
    · refine absurd rfl (hnot (.delete key value) ?_)
      rw [journalAction, List.append_nil, wipeActions]
      exact List.mem_map_of_mem htake
    · exact hdrop
  have hpos : 0 < familySize store family := by
    unfold familySize
    rw [List.length_pos_iff]
    intro hnil
    apply hne
    rw [wipeActions, hnil]
    rfl
  rw [List.length_drop] at hdrop
  unfold familySize wipeBatch at *
  omega

theorem wipe_done (h : wipeActions store family = []) (key : MetadataKey)
    (hkey : key.family = family) :
    store.lookup key = none := by
  cases hlookup : store.lookup key with
  | none => rfl
  | some value =>
    have hmem : (key, value) ∈ store.scan fun key => key.family = family :=
      Store.mem_scan.mpr ⟨hlookup, decide_eq_true hkey⟩
    unfold wipeActions wipeBatch at h
    rw [List.map_eq_nil_iff, List.take_eq_nil_iff] at h
    rcases h with hzero | hnil
    · cases hzero
    · rw [hnil] at hmem
      cases hmem

variable {rounds : Nat}

theorem calmly_wipeFamily (retries : Nat) (hsupplied : s.Supplied source limit)
    (hready : s.slot = .ready) (hrounds : familySize s.store family < rounds)
    (hlimit : s.draws + familySize s.store family ≤ limit) :
    ∃ t, Calmly source (wipeFamily family rounds retries) s (.ok ()) t ∧
      s.Becomes source limit (familySize s.store family)
        (fun key => if key.family = family then none else s.store.lookup key) t := by
  induction rounds generalizing s with
  | zero => omega
  | succ rounds ih =>
    by_cases hdone : wipeActions s.store family = []
    · refine ⟨s, (calmly_snapshot s).bind ?_, hready, rfl, fun key => ?_, hsupplied, Nat.le_refl _, by omega⟩
      · rw [if_pos hdone]
        exact calmly_pure () s
      · by_cases hkey : key.family = family
        · rw [if_pos hkey]
          exact wipe_done hdone key hkey
        · rw [if_neg hkey]
    · have hkeys : ∀ id : TransactionId, ((wipeActions s.store family ++
          journalAction id none).map StoreAction.key).Nodup := by
        intro id
        rw [journalAction, List.append_nil, wipeActions, List.map_map]
        refine List.Nodup.sublist ?_ (s.store.nodup_keys_scan fun key => key.family = family)
        exact (List.take_sublist _ _).map _
      have hexpected : ∀ id : TransactionId, ∀ action ∈ wipeActions s.store family ++
          journalAction id none, s.store.lookup action.key = action.expected := by
        intro id action haction
        rw [journalAction, List.append_nil, wipeActions, List.mem_map] at haction
        obtain ⟨entry, hentry, rfl⟩ := haction
        exact (Store.mem_scan.mp (List.mem_of_mem_take hentry)).1
      have hpos : 0 < familySize s.store family := by
        unfold familySize
        rw [List.length_pos_iff]
        intro hnil
        apply hdone
        rw [wipeActions, hnil]
        rfl
      obtain ⟨transaction, s₁, t, hprepare, hcommit, hbecomes⟩ :=
        calmly_transact _ _ hsupplied hready (by omega) hkeys hexpected
      have hsmaller := wipe_decreases hdone hbecomes.lookup
      have hdraws := hbecomes.draws
      obtain ⟨u, hrest, hlast⟩ := ih hbecomes.supplied hbecomes.ready (by omega) (by omega)
      refine ⟨u, (calmly_snapshot s).bind ?_, ?_⟩
      · rw [if_neg hdone]
        exact hprepare.bind ((calmly_commitWithReconcile hcommit).bind hrest)
      · have hdraws' := hlast.draws
        refine ⟨hlast.ready, hlast.vault.trans hbecomes.vault, fun key => ?_, hlast.supplied,
          hbecomes.drawn.trans hlast.drawn, by omega⟩
        rw [hlast.lookup]
        by_cases hkey : key.family = family
        · rw [if_pos hkey, if_pos hkey]
        · rw [if_neg hkey, if_neg hkey, hbecomes.lookup, wipe_updated _ key hkey]

/-- The records of the families. -/
def wipeSize (store : RecordStore) (families : List MetadataFamily) : Nat :=
  (families.map (familySize store)).sum

/-- A wipe empties its families and leaves the others. -/
theorem calmly_wipeOldMetadata {families : List MetadataFamily} (hnodup : families.Nodup)
    (hsupplied : s.Supplied source limit) (hready : s.slot = .ready)
    (hrounds : ∀ family ∈ families, familySize s.store family < rounds)
    (hlimit : s.draws + wipeSize s.store families ≤ limit) :
    ∃ t, Calmly source (wipeOldMetadata rounds families) s (.ok ()) t ∧
      s.Becomes source limit (wipeSize s.store families)
        (fun key => if key.family ∈ families then none else s.store.lookup key) t := by
  induction families generalizing s with
  | nil =>
    refine ⟨s, calmly_pure () s, hready, rfl, fun key => ?_, hsupplied, Nat.le_refl _, by omega⟩
    rw [if_neg (List.not_mem_nil)]
  | cons family families ih =>
    obtain ⟨hfamily, hnodup⟩ := List.nodup_cons.mp hnodup
    have hsize : wipeSize s.store (family :: families) =
        familySize s.store family + wipeSize s.store families := by
      rw [wipeSize, List.map_cons, List.sum_cons]
      rfl
    obtain ⟨t, hfirst, hbecomes⟩ := calmly_wipeFamily 0 hsupplied hready
      (hrounds family List.mem_cons_self) (by omega)
    -- The other families have as many records as before.
    have hsame : ∀ other ∈ families, familySize t.store other = familySize s.store other := by
      intro other hother
      refine Store.length_scan_congr fun key hkey => ?_
      rw [hbecomes.lookup, if_neg]
      rw [of_decide_eq_true hkey]
      rintro rfl
      exact hfamily hother
    have hsum : wipeSize t.store families = wipeSize s.store families := by
      unfold wipeSize
      rw [List.map_congr_left hsame]
    have hdraws := hbecomes.draws
    obtain ⟨u, hrest, hlast⟩ := ih hnodup hbecomes.supplied hbecomes.ready
      (fun other hother => by
        rw [hsame other hother]
        exact hrounds other (List.mem_cons_of_mem _ hother)) (by omega)
    refine ⟨u, hfirst.bind hrest, ?_⟩
    have hdraws' := hlast.draws
    refine ⟨hlast.ready, hlast.vault.trans hbecomes.vault, fun key => ?_, hlast.supplied,
      hbecomes.drawn.trans hlast.drawn, by omega⟩
    rw [hlast.lookup, hbecomes.lookup]
    by_cases hrest : key.family ∈ families
    · rw [if_pos hrest, if_pos (List.mem_cons_of_mem _ hrest)]
    · rw [if_neg hrest]
      by_cases hkey : key.family = family
      · rw [if_pos hkey, if_pos (hkey ▸ List.mem_cons_self)]
      · rw [if_neg hkey, if_neg (by simp [hkey, hrest])]

/-! ## The deletion -/

theorem calmly_cleanupPendingExact {purpose : JournalPurpose} {pending : TransactionId}
    (context : String) (hsupplied : s.Supplied source limit) (hready : s.slot = .ready)
    (hlimit : s.draws < limit)
    (hpending : s.store.lookup (.pendingTransaction purpose) = some (.pendingTransaction pending)) :
    ∃ t, Calmly source (cleanupPendingExact purpose context) s (.ok ()) t ∧
      s.Becomes source limit 1
        (fun key => if key = .pendingTransaction purpose then none else s.store.lookup key) t := by
  obtain ⟨transaction, s₁, t, hprepare, hcommit, hbecomes⟩ := calmly_transact
    [.delete (.pendingTransaction purpose) (.pendingTransaction pending)] none hsupplied hready hlimit (by simp [journalAction])
    (by simp [journalAction, StoreAction.key, StoreAction.expected, hpending])
  have hcleanup : Calmly source (cleanupJournal purpose) s (.ok .applied) t := by
    refine (calmly_snapshot s).bind ?_
    rw [hpending]
    exact (calmly_ofResult _ s).bind (hprepare.bind (hcommit.bind rfl))
  refine ⟨t, hcleanup.bind rfl, hbecomes.congr fun key => ?_⟩
  simp only [List.cons_append, List.nil_append, journalAction, Store.updated_cons,
    Store.updated_nil, StoreAction.key, StoreAction.result]
  grind

theorem calmly_deleteProviderStep (operation : KeyOperationId)
    (hhandle : handle.asBytes.length ≤ maxDeletionHandle) (hsupplied : s.Supplied source limit)
    (hready : s.slot = .ready) (hlimit : s.draws + 2 ≤ limit)
    (hintent : s.store.lookup (.keyDeletionIntent handle) =
      some (.keyDeletionIntent ⟨operation, handle, .keyDeletion handle⟩))
    (hdeleted : s.store.lookup (.keyDeleted handle) = none)
    (hpending : s.store.lookup (.pendingTransaction (.keyDeletion handle)) = none) :
    ∃ t, Calmly source (deleteProviderStep ⟨operation, handle, .keyDeletion handle⟩ false) s
        (.ok ()) t ∧
      s.Becomes source limit 2 (fun key => if key = .keyDeletionIntent handle then none
        else if key = .keyDeleted handle then some (.keyDeleted ⟨operation, handle⟩)
        else s.store.lookup key) t := by
  obtain ⟨bytes, hencode⟩ := encode_tombstone hhandle operation
  have hexpected : ∀ id, ∀ action ∈ [StoreAction.delete (MetadataKey.keyDeletionIntent handle)
        (MetadataRecord.keyDeletionIntent ⟨operation, handle, .keyDeletion handle⟩),
      .put (.keyDeleted handle) none (.keyDeleted ⟨operation, handle⟩)] ++
        journalAction id (some (.keyDeletion handle)),
      s.store.lookup action.key = action.expected := by
    simp [journalAction, StoreAction.key, StoreAction.expected, hintent, hdeleted, hpending]
  obtain ⟨transaction, s₁, t, hprepare, hcommit, hbecomes⟩ := calmly_transact _ _
    (s := { s with deleted := handle :: s.deleted }) (hsupplied.deleteKey handle) hready
    (show s.draws < limit by omega) (by simp [journalAction, StoreAction.key]) hexpected
  have hdraws : t.draws ≤ s.draws + 1 := hbecomes.draws
  have hlookup : ∀ key, t.store.lookup key = Store.updated
      ([.delete (.keyDeletionIntent handle)
          (.keyDeletionIntent ⟨operation, handle, .keyDeletion handle⟩),
        .put (.keyDeleted handle) none (.keyDeleted ⟨operation, handle⟩)] ++
        journalAction transaction.id (some (.keyDeletion handle))) (s.store.lookup key) key :=
    hbecomes.lookup
  have hjournal : t.store.lookup (.pendingTransaction (.keyDeletion handle)) =
      some (.pendingTransaction transaction.id) := by
    rw [hbecomes.lookup]
    simp [Store.updated_cons, journalAction, StoreAction.key, StoreAction.result]
  obtain ⟨u, hcleanup, hlast⟩ := calmly_cleanupPendingExact "key deletion pending cleanup"
    hbecomes.supplied hbecomes.ready (by omega) hjournal
  have hdelete : Calmly source (deleteAtProvider ⟨operation, handle, .keyDeletion handle⟩ false) s
      (.ok true) { s with deleted := handle :: s.deleted } :=
    (calmly_deleteKey operation handle s).bind rfl
  refine ⟨u, hdelete.bind ((calmly_snapshot _).bind ?_), ?_⟩
  · refine .ofResult (.keyDeletionIntent ⟨operation, handle, .keyDeletion handle⟩) ?_ ?_
    · exact Except.okOr_eq_ok.mpr hintent
    refine .ofResult () (Except.rejectIf_of_not _ (fun h => h rfl)) ?_
    exact .ofResult bytes hencode (hprepare.bind ((calmly_commitWithReconcile hcommit).bind hcleanup))
  · have hdraws' := hlast.draws
    refine ⟨hlast.ready, hlast.vault.trans hbecomes.vault, fun key => ?_, hlast.supplied,
      hbecomes.drawn.trans hlast.drawn, by omega⟩
    rw [hlast.lookup, hlookup]
    simp only [List.cons_append, List.nil_append, journalAction, Store.updated_cons,
      Store.updated_nil, StoreAction.key, StoreAction.result]
    grind

theorem calmly_reconcileFrozen (hready : s.slot = .ready) :
    Calmly source reconcileFrozen s (.ok ()) s := by
  have hisReady : Calmly source NodeM.isReady s (.ok true) s := by
    show (Except.ok (decide (s.slot = .ready)), s) = _
    rw [hready]
    rfl
  exact hisReady.bind rfl

/-- The key of a handle that fits a purpose is deleted. -/
theorem calmly_deleteUnreferencedKey (hhandle : handle.asBytes.length ≤ maxDeletionHandle)
    (hsupplied : s.Supplied source limit) (hready : s.slot = .ready)
    (hlimit : s.draws + 4 ≤ limit)
    (hidentity : s.store.lookup .localIdentity = some (.localIdentity identity))
    (hother : identity.handle ≠ handle)
    (hintent : s.store.lookup (.keyDeletionIntent handle) = none)
    (hdeleted : s.store.lookup (.keyDeleted handle) = none)
    (hpending : s.store.lookup (.pendingTransaction (.keyDeletion handle)) = none) :
    ∃ operation t, Calmly source (deleteUnreferencedKey handle) s (.ok ()) t ∧
      s.Becomes source limit 4 (fun key => if key = .keyDeleted handle then
        some (.keyDeleted ⟨operation, handle⟩) else s.store.lookup key) t := by
  have hpurpose := (validatePurpose_keyDeletion handle).mpr hhandle
  have hactions : deletionIntentActions s.store
      ⟨source.operation s.draws, handle, .keyDeletion handle⟩ =
      [.check .localIdentity (some (.localIdentity identity)), .put (.keyDeletionIntent handle) none
        (.keyDeletionIntent ⟨source.operation s.draws, handle, .keyDeletion handle⟩)] := by
    unfold deletionIntentActions
    rw [hidentity]
    rfl
  have hexpected : ∀ id, ∀ action ∈ deletionIntentActions s.store
      ⟨source.operation s.draws, handle, .keyDeletion handle⟩ ++ journalAction id none,
      s.draw.store.lookup action.key = action.expected := by
    intro id
    rw [hactions]
    simp [journalAction, StoreAction.key, StoreAction.expected, Calm.store_draw, hidentity, hintent]
  obtain ⟨transaction, s₁, t, hprepare, hcommit, hbecomes⟩ := calmly_transact _ _ hsupplied.draw hready
    (show s.draws + 1 < limit by omega)
    (by simp [hactions, journalAction, StoreAction.key]) hexpected
  have hlookup : ∀ key, t.store.lookup key = if key = .keyDeletionIntent handle then
      some (.keyDeletionIntent ⟨source.operation s.draws, handle, .keyDeletion handle⟩)
      else s.store.lookup key := by
    intro key
    rw [hbecomes.lookup, Calm.store_draw, hactions]
    simp only [journalAction, List.append_nil, Store.updated_cons, Store.updated_nil,
      StoreAction.key, StoreAction.result]
    grind
  have hdraws : t.draws ≤ s.draws + 1 + 1 := hbecomes.draws
  obtain ⟨u, hstep, hlast⟩ := calmly_deleteProviderStep (source.operation s.draws)
    hhandle hbecomes.supplied hbecomes.ready (by omega) (by simp [hlookup])
    (by simp [hlookup, hdeleted]) (by simp [hlookup, hpending])
  obtain ⟨bytes, hencode⟩ := encode_deletionIntent hhandle (source.operation s.draws) transaction.id
    s.store.revision
  refine ⟨source.operation s.draws, u, ?_, ?_⟩
  · have hprologue : Calmly source (recoverJournalPrologue (.keyDeletion handle)
        "key deletion pending cleanup") s (.ok false) s := by
      have hrecover : Calmly source (recoverPending (.keyDeletion handle)) s (.ok none) s := by
        refine (calmly_snapshot s).bind ?_
        rw [hpending]
        exact calmly_pure _ s
      exact hrecover.bind ((calmly_reconcileFrozen hready).bind (calmly_pure _ s))
    refine .ofResult () hpurpose (hprologue.bind ((calmly_reconcileFrozen hready).bind ?_))
    refine (calmly_snapshot s).bind ?_
    rw [hdeleted]
    refine .ofResult (some identity) ?_ ?_
    · unfold discoverLocalIdentity
      rw [hidentity]
      rfl
    have hnone : ((some identity).any fun identity => decide (identity.handle = handle)) = false := by
      simp [hother]
    dsimp only
    rw [hnone, hintent]
    have hattempt : Calmly source (deleteStepOr (fun _ => deleteAttempt handle fun error => throw error)
        ⟨source.operation s.draws, handle, .keyDeletion handle⟩ false) t (.ok ()) u :=
      hstep.lift.bind (calmly_pure () u)
    refine (calmly_generateOperation hsupplied (by omega)).bind ?_
    refine .ofResult (()) ?_ (hprepare.bind (.ofResult bytes hencode ?_))
    · unfold validateIntentPurpose
      rw [hpurpose]
      rfl
    · exact (calmly_commitWithReconcile hcommit).bind hattempt
  · have hdraws' := hlast.draws
    refine ⟨hlast.ready, hlast.vault.trans hbecomes.vault, fun key => ?_, hlast.supplied,
      (Nat.le_succ _).trans (hbecomes.drawn.trans hlast.drawn), by omega⟩
    rw [hlast.lookup, hlookup]
    grind

/-! ## The leave -/

/-- A node with an identity, whose creation is over. -/
structure Calm.Settled (source : CalmSource) (s : Calm) (identity : LocalIdentityV1) : Prop where
  ready : s.slot = .ready
  stored : s.store.lookup .localIdentity = some (.localIdentity identity)
  key : source.key identity.handle = identity.publicKey
  intents : ∀ operation, s.store.lookup (.keyCreationIntent operation) = none
  pending : s.store.lookup (.pendingTransaction .localIdentity) = none

/-- A node with an identity that is not being left. -/
structure Calm.Member (source : CalmSource) (s : Calm) (identity : LocalIdentityV1) : Prop
    extends s.Settled source identity where
  leave : s.store.lookup .leaveIntent = none

/-- The handle is in use: nothing of its deletion is stored. -/
structure Calm.Live (s : Calm) (handle : KeyHandle) : Prop where
  intent : s.store.lookup (.keyDeletionIntent handle) = none
  deleted : s.store.lookup (.keyDeleted handle) = none
  pending : s.store.lookup (.pendingTransaction (.keyDeletion handle)) = none

/-- The identity that a leave installs, with the ids that it draws first. -/
def Calm.nextIdentity (source : CalmSource) (s : Calm) : LocalIdentityV1 :=
  ⟨source.node s.draws, source.key (source.handle (source.operation (s.draws + 1))),
    source.operation (s.draws + 1), source.handle (source.operation (s.draws + 1))⟩

/-- The intent of the leave. -/
def Calm.nextIntent (source : CalmSource) (s : Calm) (identity : LocalIdentityV1) : LeaveIntentV1 :=
  ⟨identity.node, identity.publicKey, identity.handle, source.node s.draws,
    source.operation (s.draws + 1)⟩

theorem calmly_verifyProviderKey {expected : PublicKey} (h : source.key handle = expected)
    (s : Calm) :
    Calmly source (verifyProviderKey handle expected) s (.ok ()) s := by
  subst h
  refine (calmly_publicKey handle s).bind ?_
  rw [Except.rejectIf_of_not _ fun hne => hne rfl]
  exact calmly_ofResult _ s

theorem calmly_openPhase (h : s.Settled source identity) :
    Calmly source (openPhase s.store) s (.ok identity) s := by
  have hscan : s.store.scan MetadataKey.isKeyCreationIntent = [] := by
    refine Store.scan_eq_nil fun key hkey => ?_
    cases key with
    | keyCreationIntent operation => exact h.intents operation
    | _ => cases hkey
  refine .ofResult (some identity) ?_ (.ofResult none ?_
    ((calmly_verifyProviderKey h.key s).bind (calmly_pure _ s)))
  · unfold discoverLocalIdentity
    rw [h.stored]
    rfl
  · unfold discoverKeyCreationIntent
    rw [hscan]

/-- An opening of a settled node ends as the leave that it resumes. -/
theorem calmly_openLocalIdentity (h : s.Settled source identity)
    {found : Result (Option LocalIdentityV1)}
    (hresume : Calmly source (resumeIfPending rounds) s found t) :
    Calmly source (openLocalIdentity true rounds) s
      (found.map fun replacement => replacement.getD identity) t := by
  have hrecover : Calmly source (recoverPending .localIdentity) s (.ok none) s := by
    refine (calmly_snapshot s).bind ?_
    rw [h.pending]
    exact calmly_pure _ s
  refine hrecover.bind ((calmly_snapshot s).bind ((calmly_openPhase h).bind ?_))
  cases found with
  | ok replacement =>
    refine hresume.bind ?_
    cases replacement with
    | none => exact calmly_pure _ t
    | some replacement => exact calmly_pure _ t
  | error error => exact hresume.stop

/-- An opening of a member returns its identity. -/
theorem calmly_openLocalIdentity_member (h : s.Member source identity) (rounds : Nat) :
    Calmly source (openLocalIdentity true rounds) s (.ok identity) s := by
  have hdiscover : Calmly source discoverLeaveIntent s (.ok none) s := by
    refine (calmly_snapshot s).bind ?_
    rw [h.leave]
    exact calmly_pure _ s
  exact calmly_openLocalIdentity h.toSettled (hdiscover.bind (calmly_pure _ s))

theorem calmly_beginIntent (h : s.Member source identity)
    (hencode : ∃ bytes, identity.encode = .ok bytes) (hsupplied : s.Supplied source limit)
    (hlimit : s.draws + 3 ≤ limit) :
    ∃ t, Calmly source (beginIntent identity) s (.ok (s.nextIntent source identity)) t ∧
      s.Becomes source limit 3 (fun key => if key = .leaveIntent then
        some (.leaveIntent (s.nextIntent source identity)) else s.store.lookup key) t ∧
      s.draws + 2 ≤ t.draws := by
  obtain ⟨bytes, hbytes⟩ := encode_leaveIntent hencode (source.node s.draws)
    (source.operation (s.draws + 1))
  have hexpected : ∀ id, ∀ action ∈ [StoreAction.put MetadataKey.leaveIntent none
        (MetadataRecord.leaveIntent (s.nextIntent source identity))] ++ journalAction id none,
      s.draw.draw.store.lookup action.key = action.expected := by
    simp [journalAction, StoreAction.key, StoreAction.expected, h.leave]
  obtain ⟨transaction, s₁, t, hprepare, hcommit, hbecomes⟩ := calmly_transact _ _
    hsupplied.draw.draw h.ready (show s.draws + 2 < limit by omega)
    (by simp [journalAction]) hexpected
  have hdraws : t.draws ≤ s.draws + 2 + 1 := hbecomes.draws
  refine ⟨t, ?_, ⟨hbecomes.ready, hbecomes.vault, fun key => ?_, hbecomes.supplied, ?_, hdraws⟩,
    hbecomes.drawn⟩
  · refine (calmly_generateNode s).bind ?_
    refine (calmly_generateOperation hsupplied.draw (show s.draws + 1 < limit by omega)).bind ?_
    refine .ofResult bytes hbytes ((calmly_snapshot _).bind (hprepare.bind ?_))
    exact (calmly_commitWithReconcile hcommit).bind (calmly_pure _ t)
  · rw [hbecomes.lookup]
    simp only [List.cons_append, List.nil_append, journalAction, Store.updated_cons,
      Store.updated_nil, StoreAction.key, StoreAction.result, Calm.store_draw]
    grind
  · exact (Nat.le_add_right _ 2).trans hbecomes.drawn

/-- The key of the replacement is created. -/
theorem calmly_replacementKey {intent : LeaveIntentV1}
    (hcreated : ¬ s.custody.vault.Created intent.replacementOperation) :
    Calmly source (replacementKey intent) s (.ok (source.create intent.replacementOperation))
      (s.setVault ⟨intent.replacementOperation :: s.custody.vault.requested,
        (intent.replacementOperation, source.create intent.replacementOperation) ::
          s.custody.vault.keys⟩) := by
  have habsent : Calmly source (NodeM.reconcileCreate intent.replacementOperation) s (.ok .absent)
      s := by
    show Calm.serve source (.reconcileCreate intent.replacementOperation) s = _
    simp only [Calm.serve]
    rw [List.find?_eq_none.mpr]
    intro entry hentry hkey
    apply hcreated
    refine ⟨entry.2, ?_⟩
    rw [← of_decide_eq_true hkey]
    exact hentry
  have hcreate : Calmly source (NodeM.createKey intent.replacementOperation) s
      (.ok (.present (source.create intent.replacementOperation)))
      (s.setVault ⟨intent.replacementOperation :: s.custody.vault.requested,
        (intent.replacementOperation, source.create intent.replacementOperation) ::
          s.custody.vault.keys⟩) := rfl
  exact habsent.bind (hcreate.bind ((calmly_verifyProviderKey rfl _).bind (calmly_pure _ _)))

/-- The operation of the created key was drawn before. -/
theorem Calm.Supplied.setVault (h : s.Supplied source limit) {n : Nat} (hn : n < s.draws) :
    (s.setVault ⟨source.operation n :: s.custody.vault.requested,
      (source.operation n, source.create (source.operation n)) :: s.custody.vault.keys⟩).Supplied
      source limit := by
  refine ⟨h.distinct, h.receipts, h.transactions, fun m hm hlimit => ?_⟩
  obtain ⟨hrequested, hcreated⟩ := h.operations m hm hlimit
  have hne : source.operation m ≠ source.operation n :=
    (h.distinct n m (Nat.lt_of_lt_of_le hn hm) hlimit).2.symm
  constructor
  · intro hmem
    rcases List.mem_cons.mp hmem with heq | hold
    · exact hne heq
    · exact hrequested hold
  · rintro ⟨created, hmem⟩
    rcases List.mem_cons.mp hmem with heq | hold
    · exact hne (congrArg Prod.fst heq)
    · exact hcreated ⟨created, hold⟩

theorem calmly_swapIdentity {former : LocalIdentityV1} (intent : LeaveIntentV1) (created : CreatedKey)
    (hsupplied : s.Supplied source limit) (hready : s.slot = .ready) (hlimit : s.draws < limit)
    (hstored : s.store.lookup .localIdentity = some (.localIdentity former))
    (hnode : former.node = intent.formerNode)
    (hintent : s.store.lookup (.keyDeletionIntent created.handle) = none)
    (hdeleted : s.store.lookup (.keyDeleted created.handle) = none)
    (hencode : ∃ bytes, (intent.replacement created).encode = .ok bytes) :
    ∃ t, Calmly source (swapIdentity intent created) s (.ok ()) t ∧
      s.Becomes source limit 1 (fun key => if key = .localIdentity then
        some (.localIdentity (intent.replacement created)) else s.store.lookup key) t := by
  obtain ⟨bytes, hbytes⟩ := hencode
  have hexpected : ∀ id, ∀ action ∈ (StoreAction.put MetadataKey.localIdentity
        (some (MetadataRecord.localIdentity former))
        (MetadataRecord.localIdentity (intent.replacement created)) :: reuseGuards created.handle) ++
        journalAction id none, s.store.lookup action.key = action.expected := by
    simp [journalAction, reuseGuards, StoreAction.key, StoreAction.expected, hstored, hintent, hdeleted]
  obtain ⟨transaction, s₁, t, hprepare, hcommit, hbecomes⟩ := calmly_transact _ _ hsupplied hready
    hlimit (by simp [journalAction, reuseGuards, StoreAction.key]) hexpected
  have hretired : handleRetired s.store created.handle = false := by
    simp [handleRetired, hintent, hdeleted]
  refine ⟨t, (calmly_snapshot s).bind ?_, hbecomes.congr fun key => ?_⟩
  · refine .ofResult (.localIdentity former) (Except.okOr_eq_ok.mpr hstored) ?_
    refine .ofResult former rfl (.ofResult () (Except.rejectIf_of_not _ fun h => h hnode) ?_)
    rw [hretired]
    exact .ofResult bytes hbytes
      (hprepare.bind ((calmly_commitWithReconcile hcommit).bind (calmly_pure _ t)))
  · simp only [List.cons_append, List.nil_append, journalAction, reuseGuards, Store.updated_cons,
      Store.updated_nil, StoreAction.key, StoreAction.result]
    grind

/-- The records after the swap and the wipe. -/
def Calm.leftRecords (source : CalmSource) (s : Calm) (identity : LocalIdentityV1)
    (key : MetadataKey) : Option MetadataRecord :=
  if key.family ∈ wipeNamespaces then none
  else if key = .localIdentity then some (.localIdentity (s.nextIdentity source))
  else if key = .leaveIntent then some (.leaveIntent (s.nextIntent source identity))
  else s.store.lookup key

/-- The key that the provider creates next is not in use, and its record is not too long. -/
structure Calm.Replaces (source : CalmSource) (s : Calm) (identity : LocalIdentityV1) : Prop where
  other : (s.nextIdentity source).handle ≠ identity.handle
  node : (s.nextIdentity source).node ≠ identity.node
  intent : s.store.lookup (.keyDeletionIntent (s.nextIdentity source).handle) = none
  deleted : s.store.lookup (.keyDeleted (s.nextIdentity source).handle) = none
  encodes : ∃ bytes, (s.nextIdentity source).encode = .ok bytes

/-- A leave comes as far as the deletion of the former key, whatever the handle. -/
theorem calmly_untilDeletion (h : s.Member source identity)
    (hencode : ∃ bytes, identity.encode = .ok bytes) (hnext : s.Replaces source identity)
    (hsupplied : s.Supplied source limit)
    (hrounds : ∀ family ∈ wipeNamespaces, familySize s.store family < rounds)
    (hlimit : s.draws + wipeSize s.store wipeNamespaces + 4 ≤ limit) :
    ∃ t, t.slot = .ready ∧ (∀ key, t.store.lookup key = s.leftRecords source identity key) ∧
      t.Supplied source limit ∧ t.draws ≤ s.draws + wipeSize s.store wipeNamespaces + 4 ∧
      ∀ result u, Calmly source (do
          deleteUnreferencedKey identity.handle
          completeLeave (s.nextIntent source identity)) t result u →
        Calmly source (executeLeave rounds identity) s
          (result.map fun _ => (identity.node, source.node s.draws)) u := by
  have hdiscover : Calmly source discoverLeaveIntent s (.ok none) s := by
    refine (calmly_snapshot s).bind ?_
    rw [h.leave]
    exact calmly_pure _ s
  obtain ⟨s₁, hbegin, hbecomes₁, hdrawn⟩ := calmly_beginIntent h hencode hsupplied (by omega)
  -- The key of the replacement changes the vault and nothing else.
  have hcreated : ¬ s₁.custody.vault.Created (source.operation (s.draws + 1)) := by
    rw [hbecomes₁.vault]
    exact (hsupplied.operations (s.draws + 1) (Nat.le_succ _) (by omega)).2
  have hkey : Calmly source (replacementKey (s.nextIntent source identity)) s₁
    (.ok (source.create (source.operation (s.draws + 1)))) _ := calmly_replacementKey hcreated
  have hsupplied₂ := hbecomes₁.supplied.setVault (Nat.lt_of_succ_le hdrawn)
  have hidentity : s₁.store.lookup .localIdentity = some (.localIdentity identity) := by
    rw [hbecomes₁.lookup, if_neg (by simp), h.stored]
  have hintent : s₁.store.lookup (.keyDeletionIntent (s.nextIdentity source).handle) = none := by
    rw [hbecomes₁.lookup, if_neg (by simp), hnext.intent]
  have hdeleted : s₁.store.lookup (.keyDeleted (s.nextIdentity source).handle) = none := by
    rw [hbecomes₁.lookup, if_neg (by simp), hnext.deleted]
  have hdraws₁ := hbecomes₁.draws
  obtain ⟨s₃, hswap, hbecomes₃⟩ := calmly_swapIdentity (s.nextIntent source identity)
    (source.create (source.operation (s.draws + 1))) hsupplied₂ hbecomes₁.ready
    (show s₁.draws < limit by omega) hidentity rfl hintent hdeleted hnext.encodes
  have hdraws₃ : s₃.draws ≤ s₁.draws + 1 := hbecomes₃.draws
  have hlookup₃ : ∀ key, s₃.store.lookup key = if key = .localIdentity then
      some (.localIdentity (s.nextIdentity source)) else if key = .leaveIntent then
      some (.leaveIntent (s.nextIntent source identity)) else s.store.lookup key := by
    intro key
    rw [hbecomes₃.lookup]
    by_cases hkey : key = .localIdentity
    · rw [if_pos hkey, if_pos hkey]
      rfl
    · rw [if_neg hkey, if_neg hkey]
      exact hbecomes₁.lookup key
  -- The families that are wiped are as large as at the start.
  have hsame : ∀ family ∈ wipeNamespaces, familySize s₃.store family = familySize s.store family := by
    intro family hfamily
    refine Store.length_scan_congr fun key hkey => ?_
    have hkey := of_decide_eq_true hkey
    rw [hlookup₃, if_neg, if_neg]
    · rintro rfl
      subst hkey
      revert hfamily
      decide
    · rintro rfl
      subst hkey
      revert hfamily
      decide
  have hsize : wipeSize s₃.store wipeNamespaces = wipeSize s.store wipeNamespaces := by
    unfold wipeSize
    rw [List.map_congr_left hsame]
  obtain ⟨t, hwipe, hbecomes⟩ := calmly_wipeOldMetadata (show wipeNamespaces.Nodup by decide) hbecomes₃.supplied
    hbecomes₃.ready (fun family hfamily => by
      rw [hsame family hfamily]
      exact hrounds family hfamily) (by omega)
  have hdraws := hbecomes.draws
  refine ⟨t, hbecomes.ready, fun key => ?_, hbecomes.supplied, by omega, fun result u hrest => ?_⟩
  · rw [hbecomes.lookup, hlookup₃]
    rfl
  · have hrequire : Calmly source requireLocalIdentity s₁ (.ok identity) s₁ := by
      refine (calmly_snapshot s₁).bind (.ofResult (some identity) ?_ (calmly_ofResult _ s₁))
      unfold discoverLocalIdentity
      rw [hidentity]
      rfl
    have hrun : Calmly source (runLeave rounds (s.nextIntent source identity)) s₁ result u := by
      refine hrequire.bind ?_
      dsimp only
      rw [if_pos (show identity.node = (s.nextIntent source identity).formerNode from rfl)]
      exact hkey.bind (hswap.bind (hwipe.bind hrest))
    have hexecute : Calmly source (do
        let intent ← beginIntent identity
        runLeave rounds intent
        return (intent.formerNode, intent.replacementNode)) s
        (result.map fun _ => (identity.node, source.node s.draws)) u := by
      refine hbegin.bind ?_
      cases result with
      | ok value => exact hrun.bind (calmly_pure _ u)
      | error error => exact hrun.stop
    exact hdiscover.bind hexecute

/-- Nothing of the deletion of the former key is stored yet. -/
theorem Calm.leftRecords_of_family {key : MetadataKey} (hfamily : key.family ∉ wipeNamespaces)
    (hidentity : key ≠ .localIdentity) (hleave : key ≠ .leaveIntent) :
    s.leftRecords source identity key = s.store.lookup key := by
  unfold leftRecords
  rw [if_neg hfamily, if_neg hidentity, if_neg hleave]

theorem Calm.leftRecords_localIdentity (identity : LocalIdentityV1) :
    s.leftRecords source identity .localIdentity = some (.localIdentity (s.nextIdentity source)) := by
  unfold leftRecords
  rw [if_neg (by decide), if_pos rfl]

theorem Calm.leftRecords_leaveIntent (identity : LocalIdentityV1) :
    s.leftRecords source identity .leaveIntent =
      some (.leaveIntent (s.nextIntent source identity)) := by
  unfold leftRecords
  rw [if_neg (by decide), if_neg nofun, if_pos rfl]

theorem calmly_completeLeave {intent : LeaveIntentV1} (hsupplied : s.Supplied source limit)
    (hready : s.slot = .ready) (hlimit : s.draws < limit)
    (hstored : s.store.lookup .leaveIntent = some (.leaveIntent intent)) :
    ∃ t, Calmly source (completeLeave intent) s (.ok ()) t ∧
      s.Becomes source limit 1
        (fun key => if key = .leaveIntent then none else s.store.lookup key) t := by
  obtain ⟨transaction, s₁, t, hprepare, hcommit, hbecomes⟩ := calmly_transact
    [.delete .leaveIntent (.leaveIntent intent)] none hsupplied hready hlimit
    (by simp [journalAction])
    (by simp [journalAction, StoreAction.key, StoreAction.expected, hstored])
  refine ⟨t, (calmly_snapshot s).bind (hprepare.bind ?_), hbecomes.congr fun key => ?_⟩
  · exact (calmly_commitWithReconcile hcommit).bind (calmly_pure _ t)
  · simp only [List.cons_append, List.nil_append, journalAction, Store.updated_cons,
      Store.updated_nil, StoreAction.key, StoreAction.result]
    grind

/-- The deletion of a handle that fits no purpose fails before it reads anything. -/
theorem calmly_deleteUnreferencedKey_long (hhandle : ¬ handle.asBytes.length ≤ maxDeletionHandle)
    (s : Calm) :
    Calmly source (deleteUnreferencedKey handle) s
      (.error (.invalidInput "pending transaction purpose")) s := by
  have hpurpose : validatePurpose (JournalPurpose.keyDeletion handle).text =
      .error (.invalidInput "pending transaction purpose") := by
    have hne := mt (validatePurpose_keyDeletion handle).mp hhandle
    unfold validatePurpose at hne ⊢
    split
    · rfl
    · rename_i hvalid
      exact absurd (if_neg hvalid) hne
  refine Calmly.stop ?_
  rw [hpurpose]
  exact calmly_ofResult _ s

section Leave

variable {identity : LocalIdentityV1} {rounds : Nat}

/-- What was absent is absent after the swap and the wipe. -/
theorem Calm.absent_of_leftRecords
    (hlookup : ∀ key, t.store.lookup key = s.leftRecords source identity key) {key : MetadataKey}
    (hfamily : key.family ∉ wipeNamespaces) (hidentity : key ≠ .localIdentity)
    (hleave : key ≠ .leaveIntent) (hnone : s.store.lookup key = none) :
    t.store.lookup key = none := by
  rw [hlookup, leftRecords_of_family hfamily hidentity hleave, hnone]

/-- The node that is reached holds its replacement and is settled. -/
theorem Calm.settled_of_leftRecords (h : s.Member source identity) (hready : t.slot = .ready)
    (hlookup : ∀ key, t.store.lookup key = s.leftRecords source identity key) :
    t.Settled source (s.nextIdentity source) := by
  refine ⟨hready, ?_, rfl, fun operation => ?_, ?_⟩
  · rw [hlookup, leftRecords_localIdentity]
  · exact absent_of_leftRecords hlookup (by simp [MetadataKey.family, wipeNamespaces]) nofun nofun
      (h.intents operation)
  · exact absent_of_leftRecords hlookup (by decide) nofun nofun h.pending

/-- A leave of a handle that fits a purpose completes. -/
theorem calmly_executeLeave (h : s.Member source identity)
    (hencode : ∃ bytes, identity.encode = .ok bytes) (hlive : s.Live identity.handle)
    (hnext : s.Replaces source identity) (hsupplied : s.Supplied source limit)
    (hrounds : ∀ family ∈ wipeNamespaces, familySize s.store family < rounds)
    (hlimit : s.draws + wipeSize s.store wipeNamespaces + 9 ≤ limit)
    (hhandle : identity.handle.asBytes.length ≤ maxDeletionHandle) :
    ∃ t, Calmly source (executeLeave rounds identity) s
        (.ok (identity.node, source.node s.draws)) t ∧
      t.Member source (s.nextIdentity source) := by
  obtain ⟨t, hready, hlookup, hsupplied', hdraws, hrest⟩ :=
    calmly_untilDeletion h hencode hnext hsupplied hrounds (by omega)
  have hsettled := Calm.settled_of_leftRecords h hready hlookup
  obtain ⟨operation, u, hdelete, hbecomes⟩ := calmly_deleteUnreferencedKey hhandle hsupplied' hready
    (by omega) hsettled.stored hnext.other
    (Calm.absent_of_leftRecords hlookup (by simp [MetadataKey.family, wipeNamespaces]) nofun nofun
      hlive.intent)
    (Calm.absent_of_leftRecords hlookup (by simp [MetadataKey.family, wipeNamespaces]) nofun nofun
      hlive.deleted)
    (Calm.absent_of_leftRecords hlookup (by simp [MetadataKey.family, wipeNamespaces]) nofun nofun
      hlive.pending)
  have hdraws' := hbecomes.draws
  obtain ⟨v, hcomplete, hlast⟩ := calmly_completeLeave hbecomes.supplied hbecomes.ready (by omega)
    (show u.store.lookup .leaveIntent = some (.leaveIntent (s.nextIntent source identity)) by
      rw [hbecomes.lookup, if_neg nofun, hlookup, Calm.leftRecords_leaveIntent])
  refine ⟨v, hrest (.ok ()) v (hdelete.bind hcomplete), ⟨hlast.ready, ?_, rfl, ?_, ?_⟩, ?_⟩
  · rw [hlast.lookup, if_neg nofun, hbecomes.lookup, if_neg nofun]
    exact hsettled.stored
  · intro operation'
    rw [hlast.lookup, if_neg nofun, hbecomes.lookup, if_neg nofun]
    exact hsettled.intents operation'
  · rw [hlast.lookup, if_neg nofun, hbecomes.lookup, if_neg nofun]
    exact hsettled.pending
  · rw [hlast.lookup, if_pos rfl]

/-- A leave of a longer handle fails after the swap, and so does every opening from then on. -/
theorem calmly_executeLeave_long (h : s.Member source identity)
    (hencode : ∃ bytes, identity.encode = .ok bytes) (hnext : s.Replaces source identity)
    (hsupplied : s.Supplied source limit)
    (hrounds : ∀ family ∈ wipeNamespaces, familySize s.store family < rounds)
    (hlimit : s.draws + wipeSize s.store wipeNamespaces + 9 ≤ limit)
    (hhandle : ¬ identity.handle.asBytes.length ≤ maxDeletionHandle) :
    ∃ error t u, Calmly source (executeLeave rounds identity) s (.error error) t ∧
      t.store.lookup .localIdentity = some (.localIdentity (s.nextIdentity source)) ∧
      Calmly source (openLocalIdentity true rounds) t (.error error) u := by
  obtain ⟨t, hready, hlookup, hsupplied', hdraws, hrest⟩ :=
    calmly_untilDeletion h hencode hnext hsupplied hrounds (by omega)
  have hsettled := Calm.settled_of_leftRecords h hready hlookup
  -- The wiped families are empty, so a resumed wipe has nothing to do.
  have hempty : ∀ family ∈ wipeNamespaces, familySize t.store family = 0 := by
    intro family hfamily
    unfold familySize
    rw [Store.scan_eq_nil]
    · rfl
    intro key hkey
    rw [hlookup, Calm.leftRecords, if_pos]
    rw [of_decide_eq_true hkey]
    exact hfamily
  have hsize : wipeSize t.store wipeNamespaces = 0 := by
    unfold wipeSize
    rw [List.map_congr_left hempty]
    rfl
  obtain ⟨u, hwipe, -⟩ := calmly_wipeOldMetadata (show wipeNamespaces.Nodup by decide) hsupplied'
    hready (fun family hfamily => by
      rw [hempty family hfamily]
      exact Nat.lt_of_le_of_lt (Nat.zero_le _) (hrounds family hfamily)) (by omega)
  have hfails : ∀ t, Calmly source (do
      deleteUnreferencedKey identity.handle
      completeLeave (s.nextIntent source identity)) t
      (.error (.invalidInput "pending transaction purpose")) t := fun t =>
    (calmly_deleteUnreferencedKey_long hhandle t).stop
  refine ⟨_, t, u, hrest (.error _) t (hfails t), hsettled.stored, ?_⟩
  have hdiscover : Calmly source discoverLeaveIntent t
      (.ok (some (s.nextIntent source identity))) t := by
    refine (calmly_snapshot t).bind ?_
    rw [hlookup, Calm.leftRecords_leaveIntent]
    exact .ofResult _ rfl (calmly_pure _ t)
  have hrequire : Calmly source requireLocalIdentity t (.ok (s.nextIdentity source)) t := by
    refine (calmly_snapshot t).bind (.ofResult (some (s.nextIdentity source)) ?_ (calmly_ofResult _ t))
    unfold discoverLocalIdentity
    rw [hsettled.stored]
    rfl
  have hrun : Calmly source (runLeave rounds (s.nextIntent source identity)) t
      (.error (.invalidInput "pending transaction purpose")) u := by
    refine hrequire.bind ?_
    dsimp only
    rw [if_neg (show (s.nextIdentity source).node ≠ (s.nextIntent source identity).formerNode from
      hnext.node), if_neg (show ¬ (s.nextIdentity source).node ≠
      (s.nextIntent source identity).replacementNode from fun h => h rfl)]
    exact hwipe.bind (hfails u)
  exact calmly_openLocalIdentity hsettled (hdiscover.bind hrun.stop)

/-- Without faults, a leave completes and the node opens again exactly if the handle of the former
    key has 58 bytes at most. For a longer handle, which the record of an identity and the intent of a
    leave still hold, it fails after the swap, and so does every opening from then on. -/
theorem leave_completes_iff_handle (h : s.Member source identity)
    (hencode : ∃ bytes, identity.encode = .ok bytes) (hlive : s.Live identity.handle)
    (hnext : s.Replaces source identity) (hsupplied : s.Supplied source limit)
    (hrounds : ∀ family ∈ wipeNamespaces, familySize s.store family < rounds)
    (hlimit : s.draws + wipeSize s.store wipeNamespaces + 9 ≤ limit) :
    Calmly source (openLocalIdentity true rounds) s (.ok identity) s ∧
    ((∃ outcome t replacement u, Calmly source (executeLeave rounds identity) s (.ok outcome) t ∧
        Calmly source (openLocalIdentity true rounds) t (.ok replacement) u) ↔
      identity.handle.asBytes.length ≤ maxDeletionHandle) ∧
    (¬ identity.handle.asBytes.length ≤ maxDeletionHandle → ∃ error t u,
      Calmly source (executeLeave rounds identity) s (.error error) t ∧
      t.store.lookup .localIdentity = some (.localIdentity (s.nextIdentity source)) ∧
      Calmly source (openLocalIdentity true rounds) t (.error error) u) := by
  have hlong := calmly_executeLeave_long h hencode hnext hsupplied hrounds hlimit
  refine ⟨calmly_openLocalIdentity_member h rounds, ⟨?_, ?_⟩, hlong⟩
  · rintro ⟨outcome, t, replacement, u, hleave, -⟩
    by_contra hhandle
    obtain ⟨error, t', u', hfails, -, -⟩ := hlong hhandle
    unfold Calmly at hleave hfails
    rw [hleave] at hfails
    cases hfails
  · intro hhandle
    obtain ⟨t, hleave, hmember⟩ :=
      calmly_executeLeave h hencode hlive hnext hsupplied hrounds hlimit hhandle
    exact ⟨_, t, _, t, hleave, calmly_openLocalIdentity_member hmember rounds⟩

end Leave

/-! ### Sample leaves -/

/-- Ids with a letter that counts. -/
def letterSuffix (n : Nat) : Bytes := List.replicate 20 0x30 ++ [0x61 + UInt8.ofNat (n % 26)]

def letterTransaction (n : Nat) : TransactionId where
  asStr := transactionPrefix ++ letterSuffix n
  valid := by
    have hlt : n % 26 < 26 := Nat.mod_lt _ (by decide)
    unfold letterSuffix
    generalize n % 26 = k at hlt
    revert k
    decide

def letterOperation (n : Nat) : KeyOperationId where
  asStr := keyOperationPrefix ++ letterSuffix n
  valid := by
    have hlt : n % 26 < 26 := Nat.mod_lt _ (by decide)
    unfold letterSuffix
    generalize n % 26 = k at hlt
    revert k
    decide

theorem letters_distinct : ∀ n < 12, ∀ m < n, letterTransaction m ≠ letterTransaction n ∧
    letterOperation m ≠ letterOperation n := by decide +kernel

/-- The node id and the key of the replacement are new. -/
def letterSource : CalmSource where
  node := fun _ => sampleSubject
  operation := letterOperation
  transaction := letterTransaction
  handle := fun _ => .ofByte 2
  key := fun _ => sampleIssuer.publicKey
  sign := fun _ _ => .fill 0

/-- A store that holds an identity. -/
def identityStore (identity : LocalIdentityV1) : RecordStore :=
  ⟨0, (∅ : AList fun _ : MetadataKey => MetadataRecord).insert .localIdentity
    (.localIdentity identity)⟩

def calmOf (store : RecordStore) : Calm := ⟨⟨⟨.ready, ⟨store, [], []⟩⟩, ⟨[], []⟩⟩, [], 0⟩

theorem supplied_calmOf (store : RecordStore) : (calmOf store).Supplied letterSource 12 := by
  refine ⟨fun m n hmn hn => letters_distinct n hn m hmn, nofun, nofun, fun n _ _ => ⟨nofun, ?_⟩⟩
  rintro ⟨created, hmem⟩
  cases hmem

theorem member_calmOf (identity : LocalIdentityV1)
    (hkey : sampleIssuer.publicKey = identity.publicKey) :
    (calmOf (identityStore identity)).Member letterSource identity := by
  refine ⟨⟨rfl, ?_, hkey, fun operation => ?_, ?_⟩, ?_⟩
  · exact AList.lookup_insert _
  · exact AList.lookup_insert_ne nofun
  · exact AList.lookup_insert_ne nofun
  · exact AList.lookup_insert_ne nofun

theorem live_calmOf (identity : LocalIdentityV1) (handle : KeyHandle) :
    (calmOf (identityStore identity)).Live handle :=
  ⟨AList.lookup_insert_ne nofun, AList.lookup_insert_ne nofun, AList.lookup_insert_ne nofun⟩

theorem replaces_calmOf (hhandle : identity.handle ≠ ⟨[2], by decide⟩)
    (hnode : identity.node ≠ sampleSubject) :
    (calmOf (identityStore identity)).Replaces letterSource identity := by
  refine ⟨hhandle.symm, hnode.symm, AList.lookup_insert_ne nofun, AList.lookup_insert_ne nofun, ?_⟩
  rw [encode_localIdentity, size_localIdentity]
  exact Nat.le_of_ble_eq_true rfl

theorem wipeSize_calmOf (identity : LocalIdentityV1) :
    (∀ family ∈ wipeNamespaces, familySize (calmOf (identityStore identity)).store family < 1) ∧
      wipeSize (calmOf (identityStore identity)).store wipeNamespaces = 0 := by
  have hempty : ∀ family ∈ wipeNamespaces,
      familySize (calmOf (identityStore identity)).store family = 0 := by
    intro family hfamily
    unfold familySize
    rw [Store.scan_eq_nil]
    · rfl
    intro key hkey
    refine AList.lookup_insert_ne ?_
    rintro rfl
    rw [← of_decide_eq_true hkey] at hfamily
    revert hfamily
    decide
  refine ⟨fun family hfamily => by rw [hempty family hfamily]; decide, ?_⟩
  unfold wipeSize
  rw [List.map_congr_left hempty]
  rfl

/-- The store also holds the binding of another node. -/
def leavingStore : RecordStore :=
  ⟨0, (identityStore sampleIssuer).entries.insert (.identityBinding sampleSubject)
    (.identityBinding ⟨sampleSubject, sampleIssuer.publicKey⟩)⟩

theorem lookup_leavingStore {key : MetadataKey} {value : Option MetadataRecord}
    (hlookup : (identityStore sampleIssuer).lookup key = value)
    (h : key ≠ .identityBinding sampleSubject) : leavingStore.lookup key = value :=
  (AList.lookup_insert_ne h).trans hlookup

/-- A leave with a handle of one byte and a record to wipe. -/
theorem sampleIssuer_leaves : wipeSize leavingStore wipeNamespaces = 1 ∧ ∃ outcome t replacement u,
    Calmly letterSource (executeLeave 2 sampleIssuer) (calmOf leavingStore) (.ok outcome) t ∧
      Calmly letterSource (openLocalIdentity true 2) t (.ok replacement) u := by
  have hencode : ∃ bytes, sampleIssuer.encode = .ok bytes := by
    rw [encode_localIdentity, size_localIdentity]
    decide
  obtain ⟨hsettled, hleave⟩ := member_calmOf sampleIssuer rfl
  have hmember : (calmOf leavingStore).Member letterSource sampleIssuer :=
    ⟨⟨rfl, lookup_leavingStore hsettled.stored nofun, rfl,
      fun operation => lookup_leavingStore (hsettled.intents operation) nofun,
      lookup_leavingStore hsettled.pending nofun⟩, lookup_leavingStore hleave nofun⟩
  have hfree := live_calmOf sampleIssuer sampleIssuer.handle
  have hlive : (calmOf leavingStore).Live sampleIssuer.handle :=
    ⟨lookup_leavingStore hfree.intent nofun, lookup_leavingStore hfree.deleted nofun,
      lookup_leavingStore hfree.pending nofun⟩
  have hunused := @replaces_calmOf sampleIssuer (by decide) (by decide)
  have hnext : (calmOf leavingStore).Replaces letterSource sampleIssuer :=
    ⟨hunused.other, hunused.node, lookup_leavingStore hunused.intent nofun,
      lookup_leavingStore hunused.deleted nofun, hunused.encodes⟩
  have hsize : wipeSize leavingStore wipeNamespaces = 1 := by decide
  have hrounds : ∀ family ∈ wipeNamespaces, familySize leavingStore family < 2 := by decide
  refine ⟨hsize, (leave_completes_iff_handle hmember hencode hlive hnext (supplied_calmOf _) hrounds
    ?_).2.1.mpr (by decide)⟩
  show 0 + wipeSize leavingStore wipeNamespaces + 9 ≤ 12
  rw [hsize]
  decide

/-- A handle of 59 bytes. -/
def longIdentity : LocalIdentityV1 :=
  { sampleIssuer with handle := ⟨List.replicate 59 1, by decide⟩ }

/-- The identity with the longer handle can be opened and not left: the leave fails after the swap,
    and so does the next opening. -/
theorem longIdentity_stuck :
    Calmly letterSource (openLocalIdentity true 1) (calmOf (identityStore longIdentity))
      (.ok longIdentity) (calmOf (identityStore longIdentity)) ∧
    ∃ error t u,
      Calmly letterSource (executeLeave 1 longIdentity) (calmOf (identityStore longIdentity))
        (.error error) t ∧
      t.store.lookup .localIdentity = some (.localIdentity
        ((calmOf (identityStore longIdentity)).nextIdentity letterSource)) ∧
      Calmly letterSource (openLocalIdentity true 1) t (.error error) u := by
  have hmember : (calmOf (identityStore longIdentity)).Member letterSource longIdentity :=
    member_calmOf _ rfl
  have hencode : ∃ bytes, longIdentity.encode = .ok bytes := by
    rw [encode_localIdentity, size_localIdentity]
    decide
  obtain ⟨hrounds, hsize⟩ := wipeSize_calmOf longIdentity
  refine ⟨calmly_openLocalIdentity_member hmember 1, calmly_executeLeave_long hmember hencode
    (replaces_calmOf (by decide) (by decide)) (supplied_calmOf _) hrounds ?_ (by decide)⟩
  rw [hsize]
  decide

end Radiata
