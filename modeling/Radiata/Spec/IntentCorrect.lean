import Radiata.Native.Intent
import Radiata.Spec.PendingCorrect

/-!
# What a stored intent recovers

Recovery rebuilds the put of the intent, its receipt reference and the used-id marker. The commit
of a creation has exactly these operations. The commit of a deletion has a check of the local
identity in front of them if there is one.

## Key results

- `CreationIntent.decode_encode`, `DeletionIntent.decode_encode`
- `prepareSelfReferenced_eq_ok`: the operations of a transaction with one reference to itself
- `intent_recovery_iff`: when an intent recovers the identity of its transaction
-/

namespace Radiata

open Reader

/-! ## The codecs -/

theorem KeyCreationIntentWire.reads_encode {wire : KeyCreationIntentWire}
    (h : wire.encode.length < 2 ^ 64) (hschema : wire.schema.isUtf8 = true)
    (hoperation : wire.operation.isUtf8 = true) (hnode : wire.intendedNode.isUtf8 = true)
    (hpurpose : wire.purpose.isUtf8 = true) (halgorithm : wire.algorithm.isUtf8 = true)
    (htransaction : wire.transaction.isUtf8 = true) :
    Reads KeyCreationIntentWire.decode wire.encode wire := by
  simp only [encode, Cbor.encodeStr, Cbor.encodeBytes, List.length_append] at h
  simp only [encode, List.append_assoc]
  refine (Cbor.reads_array (by omega)).bind ?_
  refine (Cbor.reads_str (by omega) hschema).bind ?_
  refine (Cbor.reads_u64 wire.recordVersion).bind ?_
  refine (Cbor.reads_str (by omega) hoperation).bind ?_
  refine (Cbor.reads_str (by omega) hnode).bind ?_
  refine (Cbor.reads_str (by omega) hpurpose).bind ?_
  refine (Cbor.reads_str (by omega) halgorithm).bind ?_
  refine (Cbor.reads_str (by omega) htransaction).bind ?_
  refine (Cbor.reads_bytes (by omega)).bind_nil ?_
  refine Cbor.reads_skip_zero.bind_nil ?_
  exact Reads.pure _

theorem KeyDeletionIntentWire.reads_encode {wire : KeyDeletionIntentWire}
    (h : wire.encode.length < 2 ^ 64) (hschema : wire.schema.isUtf8 = true)
    (hoperation : wire.operation.isUtf8 = true) (hpurpose : wire.purpose.isUtf8 = true)
    (htransaction : wire.transaction.isUtf8 = true) :
    Reads KeyDeletionIntentWire.decode wire.encode wire := by
  simp only [encode, Cbor.encodeStr, Cbor.encodeBytes, List.length_append] at h
  simp only [encode, List.append_assoc]
  refine (Cbor.reads_array (by omega)).bind ?_
  refine (Cbor.reads_str (by omega) hschema).bind ?_
  refine (Cbor.reads_u64 wire.recordVersion).bind ?_
  refine (Cbor.reads_str (by omega) hoperation).bind ?_
  refine (Cbor.reads_bytes (by omega)).bind ?_
  refine (Cbor.reads_str (by omega) hpurpose).bind ?_
  refine (Cbor.reads_str (by omega) htransaction).bind ?_
  refine (Cbor.reads_bytes (by omega)).bind_nil ?_
  refine Cbor.reads_skip_zero.bind_nil ?_
  exact Reads.pure _

/-- The constant texts of the records are ASCII. -/
theorem isUtf8_intent_texts : keyCreationIntentSchema.isUtf8 = true ∧
    keyDeletionIntentSchema.isUtf8 = true ∧ ed25519Algorithm.isUtf8 = true :=
  ⟨Bytes.Ascii.isUtf8 (.of_all (by decide)), Bytes.Ascii.isUtf8 (.of_all (by decide)),
    Bytes.Ascii.isUtf8 (.of_all (by decide))⟩

theorem KeyOperationId.isUtf8 (operation : KeyOperationId) : operation.asStr.isUtf8 = true :=
  (CanonicalId.ascii (.of_all (by decide)) operation).isUtf8

theorem length_lt_of_encodeCanonical {α : Type} {codec : CborCodec α} {value : α} {bytes : Bytes}
    (h : encodeCanonical codec value identityRecordLimits = .ok bytes) :
    (codec.encode value).length < 2 ^ 64 := by
  obtain ⟨hbytes, hlength, -⟩ := encodeCanonical_eq_ok h
  rw [hbytes] at hlength
  exact Nat.lt_of_le_of_lt hlength (by decide)

variable {transaction : TransactionId} {baseRevision : StoreRevision}

theorem CreationIntent.new_eq_ok {operation : KeyOperationId} {node : NodeId} {purpose : Bytes}
    {intent : CreationIntent}
    (h : new operation node purpose transaction baseRevision = .ok intent) :
    intent.operation = operation ∧ intent.transaction = transaction ∧
      intent.baseRevision = baseRevision := by
  simp only [new] at h
  split at h
  · cases h
  · cases h
    exact ⟨rfl, rfl, rfl⟩

theorem CreationIntent.new_self (intent : CreationIntent) :
    new intent.operation intent.intendedNode intent.purpose intent.transaction
      intent.baseRevision = .ok intent := by
  simp only [new]
  split
  · rename_i hpurpose
    rw [intent.purposeValid] at hpurpose
    cases hpurpose
  · rfl

/-- An encoded creation intent decodes to itself. -/
theorem CreationIntent.decode_encode {intent : CreationIntent} {bytes : Bytes}
    (h : intent.encode = .ok bytes) : decode bytes = .ok intent := by
  have hreads : Reads KeyCreationIntentWire.codec.decode
      (KeyCreationIntentWire.codec.encode intent.toWire) intent.toWire :=
    KeyCreationIntentWire.reads_encode (length_lt_of_encodeCanonical h)
      isUtf8_intent_texts.1 (KeyOperationId.isUtf8 intent.operation)
      intent.intendedNode.ascii.isUtf8 (ascii_of_validatePurpose intent.purposeValid).isUtf8
      isUtf8_intent_texts.2.2 intent.transaction.ascii.isUtf8
  rw [decode, decodeStrict_of_encodeCanonical _ hreads h, Result.ok_bind, ofWire]
  simp only [toWire, ne_eq, not_true_eq_false, not_false_eq_true, Except.rejectIf_of_not,
    Result.ok_bind, CanonicalId.parse_asStr, StoreRevision.new_asBytes]
  exact intent.new_self

theorem DeletionIntent.new_eq_ok {operation : KeyOperationId} {handle : KeyHandle}
    {purpose : Bytes} {intent : DeletionIntent}
    (h : new operation handle purpose transaction baseRevision = .ok intent) :
    intent.handle = handle ∧ intent.transaction = transaction ∧
      intent.baseRevision = baseRevision := by
  simp only [new] at h
  split at h
  · cases h
  · cases h
    exact ⟨rfl, rfl, rfl⟩

theorem DeletionIntent.new_self (intent : DeletionIntent) :
    new intent.operation intent.handle intent.purpose intent.transaction
      intent.baseRevision = .ok intent := by
  simp only [new]
  split
  · rename_i hpurpose
    rw [intent.purposeValid] at hpurpose
    cases hpurpose
  · rfl

theorem KeyHandle.fromProviderBytes_asBytes (handle : KeyHandle) :
    fromProviderBytes handle.asBytes = .ok handle := by
  rw [fromProviderBytes, dif_neg handle.nonempty]

/-- An encoded deletion intent decodes to itself. -/
theorem DeletionIntent.decode_encode {intent : DeletionIntent} {bytes : Bytes}
    (h : intent.encode = .ok bytes) : decode bytes = .ok intent := by
  have hreads : Reads KeyDeletionIntentWire.codec.decode
      (KeyDeletionIntentWire.codec.encode intent.toWire) intent.toWire :=
    KeyDeletionIntentWire.reads_encode (length_lt_of_encodeCanonical h)
      isUtf8_intent_texts.2.1 (KeyOperationId.isUtf8 intent.operation)
      (ascii_of_validatePurpose intent.purposeValid).isUtf8 intent.transaction.ascii.isUtf8
  rw [decode, decodeStrict_of_encodeCanonical _ hreads h, Result.ok_bind, ofWire]
  simp only [toWire, ne_eq, not_true_eq_false, not_false_eq_true, Except.rejectIf_of_not,
    Result.ok_bind, CanonicalId.parse_asStr, StoreRevision.new_asBytes,
    KeyHandle.fromProviderBytes_asBytes]
  exact intent.new_self

/-! ## Transactions with one reference to themselves -/

section SelfReference

variable [DnsName]

/-- The operations of the reference that a transaction adds to itself. -/
def selfReference (internal : StoreNamespace) (id : TransactionId) (token : ReceiptReferenceToken) :
    List StoreOperation :=
  [.put internal (referenceHeadKey id) .absent (encodeReferenceCount 1),
    .put internal (referenceEdgeKey id token) .absent ⟨[]⟩]

theorem u64TryFrom_one : u64TryFrom 1 = some 1 := by decide

variable {prepared : PreparedTransaction}

variable {snapshot : StoreSnapshot} {id : TransactionId} {callerOperations : List StoreOperation}
  {token : ReceiptReferenceToken}

/-- What `prepare_transaction_with_receipt_changes` makes of one self reference. -/
theorem prepareSelfReferenced_eq_ok
    (h : prepareTransactionWithReceiptChanges snapshot id callerOperations [.addSelf [token]] =
      .ok prepared) :
    callerOperations.any operationUsesReservedNamespace = false ∧
    ∃ internal, internalNamespace = .ok internal ∧
      prepareInternalTransaction id snapshot.revision
        (callerOperations ++ selfReference internal id token) = .ok prepared := by
  simp only [prepareTransactionWithReceiptChanges] at h
  split at h
  · cases h
  rename_i hreserved
  obtain ⟨internal, hinternal, h⟩ := Result.bind_eq_ok.mp h
  have hgroups : groupReceiptChanges id [.addSelf [token]] = .ok [⟨none, false, [token]⟩] := by
    simp [groupReceiptChanges, groupReceiptChange, ReceiptReferenceChange.toGroup, insertTokens]
  rw [hgroups, Result.ok_bind] at h
  obtain ⟨built, hbuilt, h⟩ := Result.bind_eq_ok.mp h
  -- One group, whose operations do not depend on the snapshot.
  have hoperations : built = selfReference internal id token := by
    obtain ⟨groups, hgroup, hbuilt⟩ := Result.bind_eq_ok.mp hbuilt
    rw [List.mapM_cons, List.mapM_nil] at hgroup
    obtain ⟨operations, hoperations, hgroup⟩ := Result.bind_eq_ok.mp hgroup
    cases hgroup
    cases hbuilt
    simp only [buildReceiptChangeOperations, List.length_singleton, u64TryFrom_one,
      buildSelfReferenceOperations] at hoperations
    split at hoperations
    · cases hoperations
    obtain ⟨count, -, hoperations⟩ := Result.bind_eq_ok.mp hoperations
    split at hoperations
    · cases hoperations
    cases hoperations
    simp [selfReference]
  rw [hoperations] at h
  exact ⟨by simpa using hreserved, internal, hinternal, h⟩

variable {baseRevision : StoreRevision}

/-- Recovery prepares the given operations with the self reference. -/
theorem recoverSelfReferenced_eq {internal : StoreNamespace}
    (hinternal : internalNamespace = .ok internal)
    (hreserved : callerOperations.any operationUsesReservedNamespace = false) :
    recoverSelfReferencedTransaction id baseRevision callerOperations [token] =
      (prepareInternalTransaction id baseRevision
        (callerOperations ++ selfReference internal id token)).map
          fun prepared => ⟨id, prepared.transaction.operationDigest⟩ := by
  simp only [recoverSelfReferencedTransaction, List.isEmpty_cons, hreserved, Bool.false_eq_true,
    not_false_eq_true, Except.rejectIf_of_not, Result.ok_bind, hinternal, List.length_singleton,
    u64TryFrom_one, List.map_cons, List.map_nil, selfReference]
  cases prepareInternalTransaction id baseRevision _ <;> rfl

/-! ## Recovery -/

theorem storeOperationsPreimage_cons_ne (baseRevision : StoreRevision) (operation : StoreOperation)
    (operations : List StoreOperation) (h : operations.length + 1 < 256 ^ 16) :
    storeOperationsPreimage baseRevision (operation :: operations) ≠
      storeOperationsPreimage baseRevision operations := by
  intro heq
  simp only [storeOperationsPreimage, List.append_assoc] at heq
  -- The number of operations is written in front of them.
  have hrest := List.append_cancel_left (List.append_cancel_left heq)
  have hcount := (List.append_inj hrest (by simp [updateLength, Bytes.length_toBE])).1
  have hlength := Bytes.toBE_inj h (by omega) hcount
  omega

/-- A sublist of the operations of a transaction makes a transaction as well. -/
theorem prepareInternalTransaction_of_sublist {operations fewer : List StoreOperation}
    {internal : StoreNamespace} (hinternal : internalNamespace = .ok internal)
    (h : prepareInternalTransaction id baseRevision operations = .ok prepared)
    (hfewer : fewer.Sublist operations) :
    prepareInternalTransaction id baseRevision fewer =
      .ok ⟨⟨id, digestStoreOperations baseRevision (fewer ++ [putMarker internal id]), baseRevision,
        fewer ++ [putMarker internal id]⟩⟩ := by
  obtain ⟨internal', hinternal', hnodup, -⟩ := prepareInternalTransaction_eq_ok h
  obtain rfl : internal = internal' := Except.ok.inj (hinternal.symm.trans hinternal')
  have hsublist := (hfewer.append_right [putMarker internal id]).map StoreOperation.identity
  have hnew : StoreTransaction.new id baseRevision (fewer ++ [putMarker internal id]) = .ok _ :=
    StoreTransaction.new_eq_ok.mpr ⟨by simp, hnodup.sublist hsublist, rfl⟩
  rw [putMarker] at hnew
  rw [prepareInternalTransaction, hinternal, Result.ok_bind, hnew]
  rfl

/-- Two texts with the same digest. -/
def Collide (a b : Bytes) : Prop := a ≠ b ∧ sha256 a = sha256 b

theorem createIntent_recovers {operation : KeyOperationId} {node : NodeId}
    {transaction : TransactionId} {value : StoreValue}
    (h : createIntent snapshot operation node transaction = .ok (value, prepared)) :
    ∃ intent, CreationIntent.decode value.asBytes = .ok intent ∧
      intent.recoveryIdentity value =
        .ok ⟨prepared.transaction.id, prepared.transaction.operationDigest⟩ := by
  obtain ⟨intent, hintent, h⟩ := Result.bind_eq_ok.mp h
  obtain ⟨-, -, hrevision⟩ := CreationIntent.new_eq_ok hintent
  obtain ⟨bytes, hbytes, h⟩ := Result.bind_eq_ok.mp h
  obtain ⟨key, hkey, h⟩ := Result.bind_eq_ok.mp h
  obtain ⟨committed, hprepared, h⟩ := Result.bind_eq_ok.mp h
  cases h
  obtain ⟨hreserved, internal, hinternal, hprepare⟩ := prepareSelfReferenced_eq_ok hprepared
  refine ⟨intent, CreationIntent.decode_encode hbytes, ?_⟩
  rw [CreationIntent.recoveryIdentity, hkey, Result.ok_bind,
    recoverSelfReferenced_eq hinternal hreserved, hrevision, hprepare]
  obtain ⟨_, _, _, htransaction⟩ := prepareInternalTransaction_eq_ok hprepare
  rw [htransaction]
  simp [Except.map, htransaction]

/-- Recovery of a deletion intent rebuilds the operations without the check of the local
    identity. -/
theorem deleteIntent_recovers {operation : KeyOperationId} {handle : KeyHandle}
    {value : StoreValue} {localKey : EntryKey} (hlocal : localIdentityKey = .ok localKey)
    (h : deleteIntent snapshot operation handle id = .ok (value, prepared)) :
    ∃ intent rebuilt guard, DeletionIntent.decode value.asBytes = .ok intent ∧
      prepared.transaction.operations = guard ++ rebuilt ∧
      prepared.transaction.operationDigest =
        digestStoreOperations snapshot.revision (guard ++ rebuilt) ∧
      (guard = [] ↔ snapshot.get localKey.namespaceTag localKey.key = none) ∧ guard.length ≤ 1 ∧
      rebuilt.length = 4 ∧
      intent.recoveryIdentity value =
        .ok ⟨prepared.transaction.id, digestStoreOperations snapshot.revision rebuilt⟩ := by
  obtain ⟨key, hkey, h⟩ := Result.bind_eq_ok.mp h
  obtain ⟨intent, hintent, h⟩ := Result.bind_eq_ok.mp h
  obtain ⟨hhandle, htransaction, hrevision⟩ := DeletionIntent.new_eq_ok hintent
  obtain ⟨bytes, hbytes, h⟩ := Result.bind_eq_ok.mp h
  obtain ⟨guard, hguard, h⟩ := Result.bind_eq_ok.mp h
  obtain ⟨committed, hprepared, h⟩ := Result.bind_eq_ok.mp h
  cases h
  rw [localIdentityGuard, hlocal, Result.ok_bind] at hguard
  cases hguard
  obtain ⟨hreserved, internal, hinternal, hprepare⟩ := prepareSelfReferenced_eq_ok hprepared
  generalize hguard : ((snapshot.get localKey.namespaceTag localKey.key).map fun stored =>
    StoreOperation.check localKey.namespaceTag localKey.key (.exact stored.digest)).toList = guard
    at hreserved hprepare
  have hown : [StoreOperation.put key.namespaceTag key.key .absent ⟨bytes⟩].any
      operationUsesReservedNamespace = false := by
    rw [List.any_append, Bool.or_eq_false_iff] at hreserved
    exact hreserved.2
  rw [List.append_assoc] at hprepare
  obtain ⟨other, hother, -, hcommitted⟩ := prepareInternalTransaction_eq_ok hprepare
  obtain rfl : internal = other := Except.ok.inj (hinternal.symm.trans hother)
  have hrebuilt := prepareInternalTransaction_of_sublist hinternal hprepare
    (List.sublist_append_right guard _)
  refine ⟨intent, [.put key.namespaceTag key.key .absent ⟨bytes⟩] ++ selfReference internal
    intent.transaction (.forRecord key.namespaceTag key.key) ++ [putMarker internal
    intent.transaction], guard, DeletionIntent.decode_encode hbytes, ?_, ?_, ?_, ?_, rfl, ?_⟩
  · rw [hcommitted, List.append_assoc guard]
  · rw [hcommitted, List.append_assoc guard]
  · rw [← hguard]
    cases snapshot.get localKey.namespaceTag localKey.key <;> simp
  · rw [← hguard]
    cases snapshot.get localKey.namespaceTag localKey.key <;> simp
  · rw [DeletionIntent.recoveryIdentity, hhandle, hkey, Result.ok_bind,
      recoverSelfReferenced_eq hinternal hown, hrevision, hrebuilt, hcommitted]
    rfl

/-- For every state of the store: a committed creation intent recovers the identity of its
    transaction. A committed deletion intent does so exactly if the snapshot had no local identity,
    or if the operations with and without the check of it have the same digest. -/
theorem intent_recovery_iff {localKey : EntryKey} (hlocal : localIdentityKey = .ok localKey) :
    (∀ snapshot operation node id value prepared,
      createIntent snapshot operation node id = .ok (value, prepared) →
      ∃ intent, CreationIntent.decode value.asBytes = .ok intent ∧ intent.recoveryIdentity value =
        .ok ⟨prepared.transaction.id, prepared.transaction.operationDigest⟩) ∧
    ∀ snapshot operation handle id value prepared,
      deleteIntent snapshot operation handle id = .ok (value, prepared) →
      ∃ intent, DeletionIntent.decode value.asBytes = .ok intent ∧
        (intent.recoveryIdentity value =
            .ok ⟨prepared.transaction.id, prepared.transaction.operationDigest⟩ ↔
          snapshot.get localKey.namespaceTag localKey.key = none ∨
            Collide (storeOperationsPreimage snapshot.revision prepared.transaction.operations)
              (storeOperationsPreimage snapshot.revision
                prepared.transaction.operations.tail)) := by
  constructor
  · intro snapshot operation node id value prepared h
    exact createIntent_recovers h
  · intro snapshot operation handle id value prepared h
    obtain ⟨intent, rebuilt, guard, hdecode, hoperations, hdigest, hguard, hshort, hlength,
      hrecovery⟩ := deleteIntent_recovers hlocal h
    refine ⟨intent, hdecode, ?_⟩
    rw [hrecovery, hdigest, hoperations, ← hguard]
    cases guard with
    | nil => simp
    | cons check rest =>
      -- The digests are of different texts.
      have hrest : rest = [] := by
        rw [List.length_cons] at hshort
        exact List.eq_nil_of_length_eq_zero (by omega)
      have hne := storeOperationsPreimage_cons_ne snapshot.revision check rebuilt
        (by rw [hlength]; decide)
      rw [hrest, List.singleton_append, List.tail_cons]
      constructor
      · intro heq
        right
        refine ⟨hne, ?_⟩
        have hidentity := congrArg ReceiptIdentity.operationDigest (Except.ok.inj heq)
        exact hidentity.symm
      · intro hcollide
        cases hcollide with
        | inl hnil => cases hnil
        | inr hcollide =>
          rw [digestStoreOperations, digestStoreOperations, hcollide.2]

end SelfReference

/-! ## A deletion beside an identity -/

/-- The identity of a node whose other key is deleted. -/
def pinnedIdentity : LocalIdentityV1 where
  node := .ofDigits 0 1
  publicKey := .fill 7
  operation := .ofDigits 0 0
  handle := .ofByte 1

def deletedHandle : KeyHandle := ⟨[2], by decide⟩

/-- Without a local identity both intents recover their transactions. -/
theorem fresh_intents_recover :
    letI := DnsName.hostNames
    (∃ value prepared intent, createIntent emptySnapshot pinnedIdentity.operation
        pinnedIdentity.node default = .ok (value, prepared) ∧
      CreationIntent.decode value.asBytes = .ok intent ∧ intent.recoveryIdentity value =
        .ok ⟨prepared.transaction.id, prepared.transaction.operationDigest⟩) ∧
    ∃ value prepared intent, deleteIntent emptySnapshot pinnedIdentity.operation deletedHandle
        default = .ok (value, prepared) ∧
      DeletionIntent.decode value.asBytes = .ok intent ∧ intent.recoveryIdentity value =
        .ok ⟨prepared.transaction.id, prepared.transaction.operationDigest⟩ := by
  let _ := DnsName.hostNames
  obtain ⟨key, hkey⟩ : ∃ key, localIdentityKey = .ok key :=
    Result.exists_of_isSome_toOption (by decide)
  obtain ⟨⟨value, prepared⟩, hcreate⟩ : ∃ committed, createIntent emptySnapshot
      pinnedIdentity.operation pinnedIdentity.node default = .ok committed :=
    Result.exists_of_isSome_toOption (by decide +kernel)
  obtain ⟨⟨value', prepared'⟩, hdelete⟩ : ∃ committed, deleteIntent emptySnapshot
      pinnedIdentity.operation deletedHandle default = .ok committed :=
    Result.exists_of_isSome_toOption (by decide +kernel)
  obtain ⟨intent, hintent⟩ := (intent_recovery_iff hkey).1 _ _ _ _ _ _ hcreate
  obtain ⟨intent', hdecode', hintent'⟩ := (intent_recovery_iff hkey).2 _ _ _ _ _ _ hdelete
  exact ⟨⟨value, prepared, intent, hcreate, hintent⟩,
    value', prepared', intent', hdelete, hdecode', hintent'.mpr (Or.inl rfl)⟩

/-- With a local identity the intent of a deletion recovers another digest. -/
theorem pinned_intent_lost :
    letI := DnsName.hostNames
    ∃ key identity value prepared intent recovered, localIdentityKey = .ok key ∧
      pinnedIdentity.encode = .ok identity ∧
      deleteIntent ⟨.ofGeneration 0, SortedMap.empty.insert key ⟨identity⟩⟩
        pinnedIdentity.operation deletedHandle default = .ok (value, prepared) ∧
      DeletionIntent.decode value.asBytes = .ok intent ∧
      intent.recoveryIdentity value = .ok recovered ∧
      recovered ≠ ⟨prepared.transaction.id, prepared.transaction.operationDigest⟩ := by
  let _ := DnsName.hostNames
  obtain ⟨_, h⟩ := Result.exists_of_isSome_toOption (r := do
    let key ← localIdentityKey
    let identity ← pinnedIdentity.encode
    let committed ← deleteIntent ⟨.ofGeneration 0, SortedMap.empty.insert key ⟨identity⟩⟩
      pinnedIdentity.operation deletedHandle default
    let intent ← DeletionIntent.decode committed.1.asBytes
    let recovered ← intent.recoveryIdentity committed.1
    Except.rejectIf (recovered =
      ⟨committed.2.transaction.id, committed.2.transaction.operationDigest⟩) discoveryCorrupt)
    (by decide +kernel)
  obtain ⟨key, hkey, h⟩ := Result.bind_eq_ok.mp h
  obtain ⟨identity, hidentity, h⟩ := Result.bind_eq_ok.mp h
  obtain ⟨⟨value, prepared⟩, hcommitted, h⟩ := Result.bind_eq_ok.mp h
  obtain ⟨intent, hintent, h⟩ := Result.bind_eq_ok.mp h
  obtain ⟨recovered, hrecovered, h⟩ := Result.bind_eq_ok.mp h
  exact ⟨key, identity, value, prepared, intent, recovered, hkey, hidentity, hcommitted, hintent,
    hrecovered, Except.rejectIf_eq_ok.mp h⟩

end Radiata
