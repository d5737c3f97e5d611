import Radiata.Native.Pending
import Radiata.Spec.EngineShape

/-!
# Recovery of journaled transactions

The tagged CBOR codec of the pending record reads back what it writes, so a
record survives encoding exactly, and the planned operations of a journaled
transaction come back in order with their expectations. Appending the pending put
and the used-id marker to them gives the operations that were submitted, and with
them the operation digest.

Two forms of a namespace matter. A record holds parsed tags, and a tag that does
not parse from its own text cannot come back; a byte string holds texts, and a
text that parsing changes is not what the record would write.

## Key results

- `PendingTransactionV1.decode_of_encode`, `PendingTransactionV1.encode_of_decode`
- `pending_recovery`
-/

namespace Radiata

/-! ## The wire codec -/

section Wire

open Reader

theorem ExpectationWire.reads_encode {wire : ExpectationWire}
    (h : wire.encode.length < 2 ^ 64) : Reads ExpectationWire.decode wire.encode wire := by
  cases wire with
  | absent =>
    refine (Cbor.reads_array (by omega)).bind ?_
    refine (Cbor.reads_u64 0).bind_nil ?_
    exact Reads.pure _
  | exact digest =>
    have hlen : digest.length < 2 ^ 64 := by
      simp only [encode, Cbor.encodeBytes, List.length_append] at h
      omega
    rw [encode, List.append_assoc]
    refine (Cbor.reads_array (by omega)).bind ?_
    refine (Cbor.reads_u64 1).bind ?_
    refine (Cbor.reads_bytes hlen).bind_nil ?_
    exact Reads.pure _

/-- The text fields of an operation, which must be UTF-8. -/
def PlannedOperationWire.text : PlannedOperationWire → Bytes
  | .check namespaceText _ _ => namespaceText
  | .put namespaceText _ _ _ => namespaceText
  | .delete namespaceText _ _ => namespaceText
  | .forgetReceipt transaction _ => transaction

theorem PlannedOperationWire.reads_encode {wire : PlannedOperationWire}
    (h : wire.encode.length < 2 ^ 64) (hutf8 : wire.text.isUtf8 = true) :
    Reads PlannedOperationWire.decode wire.encode wire := by
  cases wire
  all_goals
    simp only [encode, Cbor.encodeStr, Cbor.encodeBytes, List.length_append] at h
    simp only [text] at hutf8
    simp only [encode, List.append_assoc]
  case check namespaceText key expectation =>
    refine (Cbor.reads_array (by omega)).bind ?_
    refine (Cbor.reads_u64 0).bind ?_
    refine (Cbor.reads_str (by omega) hutf8).bind ?_
    refine (Cbor.reads_bytes (by omega)).bind ?_
    refine (ExpectationWire.reads_encode (by omega)).bind_nil ?_
    exact Reads.pure _
  case put namespaceText key expectation value =>
    refine (Cbor.reads_array (by omega)).bind ?_
    refine (Cbor.reads_u64 1).bind ?_
    refine (Cbor.reads_str (by omega) hutf8).bind ?_
    refine (Cbor.reads_bytes (by omega)).bind ?_
    refine (ExpectationWire.reads_encode (by omega)).bind ?_
    refine (Cbor.reads_bytes (by omega)).bind_nil ?_
    exact Reads.pure _
  case delete namespaceText key expected =>
    refine (Cbor.reads_array (by omega)).bind ?_
    refine (Cbor.reads_u64 2).bind ?_
    refine (Cbor.reads_str (by omega) hutf8).bind ?_
    refine (Cbor.reads_bytes (by omega)).bind ?_
    refine (Cbor.reads_bytes (by omega)).bind_nil ?_
    exact Reads.pure _
  case forgetReceipt transaction expectedOperationDigest =>
    refine (Cbor.reads_array (by omega)).bind ?_
    refine (Cbor.reads_u64 3).bind ?_
    refine (Cbor.reads_str (by omega) hutf8).bind ?_
    refine (Cbor.reads_bytes (by omega)).bind_nil ?_
    exact Reads.pure _

/-- Every operation takes at least one byte, and no more than all of them. -/
private theorem length_le_flatMap_encode (operations : List PlannedOperationWire) :
    operations.length ≤ (operations.flatMap PlannedOperationWire.encode).length ∧
      ∀ wire ∈ operations, wire.encode.length
        ≤ (operations.flatMap PlannedOperationWire.encode).length := by
  have hhead : ∀ n, 0 < (Cbor.encodeArray n).length := by
    intro n
    obtain ⟨info, argumentBytes, -, hhead⟩ := Cbor.head_eq_cons 4 n
    rw [Cbor.encodeArray, hhead]
    exact Nat.succ_pos _
  have hpositive : ∀ wire : PlannedOperationWire, 0 < wire.encode.length := by
    intro wire
    have h₃ := hhead 3
    have h₄ := hhead 4
    have h₅ := hhead 5
    cases wire <;> simp only [PlannedOperationWire.encode, List.length_append] <;> omega
  induction operations with
  | nil => simp
  | cons wire operations ih =>
    have hwire := hpositive wire
    rw [List.flatMap_cons, List.length_append, List.length_cons]
    refine ⟨by omega, ?_⟩
    intro wire' hmem
    rcases List.mem_cons.mp hmem with rfl | hmem
    · omega
    · have := ih.2 wire' hmem
      omega

/-- The texts of a record are UTF-8. -/
structure PendingTransactionWire.Texts (wire : PendingTransactionWire) : Prop where
  schema : wire.schema.isUtf8 = true
  purpose : wire.purpose.isUtf8 = true
  transactionId : wire.transactionId.isUtf8 = true
  plannedOperations : ∀ operation ∈ wire.plannedOperations, operation.text.isUtf8 = true

theorem PendingTransactionWire.reads_encode {wire : PendingTransactionWire}
    (h : wire.encode.length < 2 ^ 64) (htexts : wire.Texts) :
    Reads PendingTransactionWire.decode wire.encode wire := by
  obtain ⟨hcount, hitems⟩ := length_le_flatMap_encode wire.plannedOperations
  simp only [encode, Cbor.encodeStr, Cbor.encodeBytes, List.length_append] at h
  simp only [encode, List.append_assoc]
  refine (Cbor.reads_array (by omega)).bind ?_
  refine (Cbor.reads_str (by omega) htexts.schema).bind ?_
  refine (Cbor.reads_u64 wire.recordVersion).bind ?_
  refine (Cbor.reads_str (by omega) htexts.purpose).bind ?_
  refine (Cbor.reads_str (by omega) htexts.transactionId).bind ?_
  refine (Cbor.reads_bytes (by omega)).bind ?_
  refine (Cbor.reads_array (by omega)).bind ?_
  -- the operations are read one by one, then nothing is left to skip
  refine Reads.bind_nil (Reads.times ?_) ?_
  · intro operation hmem
    have hlen := hitems operation hmem
    exact PlannedOperationWire.reads_encode (by omega) (htexts.plannedOperations operation hmem)
  · refine Cbor.reads_skip_zero.bind_nil ?_
    exact Reads.pure _

end Wire

/-! ## Texts -/

theorem ascii_of_validatePurpose {purpose : Bytes} (h : validatePurpose purpose = .ok ()) :
    purpose.Ascii := by
  simp only [validatePurpose] at h
  split at h
  · cases h
  · rename_i hvalid
    simp only [not_or, not_not, List.all_eq_true, Bool.and_eq_true, decide_eq_true_eq] at hvalid
    intro b hb
    have hprintable := (hvalid.2.2 b hb).2
    simp only [UInt8.le_iff_toNat_le, UInt8.reduceToNat] at hprintable
    simp only [UInt8.lt_iff_toNat_lt, UInt8.reduceToNat]
    omega

section

variable [DnsName]

/-! ## Operations -/

/-- The namespace of an operation parses from its own text. -/
def StoreOperation.Reparses : StoreOperation → Prop
  | .check namespaceTag _ _ => namespaceTag.Reparses
  | .put namespaceTag _ _ _ => namespaceTag.Reparses
  | .delete namespaceTag _ _ => namespaceTag.Reparses
  | .forgetReceipt _ _ => True

/-- The namespace text of an operation is what its tag would write. -/
def PlannedOperationWire.Canonical : PlannedOperationWire → Prop
  | .forgetReceipt _ _ => True
  | wire => ∀ tag, plannedNamespace wire.text = .ok tag → tag.asStr = wire.text

theorem isUtf8_text_fromOperation (operation : StoreOperation) :
    (PlannedOperationWire.fromOperation operation).text.isUtf8 = true := by
  cases operation with
  | check namespaceTag _ _ | put namespaceTag _ _ _ | delete namespaceTag _ _ =>
    exact namespaceTag.ascii.isUtf8
  | forgetReceipt transaction _ => exact transaction.ascii.isUtf8

omit [DnsName] in
theorem intoExpectation_fromExpectation (expected : StoreExpectation) :
    (ExpectationWire.fromExpectation expected).intoExpectation = .ok expected := by
  cases expected with
  | absent => rfl
  | exact digest =>
    simp only [ExpectationWire.fromExpectation, ExpectationWire.intoExpectation,
      fixedBytes_digest]
    rfl

omit [DnsName] in
theorem fromExpectation_of_intoExpectation {wire : ExpectationWire} {expected : StoreExpectation}
    (h : wire.intoExpectation = .ok expected) : ExpectationWire.fromExpectation expected = wire := by
  cases wire with
  | absent => cases h; rfl
  | exact digest =>
    obtain ⟨bytes, hbytes, h⟩ := Result.bind_eq_ok.mp h
    simp only [fixedBytes] at hbytes
    split at hbytes
    · cases hbytes
      cases h
      rfl
    · cases hbytes

variable {operation : StoreOperation}

theorem intoOperation_fromOperation (h : operation.Reparses) :
    (PlannedOperationWire.fromOperation operation).intoOperation = .ok operation := by
  cases operation with
  | check namespaceTag key expected | put namespaceTag key expected value =>
    have hparse : plannedNamespace namespaceTag.asStr = .ok namespaceTag := h
    simp only [PlannedOperationWire.fromOperation, PlannedOperationWire.intoOperation, hparse,
      intoExpectation_fromExpectation]
    rfl
  | delete namespaceTag key expected =>
    have hparse : plannedNamespace namespaceTag.asStr = .ok namespaceTag := h
    simp only [PlannedOperationWire.fromOperation, PlannedOperationWire.intoOperation, hparse,
      fixedBytes_digest]
    rfl
  | forgetReceipt transaction expectedOperationDigest =>
    simp only [PlannedOperationWire.fromOperation, PlannedOperationWire.intoOperation,
      CanonicalId.parse_asStr, fixedBytes_digest]
    rfl

theorem fromOperation_of_intoOperation {wire : PlannedOperationWire}
    (h : wire.intoOperation = .ok operation) (hcanonical : wire.Canonical) :
    PlannedOperationWire.fromOperation operation = wire := by
  cases wire with
  | check namespaceText key expectation | put namespaceText key expectation value =>
    obtain ⟨namespaceTag, hns, h⟩ := Result.bind_eq_ok.mp h
    obtain ⟨expected, hexpected, h⟩ := Result.bind_eq_ok.mp h
    cases h
    rw [PlannedOperationWire.fromOperation, fromExpectation_of_intoExpectation hexpected,
      hcanonical namespaceTag hns]
    rfl
  | delete namespaceText key expected =>
    obtain ⟨namespaceTag, hns, h⟩ := Result.bind_eq_ok.mp h
    obtain ⟨digest, hdigest, h⟩ := Result.bind_eq_ok.mp h
    cases h
    rw [PlannedOperationWire.fromOperation, hcanonical namespaceTag hns]
    exact congrArg (PlannedOperationWire.delete namespaceText key) (asBytes_of_fixedBytes hdigest)
  | forgetReceipt transactionText digestBytes =>
    obtain ⟨transaction, htransaction, h⟩ := Result.bind_eq_ok.mp h
    obtain ⟨digest, hdigest, h⟩ := Result.bind_eq_ok.mp h
    cases h
    rw [PlannedOperationWire.fromOperation, CanonicalId.asStr_of_parse htransaction]
    exact congrArg (PlannedOperationWire.forgetReceipt transactionText)
      (asBytes_of_fixedBytes hdigest)

/-! ## Records -/

namespace PendingTransactionV1

variable {record : PendingTransactionV1}

theorem new_eq_ok {purpose : Bytes} {transaction : TransactionId} {baseRevision : StoreRevision}
    {plannedOperations : List StoreOperation}
    (h : new purpose transaction baseRevision plannedOperations = .ok record) :
    record.purpose = purpose ∧ record.transaction = transaction ∧
      record.baseRevision = baseRevision ∧ record.plannedOperations = plannedOperations := by
  simp only [new] at h
  split at h
  · cases h
  split at h
  · cases h
  · cases h
    exact ⟨rfl, rfl, rfl, rfl⟩

/-- Building a record from its own fields gives the record. -/
theorem new_self (record : PendingTransactionV1) :
    new record.purpose record.transaction record.baseRevision record.plannedOperations
      = .ok record := by
  simp only [new]
  split
  · rename_i e hpurpose
    rw [record.purposeValid] at hpurpose
    cases hpurpose
  split
  · rename_i e hplan
    rw [record.planValid] at hplan
    cases hplan
  · rfl

theorem texts_toWire (record : PendingTransactionV1) : record.toWire.Texts where
  schema := by
    have hschema : pendingSchema.isUtf8 = true := Bytes.Ascii.isUtf8 (.of_all (by decide))
    exact hschema
  purpose := (ascii_of_validatePurpose record.purposeValid).isUtf8
  transactionId := record.transaction.ascii.isUtf8
  plannedOperations := by
    intro wire hwire
    obtain ⟨operation, -, rfl⟩ := List.mem_map.mp hwire
    exact isUtf8_text_fromOperation operation

theorem ofWire_toWire (h : ∀ operation ∈ record.plannedOperations, operation.Reparses) :
    ofWire record.toWire = .ok record := by
  have hoperations : record.toWire.plannedOperations.mapM PlannedOperationWire.intoOperation
      = (.ok record.plannedOperations : Result (List StoreOperation)) := by
    rw [Result.mapM_eq_ok, toWire, List.forall₂_map_left_iff, List.forall₂_same]
    exact fun operation hmem => intoOperation_fromOperation (h operation hmem)
  have htransaction : (CanonicalId.parse record.toWire.transactionId : Result TransactionId)
      = .ok record.transaction := CanonicalId.parse_asStr record.transaction
  have hrevision : StoreRevision.new record.toWire.baseRevision = .ok record.baseRevision :=
    StoreRevision.new_asBytes record.baseRevision
  have hschema : ¬ record.toWire.schema ≠ pendingSchema := not_not.mpr rfl
  have hversion : ¬ record.toWire.recordVersion ≠ recordVersion := not_not.mpr rfl
  simp only [ofWire, if_neg hschema, if_neg hversion, htransaction, hrevision, hoperations,
    Result.ok_bind]
  exact record.new_self

/-- An encoded record decodes to itself. -/
theorem decode_of_encode {bytes : Bytes}
    (h : ∀ operation ∈ record.plannedOperations, operation.Reparses)
    (hencode : record.encode = .ok bytes) : decode bytes = .ok record := by
  obtain ⟨hbytes, hlen, -⟩ := encodeCanonical_eq_ok hencode
  -- the body limit bounds every length the codec writes
  have hsize : record.toWire.encode.length < 2 ^ 64 := by
    rw [hbytes] at hlen
    exact Nat.lt_of_le_of_lt hlen (by decide)
  have hreads : Reader.Reads PendingTransactionWire.codec.decode
      (PendingTransactionWire.codec.encode record.toWire) record.toWire :=
    PendingTransactionWire.reads_encode hsize record.texts_toWire
  have hstrict := decodeStrict_of_encodeCanonical "pending transaction canonical form" hreads hencode
  rw [decode, hstrict]
  exact ofWire_toWire h

theorem toWire_of_ofWire {wire : PendingTransactionWire} (h : ofWire wire = .ok record)
    (hcanonical : ∀ operation ∈ wire.plannedOperations, operation.Canonical) :
    record.toWire = wire := by
  simp only [ofWire] at h
  split at h
  · cases h
  rename_i hschema
  split at h
  · cases h
  rename_i hversion
  obtain ⟨transaction, htransaction, h⟩ := Result.bind_eq_ok.mp h
  obtain ⟨baseRevision, hrevision, h⟩ := Result.bind_eq_ok.mp h
  obtain ⟨operations, hoperations, h⟩ := Result.bind_eq_ok.mp h
  obtain ⟨hpurpose, htransaction', hrevision', hoperations'⟩ := new_eq_ok h
  have hplanned : operations.map PlannedOperationWire.fromOperation = wire.plannedOperations := by
    rw [Result.mapM_eq_ok] at hoperations
    clear h hoperations'
    generalize wire.plannedOperations = planned at hoperations hcanonical
    induction hoperations with
    | nil => rfl
    | cons hoperation _ ih =>
      rw [List.map_cons, ih (fun o ho => hcanonical o (List.mem_cons_of_mem _ ho)),
        fromOperation_of_intoOperation hoperation (hcanonical _ (List.mem_cons_self ..))]
  rw [not_not] at hschema hversion
  rw [toWire, hpurpose, htransaction', hrevision', hoperations', hplanned, ← hschema, ← hversion,
    CanonicalId.asStr_of_parse htransaction, StoreRevision.asBytes_of_new hrevision]

/-- An accepted byte string with canonical namespace texts is what its record encodes to. -/
theorem encode_of_decode {bytes : Bytes} (h : decode bytes = .ok record)
    (hcanonical : ∀ wire, decodeCanonicalStrict PendingTransactionWire.codec bytes pendingLimits
        "pending transaction canonical form" = .ok wire →
      ∀ operation ∈ wire.plannedOperations, operation.Canonical) :
    record.encode = .ok bytes := by
  simp only [decode] at h
  obtain ⟨wire, hwire, h⟩ := Result.bind_eq_ok.mp h
  rw [encode, toWire_of_ofWire h (hcanonical wire hwire)]
  exact encodeCanonical_of_decodeStrict hwire

end PendingTransactionV1

/-! ## Journaled transactions -/

theorem StoreOperation.reparses_of_identity {k : EntryKey} (h : operation.identity = .key k)
    (hns : k.namespaceTag.Reparses) : operation.Reparses := by
  cases operation with
  | forgetReceipt _ _ => trivial
  | check _ _ _ => cases h; exact hns
  | put _ _ _ _ => cases h; exact hns
  | delete _ _ _ => cases h; exact hns

theorem reparses_internalNamespace {internal : StoreNamespace}
    (h : internalNamespace = .ok internal) : internal.Reparses := by
  rw [QualifiedTag.Reparses, asStr_of_internalNamespace h]
  exact h

/-- What `prepare_journaled_transaction` submits: a plan that its pending record holds,
    the put of that record, and the used-id marker. -/
theorem prepareJournaledTransaction_eq_ok {snapshot : StoreSnapshot} {id : TransactionId}
    {purpose : Bytes} {callerOperations : List StoreOperation}
    {changes : List ReceiptReferenceChange} {prepared : PreparedTransaction}
    (h : prepareJournaledTransaction snapshot id purpose callerOperations changes = .ok prepared)
    (hcaller : ∀ operation ∈ callerOperations, operation.Reparses) :
    ∃ pending record bytes, pendingNamespace = .ok pending ∧
      PendingTransactionV1.encode record = .ok bytes ∧ record.purpose = purpose ∧
      (∀ operation ∈ record.plannedOperations, operation.Reparses) ∧
      prepareInternalTransaction record.transaction record.baseRevision
        (record.plannedOperations ++ [.put pending (pendingKey purpose) .absent ⟨bytes⟩])
        = .ok prepared := by
  simp only [prepareJournaledTransaction] at h
  obtain ⟨_, -, h⟩ := Result.bind_eq_ok.mp h
  split at h
  · cases h
  obtain ⟨pending, hpending, h⟩ := Result.bind_eq_ok.mp h
  split at h
  · cases h
  obtain ⟨internal, hns, h⟩ := Result.bind_eq_ok.mp h
  obtain ⟨groups, hgroups, h⟩ := Result.bind_eq_ok.mp h
  obtain ⟨built, hbuilt, h⟩ := Result.bind_eq_ok.mp h
  obtain ⟨record, hrecord, h⟩ := Result.bind_eq_ok.mp h
  obtain ⟨bytes, hbytes, h⟩ := Result.bind_eq_ok.mp h
  obtain ⟨hpurpose, htransaction, hrevision, hplanned⟩ := PendingTransactionV1.new_eq_ok hrecord
  refine ⟨pending, record, bytes, hpending, hbytes, hpurpose, ?_, ?_⟩
  · -- the caller's operations by assumption, the engine's by their namespace
    intro operation hmem
    rw [hplanned] at hmem
    rcases List.mem_append.mp hmem with hmem | hmem
    · exact hcaller operation hmem
    · rcases identity_of_buildGroupOperations hgroups hbuilt hmem with
        ⟨t, kind, hidentity⟩ | ⟨t, hidentity⟩
      · exact StoreOperation.reparses_of_identity hidentity (reparses_internalNamespace hns)
      · cases operation with
        | forgetReceipt _ _ => trivial
        | _ => cases hidentity
  · rw [htransaction, hrevision, hplanned]
    exact h

/-- A journaled transaction has one operation on its pending record, the put of a value
    that decodes to a record from which the exact identity is recovered. A record whose
    namespaces parse from their own texts decodes from its encoding, and an accepted
    byte string with canonical namespace texts re-encodes to itself. -/
theorem pending_recovery :
    (∀ (snapshot : StoreSnapshot) (id : TransactionId) (purpose : Bytes)
        (callerOperations : List StoreOperation) (changes : List ReceiptReferenceChange)
        (prepared : PreparedTransaction),
      (∀ operation ∈ callerOperations, operation.Reparses) →
      prepareJournaledTransaction snapshot id purpose callerOperations changes = .ok prepared →
      ∃ pending value record, pendingNamespace = .ok pending ∧
        prepared.transaction.operations.filter
            (fun operation => operation.identity = .key ⟨pending, pendingKey purpose⟩)
          = [.put pending (pendingKey purpose) .absent value] ∧
        PendingTransactionV1.decode value.asBytes = .ok record ∧
        record.recoverIdentity value
          = .ok ⟨prepared.transaction.id, prepared.transaction.operationDigest⟩) ∧
    (∀ (record : PendingTransactionV1) (bytes : Bytes),
      (∀ operation ∈ record.plannedOperations, operation.Reparses) →
      record.encode = .ok bytes → PendingTransactionV1.decode bytes = .ok record) ∧
    (∀ (bytes : Bytes) (record : PendingTransactionV1),
      PendingTransactionV1.decode bytes = .ok record →
      (∀ wire, decodeCanonicalStrict PendingTransactionWire.codec bytes pendingLimits
          "pending transaction canonical form" = .ok wire →
        ∀ operation ∈ wire.plannedOperations, operation.Canonical) →
      record.encode = .ok bytes) := by
  refine ⟨?_, ?_, ?_⟩
  · intro snapshot id purpose callerOperations changes prepared hcaller hprepared
    obtain ⟨pending, record, bytes, hpending, hencode, hpurpose, hplanned, hinternal⟩ :=
      prepareJournaledTransaction_eq_ok hprepared hcaller
    refine ⟨pending, ⟨bytes⟩, record, hpending, ?_,
      PendingTransactionV1.decode_of_encode hplanned hencode, ?_⟩
    · -- operations of a transaction act on different entries
      obtain ⟨internal, -, hnodup, htransaction⟩ := prepareInternalTransaction_eq_ok hinternal
      have hmem : StoreOperation.put pending (pendingKey purpose) .absent ⟨bytes⟩
          ∈ record.plannedOperations ++ [.put pending (pendingKey purpose) .absent ⟨bytes⟩]
            ++ [putMarker internal record.transaction] := by simp
      rw [htransaction]
      exact List.filter_eq_singleton_of_nodup_map hnodup hmem
    · simp only [PendingTransactionV1.recoverIdentity, hpending, hpurpose, hinternal,
        Result.ok_bind]
      rfl
  · exact fun record bytes => PendingTransactionV1.decode_of_encode
  · exact fun bytes record => PendingTransactionV1.encode_of_decode

end

/-! ## Concrete journals -/

/-- The journal's namespace under the host-name grammar. -/
def journalTag : @StoreNamespace .hostNames :=
  letI := DnsName.hostNames
  ⟨pendingNamespaceText, 18, 27, pendingNamespaceText, by decide⟩

def journalPurpose : Bytes := Bytes.utf8 "purpose"

def emptySnapshot : @StoreSnapshot .hostNames :=
  letI := DnsName.hostNames
  ⟨.ofGeneration 0, .empty⟩

/-- A caller operation in the journal's namespace, under another key. -/
def otherPut : @StoreOperation .hostNames :=
  letI := DnsName.hostNames
  .put journalTag ⟨Bytes.utf8 "other"⟩ .absent ⟨[]⟩

theorem reparses_otherPut :
    letI := DnsName.hostNames
    ∀ operation ∈ [otherPut], operation.Reparses := by
  let _ := DnsName.hostNames
  intro operation hmem
  rw [List.mem_singleton.mp hmem]
  show QualifiedTag.parse journalTag.asStr = .ok journalTag
  decide

theorem pending_recovery_otherPut :
    letI := DnsName.hostNames
    ∃ prepared, prepareJournaledTransaction emptySnapshot default journalPurpose [otherPut] []
        = .ok prepared ∧
      ∃ pending value record, pendingNamespace = .ok pending ∧
        prepared.transaction.operations.filter
            (fun operation => operation.identity = .key ⟨pending, pendingKey journalPurpose⟩)
          = [.put pending (pendingKey journalPurpose) .absent value] ∧
        PendingTransactionV1.decode value.asBytes = .ok record ∧
        record.recoverIdentity value
          = .ok ⟨prepared.transaction.id, prepared.transaction.operationDigest⟩ := by
  let _ := DnsName.hostNames
  obtain ⟨prepared, hprepared⟩ : ∃ prepared,
      prepareJournaledTransaction emptySnapshot default journalPurpose [otherPut] [] = .ok prepared :=
    Result.exists_of_isSome_toOption (by decide +kernel)
  exact ⟨prepared, hprepared, pending_recovery.1 emptySnapshot default journalPurpose [otherPut] []
    prepared reparses_otherPut hprepared⟩

/-- A reserved tag that was parsed from a text with capitals. -/
def foldedTag : @StoreNamespace .hostNames :=
  letI := DnsName.hostNames
  ⟨Bytes.utf8 "radiata.woooo.tech/crypto/suite", 18, 25,
    Bytes.utf8 "RADIATA.woooo.tech/crypto/suite", by decide⟩

def foldedRecord : @PendingTransactionV1 .hostNames :=
  letI := DnsName.hostNames
  ⟨journalPurpose, default, .ofGeneration 0, [.check foldedTag ⟨[]⟩ .absent], by decide, by decide⟩

/-- A record whose namespace text has capitals. -/
def capitalBytes : Bytes :=
  PendingTransactionWire.encode {
    schema := pendingSchema
    recordVersion := recordVersion
    purpose := journalPurpose
    transactionId := (default : TransactionId).asStr
    baseRevision := [0]
    plannedOperations := [.check (Bytes.utf8 "RADIATA.woooo.tech/metadata/entry") [] .absent] }

/-- A caller may put further entries into the journal's namespace; a record with a
    folded reserved tag does not decode from its encoding; and a byte string with
    capitals in a namespace is accepted but not written back. -/
theorem pending_inexact :
    letI := DnsName.hostNames
    (pendingNamespace = .ok journalTag ∧ (∀ operation ∈ [otherPut], operation.Reparses) ∧
      ∃ prepared, prepareJournaledTransaction emptySnapshot default journalPurpose [otherPut] []
          = .ok prepared ∧
        prepared.transaction.operations.countP (fun
          | .put namespaceTag _ _ _ => namespaceTag = journalTag
          | _ => false) = 2) ∧
    (∃ bytes, foldedRecord.encode = .ok bytes ∧
      PendingTransactionV1.decode bytes ≠ .ok foldedRecord) ∧
    (∃ record, PendingTransactionV1.decode capitalBytes = .ok record ∧
      record.encode ≠ .ok capitalBytes) := by
  let _ := DnsName.hostNames
  refine ⟨⟨by decide, reparses_otherPut, ?_⟩, ?_, ?_⟩
  · obtain ⟨prepared, hprepared, hcount⟩ : ∃ prepared,
        prepareJournaledTransaction emptySnapshot default journalPurpose [otherPut] []
          = .ok prepared ∧ decide (prepared.transaction.operations.countP (fun
            | .put namespaceTag _ _ _ => namespaceTag = journalTag
            | _ => false) = 2) = true :=
      Result.exists_of_any_toOption (by decide +kernel)
    exact ⟨prepared, hprepared, of_decide_eq_true hcount⟩
  · obtain ⟨bytes, hbytes, hdecode⟩ : ∃ bytes, foldedRecord.encode = .ok bytes ∧
        (PendingTransactionV1.decode bytes).toOption.isNone = true :=
      Result.exists_of_any_toOption (by decide +kernel)
    refine ⟨bytes, hbytes, ?_⟩
    intro hok
    rw [hok] at hdecode
    cases hdecode
  · obtain ⟨record, hrecord, hencode⟩ : ∃ record,
        PendingTransactionV1.decode capitalBytes = .ok record ∧
          decide (record.encode ≠ .ok capitalBytes) = true :=
      Result.exists_of_any_toOption (by decide +kernel)
    exact ⟨record, hrecord, of_decide_eq_true hencode⟩

end Radiata
