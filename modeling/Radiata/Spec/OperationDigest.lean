import Radiata.ForStd.SelfDelimiting
import Radiata.Native.Provider

/-!
# The operation digest

The operation digest of a transaction is the hash of a byte string that determines the base
revision and the operations in their order: every field of variable length stands behind its
length, and what remains is told by the tag before it or has one length.

## Key results

- `selfDelimiting_updateOperation`: an operation is found at the start of a text
- `storeOperationsPreimage_inj`: the text of a transaction determines it
-/

namespace Radiata

/-- The lengths of values in memory are `usize`. -/
def InMemory (bytes : Bytes) : Prop := bytes.length < 2 ^ 64

theorem selfDelimiting_updateBytes : SelfDelimiting InMemory updateBytes := by
  intro a b ha hb
  refine Bytes.selfDelimiting_lengthPrefixed 16 a b ?_ ?_
  · exact Nat.lt_trans ha (by decide)
  · exact Nat.lt_trans hb (by decide)

theorem selfDelimiting_digest : SelfDelimiting (fun _ : Digest => True) Digest.asBytes :=
  SelfDelimiting.of_length (fun digest _ => digest.width) fun _ _ _ _ => Digest.ext_asBytes

theorem selfDelimiting_updateExpectation :
    SelfDelimiting (fun _ : StoreExpectation => True) updateExpectation := by
  intro a b _ _ s t h
  cases a with
  | absent =>
    cases b with
    | absent => exact ⟨rfl, (List.cons.inj h).2⟩
    | exact digest => cases (List.cons.inj h).1
  | exact digest =>
    cases b with
    | absent => cases (List.cons.inj h).1
    | exact other =>
      obtain ⟨rfl, hrest⟩ := selfDelimiting_digest _ _ trivial trivial _ _ (List.cons.inj h).2
      exact ⟨rfl, hrest⟩

theorem TransactionId.inMemory_asStr (id : TransactionId) : InMemory id.asStr := by
  unfold InMemory
  rw [id.length_asStr]
  decide

variable [DnsName]

theorem QualifiedTag.inMemory_asStr (tag : QualifiedTag) : InMemory tag.asStr :=
  Nat.lt_of_le_of_lt tag.length_asStr_le (by decide)

theorem updateNamespaceAndKey_append_inj {tag tag' : StoreNamespace} {key key' : StoreKey}
    {s t : Bytes} (hkey : InMemory key.asBytes) (hkey' : InMemory key'.asBytes)
    (h : updateNamespaceAndKey tag key ++ s = updateNamespaceAndKey tag' key' ++ t) :
    tag = tag' ∧ key = key' ∧ s = t := by
  unfold updateNamespaceAndKey at h
  rw [List.append_assoc, List.append_assoc] at h
  obtain ⟨htag, h⟩ := selfDelimiting_updateBytes _ _ tag.inMemory_asStr tag'.inMemory_asStr _ _ h
  obtain ⟨hbytes, hrest⟩ := selfDelimiting_updateBytes _ _ hkey hkey' _ _ h
  exact ⟨QualifiedTag.ext_asStr htag, StoreKey.ext_asBytes hbytes, hrest⟩

/-- The fields of an operation that may be of any length. -/
def StoreOperation.InMemory : StoreOperation → Prop
  | .check _ key _ => Radiata.InMemory key.asBytes
  | .put _ key _ value => Radiata.InMemory key.asBytes ∧ Radiata.InMemory value.asBytes
  | .delete _ key _ => Radiata.InMemory key.asBytes
  | .forgetReceipt _ _ => True

/-- The tag of an operation tells its kind, and its fields follow. -/
theorem selfDelimiting_updateOperation :
    SelfDelimiting StoreOperation.InMemory updateOperation := by
  intro a b ha hb s t h
  cases a with
  | check tag key expected =>
    cases b with
    | check tag' key' expected' =>
      simp only [updateOperation, List.cons_append, List.append_assoc, List.cons.injEq, true_and] at h
      obtain ⟨rfl, rfl, htail⟩ := updateNamespaceAndKey_append_inj ha hb h
      obtain ⟨rfl, hrest⟩ := selfDelimiting_updateExpectation _ _ trivial trivial _ _ htail
      exact ⟨rfl, hrest⟩
    | put | delete | forgetReceipt => cases (List.cons.inj h).1
  | put tag key expected value =>
    cases b with
    | put tag' key' expected' value' =>
      simp only [updateOperation, List.cons_append, List.append_assoc, List.cons.injEq, true_and] at h
      obtain ⟨rfl, rfl, htail⟩ := updateNamespaceAndKey_append_inj ha.1 hb.1 h
      obtain ⟨rfl, hvalues⟩ := selfDelimiting_updateExpectation _ _ trivial trivial _ _ htail
      obtain ⟨hvalue, hrest⟩ := selfDelimiting_updateBytes _ _ ha.2 hb.2 _ _ hvalues
      cases value
      cases value'
      cases hvalue
      exact ⟨rfl, hrest⟩
    | check | delete | forgetReceipt => cases (List.cons.inj h).1
  | delete tag key expected =>
    cases b with
    | delete tag' key' expected' =>
      simp only [updateOperation, List.cons_append, List.append_assoc, List.cons.injEq, true_and] at h
      obtain ⟨rfl, rfl, htail⟩ := updateNamespaceAndKey_append_inj ha hb h
      obtain ⟨rfl, hrest⟩ := selfDelimiting_digest _ _ trivial trivial _ _ htail
      exact ⟨rfl, hrest⟩
    | check | put | forgetReceipt => cases (List.cons.inj h).1
  | forgetReceipt transaction expected =>
    cases b with
    | forgetReceipt transaction' expected' =>
      simp only [updateOperation, List.cons_append, List.append_assoc, List.cons.injEq, true_and] at h
      obtain ⟨htext, htail⟩ := selfDelimiting_updateBytes _ _ (TransactionId.inMemory_asStr transaction)
        (TransactionId.inMemory_asStr transaction') _ _ h
      obtain ⟨rfl, hrest⟩ := selfDelimiting_digest _ _ trivial trivial _ _ htail
      obtain rfl := CanonicalId.ext_asStr htext
      exact ⟨rfl, hrest⟩
    | check | put | delete => cases (List.cons.inj h).1

/-- The lengths of a transaction are `usize`. -/
structure TransactionInMemory (baseRevision : StoreRevision) (operations : List StoreOperation) :
    Prop where
  revision : InMemory baseRevision.asBytes
  count : operations.length < 2 ^ 64
  fields : ∀ operation ∈ operations, operation.InMemory

/-- The byte string that is hashed determines the base revision and the operations. -/
theorem storeOperationsPreimage_inj {baseRevision baseRevision' : StoreRevision}
    {operations operations' : List StoreOperation}
    (h : TransactionInMemory baseRevision operations)
    (h' : TransactionInMemory baseRevision' operations') :
    storeOperationsPreimage baseRevision operations =
        storeOperationsPreimage baseRevision' operations' ↔
      baseRevision = baseRevision' ∧ operations = operations' := by
  constructor
  · intro heq
    unfold storeOperationsPreimage at heq
    simp only [List.append_assoc, List.append_cancel_left_eq] at heq
    obtain ⟨hrevision, heq⟩ := selfDelimiting_updateBytes _ _ h.revision h'.revision _ _ heq
    have hcount : operations.length < 256 ^ 16 := Nat.lt_trans h.count (by decide)
    have hcount' : operations'.length < 256 ^ 16 := Nat.lt_trans h'.count (by decide)
    obtain ⟨hlength, heq⟩ := Bytes.selfDelimiting_toBE 16 _ _ hcount hcount' _ _ heq
    refine ⟨StoreRevision.ext_asBytes hrevision, ?_⟩
    refine (selfDelimiting_updateOperation.flatMap (s := []) (t := []) hlength h.fields
      h'.fields ?_).1
    rw [List.append_nil, List.append_nil]
    exact heq
  · rintro ⟨rfl, rfl⟩
    rfl

/-! ## A sample -/

/-- A check, a put and a deletion under one tag, and a forgotten receipt. -/
def sampleOperations (byte : UInt8) : List (@StoreOperation .hostNames) :=
  letI := DnsName.hostNames
  let tag : StoreNamespace := ⟨Bytes.utf8 "radiata.test/metadata/value", 12, 21,
    Bytes.utf8 "radiata.test/metadata/value", by decide⟩
  [.check tag ⟨[1]⟩ .absent, .put tag ⟨[2]⟩ .absent ⟨[3, byte]⟩, .delete tag ⟨[3]⟩ (.fill byte),
    .forgetReceipt default (.fill byte)]

omit [DnsName] in
theorem inMemory_sampleOperations (byte : UInt8) :
    @TransactionInMemory .hostNames (.ofGeneration 0) (sampleOperations byte) := by
  let _ := DnsName.hostNames
  refine ⟨?_, ?_, ?_⟩
  · show 8 < 2 ^ 64
    decide
  · show 4 < 2 ^ 64
    decide
  simp [sampleOperations, StoreOperation.InMemory, InMemory]

omit [DnsName] in
theorem storeOperationsPreimage_inj_sample :
    letI := DnsName.hostNames
    storeOperationsPreimage (.ofGeneration 0) (sampleOperations 0) ≠
      storeOperationsPreimage (.ofGeneration 0) (sampleOperations 1) := by
  let _ := DnsName.hostNames
  intro h
  have hoperations := ((storeOperationsPreimage_inj (inMemory_sampleOperations 0)
    (inMemory_sampleOperations 1)).mp h).2
  revert hoperations
  decide

end Radiata
