import Radiata.Native.Descriptor
import Radiata.Native.Resource

/-!
# The resource register

`src/resource/store.rs` and the application of pages in `src/resource/page.rs`: one register
for each resource name holds the whole signed record that won so far. A record is put if its
tuple wins over the stored one; a removal also names the exact record it removes. Records from
a page are checked against the key of their writer's stored descriptor first.
-/

namespace Radiata

open Except (rejectIf)

def resourceRecordNamespaceText : Bytes :=
  Bytes.utf8 "radiata.woooo.tech/metadata/resource-record-v1"

variable [DnsName]

/-- The namespace and the key of a register. -/
def recordKey (name : ResourceName) : Result EntryKey := do
  return ⟨← metadataNamespace resourceRecordNamespaceText, ⟨name.asStr⟩⟩

/-- `read_record_ctx` -/
def readRecord (entries : Entries) (name : ResourceName) : Result (Option ResourceRecord) := do
  let key ← recordKey name
  match entries.get key with
  | none => return none
  | some value => return some (← ResourceRecord.decode value.asBytes)

/-- A call of `commit_record_ctx` or of `commit_removal_ctx`. -/
inductive RegisterOperation where
  | record (record : ResourceRecord)
  | removal (record expected : ResourceRecord)

/-- The record a call may put. -/
def RegisterOperation.subject : RegisterOperation → ResourceRecord
  | .record subject => subject
  | .removal subject _ => subject

/-- The put of `commit_put_ctx`. -/
def putRecord (key : EntryKey) (record : ResourceRecord) :
    Result (PutDecision ResourceRecord) := do
  return .put key ⟨← record.encode⟩

/-- What `commit_record_ctx` decides on a snapshot. -/
def commitRecord (record : ResourceRecord) (entries : Entries) :
    Result (PutDecision ResourceRecord) := do
  let key ← recordKey record.name
  match entries.get key with
  | none => putRecord key record
  | some value => do
    let existing ← ResourceRecord.decode value.asBytes
    if record.winsOver existing then putRecord key record else return .answer existing

/-- What `commit_removal_ctx` decides on a snapshot. -/
def commitRemoval (record expected : ResourceRecord) (entries : Entries) :
    Result (PutDecision ResourceRecord) := do
  let key ← recordKey record.name
  match entries.get key with
  | none => .error (.notFound "resource record")
  | some value => do
    let existing ← ResourceRecord.decode value.asBytes
    if existing ≠ expected then return .answer existing
    else if record.winsOver existing then putRecord key record
    else .error (.conflict "resource removal tuple")

def registerDecide : RegisterOperation → Entries → Result (PutDecision ResourceRecord)
  | .record record => commitRecord record
  | .removal record expected => commitRemoval record expected

/-- `writer_key` -/
def writerKey (entries : Entries) (writer : NodeId) : Result PublicKey := do
  match ← readDescriptor entries writer with
  | none => .error (.notTrusted "resource page writer")
  | some descriptor =>
    if descriptor.removed then .error (.notTrusted "resource page writer")
    else return descriptor.publicKey

/-- The checks of `apply_page_ctx` before it commits a record. -/
def admitsRecord [Ed25519] : RegisterOperation → Entries → Bool
  | .record record, entries =>
    match writerKey entries record.writer with
    | .error _ => false
    | .ok key => (record.verify key).isOk
  -- A page has no removal calls.
  | .removal _ _, _ => false

/-- `apply_page_ctx` counts installed records. -/
def countsRecord : PutOutcome ResourceRecord → Bool
  | .installed _ => true
  | _ => false

/-- `apply_page_ctx` ends with the error of a commit; an indeterminate commit is no error. -/
def stopsPage : PutOutcome ResourceRecord → Bool
  | .conflicted => true
  | .aborted => true
  | .failed _ => true
  | _ => false

variable {key : EntryKey}

theorem recordKey_eq_ok {name : ResourceName} (h : recordKey name = .ok key) :
    key.namespaceTag.asStr = resourceRecordNamespaceText ∧ key.key.asBytes = name.asStr := by
  obtain ⟨tag, hnamespace, h⟩ := Result.bind_eq_ok.mp h
  cases h
  obtain ⟨parsed, hparsed, hnamespace⟩ := Result.bind_eq_ok.mp hnamespace
  obtain ⟨-, hnamespace⟩ := Except.seq_eq_ok.mp hnamespace
  cases hnamespace
  have htext : resourceRecordNamespaceText =
      builtinDomain ++ slash :: Bytes.utf8 "metadata/resource-record-v1" := by decide
  rw [htext] at hparsed ⊢
  exact ⟨QualifiedTag.asStr_of_parse_lowercase hparsed (by decide) (by decide), rfl⟩

theorem recordKey_inj {name name' : ResourceName} (h : recordKey name = .ok key)
    (h' : recordKey name' = .ok key) : name = name' :=
  CategoryTag.ext_asStr ((recordKey_eq_ok h).2.symm.trans (recordKey_eq_ok h').2)

theorem putRecord_eq_ok {key' : EntryKey} {record : ResourceRecord} {value : StoreValue}
    (h : putRecord key record = .ok (.put key' value)) :
    key' = key ∧ record.encode = .ok value.asBytes := by
  obtain ⟨bytes, hbytes, h⟩ := Result.bind_eq_ok.mp h
  cases h
  exact ⟨rfl, hbytes⟩

/-- What a put has checked. -/
structure Wins (record : ResourceRecord) (entries : Entries) (key : EntryKey)
    (value : StoreValue) : Prop where
  own : recordKey record.name = .ok key
  written : record.encode = .ok value.asBytes
  greater : ∀ old, entries.get key = some old → ∃ existing,
    ResourceRecord.decode old.asBytes = .ok existing ∧ record.winsOver existing = true

theorem commitRecord_put {record : ResourceRecord} {entries : Entries} {value : StoreValue}
    (h : commitRecord record entries = .ok (.put key value)) :
    Wins record entries key value := by
  obtain ⟨key', hkey, h⟩ := Result.bind_eq_ok.mp h
  cases hstored : entries.get key' with
  | none =>
    simp only [hstored] at h
    obtain ⟨rfl, hwritten⟩ := putRecord_eq_ok h
    refine ⟨hkey, hwritten, fun old hold => ?_⟩
    rw [hstored] at hold
    cases hold
  | some stored =>
    simp only [hstored] at h
    obtain ⟨existing, hexisting, h⟩ := Result.bind_eq_ok.mp h
    split at h
    · rename_i hwins
      obtain ⟨rfl, hwritten⟩ := putRecord_eq_ok h
      refine ⟨hkey, hwritten, fun old hold => ?_⟩
      obtain rfl : stored = old := Option.some.inj (hstored.symm.trans hold)
      exact ⟨existing, hexisting, hwins⟩
    · cases h

/-- A removal also finds the record it expects. -/
theorem commitRemoval_put {record expected : ResourceRecord} {entries : Entries}
    {value : StoreValue} (h : commitRemoval record expected entries = .ok (.put key value)) :
    Wins record entries key value ∧ ∃ old, entries.get key = some old ∧
      ResourceRecord.decode old.asBytes = .ok expected := by
  obtain ⟨key', hkey, h⟩ := Result.bind_eq_ok.mp h
  cases hstored : entries.get key' with
  | none =>
    simp only [hstored] at h
    cases h
  | some stored =>
    simp only [hstored] at h
    obtain ⟨existing, hexisting, h⟩ := Result.bind_eq_ok.mp h
    split at h
    · cases h
    rename_i hsame
    rw [not_not] at hsame
    split at h
    · rename_i hwins
      obtain ⟨rfl, hwritten⟩ := putRecord_eq_ok h
      refine ⟨⟨hkey, hwritten, fun old hold => ?_⟩, stored, hstored, hsame ▸ hexisting⟩
      obtain rfl : stored = old := Option.some.inj (hstored.symm.trans hold)
      exact ⟨existing, hexisting, hwins⟩
    · cases h

theorem registerDecide_put {operation : RegisterOperation} {entries : Entries}
    {value : StoreValue} (h : registerDecide operation entries = .ok (.put key value)) :
    Wins operation.subject entries key value := by
  cases operation with
  | record record => exact commitRecord_put h
  | removal record expected => exact (commitRemoval_put h).1

/-- The calls on the register and the loop of `apply_page_ctx`. Local callers issue the
    operations `issued`; the descriptors are kept as they are in runs with `pinned`. -/
def registerCalls [Ed25519] (pinned : Prop) (issued : RegisterOperation → Prop) :
    PageProtocol RegisterOperation ResourceRecord where
  decide := registerDecide
  owned := fun key => (∃ name, recordKey name = .ok key) ∨
    pinned ∧ ∃ node, descriptorKey node = .ok key
  external := by
    rintro key (⟨name, hkey⟩ | ⟨-, node, hkey⟩)
    · rw [(recordKey_eq_ok hkey).1]
      decide
    · rw [(descriptorKey_eq_ok hkey).1]
      decide
  puts := by
    intro operation entries key value h
    exact Or.inl ⟨_, (registerDecide_put h).own⟩
  issued := issued
  admits := admitsRecord
  counts := countsRecord
  stops := stopsPage

end Radiata
