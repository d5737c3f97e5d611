import Radiata.ForStd.Prog
import Radiata.Native.ConditionalPut

/-!
# Schema migrations

`src/storage/migration.rs`: the schema record of a store, the chain of migration edges with its
checks, and `ensure_schema`, which brings a store to the last version of the chain. A fresh store
is stamped with the base version; each edge is one conditional transaction that rewrites the data
and the schema record together.

`ensure_schema` is a program over two calls of a storage, `snapshot` and `commit`, so that it runs
on any storage and can be stopped anywhere. A transform is a function of the snapshot. Reads do not
fail.
-/

namespace Radiata

open Except (rejectIf okOr)

variable [DnsName]

/-! ## Schema records -/

/-- A version or a tag of the chain; a text is UTF-8 by its type. -/
structure SchemaName where
  asStr : Bytes
  utf8 : asStr.isUtf8 = true

instance : DecidableEq SchemaName := fun a b =>
  decidable_of_iff (a.asStr = b.asStr) <| by
    constructor
    · intro h
      cases a; cases b; simp_all
    · exact congrArg SchemaName.asStr

def schemaNamespaceText : Bytes := Bytes.utf8 "radiata.woooo.tech/metadata/store-schema-v1"

def baseRecordKind : UInt8 := 1
def edgeRecordKind : UInt8 := 2

/-- `schema_namespace`, `schema_key` -/
def schemaKey : Result EntryKey := do
  return ⟨← QualifiedTag.parse schemaNamespaceText, ⟨Bytes.utf8 "store"⟩⟩

/-- `corrupt` -/
def schemaCorrupt : Error := .unsupportedSchema "metadata schema record"

/-- `encode_schema_record`: the length of the tag is cut to a byte. -/
def encodeSchemaRecord (kind : UInt8) (tag : SchemaName) (digest : Option Digest) : StoreValue :=
  ⟨kind :: UInt8.ofNat tag.asStr.length :: (tag.asStr ++ (digest.map Digest.asBytes).getD [])⟩

/-- What `decode_schema_record` returns: a base record has no digest and an edge record has one. -/
inductive SchemaRecord where
  | base (version : SchemaName)
  | edge (version : SchemaName) (digest : Digest)
  deriving DecidableEq

namespace SchemaRecord

def version : SchemaRecord → SchemaName
  | base version => version
  | edge version _ => version

def digest : SchemaRecord → Option Digest
  | base _ => none
  | edge _ digest => some digest

def encode : SchemaRecord → StoreValue
  | base version => encodeSchemaRecord baseRecordKind version none
  | edge version digest => encodeSchemaRecord edgeRecordKind version (some digest)

end SchemaRecord

/-- The variants of the record: what follows the tag decides. -/
def schemaVariant (kind : UInt8) (tag : SchemaName) (tail : Bytes) : Result SchemaRecord :=
  if kind = baseRecordKind then
    if tail = [] then .ok (.base tag) else .error schemaCorrupt
  else if kind = edgeRecordKind then
    if h : tail.length = 32 then .ok (.edge tag ⟨tail, h⟩) else .error schemaCorrupt
  else .error schemaCorrupt

/-- `decode_schema_record` -/
def decodeSchemaRecord (value : StoreValue) : Result SchemaRecord :=
  match value.asBytes with
  | kind :: tagLen :: rest =>
    if rest.length < tagLen.toNat then .error schemaCorrupt
    else if h : Bytes.isUtf8 (rest.take tagLen.toNat) = true then
      schemaVariant kind ⟨rest.take tagLen.toNat, h⟩ (rest.drop tagLen.toNat)
    else .error schemaCorrupt
  | _ => .error schemaCorrupt

/-- The schema record of a store, if it has one. -/
def readSchema (entries : Entries) : Result (Option SchemaRecord) := do
  match entries.get (← schemaKey) with
  | none => return none
  | some value => return some (← decodeSchemaRecord value)

/-! ## Transaction ids -/

def base62Alphabet : Bytes :=
  Bytes.utf8 "0123456789abcdefghijklmnopqrstuvwxyzABCDEFGHIJKLMNOPQRSTUVWXYZ"

/-- The loop of `encode_base62_suffix`, which writes the digits from the last one on. -/
def base62Digits : Nat → Nat → Bytes → Bytes
  | 0, _, suffix => suffix
  | index + 1, value, suffix =>
    base62Digits index (value / 62) (base62Alphabet.getD (value % 62) 0 :: suffix)

/-- `encode_base62_suffix` -/
def encodeBase62Suffix (value : Nat) : Bytes := base62Digits randomSuffixLen value []

def migrationTransactionDomain : Bytes := Bytes.utf8 "radiata.woooo.tech/migration-transaction-v1"

/-- `migration_transaction_value`: the first 16 bytes of the hash. -/
def migrationTransactionValue (parts : List Bytes) : Nat :=
  Bytes.ofBE ((sha256 (migrationTransactionDomain ++ parts.flatten)).asBytes.take 16)

/-- The transaction id that is derived from these parts. -/
def migrationTransactionId (parts : List Bytes) : Result TransactionId :=
  CanonicalId.parse (transactionPrefix ++ encodeBase62Suffix (migrationTransactionValue parts))

/-! ## Edges -/

/-- `MigrationEdge` -/
structure MigrationEdge where
  fromVersion : SchemaName
  toVersion : SchemaName
  tag : SchemaName
  digest : Digest
  transform : Option (StoreSnapshot → Result (List StoreOperation))

/-- The schema record that the edge writes. -/
def MigrationEdge.record (edge : MigrationEdge) : SchemaRecord := .edge edge.toVersion edge.digest

/-- The loop of `MigrationRegistry::new`. -/
def checkEdges (base : SchemaName) : List SchemaName → List SchemaName → Option MigrationEdge →
    List MigrationEdge → Result Unit
  | _, _, _, [] => .ok ()
  | seenVersions, seenTags, previous, edge :: rest => do
    rejectIf (edge.transform.isNone = true) (.invalidInput "migration edge without decoder")
    rejectIf (edge.fromVersion = edge.toVersion ∨ edge.toVersion ∈ seenVersions)
      (.invalidInput "migration edge downgrade or cycle")
    rejectIf (previous.isNone = true ∧ edge.fromVersion ≠ base)
      (.invalidInput "migration edge unknown endpoint")
    rejectIf (previous.any (fun previous => previous.toVersion ≠ edge.fromVersion) = true)
      (.invalidInput "migration edge ambiguous path")
    rejectIf (edge.tag ∈ seenTags) (.invalidInput "migration edge duplicate tag")
    checkEdges base (seenVersions ++ [edge.toVersion]) (seenTags ++ [edge.tag]) (some edge) rest

/-- A chain of edges that passes the checks. -/
structure MigrationRegistry where
  base : SchemaName
  edges : List MigrationEdge
  accepted : checkEdges base [base] [] none edges = .ok ()

namespace MigrationRegistry

def new (base : SchemaName) (edges : List MigrationEdge) : Result MigrationRegistry :=
  match h : checkEdges base [base] [] none edges with
  | .ok () => .ok ⟨base, edges, h⟩
  | .error error => .error error

/-- `target` -/
def target (registry : MigrationRegistry) : SchemaName :=
  (registry.edges.getLast?.map MigrationEdge.toVersion).getD registry.base

/-- The number of edges that a store with this record has behind it. -/
def locate (registry : MigrationRegistry) (record : SchemaRecord) : Result Nat :=
  if record.version = registry.base then .ok 0
  else
    match registry.edges.findIdx? (fun edge => edge.toVersion = record.version) with
    | none => .error (.unsupportedSchema "metadata schema version")
    | some position =>
      if registry.edges[position]?.map MigrationEdge.record = some record then .ok (position + 1)
      else .error (.unsupportedSchema "metadata schema digest")

end MigrationRegistry

/-! ## Transactions -/

/-- `schema_record_operation` -/
def schemaRecordOperation (snapshot : StoreSnapshot) (record : SchemaRecord) :
    Result StoreOperation := do
  let key ← schemaKey
  return .put key.namespaceTag key.key (snapshotExpectation snapshot key) record.encode

/-- The transaction of `stamp_base`. -/
def MigrationRegistry.prepareStamp (registry : MigrationRegistry) (snapshot : StoreSnapshot) :
    Result StoreTransaction := do
  let operation ← schemaRecordOperation snapshot (.base registry.base)
  StoreTransaction.new (← migrationTransactionId [registry.base.asStr]) snapshot.revision [operation]

/-- `edge_transaction_id` -/
def MigrationEdge.transactionId (edge : MigrationEdge) : Result TransactionId :=
  migrationTransactionId [edge.tag.asStr, edge.digest.asBytes]

/-- The transaction of an edge: its plan on the snapshot, then the schema record. -/
def MigrationEdge.prepare (edge : MigrationEdge) (snapshot : StoreSnapshot) :
    Result StoreTransaction := do
  let id ← edge.transactionId
  let transform ← okOr schemaCorrupt edge.transform
  let operations ← transform snapshot
  let operation ← schemaRecordOperation snapshot edge.record
  StoreTransaction.new id snapshot.revision (operations ++ [operation])

/-! ## Storages -/

/-- The calls of a `Storage` that a migration makes. -/
inductive StorageCall [DnsName] where
  | snapshot
  | commit (transaction : StoreTransaction)

/-- What a call is answered with. -/
abbrev StorageCall.Answer : StorageCall → Type
  | snapshot => StoreSnapshot
  | commit _ => Result CommitOutcome

abbrev StorageM (α : Type) := ExceptT Error (Prog StorageCall StorageCall.Answer) α

namespace StorageM

def takeSnapshot : StorageM StoreSnapshot := ExceptT.lift (Prog.perform StorageCall.snapshot)

def commit (transaction : StoreTransaction) : StorageM CommitOutcome :=
  ExceptT.mk (Prog.perform (StorageCall.commit transaction))

def lift {α : Type} (result : Result α) : StorageM α := ExceptT.mk (pure result)

end StorageM

/-! ## Migrations -/

/-- A transaction planned on a snapshot and committed, with what its outcome means. -/
def commitPlan (prepare : StoreSnapshot → Result StoreTransaction)
    (settle : CommitOutcome → Result Unit) : StorageM Unit := do
  let snapshot ← StorageM.takeSnapshot
  let transaction ← StorageM.lift (prepare snapshot)
  let outcome ← StorageM.commit transaction
  StorageM.lift (settle outcome)

/-- The outcomes that `stamp_base` goes on with. -/
def stampOutcome : CommitOutcome → Result Unit
  | .committed _ => .ok ()
  | .aborted => .ok ()
  | _ => .error (.conflict "metadata schema stamping")

/-- The outcomes that the loop over the edges goes on with. -/
def edgeOutcome : CommitOutcome → Result Unit
  | .committed _ => .ok ()
  | .aborted => .ok ()
  | .unknown _ _ => .error (.provider .commitUnknown .storageCommit)
  | .conflict => .error (.conflict "metadata schema migration")

/-- `stamp_base` -/
def MigrationRegistry.stampBase (registry : MigrationRegistry) : StorageM Unit :=
  commitPlan registry.prepareStamp stampOutcome

/-- One turn of the loop over the edges. -/
def MigrationEdge.migrate (edge : MigrationEdge) : StorageM Unit :=
  commitPlan edge.prepare edgeOutcome

/-- The loop over the edges, with the number of edges so far. -/
def migrateEdges : List MigrationEdge → Nat → StorageM Nat
  | [], migrated => return migrated
  | edge :: rest, migrated => do
    edge.migrate
    migrateEdges rest (migrated + 1)

/-- `SchemaOutcome` -/
inductive SchemaOutcome where
  | current
  | migrated (edges : Nat)
  deriving DecidableEq

def SchemaOutcome.ofEdges (edges : Nat) : SchemaOutcome :=
  if edges = 0 then .current else .migrated edges

namespace MigrationRegistry

/-- The number of edges behind a store, which is stamped if it has no schema record. -/
def start (registry : MigrationRegistry) : Option SchemaRecord → StorageM Nat
  | some record => StorageM.lift (registry.locate record)
  | none => do
    registry.stampBase
    return 0

/-- `ensure_schema` -/
def ensureSchema (registry : MigrationRegistry) : StorageM SchemaOutcome := do
  let snapshot ← StorageM.takeSnapshot
  let existing ← StorageM.lift (readSchema snapshot.entries)
  let behind ← registry.start existing
  let migrated ← migrateEdges (registry.edges.drop behind) 0
  return SchemaOutcome.ofEdges migrated

end MigrationRegistry

/-! ## Runs -/

/-- What the calls do on a storage: a snapshot shows the content, and a commit answers and may
    change the state. -/
structure StorageHandler [DnsName] (σ : Type) where
  snapshot : σ → StoreSnapshot
  commit : σ → StoreTransaction → Result CommitOutcome × σ

/-- A storage in use, with the transactions submitted to it and their answers, the last one
    first. -/
structure StorageSession (σ : Type) where
  state : σ
  log : List (StoreTransaction × Result CommitOutcome)

namespace StorageHandler

variable {σ : Type}

/-- A transaction is submitted. -/
def submit (handler : StorageHandler σ) (session : StorageSession σ)
    (transaction : StoreTransaction) : StorageSession σ where
  state := (handler.commit session.state transaction).2
  log := (transaction, (handler.commit session.state transaction).1) :: session.log

/-- A call in a session. -/
def serve (handler : StorageHandler σ) :
    (call : StorageCall) → StorageSession σ → call.Answer × StorageSession σ
  | .snapshot, session => (handler.snapshot session.state, session)
  | .commit transaction, session =>
    ((handler.commit session.state transaction).1, handler.submit session transaction)

/-- The run of a program. -/
def run {α : Type} (handler : StorageHandler σ) (program : StorageM α)
    (session : StorageSession σ) : Result α × StorageSession σ :=
  Prog.run handler.serve (ExceptT.run program) session

/-- A new process brings the schema of a storage up to date. -/
def ensureSchema (handler : StorageHandler σ) (registry : MigrationRegistry) (state : σ) :
    Result SchemaOutcome × StorageSession σ :=
  handler.run registry.ensureSchema ⟨state, []⟩

end StorageHandler

/-- A storage as the provider interface has it: a committed transaction is applied, an aborted or
    conflicting one is not, and of an unknown one nothing is known. -/
structure Storage [DnsName] (σ : Type) extends StorageHandler σ where
  committed : ∀ state transaction receipt, (commit state transaction).1 = .ok (.committed receipt) →
    (snapshot (commit state transaction).2).entries =
      transaction.operations.foldl applyOperation (snapshot state).entries
  refused : ∀ state transaction outcome, (commit state transaction).1 = .ok outcome →
    outcome = .aborted ∨ outcome = .conflict →
    (snapshot (commit state transaction).2).entries = (snapshot state).entries

/-- The reference store as a storage. -/
def ReferenceState.handler : StorageHandler ReferenceState := ⟨snapshot, commit⟩

end Radiata
