import Radiata.ForStd.CborItem
import Radiata.Native.AdmissionRecord
import Radiata.Native.Cbor
import Radiata.Native.Hex
import Radiata.Native.Pending

/-!
# Key custody

`src/identity/lifecycle.rs`, `src/identity/deletion.rs`, `src/identity/leave.rs`: the local identity
is created through an intent and a journaled transaction, a key is deleted through an intent and a
tombstone, and an active leave replaces the identity, wipes the metadata of the old one and deletes
its key.

A record is encoded where the source encodes it. The value that is stored is the record itself.
-/

namespace Radiata

open NodeM

/-! ## Purposes -/

/-- `JournalPurpose::text` -/
def JournalPurpose.text : JournalPurpose → Bytes
  | .localIdentity => Bytes.utf8 "local-identity"
  | .clusterGenesis => Bytes.utf8 "cluster-genesis"
  | .admission id => Bytes.utf8 "admission-" ++ hexEncode id.asBytes
  | .adoption id => Bytes.utf8 "adoption-" ++ hexEncode id.asBytes
  | .keyDeletion handle => Bytes.utf8 "key-delete-" ++ hexEncode handle.asBytes

/-- `validate_purpose` of `src/identity/records.rs`: the grammar of the journal with a context of
    its own. -/
def validateIntentPurpose (purpose : JournalPurpose) (context : String) : Result Unit :=
  (validatePurpose purpose.text).mapError fun _ => .invalidInput context

/-! ## Encodings -/

def ed25519Algorithm : Bytes := Bytes.utf8 "radiata.woooo.tech/crypto/ed25519"

def localIdentitySchema : Bytes := Bytes.utf8 "radiata.woooo.tech/schemas/local-identity-v1"
def keyCreationIntentSchema : Bytes := Bytes.utf8 "radiata.woooo.tech/schemas/key-creation-intent-v1"
def keyDeletionIntentSchema : Bytes := Bytes.utf8 "radiata.woooo.tech/schemas/key-deletion-intent-v1"
def keyDeletedSchema : Bytes := Bytes.utf8 "radiata.woooo.tech/schemas/key-deleted-v1"
def leaveIntentSchema : Bytes := Bytes.utf8 "radiata.woooo.tech/schemas/leave-intent-v1"

/-- `RECORD_LIMITS` -/
def identityRecordLimits : CborLimits := ⟨1, 16, 1024⟩

/-- `INTENT_LIMITS` of a leave. -/
def leaveIntentLimits : CborLimits := ⟨4, 8, 1024⟩

/-- `encode_canonical` of a record that is encoded as an item. -/
def encodeRecord (item : Cbor.Item) (limits : CborLimits) : Result Bytes :=
  encodeCanonical ⟨Cbor.Item.encode, fun _ => none⟩ item limits

def LocalIdentityV1.item (identity : LocalIdentityV1) : Cbor.Item :=
  .array [.text localIdentitySchema, .uint 1, .text identity.node.asStr,
    .bytes identity.publicKey.asBytes, .text ed25519Algorithm, .text identity.operation.asStr,
    .bytes identity.handle.asBytes]

def LocalIdentityV1.encode (identity : LocalIdentityV1) : Result Bytes :=
  encodeRecord identity.item identityRecordLimits

/-- The revision of a snapshot as the providers of the repository write it. -/
def revisionBytes (revision : Nat) : Bytes := u64ToBEBytes (UInt64.ofNat revision)

def KeyCreationIntentV1.item (intent : KeyCreationIntentV1) (transaction : TransactionId)
    (base : Nat) : Cbor.Item :=
  .array [.text keyCreationIntentSchema, .uint 1, .text intent.operation.asStr,
    .text intent.intendedNode.asStr, .text intent.purpose.text, .text ed25519Algorithm,
    .text transaction.asStr, .bytes (revisionBytes base)]

def KeyDeletionIntentV1.item (intent : KeyDeletionIntentV1) (transaction : TransactionId)
    (base : Nat) : Cbor.Item :=
  .array [.text keyDeletionIntentSchema, .uint 1, .text intent.operation.asStr,
    .bytes intent.handle.asBytes, .text intent.purpose.text, .text transaction.asStr,
    .bytes (revisionBytes base)]

def KeyDeletedV1.item (tombstone : KeyDeletedV1) : Cbor.Item :=
  .array [.text keyDeletedSchema, .uint 1, .text tombstone.operation.asStr,
    .bytes tombstone.handle.asBytes]

def LeaveIntentV1.item (intent : LeaveIntentV1) : Cbor.Item :=
  .array [.text leaveIntentSchema, .uint 1, .text intent.formerNode.asStr,
    .bytes intent.formerKey.asBytes, .bytes intent.formerHandle.asBytes,
    .text intent.replacementNode.asStr, .text intent.replacementOperation.asStr]

def LeaveIntentV1.encode (intent : LeaveIntentV1) : Result Bytes :=
  encodeRecord intent.item leaveIntentLimits

/-! ## Keys of the provider -/

/-- `verify_provider_key` -/
def verifyProviderKey (handle : KeyHandle) (expected : PublicKey) : NodeM Unit := do
  let provided ← NodeM.publicKey handle
  ofResult (Except.rejectIf (provided ≠ expected) (.provider .internal .keyPublicKey))

/-- `create_key_exact` -/
def createKeyExact (operation : KeyOperationId) : NodeM CreatedKey := do
  match ← createKey operation with
  | .present created =>
    verifyProviderKey created.handle created.publicKey
    return created
  | .absent => throw (.notReady "local identity key create")
  | .unknown => throw (.provider .commitUnknown .keyCreate)

/-- What a key provider was asked to create and what it has created. -/
structure Vault where
  requested : List KeyOperationId
  keys : List (KeyOperationId × CreatedKey)

namespace Vault

/-- A key was created for the operation. -/
def Created (vault : Vault) (operation : KeyOperationId) : Prop :=
  ∃ created, (operation, created) ∈ vault.keys

/-- A conforming provider: a call creates one key at most, also when it fails, and a
    reconciliation is truthful. Operation ids are drawn at random and never twice. -/
def answers : (call : NodeCall) → Vault → call.Answer → Vault → Prop
  | .generateOperation, v, answer, w => w = v ∧ ∀ operation, answer = .ok operation →
      operation ∉ v.requested ∧ ¬ v.Created operation
  | .createKey operation, v, answer, w => w.requested = operation :: v.requested ∧
      (w.keys = v.keys ∨ ∃ created, w.keys = (operation, created) :: v.keys) ∧
      ∀ created, answer = .ok (.present created) → (operation, created) ∈ w.keys
  | .reconcileCreate operation, v, answer, w => w = v ∧
      (∀ created, answer = .ok (.present created) → (operation, created) ∈ v.keys) ∧
      (answer = .ok .absent → ¬ v.Created operation)
  | _, v, _, w => w = v

end Vault

/-- The store of a node and the provider of its keys. -/
structure Custody where
  node : NodeStore
  vault : Vault

namespace Custody

def answers (call : NodeCall) (s : Custody) (answer : call.Answer) (t : Custody) : Prop :=
  call.answers s.node answer t.node ∧ Vault.answers call s.vault answer t.vault

/-- The process starts again. -/
def Restarts (s t : Custody) : Prop := s.node.Restarts t.node ∧ t.vault = s.vault

end Custody

/-- Operations on one store and one key provider. -/
def custodySchedule {Λ α : Type} (operation : Λ → NodeM α) (starts : Λ → Custody → List Λ → Prop) :
    Schedule Λ NodeCall NodeCall.Answer (Result α) Custody where
  program := fun label => (operation label).run
  answers := Custody.answers
  starts := starts
  interruptible := fun call => call.isAwait = true
  resets := Custody.Restarts

/-! ## The local identity -/

/-- The keys of the namespace of creation intents. -/
def MetadataKey.isKeyCreationIntent : MetadataKey → Bool
  | .keyCreationIntent _ => true
  | _ => false

/-- `discover_key_creation_intent` on its snapshot. -/
def discoverKeyCreationIntent (snapshot : RecordStore) : Result (Option KeyCreationIntentV1) :=
  match snapshot.scan MetadataKey.isKeyCreationIntent with
  | [] => .ok none
  | [(key, stored)] => do
    let record ← Except.okOr discoveryCorrupt stored.asKeyCreationIntent
    Except.rejectIf (key ≠ .keyCreationIntent record.operation ∨ record.purpose ≠ .localIdentity)
      discoveryCorrupt
    return some record
  | _ => .error discoveryCorrupt

/-- `accept_exact_final_state` -/
def acceptExactFinalState (expected : LocalIdentityV1) : NodeM Unit := do
  let current ← snapshot
  let found ← ofResult (discoverLocalIdentity current)
  let intent ← ofResult (discoverKeyCreationIntent current)
  ofResult (Except.rejectIf (found ≠ some expected ∨ intent ≠ none)
    (.conflict "local identity finalize"))

/-- A deletion intent or a tombstone of the handle is there. -/
def handleRetired (snapshot : RecordStore) (handle : KeyHandle) : Bool :=
  (snapshot.lookup (.keyDeletionIntent handle)).isSome || (snapshot.lookup (.keyDeleted handle)).isSome

/-- The checks that no later transaction retires the handle. -/
def reuseGuards (handle : KeyHandle) : List RecordAction :=
  [.check (.keyDeletionIntent handle) none, .check (.keyDeleted handle) none]

/-- `finalize_identity` -/
def finalizeIdentity (intent : KeyCreationIntentV1) (created : CreatedKey) :
    NodeM LocalIdentityV1 := do
  let identity : LocalIdentityV1 :=
    ⟨intent.intendedNode, created.publicKey, intent.operation, created.handle⟩
  let current ← snapshot
  if handleRetired current created.handle then throw (.conflict "key handle reuse")
  let _ ← ofResult identity.encode
  let transaction ← prepare current.revision
    ([.delete (.keyCreationIntent intent.operation) (.keyCreationIntent intent),
      .put .localIdentity none (.localIdentity identity)] ++ reuseGuards created.handle)
    (some .localIdentity)
  match ← commitWithReconcile transaction with
  | .committed => pure ()
  | .aborted => acceptExactFinalState identity
  cleanupPendingExact .localIdentity "local identity pending cleanup"
  return identity

/-- `create_identity` on the snapshot of the discovery. -/
def createIdentity (current : RecordStore) : NodeM LocalIdentityV1 := do
  let node ← generateNode
  let operation ← generateOperation
  let intent : KeyCreationIntentV1 := ⟨operation, node, .localIdentity⟩
  let transaction ← prepare current.revision
    [.put (.keyCreationIntent operation) none (.keyCreationIntent intent)] none
  let _ ← ofResult (encodeRecord (intent.item transaction.id current.revision) identityRecordLimits)
  match ← commitWithReconcile transaction with
  | .committed => pure ()
  | .aborted => throw (.conflict "local identity intent commit")
  let created ← createKeyExact operation
  finalizeIdentity intent created

/-- `resume_identity_creation` -/
def resumeIdentityCreation (intent : KeyCreationIntentV1) : NodeM LocalIdentityV1 := do
  let created ← match ← reconcileCreate intent.operation with
    | .present created => do
      verifyProviderKey created.handle created.publicKey
      pure created
    | .absent => createKeyExact intent.operation
    | .unknown => throw (.provider .commitUnknown .keyReconcile)
  finalizeIdentity intent created

/-! ## Deletion of a key -/

/-- `accept_exact_tombstone` -/
def acceptExactTombstone (tombstone : KeyDeletedV1) : NodeM Unit := do
  let current ← snapshot
  match current.lookup (.keyDeleted tombstone.handle) with
  | some value =>
    if (current.lookup (.keyDeletionIntent tombstone.handle)).isSome then
      throw (.conflict "key deletion tombstone")
    let stored ← ofResult (Except.okOr discoveryCorrupt value.asKeyDeleted)
    ofResult (Except.rejectIf (stored ≠ tombstone) discoveryCorrupt)
  | none => throw (.conflict "key deletion tombstone")

/-- The provider calls of `delete_provider_step`: whether the key is proven absent. -/
def deleteAtProvider (intent : KeyDeletionIntentV1) (resumed : Bool) : NodeM Bool := do
  let outcome ← if resumed then reconcileDelete intent.operation intent.handle
    else deleteKey intent.operation intent.handle
  match outcome with
  | .absent => return true
  | .unknown => throw (.provider .commitUnknown .keyDelete)
  | .present =>
    if resumed then
      -- One fresh delete under the same operation.
      match ← deleteKey intent.operation intent.handle with
      | .absent => return true
      | .present => return false
      | .unknown => throw (.provider .commitUnknown .keyDelete)
    else return false

/-- `delete_provider_step` -/
def deleteProviderStep (intent : KeyDeletionIntentV1) (resumed : Bool) : NodeM Unit := do
  let absent ← deleteAtProvider intent resumed
  if !absent then throw (.notReady "key deletion")
  let current ← snapshot
  let stored ← ofResult (Except.okOr discoveryCorrupt
    (current.lookup (.keyDeletionIntent intent.handle)))
  ofResult (Except.rejectIf (stored ≠ .keyDeletionIntent intent) discoveryCorrupt)
  let tombstone : KeyDeletedV1 := ⟨intent.operation, intent.handle⟩
  let _ ← ofResult (encodeRecord tombstone.item identityRecordLimits)
  let transaction ← prepare current.revision
    [.delete (.keyDeletionIntent intent.handle) stored,
      .put (.keyDeleted intent.handle) none (.keyDeleted tombstone)]
    (some (.keyDeletion intent.handle))
  match ← commitWithReconcile transaction with
  | .committed =>
    cleanupPendingExact (.keyDeletion intent.handle) "key deletion pending cleanup"
  | .aborted => acceptExactTombstone tombstone

/-- The check of a stored deletion intent. -/
def checkDeletionIntent (handle : KeyHandle) (stored : MetadataRecord) :
    Result KeyDeletionIntentV1 := do
  let intent ← Except.okOr discoveryCorrupt stored.asKeyDeletionIntent
  Except.rejectIf (intent.handle ≠ handle ∨ intent.purpose ≠ .keyDeletion handle) discoveryCorrupt
  return intent

/-- The operations that install a deletion intent: the local identity that was found is pinned. -/
def deletionIntentActions (current : RecordStore) (intent : KeyDeletionIntentV1) :
    List RecordAction :=
  ((current.lookup .localIdentity).map fun stored => .check .localIdentity (some stored)).toList ++
    [.put (.keyDeletionIntent intent.handle) none (.keyDeletionIntent intent)]

/-- A deletion step whose conflict is followed by `again`. -/
def deleteStepOr (again : Error → NodeM Unit) (intent : KeyDeletionIntentV1) (resumed : Bool) :
    NodeM Unit := do
  match ← ExceptT.lift (deleteProviderStep intent resumed).run with
  | .ok () => return ()
  | .error error => if error.kind = .conflict then again error else throw error

/-- One iteration of `delete_unreferenced_key`, with what follows a conflict. -/
def deleteAttempt (handle : KeyHandle) (again : Error → NodeM Unit) : NodeM Unit := do
  let current ← snapshot
  if (current.lookup (.keyDeleted handle)).isSome then return ()
  let found ← ofResult (discoverLocalIdentity current)
  if found.any (fun identity => identity.handle = handle) then
    throw (.conflict "referenced key handle")
  match current.lookup (.keyDeletionIntent handle) with
  | some stored =>
    let intent ← ofResult (checkDeletionIntent handle stored)
    deleteStepOr again intent true
  | none =>
    let operation ← generateOperation
    let intent : KeyDeletionIntentV1 := ⟨operation, handle, .keyDeletion handle⟩
    ofResult (validateIntentPurpose intent.purpose "key deletion intent purpose")
    let transaction ← prepare current.revision (deletionIntentActions current intent) none
    let _ ← ofResult (encodeRecord (intent.item transaction.id current.revision) identityRecordLimits)
    match ← commitWithReconcile transaction with
    | .committed => deleteStepOr again intent false
    | .aborted => again (.conflict "key deletion intent")

/-- `delete_unreferenced_key`: at most two attempts. -/
def deleteUnreferencedKey (handle : KeyHandle) : NodeM Unit := do
  -- `recover_pending` validates the purpose before it reads.
  ofResult (validatePurpose (JournalPurpose.keyDeletion handle).text)
  let _ ← recoverJournalPrologue (.keyDeletion handle) "key deletion pending cleanup"
  reconcileFrozen
  deleteAttempt handle fun _ => deleteAttempt handle fun error => throw error

/-! ## Active leave -/

/-- The namespaces of the metadata families. -/
inductive MetadataFamily where
  | localIdentity
  | keyCreationIntent
  | keyDeletionIntent
  | keyDeleted
  | identityBinding
  | clusterGenesis
  | localClusterPointer
  | credentialUse
  | admissionGrant
  | trustSnapshot
  | trustBinding
  | revocation
  | leaveIntent
  | nodeDescriptor
  | resourceRecord
  | routeTrace
  | pendingTransaction
  deriving DecidableEq

def MetadataKey.family : MetadataKey → MetadataFamily
  | .localIdentity => .localIdentity
  | .keyCreationIntent _ => .keyCreationIntent
  | .keyDeletionIntent _ => .keyDeletionIntent
  | .keyDeleted _ => .keyDeleted
  | .identityBinding _ => .identityBinding
  | .clusterGenesis _ => .clusterGenesis
  | .localClusterPointer => .localClusterPointer
  | .credentialUse _ _ => .credentialUse
  | .admissionGrant _ => .admissionGrant
  | .trustSnapshot _ _ => .trustSnapshot
  | .trustBinding _ => .trustBinding
  | .revocation _ => .revocation
  | .leaveIntent => .leaveIntent
  | .nodeDescriptor _ => .nodeDescriptor
  | .resourceRecord _ => .resourceRecord
  | .routeTrace _ => .routeTrace
  | .pendingTransaction _ => .pendingTransaction

/-- `WIPE_NAMESPACES` -/
def wipeNamespaces : List MetadataFamily :=
  [.identityBinding, .clusterGenesis, .localClusterPointer, .credentialUse, .admissionGrant,
    .trustSnapshot, .trustBinding, .revocation, .nodeDescriptor, .resourceRecord, .routeTrace]

def wipeBatch : Nat := 64
def wipeRetries : Nat := 8

/-- The next records of a family to be deleted. -/
def wipeActions (current : RecordStore) (family : MetadataFamily) : List RecordAction :=
  ((current.scan fun key => key.family = family).take wipeBatch).map fun entry =>
    .delete entry.1 entry.2

/-- `wipe_family`. The loop of the source has no bound; `rounds` is one for its iterations. -/
def wipeFamily (family : MetadataFamily) : (rounds retries : Nat) → NodeM Unit
  | 0, _ => throw (.internal "leave wipe rounds")
  | rounds + 1, retries => do
    let current ← snapshot
    if wipeActions current family = [] then return ()
    let transaction ← prepare current.revision (wipeActions current family) none
    match ← commitWithReconcile transaction with
    | .committed => wipeFamily family rounds retries
    | .aborted =>
      if retries + 1 > wipeRetries then throw (.conflict "leave wipe")
      wipeFamily family rounds (retries + 1)

/-- `wipe_old_metadata` -/
def wipeOldMetadata (rounds : Nat) : List MetadataFamily → NodeM Unit
  | [] => return ()
  | family :: families => do
    wipeFamily family rounds 0
    wipeOldMetadata rounds families

/-- `discover_leave_intent` -/
def discoverLeaveIntent : NodeM (Option LeaveIntentV1) := do
  let current ← snapshot
  match current.lookup .leaveIntent with
  | none => return none
  | some stored =>
    let intent ← ofResult (Except.okOr (.invalidInput "leave intent") stored.asLeaveIntent)
    return some intent

/-- `replacement_key` -/
def replacementKey (intent : LeaveIntentV1) : NodeM CreatedKey := do
  let created ← match ← reconcileCreate intent.replacementOperation with
    | .present created => pure created
    | .absent => do
      match ← createKey intent.replacementOperation with
      | .present created => pure created
      | .absent => throw (.notReady "leave replacement key create")
      | .unknown => throw reconcileUnknown
    | .unknown => throw reconcileUnknown
  verifyProviderKey created.handle created.publicKey
  return created

/-- The identity that a leave installs. -/
def LeaveIntentV1.replacement (intent : LeaveIntentV1) (created : CreatedKey) : LocalIdentityV1 :=
  ⟨intent.replacementNode, created.publicKey, intent.replacementOperation, created.handle⟩

/-- `swap_identity` -/
def swapIdentity (intent : LeaveIntentV1) (created : CreatedKey) : NodeM Unit := do
  let current ← snapshot
  let stored ← ofResult (Except.okOr (.conflict "leave identity swap")
    (current.lookup .localIdentity))
  let former ← ofResult (Except.okOr (.invalidInput "local identity") stored.asLocalIdentity)
  ofResult (Except.rejectIf (former.node ≠ intent.formerNode) (.conflict "leave identity swap"))
  if handleRetired current created.handle then throw (.conflict "key handle reuse")
  let _ ← ofResult (intent.replacement created).encode
  let transaction ← prepare current.revision
    (.put .localIdentity (some stored) (.localIdentity (intent.replacement created)) ::
      reuseGuards created.handle) none
  match ← commitWithReconcile transaction with
  | .committed => return ()
  | .aborted => throw (.conflict "leave identity swap")

/-- `complete_leave` -/
def completeLeave (intent : LeaveIntentV1) : NodeM Unit := do
  let current ← snapshot
  let transaction ← prepare current.revision [.delete .leaveIntent (.leaveIntent intent)] none
  match ← commitWithReconcile transaction with
  | .committed => return ()
  | .aborted => throw (.conflict "leave completion")

/-- The stored local identity. -/
def requireLocalIdentity : NodeM LocalIdentityV1 := do
  let current ← snapshot
  let found ← ofResult (discoverLocalIdentity current)
  ofResult (Except.okOr (.internal "leave local identity") found)

/-- `run_leave` -/
def runLeave (rounds : Nat) (intent : LeaveIntentV1) : NodeM Unit := do
  let identity ← requireLocalIdentity
  if identity.node = intent.formerNode then
    let created ← replacementKey intent
    swapIdentity intent created
  else if identity.node ≠ intent.replacementNode then throw discoveryCorrupt
  wipeOldMetadata rounds wipeNamespaces
  deleteUnreferencedKey intent.formerHandle
  completeLeave intent

/-- `begin_intent` -/
def beginIntent (identity : LocalIdentityContext) : NodeM LeaveIntentV1 := do
  let node ← generateNode
  let operation ← generateOperation
  let intent : LeaveIntentV1 :=
    ⟨identity.node, identity.publicKey, identity.handle, node, operation⟩
  let _ ← ofResult intent.encode
  let current ← snapshot
  let transaction ← prepare current.revision [.put .leaveIntent none (.leaveIntent intent)] none
  match ← commitWithReconcile transaction with
  | .committed => return intent
  | .aborted => throw (.conflict "leave intent")

/-- `execute` -/
def executeLeave (rounds : Nat) (identity : LocalIdentityContext) : NodeM (NodeId × NodeId) := do
  let intent ← match ← discoverLeaveIntent with
    | some intent => pure intent
    | none => beginIntent identity
  runLeave rounds intent
  return (intent.formerNode, intent.replacementNode)

/-- `resume_if_pending` -/
def resumeIfPending (rounds : Nat) : NodeM (Option LocalIdentityV1) := do
  match ← discoverLeaveIntent with
  | none => return none
  | some intent =>
    runLeave rounds intent
    let identity ← requireLocalIdentity
    return some identity

/-! ## Opening -/

/-- The identity of the phase that the snapshot shows. -/
def openPhase (current : RecordStore) : NodeM LocalIdentityV1 := do
  let found ← ofResult (discoverLocalIdentity current)
  let intent ← ofResult (discoverKeyCreationIntent current)
  match found, intent with
  | some _, some _ => throw discoveryCorrupt
  | some identity, none =>
    verifyProviderKey identity.handle identity.publicKey
    return identity
  | none, none => createIdentity current
  | none, some intent => resumeIdentityCreation intent

/-- `open_local_identity` on a store that was just opened, with a provider that has the
    capabilities or not. -/
def openLocalIdentity (capable : Bool) (rounds : Nat) : NodeM LocalIdentityV1 := do
  match ← recoverPending .localIdentity with
  | some id =>
    reconcileRecoveredJournal id
    cleanupPendingExact .localIdentity "local identity pending cleanup"
  | none => pure ()
  if !capable then throw (.provider .unsupportedCapability .keyCreate)
  let current ← snapshot
  let identity ← openPhase current
  match ← resumeIfPending rounds with
  | some replacement => return replacement
  | none => return identity

end Radiata
