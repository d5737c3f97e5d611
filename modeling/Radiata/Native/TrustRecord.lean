import Radiata.Native.AdmissionRecord

/-!
# Trust records

`src/identity/trust.rs`, `src/membership/sync.rs`, `src/membership.rs`: the writers that keep what
other members say. A snapshot of an issuer is stored under the issuer and its revision, the
bindings it names are stored twice (as an observation and as an identity binding), and a
descriptor replaces the one before it. `src/session/driver.rs`: an admission is committed and its
grant delivered.

Each writer takes a snapshot of the store, decides on it, and commits one transaction. An encoding
that exceeds its limit is an error of the builder.
-/

namespace Radiata

open NodeM

/-! ## Revocations -/

/-- `revoked_key_ctx` -/
def revokedKeyCtx (subject : NodeId) : NodeM (Option PublicKey) := do
  let current ← snapshot
  match current.lookup (.revocation subject) with
  | none => return none
  | some stored =>
    let key ← ofResult (Except.okOr (.invalidInput "revocation record") stored.asRevocation)
    return some key

/-! ## Snapshots -/

/-- The keys of the snapshots of an issuer. -/
def MetadataKey.isSnapshotOf (issuer : NodeId) : MetadataKey → Bool
  | .trustSnapshot other _ => decide (other = issuer)
  | _ => false

/-- The revision in the key of a snapshot. -/
def MetadataKey.snapshotRevision : MetadataKey → UInt64
  | .trustSnapshot _ revision => revision
  | _ => 0

/-- The operations of `persist_snapshot_ctx`: the record, and the removal of the superseded ones. -/
def persistActions (current : RecordStore) (record : TrustSnapshotV1) : List RecordAction :=
  .put (.trustSnapshot record.issuer record.revision) none (.trustSnapshot record) ::
    ((current.scan (MetadataKey.isSnapshotOf record.issuer)).filter fun entry =>
      decide (entry.1.snapshotRevision < record.revision)).map fun entry =>
        .delete entry.1 entry.2

/-- `persist_snapshot_ctx` -/
def persistSnapshotCtx (record : TrustSnapshotV1) : NodeM Unit := do
  let current ← snapshot
  if (current.lookup (.trustSnapshot record.issuer record.revision)).isSome then return ()
  let transaction ← prepare current.revision (persistActions current record) none
  let _ ← commitRecords transaction
  return ()

/-! ## Bindings -/

/-- `persist_binding_ctx` -/
def persistBindingCtx (node : NodeId) (key : PublicKey) : NodeM Unit := do
  let current ← snapshot
  match current.lookup (.trustBinding node) with
  | some existing =>
    let stored ← ofResult (Except.okOr (.invalidInput "trust binding format")
      existing.asTrustBinding)
    ofResult (Except.rejectIf (stored ≠ key) (.notTrusted "trust binding key substitution"))
  | none =>
    let transaction ← prepare current.revision
      [.put (.trustBinding node) none (.trustBinding key)] none
    let _ ← commitRecords transaction
    return ()

/-- `adopt_binding_ctx` -/
def adoptBindingCtx (node : NodeId) (key : PublicKey) : NodeM Unit := do
  let current ← snapshot
  match current.lookup (.identityBinding node) with
  | some existing =>
    let stored ← ofResult (Except.okOr (.invalidInput "identity binding decode")
      existing.asIdentityBinding)
    ofResult (Except.rejectIf (stored.publicKey ≠ key) (.notTrusted "trust binding key substitution"))
  | none =>
    let revoked ← revokedKeyCtx node
    if revoked.isSome then throw ⟨.revoked, "trust binding adoption"⟩
    let transaction ← prepare current.revision
      [.put (.identityBinding node) none (.identityBinding ⟨node, key⟩)] none
    let _ ← commitRecords transaction
    return ()

/-! ## Descriptors -/

/-- The checks of `store_descriptor_ctx` on its snapshot. -/
def checkDescriptor (current : RecordStore) (descriptor : DescriptorRecord) : Result Unit :=
  match current.lookup (.nodeDescriptor descriptor.node) with
  | some stored => do
    let existing ← Except.okOr (.invalidInput "node descriptor decode") stored.asNodeDescriptor
    Except.rejectIf (descriptor.revision ≤ existing.revision) (.conflict "node descriptor revision")
    Except.rejectIf (existing.removed = true ∧ descriptor.removed = false)
      (.conflict "node descriptor removal")
  | none =>
    Except.rejectIf (descriptor.revision ≠ 1 ∧
      current.lookup (.identityBinding descriptor.node) = none) (.conflict "node descriptor revision")

/-- `store_descriptor_ctx` -/
def storeDescriptorCtx (descriptor : DescriptorRecord) : NodeM Unit := do
  let current ← snapshot
  ofResult (checkDescriptor current descriptor)
  let transaction ← prepare current.revision
    [.put (.nodeDescriptor descriptor.node) (current.lookup (.nodeDescriptor descriptor.node))
      (.nodeDescriptor descriptor)] none
  match ← commitRecords transaction with
  | .committed => return ()
  | .aborted => return ()
  | .conflict => throw (.conflict "node descriptor revision")
  | .unknown => throw (.provider .commitUnknown .storageCommit)

/-! ## Delivery of a grant -/

/-- `commit_and_deliver` up to the message: the grant and the digest of the genesis. -/
def commitAndDeliver [Ed25519] (identity : LocalIdentityContext) (proposal : AdmissionProposal) :
    NodeM (AdmissionGrantV1 × Digest) := do
  let grant ← commitAdmission identity proposal
  let current ← snapshot
  let cluster ← ofResult (existingCluster current)
  let genesis ← ofResult (Except.okOr (.internal "session cluster") cluster)
  return (grant, genesis.digest)

end Radiata
