import Radiata.Native.NodeStore

/-!
# Admission records

`src/identity/admission.rs`: the issuer commits the binding of a subject, the use of its
credential and the grant in one journaled transaction.
-/

namespace Radiata

open NodeM

/-- `LocalIdentityContext`: the identity the node was opened with. -/
abbrev LocalIdentityContext := LocalIdentityV1

structure AdmissionProposal where
  subject : NodeId
  subjectKey : PublicKey
  generation : GenerationId
  admission : AdmissionId
  deriving DecidableEq

inductive AdmissionState where
  | consumed (credentialUse : CredentialUseV1) (grant : AdmissionGrantV1)
  | aborted
  deriving DecidableEq

section Admission

variable [Ed25519]

/-! ## Classification -/

/-- The check of a stored credential use. -/
def checkCredentialUse (identity : LocalIdentityContext) (proposal : AdmissionProposal)
    (cluster : Option ClusterId) (stored : MetadataRecord) : Result CredentialUseV1 := do
  let record ← Except.okOr discoveryCorrupt stored.asCredentialUse
  Except.rejectIf (record.issuer ≠ identity.node ∨ record.generation ≠ proposal.generation ∨
    record.admission ≠ proposal.admission ∨ record.subject ≠ proposal.subject ∨
    record.subjectKey ≠ proposal.subjectKey ∨ cluster ≠ some record.cluster)
    (.conflict "admission record")
  return record

/-- The check of a stored grant. -/
def checkAdmissionGrant (identity : LocalIdentityContext) (proposal : AdmissionProposal)
    (cluster : Option ClusterId) (stored : MetadataRecord) : Result AdmissionGrantV1 := do
  let record ← Except.okOr discoveryCorrupt stored.asAdmissionGrant
  Except.rejectIf (record.admission ≠ proposal.admission ∨ record.subject ≠ proposal.subject ∨
    record.subjectKey ≠ proposal.subjectKey ∨ record.issuer ≠ identity.node ∨
    record.generation ≠ proposal.generation ∨ cluster ≠ some record.cluster)
    (.conflict "admission grant")
  let () ← (record.verify identity.publicKey).mapError fun _ => .conflict "admission grant"
  return record

/-- The check of a stored subject binding. -/
def checkSubjectBinding (proposal : AdmissionProposal) (stored : MetadataRecord) :
    Result IdentityBindingV1 := do
  let record ← Except.okOr discoveryCorrupt stored.asIdentityBinding
  Except.rejectIf (record.node ≠ proposal.subject ∨ record.publicKey ≠ proposal.subjectKey)
    (.conflict "admission record")
  return record

/-- The classification of `admission_state` on its snapshot. -/
def classifyAdmission (identity : LocalIdentityContext) (proposal : AdmissionProposal)
    (snapshot : RecordStore) : Result AdmissionState := do
  let pointer ← localCluster snapshot
  let cluster := pointer.map LocalClusterPointerV1.cluster
  let credentialUse ← (snapshot.lookup (.credentialUse identity.node proposal.generation)).mapM
    (checkCredentialUse identity proposal cluster)
  let grant ← (snapshot.lookup (.admissionGrant proposal.admission)).mapM
    (checkAdmissionGrant identity proposal cluster)
  let binding ← (snapshot.lookup (.identityBinding proposal.subject)).mapM
    (checkSubjectBinding proposal)
  match credentialUse, grant, binding with
  | some credentialUse, some grant, some _ =>
    Except.rejectIf (credentialUse.cluster ≠ grant.cluster) (.conflict "admission record")
    return .consumed credentialUse grant
  | none, none, none => return .aborted
  | _, _, _ => throw discoveryCorrupt

def admissionState (identity : LocalIdentityContext) (proposal : AdmissionProposal) :
    NodeM AdmissionState := do
  let snapshot ← snapshot
  ofResult (classifyAdmission identity proposal snapshot)

/-! ## The issuer -/

/-- The operations of an admission. -/
def admissionActions (localValue pointer issuerBinding : MetadataRecord) (identity : LocalIdentityContext)
    (proposal : AdmissionProposal) (credentialUse : CredentialUseV1) (grant : AdmissionGrantV1) :
    List RecordAction :=
  [.check .localIdentity (some localValue),
    .check .localClusterPointer (some pointer),
    .check (.identityBinding identity.node) (some issuerBinding),
    .put (.identityBinding proposal.subject) none
      (.identityBinding ⟨proposal.subject, proposal.subjectKey⟩),
    .put (.credentialUse identity.node proposal.generation) none (.credentialUse credentialUse),
    .put (.admissionGrant proposal.admission) none (.admissionGrant grant)]

/-- The stored local identity, which is the one the node was opened with. -/
def localIdentityValue (identity : LocalIdentityContext) (snapshot : RecordStore) :
    Result MetadataRecord := do
  let stored ← Except.okOr discoveryCorrupt (snapshot.lookup .localIdentity)
  let found ← Except.okOr discoveryCorrupt stored.asLocalIdentity
  Except.rejectIf (found ≠ identity) discoveryCorrupt
  return stored

/-- The cluster, which `existing_cluster` reads from a snapshot of its own, and the pointer and
    issuer binding that the transaction pins. -/
def admissionPins (identity : LocalIdentityContext) (snapshot clusterSnapshot : RecordStore) :
    Result (ClusterId × MetadataRecord × MetadataRecord) := do
  let cluster ← existingCluster clusterSnapshot
  let genesis ← Except.okOr (.notTrusted "admission cluster") cluster
  let issuerBinding ← Except.okOr (.notTrusted "admission issuer")
    (snapshot.lookup (.identityBinding identity.node))
  let binding ← Except.okOr discoveryCorrupt issuerBinding.asIdentityBinding
  Except.rejectIf (binding.node ≠ identity.node ∨ binding.publicKey ≠ identity.publicKey)
    discoveryCorrupt
  let pointer ← Except.okOr discoveryCorrupt (snapshot.lookup .localClusterPointer)
  return (genesis.cluster, pointer, issuerBinding)

/-- One of the three records of the proposal is there. -/
def admissionPresent (identity : LocalIdentityContext) (proposal : AdmissionProposal)
    (snapshot : RecordStore) : Bool :=
  (snapshot.lookup (.identityBinding proposal.subject)).isSome ||
    (snapshot.lookup (.credentialUse identity.node proposal.generation)).isSome ||
    (snapshot.lookup (.admissionGrant proposal.admission)).isSome

/-- The answer of `commit_admission` where one of the three records is there. -/
def existingAdmission : Result AdmissionState → Result AdmissionGrantV1
  | .ok (.consumed _ existing) => .ok existing
  | .ok .aborted => .error discoveryCorrupt
  | .error error =>
    if error.kind = .storageCorrupt then .error error else .error (.conflict "admission record")

/-- What `commit_admission` makes of the outcome of its commit. -/
def finishAdmission (identity : LocalIdentityContext) (proposal : AdmissionProposal)
    (grant : AdmissionGrantV1) : CommitWithReconcile → NodeM AdmissionGrantV1
  | .committed => do
    cleanupPendingExact (.admission proposal.generation) "admission pending cleanup"
    return grant
  | .aborted => do
    match ← admissionState identity proposal with
    | .consumed _ existing =>
      cleanupPendingExact (.admission proposal.generation) "admission pending cleanup"
      return existing
    | .aborted => throw (.conflict "admission commit")

def commitAdmission (identity : LocalIdentityContext) (proposal : AdmissionProposal) :
    NodeM AdmissionGrantV1 := do
  if ← recoverJournalPrologue (.admission proposal.generation) "admission pending cleanup" then
    match ← admissionState identity proposal with
    | .consumed _ grant => return grant
    | .aborted => throw discoveryCorrupt
  let first ← snapshot
  let localValue ← ofResult (localIdentityValue identity first)
  let second ← snapshot
  let (cluster, pointer, issuerBinding) ← ofResult (admissionPins identity first second)
  if admissionPresent identity proposal first then
    -- The classification reads a snapshot of its own; a failed read is an error of its own kind.
    let state ← ExceptT.lift (admissionState identity proposal).run
    ofResult (existingAdmission state)
  else
    let body := AdmissionGrantV1.encodeSignedBody cluster proposal.admission proposal.subject
      proposal.subjectKey identity.node proposal.generation
    let signature ← sign identity.handle (signatureMessage admissionGrantDomain body)
    let grant : AdmissionGrantV1 := ⟨cluster, proposal.admission, proposal.subject,
      proposal.subjectKey, identity.node, proposal.generation, signature⟩
    ofResult (grant.verify identity.publicKey)
    let credentialUse : CredentialUseV1 := ⟨cluster, identity.node, proposal.generation,
      proposal.admission, proposal.subject, proposal.subjectKey⟩
    let transaction ← prepare first.revision
      (admissionActions localValue pointer issuerBinding identity proposal credentialUse grant)
      (some (.admission proposal.generation))
    let outcome ← commitWithReconcile transaction
    finishAdmission identity proposal grant outcome

end Admission

end Radiata
