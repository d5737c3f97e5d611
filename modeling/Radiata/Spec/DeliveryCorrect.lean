import Radiata.Native.TrustRecord
import Radiata.Spec.AdmissionRecordCorrect

/-!
# Repeated join attempts

Each join attempt draws a fresh admission id, while the binding of its subject is for good. An
attempt that is alone with an unbound subject never meets records it cannot classify. An attempt
whose subject is already bound, by an admission whose grant was lost or by a trust snapshot, never
gets a grant: its own records are missing and the binding is there, which is a conflict at best
and looks like corruption otherwise.

## Key results

- `Disk.IssuerInv`: the records of an issuer, with every journal record backed by its use
- `issuerFamily`: what join attempts and adoptions expect of each other
- `join_attempts`: attempts that are alone and attempts that are late, in every run
- `lost_grant_corrupt`: a lost grant, and a second attempt under a new credential
-/

namespace Radiata

open Evolution NodeM

/-! ## The records of an issuer -/

/-- The identity has created the cluster. -/
structure Founded [Ed25519] (identity : LocalIdentityContext) (genesis : ClusterGenesisV1) : Prop where
  creator : genesis.creator = identity.node
  creatorKey : genesis.creatorKey = identity.publicKey
  verify : genesis.verify = .ok ()

structure Disk.IssuerInv (identity : LocalIdentityContext) (genesis : ClusterGenesisV1) (d : Disk) :
    Prop where
  admissions : d.AdmissionInv identity.node
  identityValue : d.store.lookup .localIdentity = some (.localIdentity identity)
  pointer : d.store.lookup .localClusterPointer =
    some (.localClusterPointer ⟨genesis.cluster, genesis.digest⟩)
  genesisScan : d.store.scan MetadataKey.isClusterGenesis =
    [(.clusterGenesis genesis.cluster, .clusterGenesis genesis)]
  issuer : d.store.lookup (.identityBinding identity.node) =
    some (.identityBinding ⟨identity.node, identity.publicKey⟩)
  bindings : ∀ node value, d.store.lookup (.identityBinding node) = some value →
    ∃ record, value = .identityBinding record
  journalUse : ∀ generation stored,
    d.store.lookup (.pendingTransaction (.admission generation)) = some stored →
    ∃ value, d.store.lookup (.credentialUse identity.node generation) = some value

namespace Disk.IssuerInv

variable {identity : LocalIdentityContext} {genesis : ClusterGenesisV1} {d : Disk}

variable {transaction : RecordTransaction}

/-- A transaction that only adds admissions and bindings, next to checks and journal records. -/
theorem applied (h : d.IssuerInv identity genesis) (hprepared : transaction ∈ d.prepared)
    (haccepts : d.store.accepts transaction.batch = true)
    (hadmissions : (d.applied transaction).AdmissionInv identity.node)
    (hkeeps : KeepsAdmissions d.store (d.applied transaction).store)
    (hkeys : ∀ action ∈ transaction.batch.actions, action.result = action.expected ∨
      action.key.isAdmission = true ∨ ∃ purpose, action.key = .pendingTransaction purpose)
    (hgenesis : ∀ action ∈ transaction.batch.actions, action.key.isClusterGenesis = false)
    (hbinding : ∀ action ∈ transaction.batch.actions, ∀ node value,
      action.key = .identityBinding node → action.result = some value →
      action.expected = some value ∨ ∃ record, value = .identityBinding record)
    (hjournal : ∀ action ∈ transaction.batch.actions, ∀ generation value,
      action.key = .pendingTransaction (.admission generation) → action.result = some value →
      ∃ value, (d.store.apply transaction.batch).lookup (.credentialUse identity.node generation) =
        some value) : (d.applied transaction).IssuerInv identity genesis := by
  have hnodup := h.admissions.sound.keys transaction hprepared
  -- A key outside the three families and the journal keeps its value.
  have hsame : ∀ key : MetadataKey, key.isAdmission = false →
      (∀ purpose, key ≠ .pendingTransaction purpose) →
      (d.store.apply transaction.batch).lookup key = d.store.lookup key := by
    intro key hkey hpending
    rcases Store.lookup_apply haccepts hnodup key with ⟨action, haction, rfl, hexpected, hresult⟩ |
        ⟨-, hsame⟩
    · rcases hkeys action haction with heq | hfamily | ⟨purpose, hpurpose⟩
      · rw [hresult, heq, ← hexpected]
      · rw [hfamily] at hkey
        cases hkey
      · exact absurd hpurpose (hpending purpose)
    · exact hsame
  refine ⟨hadmissions, ?_, ?_, ?_, hkeeps _ _ rfl h.issuer, ?_, ?_⟩
  · exact (hsame .localIdentity rfl nofun).trans h.identityValue
  · exact (hsame .localClusterPointer rfl nofun).trans h.pointer
  · exact (Store.scan_apply hgenesis).trans h.genesisScan
  · intro node value hlookup
    replace hlookup : (d.store.apply transaction.batch).lookup (.identityBinding node) = some value :=
      hlookup
    rcases Store.lookup_apply haccepts hnodup (.identityBinding node) with
      ⟨action, haction, hkey, hexpected, hresult⟩ | ⟨-, hsame⟩
    · rw [hresult] at hlookup
      rcases hbinding action haction node value hkey hlookup with hold | hnew
      · exact h.bindings node value (hexpected.trans hold)
      · exact hnew
    · exact h.bindings node value (hsame ▸ hlookup)
  · intro generation stored hlookup
    replace hlookup : (d.store.apply transaction.batch).lookup
      (.pendingTransaction (.admission generation)) = some stored := hlookup
    rcases Store.lookup_apply haccepts hnodup (.pendingTransaction (.admission generation)) with
      ⟨action, haction, hkey, -, hresult⟩ | ⟨-, hsame⟩
    · rw [hresult] at hlookup
      exact hjournal action haction generation stored hkey hlookup
    · obtain ⟨value, hvalue⟩ := h.journalUse generation stored (hsame ▸ hlookup)
      exact ⟨value, hkeeps _ _ rfl hvalue⟩

theorem prepare (h : d.IssuerInv identity genesis)
    (hfresh : ∀ other ∈ d.prepared, other.id ≠ transaction.id)
    (hkeys : transaction.batch.keys.Nodup) :
    (d.prepare transaction).IssuerInv identity genesis := by
  have hadmissions := h.admissions
  refine ⟨⟨hadmissions.sound.prepare hfresh hkeys, hadmissions.journaled, hadmissions.whole,
    hadmissions.durable⟩, h.identityValue, h.pointer, h.genesisScan, h.issuer, h.bindings,
    h.journalUse⟩

theorem cleanup (h : d.IssuerInv identity genesis) (hprepared : transaction ∈ d.prepared)
    {purpose : JournalPurpose} {stored : MetadataRecord}
    (hactions : transaction.batch.actions = [.delete (.pendingTransaction purpose) stored])
    (haccepts : d.store.accepts transaction.batch = true) :
    (d.applied transaction).IssuerInv identity genesis ∧
      KeepsAdmissions d.store (d.applied transaction).store := by
  obtain ⟨hadmissions, hkeeps⟩ := h.admissions.cleanup hprepared hactions haccepts
  have hcases : ∀ action ∈ transaction.batch.actions,
      action = .delete (.pendingTransaction purpose) stored := by
    intro action haction
    rw [hactions] at haction
    exact List.mem_singleton.mp haction
  refine ⟨h.applied hprepared haccepts hadmissions hkeeps ?_ ?_ ?_ ?_, hkeeps⟩
  · intro action haction
    rw [hcases action haction]
    exact Or.inr (Or.inr ⟨purpose, rfl⟩)
  · intro action haction
    rw [hcases action haction]
    rfl
  · intro action haction node value hkey
    rw [hcases action haction] at hkey
    cases hkey
  · intro action haction generation value _ hresult
    rw [hcases action haction] at hresult
    cases hresult

theorem admitted (h : d.IssuerInv identity genesis) (hprepared : transaction ∈ d.prepared)
    {base : Nat} {localValue pointer issuerBinding : MetadataRecord} {t : AdmissionTriple}
    (hbatch : transaction.batch = ⟨base, admissionActions localValue pointer issuerBinding identity
      t.proposal t.credentialUse t.grant ++
        journalAction transaction.id (some (.admission t.proposal.generation))⟩)
    (hissuer : t.issuer = identity.node) (haccepts : d.store.accepts transaction.batch = true) :
    (d.applied transaction).IssuerInv identity genesis ∧
      KeepsAdmissions d.store (d.applied transaction).store := by
  obtain ⟨hadmissions, hkeeps⟩ := h.admissions.admitted hprepared hbatch hissuer haccepts
  have hcases := mem_admissionBatch hbatch
  have hnodup := h.admissions.sound.keys transaction hprepared
  refine ⟨h.applied hprepared haccepts hadmissions hkeeps ?_ ?_ ?_ ?_, hkeeps⟩
  · intro action haction
    rcases hcases action haction with ⟨key, expected, rfl, -⟩ | rfl | rfl | rfl | rfl
    · exact Or.inl rfl
    · exact Or.inr (Or.inl rfl)
    · exact Or.inr (Or.inl rfl)
    · exact Or.inr (Or.inl rfl)
    · exact Or.inr (Or.inr ⟨_, rfl⟩)
  · intro action haction
    rcases hcases action haction with ⟨key, expected, rfl, rfl | rfl | rfl⟩ | rfl | rfl | rfl | rfl
    all_goals rfl
  · intro action haction node value hkey hresult
    rcases hcases action haction with ⟨key, expected, rfl, -⟩ | rfl | rfl | rfl | rfl
    · exact Or.inl hresult
    · cases hresult
      exact Or.inr ⟨_, rfl⟩
    all_goals cases hkey
  · intro action haction generation value hkey hresult
    have hput : .put (.credentialUse identity.node t.proposal.generation) none
        (.credentialUse t.credentialUse) ∈ transaction.batch.actions := by
      rw [hbatch]
      simp [admissionActions]
    have huse := Store.lookup_apply_of_mem haccepts hnodup hput
    rcases hcases action haction with ⟨key, expected, rfl, hpin⟩ | rfl | rfl | rfl | rfl
    · -- The checks are of records outside the journal.
      rcases hpin with rfl | rfl | rfl <;> cases hkey
    · cases hkey
    · cases hkey
    · cases hkey
    · cases hkey
      exact ⟨_, huse⟩

/-- The adoption of a binding. -/
theorem adopt (h : d.IssuerInv identity genesis) (hprepared : transaction ∈ d.prepared)
    {node : NodeId} {key : PublicKey} (hactions : transaction.batch.actions =
      [.put (.identityBinding node) none (.identityBinding ⟨node, key⟩)])
    (haccepts : d.store.accepts transaction.batch = true) :
    (d.applied transaction).IssuerInv identity genesis ∧
      KeepsAdmissions d.store (d.applied transaction).store := by
  have hnodup := h.admissions.sound.keys transaction hprepared
  have hcases : ∀ action ∈ transaction.batch.actions,
      action = .put (.identityBinding node) none (.identityBinding ⟨node, key⟩) := by
    intro action haction
    rw [hactions] at haction
    exact List.mem_singleton.mp haction
  have hadds : ∀ action ∈ transaction.batch.actions, action.key.isAdmission = true →
      AddsOnly action := by
    intro action haction _
    rw [hcases action haction]
    exact Or.inr rfl
  obtain ⟨hadmissions, hkeeps⟩ := h.admissions.applied hprepared haccepts hadds
    (by
      intro action haction purpose value hkey
      rw [hcases action haction] at hkey
      cases hkey)
    (by
      refine h.admissions.whole.apply haccepts hnodup hadds ?_ ?_
      · intro action haction issuer generation value hkey
        rw [hcases action haction] at hkey
        cases hkey
      · intro action haction admission value hkey
        rw [hcases action haction] at hkey
        cases hkey)
  refine ⟨h.applied hprepared haccepts hadmissions hkeeps ?_ ?_ ?_ ?_, hkeeps⟩
  · intro action haction
    rw [hcases action haction]
    exact Or.inr (Or.inl rfl)
  · intro action haction
    rw [hcases action haction]
    rfl
  · intro action haction other value _ hresult
    rw [hcases action haction] at hresult
    cases hresult
    exact Or.inr ⟨_, rfl⟩
  · intro action haction generation value hkey
    rw [hcases action haction] at hkey
    cases hkey

end Disk.IssuerInv

/-! ## Classification -/

section Classification

variable [Ed25519] {identity : LocalIdentityContext} {genesis : ClusterGenesisV1}
  {proposal : AdmissionProposal} {d : Disk}

/-- Neither the subject nor the admission is known. -/
def Free (proposal : AdmissionProposal) (store : RecordStore) : Prop :=
  store.lookup (.identityBinding proposal.subject) = none ∧
    store.lookup (.admissionGrant proposal.admission) = none

/-- The three records of the proposal are there. -/
def Own (node : NodeId) (proposal : AdmissionProposal) (store : RecordStore) : Prop :=
  ∃ cluster signature, AdmissionTriple.Stored ⟨cluster, node, proposal, signature⟩ store

variable {error : Error}

omit [Ed25519] in
/-- An optional record that fails its check. -/
theorem option_mapM_error {α : Type} {f : MetadataRecord → Result α} {x : Option MetadataRecord}
    (h : x.mapM f = .error error) : ∃ value, x = some value ∧ f value = .error error := by
  cases x with
  | none => cases h
  | some value =>
    refine ⟨value, rfl, ?_⟩
    rw [Option.mapM_some] at h
    cases hf : f value with
    | error other =>
      rw [hf] at h
      cases h
      rfl
    | ok result =>
      rw [hf] at h
      cases h

omit [Ed25519] in
theorem checkCredentialUse_conflict {cluster : Option ClusterId} {record : CredentialUseV1}
    (h : checkCredentialUse identity proposal cluster (.credentialUse record) = .error error) :
    error.kind = .conflict := by
  simp only [checkCredentialUse, MetadataRecord.asCredentialUse, Except.okOr, Except.ok_bind_eq,
    Except.rejectIf] at h
  split at h
  · cases h
    rfl
  · cases h

theorem checkAdmissionGrant_conflict {cluster : Option ClusterId} {record : AdmissionGrantV1}
    (h : checkAdmissionGrant identity proposal cluster (.admissionGrant record) = .error error) :
    error.kind = .conflict := by
  simp only [checkAdmissionGrant, MetadataRecord.asAdmissionGrant, Except.okOr, Except.ok_bind_eq,
    Except.rejectIf] at h
  split at h
  · cases h
    rfl
  · cases hverify : record.verify identity.publicKey with
    | ok value =>
      rw [hverify] at h
      cases h
    | error other =>
      rw [hverify] at h
      cases h
      rfl

omit [Ed25519] in
theorem checkSubjectBinding_conflict {record : IdentityBindingV1}
    (h : checkSubjectBinding proposal (.identityBinding record) = .error error) :
    error.kind = .conflict := by
  simp only [checkSubjectBinding, MetadataRecord.asIdentityBinding, Except.okOr, Except.ok_bind_eq,
    Except.rejectIf] at h
  split at h
  · cases h
    rfl
  · cases h

omit [Ed25519] in
theorem Disk.IssuerInv.localCluster_eq (h : d.IssuerInv identity genesis) :
    localCluster d.store = .ok (some ⟨genesis.cluster, genesis.digest⟩) := by
  unfold localCluster
  rw [h.pointer]
  rfl

/-- The records of a proposal that is alone can be classified. -/
theorem classifyAdmission_conflict (h : d.IssuerInv identity genesis)
    (hproposal : Free proposal d.store ∨ Own identity.node proposal d.store)
    (herror : classifyAdmission identity proposal d.store = .error error) :
    error.kind = .conflict := by
  have hwhole := h.admissions.whole
  unfold classifyAdmission at herror
  rw [h.localCluster_eq, Except.ok_bind_eq] at herror
  cases huse : (d.store.lookup (.credentialUse identity.node proposal.generation)).mapM
      (checkCredentialUse identity proposal (some genesis.cluster)) with
  | error other =>
    simp only [Option.map_some, huse, Except.error_bind_eq] at herror
    cases herror
    obtain ⟨value, hlookup, hcheck⟩ := option_mapM_error huse
    obtain ⟨t, -, -, -, rfl, -⟩ := hwhole.use_whole _ _ _ hlookup
    exact checkCredentialUse_conflict hcheck
  | ok credentialUse =>
  cases hgrant : (d.store.lookup (.admissionGrant proposal.admission)).mapM
      (checkAdmissionGrant identity proposal (some genesis.cluster)) with
  | error other =>
    simp only [Option.map_some, huse, hgrant, Except.ok_bind_eq, Except.error_bind_eq] at herror
    cases herror
    obtain ⟨value, hlookup, hcheck⟩ := option_mapM_error hgrant
    obtain ⟨t, -, -, rfl, -⟩ := hwhole.grant_whole _ _ hlookup
    exact checkAdmissionGrant_conflict hcheck
  | ok grant =>
  cases hbinding : (d.store.lookup (.identityBinding proposal.subject)).mapM
      (checkSubjectBinding proposal) with
  | error other =>
    simp only [Option.map_some, huse, hgrant, hbinding, Except.ok_bind_eq, Except.error_bind_eq]
      at herror
    cases herror
    obtain ⟨value, hlookup, hcheck⟩ := option_mapM_error hbinding
    obtain ⟨record, rfl⟩ := h.bindings _ _ hlookup
    exact checkSubjectBinding_conflict hcheck
  | ok binding =>
    simp only [Option.map_some, huse, hgrant, hbinding, Except.ok_bind_eq] at herror
    rw [Except.option_mapM_eq_ok] at huse hgrant hbinding
    -- The records that passed their checks are all there or all absent.
    rcases hproposal with ⟨hfree, hfresh⟩ | ⟨cluster, signature, hstored⟩
    · rw [hfree] at hbinding
      rw [hfresh] at hgrant
      cases hbinding
      cases hgrant
      generalize hvalue : d.store.lookup (.credentialUse identity.node proposal.generation) =
        value at huse
      cases huse with
      | none => cases herror
      | some hcheck =>
        obtain ⟨rfl, -, hrecord⟩ := checkCredentialUse_eq_ok.mp hcheck
        obtain ⟨t, -, -, -, heq, hstored⟩ := hwhole.use_whole _ _ _ hvalue
        cases heq
        have hadmission : t.proposal.admission = proposal.admission :=
          congrArg CredentialUseV1.admission hrecord
        have hfound := hstored.grant_eq
        rw [hadmission, hfresh] at hfound
        cases hfound
    · rw [show d.store.lookup (.credentialUse identity.node proposal.generation) = _ from
        hstored.use_eq] at huse
      rw [show d.store.lookup (.admissionGrant proposal.admission) = _ from hstored.grant_eq] at hgrant
      rw [show d.store.lookup (.identityBinding proposal.subject) = _ from hstored.binding_eq]
        at hbinding
      cases huse
      cases hgrant
      cases hbinding
      simp only [Except.rejectIf] at herror
      split at herror
      · cases herror
        rfl
      · cases herror

/-- What is classified as absent has no use. -/
theorem lookup_use_of_aborted {snapshot : RecordStore}
    (h : classifyAdmission identity proposal snapshot = .ok .aborted) :
    snapshot.lookup (.credentialUse identity.node proposal.generation) = none := by
  unfold classifyAdmission at h
  obtain ⟨pointer, -, h⟩ := Except.bind_eq_ok.mp h
  obtain ⟨foundUse, huse, h⟩ := Except.bind_eq_ok.mp h
  obtain ⟨foundGrant, -, h⟩ := Except.bind_eq_ok.mp h
  obtain ⟨foundBinding, -, h⟩ := Except.bind_eq_ok.mp h
  split at h
  · obtain ⟨-, h⟩ := Except.seq_eq_ok.mp h
    cases h
  · rw [Except.option_mapM_eq_ok] at huse
    generalize hvalue : snapshot.lookup (.credentialUse identity.node proposal.generation) = value
      at huse
    cases huse
    rfl
  · cases h

omit [Ed25519] in
/-- The identity of the node is the stored one. -/
theorem localIdentityValue_ne_error (h : d.IssuerInv identity genesis) :
    localIdentityValue identity d.store ≠ .error error := by
  unfold localIdentityValue
  rw [h.identityValue]
  simp only [Except.okOr, Except.ok_bind_eq, MetadataRecord.asLocalIdentity]
  rw [Except.rejectIf_of_not _ (by simp)]
  intro herror
  cases herror

theorem existingCluster_of_issuerInv (hfounded : Founded identity genesis)
    (h : d.IssuerInv identity genesis) : existingCluster d.store = .ok (some genesis) := by
  refine existingCluster_eq_ok h.pointer h.genesisScan hfounded.verify ?_
  rw [hfounded.creator, hfounded.creatorKey]
  exact h.issuer

theorem admissionPins_ne_error (hfounded : Founded identity genesis)
    (h : d.IssuerInv identity genesis) {e : Disk} (he : e.IssuerInv identity genesis) :
    admissionPins identity d.store e.store ≠ .error error := by
  unfold admissionPins
  rw [existingCluster_of_issuerInv hfounded he, h.issuer, h.pointer]
  simp only [Except.okOr, Except.ok_bind_eq, MetadataRecord.asIdentityBinding]
  rw [Except.rejectIf_of_not _ (by simp)]
  intro herror
  cases herror

end Classification

/-! ## Attempts -/

/-- What an issuer does for others. -/
inductive IssuerOperation where
  | join (proposal : AdmissionProposal)
  | adopt (node : NodeId) (key : PublicKey)

inductive IssuerAnswer where
  | delivered (grant : AdmissionGrantV1) (genesisDigest : Digest)
  | adopted

def IssuerOperation.subject : IssuerOperation → NodeId
  | .join proposal => proposal.subject
  | .adopt node _ => node

def IssuerOperation.perform [Ed25519] (identity : LocalIdentityContext) :
    IssuerOperation → NodeM IssuerAnswer
  | .join proposal => do
    let (grant, genesisDigest) ← commitAndDeliver identity proposal
    return .delivered grant genesisDigest
  | .adopt node key => do
    adoptBindingCtx node key
    return .adopted

/-- How an operation stands to the others on its subject. -/
inductive Standing where
  /-- The subject is unbound at the start, and no other operation on it overlaps. -/
  | alone
  /-- The subject is bound at the start. -/
  | late
  | contended
  deriving DecidableEq

structure IssuerAttempt where
  operation : IssuerOperation
  standing : Standing

/-- What is expected of the others while an attempt is under way. -/
def IssuerAttempt.Expects (node : NodeId) (attempt : IssuerAttempt) (d e : RecordStore) : Prop :=
  match attempt.operation, attempt.standing with
  | .join proposal, .alone => Free proposal d → Free proposal e ∨ Own node proposal e
  | .join proposal, .late => d.lookup (.admissionGrant proposal.admission) = none →
      e.lookup (.admissionGrant proposal.admission) = none
  | _, _ => True

/-- What an attempt adds is of its subject and its admission. -/
structure IssuerAttempt.Touches (attempt : IssuerAttempt) (d e : RecordStore) : Prop where
  bindings : ∀ node, d.lookup (.identityBinding node) = none →
    e.lookup (.identityBinding node) = none ∨ node = attempt.operation.subject
  grants : ∀ admission, d.lookup (.admissionGrant admission) = none →
    e.lookup (.admissionGrant admission) = none ∨
      ∃ proposal, attempt.operation = .join proposal ∧ admission = proposal.admission

/-- Two attempts that may overlap. -/
structure IssuerAttempt.Compatible (attempt other : IssuerAttempt) : Prop where
  subjects : attempt.standing = .alone ∨ other.standing = .alone →
    attempt.operation.subject ≠ other.operation.subject
  admissions : ∀ proposal proposal', attempt.operation = .join proposal →
    other.operation = .join proposal' → proposal.admission ≠ proposal'.admission

theorem IssuerAttempt.Expects.refl (node : NodeId) (attempt : IssuerAttempt) (d : RecordStore) :
    attempt.Expects node d d := by
  unfold IssuerAttempt.Expects
  split
  · exact Or.inl
  · exact fun h => h
  · trivial

variable {d e : RecordStore}

theorem Own.mono {node : NodeId} {proposal : AdmissionProposal} (h : Own node proposal d)
    (hkeeps : KeepsAdmissions d e) : Own node proposal e := by
  obtain ⟨cluster, signature, hstored⟩ := h
  exact ⟨cluster, signature, hstored.mono hkeeps⟩

variable {attempt : IssuerAttempt}

theorem IssuerAttempt.Expects.trans {node : NodeId} {f : RecordStore}
    (hde : attempt.Expects node d e) (hef : attempt.Expects node e f)
    (hkeeps : KeepsAdmissions e f) : attempt.Expects node d f := by
  unfold IssuerAttempt.Expects at hde hef ⊢
  split
  · rename_i proposal hoperation hstanding
    rw [hoperation, hstanding] at hde hef
    intro hfree
    rcases hde hfree with hfree | hown
    · exact hef hfree
    · exact Or.inr (hown.mono hkeeps)
  · rename_i proposal hoperation hstanding
    rw [hoperation, hstanding] at hde hef
    exact fun hnone => hef (hde hnone)
  · trivial

/-- What another attempt adds is expected. -/
theorem IssuerAttempt.Touches.expects {node : NodeId} {other : IssuerAttempt}
    (h : other.Touches d e) (hcompatible : attempt.Compatible other) :
    attempt.Expects node d e := by
  have hgrant : ∀ proposal, attempt.operation = .join proposal →
      d.lookup (.admissionGrant proposal.admission) = none →
      e.lookup (.admissionGrant proposal.admission) = none := by
    intro proposal hoperation hnone
    rcases h.grants _ hnone with hsame | ⟨proposal', hoperation', heq⟩
    · exact hsame
    · exact absurd heq (hcompatible.admissions proposal proposal' hoperation hoperation')
  unfold IssuerAttempt.Expects
  split
  · rename_i proposal hoperation hstanding
    rintro ⟨hunbound, hnone⟩
    refine Or.inl ⟨?_, hgrant proposal hoperation hnone⟩
    rcases h.bindings _ hunbound with hsame | heq
    · exact hsame
    · have hsubject := hcompatible.subjects (Or.inl hstanding)
      rw [hoperation] at hsubject
      exact absurd heq hsubject
  · rename_i proposal hoperation hstanding
    exact hgrant proposal hoperation
  · trivial

/-- An unchanged store. -/
theorem IssuerAttempt.Touches.refl (attempt : IssuerAttempt) (d : RecordStore) : attempt.Touches d d :=
  ⟨fun _ h => Or.inl h, fun _ h => Or.inl h⟩

/-- What an operation on a key leaves there, if the key had no value. -/
theorem lookup_apply_of_none {store : RecordStore} {batch : StoreBatch MetadataKey MetadataRecord}
    (haccepts : store.accepts batch = true) (hnodup : batch.keys.Nodup) {key : MetadataKey}
    (hnone : store.lookup key = none) : (store.apply batch).lookup key = none ∨
      ∃ value, .put key none value ∈ batch.actions := by
  rcases Store.lookup_apply haccepts hnodup key with ⟨action, haction, rfl, hexpected, hresult⟩ |
      ⟨-, hsame⟩
  · rw [hnone] at hexpected
    cases action with
    | check key expected => exact Or.inl (hresult.trans hexpected.symm)
    | put key expected value =>
      cases hexpected
      exact Or.inr ⟨value, haction⟩
    | delete key expected => cases hexpected
  · exact Or.inl (hsame.trans hnone)

/-- The condition on the answers: own outcomes, and no corruption. -/
def NodeCall.Sincere (call : NodeCall) (s : NodeStore) (answer : call.Answer) : Prop :=
  call.AsksOwn s answer ∧ call.Honest s answer

/-- An operation of the issuer among others. -/
def issuerEvolution (identity : LocalIdentityContext) (genesis : ClusterGenesisV1)
    (attempt : IssuerAttempt) : Evolution where
  inv := Disk.IssuerInv identity genesis
  grows := fun d e => d.Later e ∧ KeepsAdmissions d.store e.store ∧
    attempt.Expects identity.node d.store e.store
  does := fun d e => (d.Later e ∧ KeepsAdmissions d.store e.store ∧
    attempt.Expects identity.node d.store e.store) ∧ attempt.Touches d.store e.store
  considers := NodeCall.Sincere
  tolerates := fun error => attempt.standing = .alone → error.kind ≠ .storageCorrupt
  deletes := fun _ _ _ => True
  sound := fun _ h => h.admissions.sound
  later := fun _ _ h => h.1
  refl := fun d => ⟨.refl d, fun _ _ _ h => h, .refl _ _ _⟩
  trans := fun _ _ _ hde hef => ⟨hde.1.trans hef.1, hde.2.1.trans hef.2.1,
    hde.2.2.trans hef.2.2 hef.2.1⟩
  does_grows := fun _ _ h => h.1
  does_refl := fun d => ⟨⟨.refl d, fun _ _ _ h => h, .refl _ _ _⟩, .refl _ _⟩
  prepare := by
    intro d transaction h hfresh hkeys
    exact ⟨h.prepare hfresh hkeys, ⟨.prepare d transaction, fun _ _ _ h => h, .refl _ _ _⟩,
      .refl _ _⟩
  journal := fun _ h => h.admissions.journaled
  cleanup := by
    intro d transaction purpose stored h hprepared hactions haccepts
    obtain ⟨hinv, hkeeps⟩ := h.cleanup hprepared hactions haccepts
    have hnodup := h.admissions.sound.keys transaction hprepared
    have hnone : ∀ key : MetadataKey, d.store.lookup key = none →
        (d.store.apply transaction.batch).lookup key = none := by
      intro key hkey
      rcases lookup_apply_of_none haccepts hnodup hkey with hsame | ⟨value, hput⟩
      · exact hsame
      · rw [hactions] at hput
        cases List.mem_singleton.mp hput
    refine ⟨hinv, ⟨.applied d transaction, hkeeps, ?_⟩, ?_⟩
    · unfold IssuerAttempt.Expects
      split
      · exact fun hfree => Or.inl ⟨hnone _ hfree.1, hnone _ hfree.2⟩
      · exact hnone _
      · trivial
    · exact ⟨fun node h => Or.inl (hnone _ h), fun admission h => Or.inl (hnone _ h)⟩
  own := fun own s id journalProven hconsiders hslot => hconsiders.1 id journalProven hslot
  snapshotFault := fun _ _ hconsiders _ => hconsiders.2
  prepareFault := fun _ _ _ _ _ hconsiders _ => hconsiders.2
  commitFault := fun _ _ _ hconsiders _ => hconsiders.2
  reconcileFault := fun _ _ _ hconsiders _ => hconsiders.2
  slotFault := by
    intro error hkind _ hcorrupt
    rw [hcorrupt] at hkind
    simp at hkind

/-- The attempts of an issuer. -/
def issuerFamily (identity : LocalIdentityContext) (genesis : ClusterGenesisV1) : Family IssuerAttempt where
  evolution := issuerEvolution identity genesis
  inv := Disk.IssuerInv identity genesis
  considers := NodeCall.Sincere
  compatible := IssuerAttempt.Compatible
  inv_eq := fun _ => rfl
  considers_eq := fun _ => rfl
  compatible_symm := by
    intro attempt other h
    refine ⟨fun hstanding => (h.subjects hstanding.symm).symm, ?_⟩
    intro proposal proposal' hoperation hoperation'
    exact (h.admissions proposal' proposal hoperation' hoperation).symm
  fit := fun _ _ hcompatible _ _ _ _ hdoes => ⟨hdoes.1.1, hdoes.1.2.1, hdoes.2.expects hcompatible⟩

/-! ## Triples -/

section Triples

variable {identity : LocalIdentityContext} {genesis : ClusterGenesisV1} {attempt : IssuerAttempt}
  {d : Disk} {transaction : RecordTransaction}

variable {localValue issuerBinding : MetadataRecord}

/-- What the transaction of an admission adds. -/
theorem touches_admit (h : d.IssuerInv identity genesis) (hprepared : transaction ∈ d.prepared)
    {base : Nat} {pointer : MetadataRecord} {t : AdmissionTriple} {purpose : JournalPurpose}
    (hbatch : transaction.batch = ⟨base, admissionActions localValue pointer issuerBinding identity
      t.proposal t.credentialUse t.grant ++ journalAction transaction.id (some purpose)⟩)
    (hoperation : attempt.operation = .join t.proposal)
    (haccepts : d.store.accepts transaction.batch = true) :
    attempt.Touches d.store (d.applied transaction).store := by
  have hnodup := h.admissions.sound.keys transaction hprepared
  have hcases := mem_admissionBatch hbatch
  constructor
  · intro node hnone
    rcases lookup_apply_of_none haccepts hnodup hnone with hsame | ⟨value, hput⟩
    · exact Or.inl hsame
    · rcases hcases _ hput with ⟨key, expected, heq, -⟩ | heq | heq | heq | heq
      all_goals cases heq
      exact Or.inr (by rw [hoperation]; rfl)
  · intro admission hnone
    rcases lookup_apply_of_none haccepts hnodup hnone with hsame | ⟨value, hput⟩
    · exact Or.inl hsame
    · rcases hcases _ hput with ⟨key, expected, heq, -⟩ | heq | heq | heq | heq
      all_goals cases heq
      exact Or.inr ⟨t.proposal, hoperation, rfl⟩

/-- The subject is unbound where the transaction of its admission is accepted, and then the
    admission is there. -/
theorem expects_admit (h : d.IssuerInv identity genesis) (hprepared : transaction ∈ d.prepared)
    {base : Nat} {pointer : MetadataRecord} {t : AdmissionTriple} {purpose : JournalPurpose}
    (hbatch : transaction.batch = ⟨base, admissionActions localValue pointer issuerBinding identity
      t.proposal t.credentialUse t.grant ++ journalAction transaction.id (some purpose)⟩)
    (hissuer : t.issuer = identity.node) (haccepts : d.store.accepts transaction.batch = true) :
    d.store.lookup (.identityBinding t.proposal.subject) = none ∧
      Own identity.node t.proposal (d.applied transaction).store := by
  have hnodup := h.admissions.sound.keys transaction hprepared
  have hput : .put (.identityBinding t.proposal.subject) none (.identityBinding t.binding) ∈
      transaction.batch.actions := by
    rw [hbatch]
    simp [admissionActions, AdmissionTriple.binding]
  refine ⟨(Store.accepts_iff.mp haccepts).2 _ hput, ?_⟩
  obtain ⟨cluster, issuer, proposal, signature⟩ := t
  subst hissuer
  refine ⟨cluster, signature, stored_of_apply haccepts hnodup ?_ ?_ hput⟩
  all_goals
    rw [hbatch]
    simp [admissionActions]

end Triples

/-- What is known while an attempt is under way. -/
def IssuerAttempt.Knows (node : NodeId) (attempt : IssuerAttempt) (store : RecordStore) : Prop :=
  match attempt.operation, attempt.standing with
  | .join proposal, .alone => Free proposal store ∨ Own node proposal store
  | .join proposal, .late => store.lookup (.identityBinding proposal.subject) ≠ none ∧
      store.lookup (.admissionGrant proposal.admission) = none
  | _, _ => True

/-- What is known once the generation is journaled or one of the records is there. -/
def IssuerAttempt.Settles (node : NodeId) (attempt : IssuerAttempt) (store : RecordStore) : Prop :=
  match attempt.operation, attempt.standing with
  | .join proposal, .alone => store.lookup (.credentialUse node proposal.generation) ≠ none ∨
      Own node proposal store
  | _, _ => True

theorem KeepsAdmissions.ne_none (h : KeepsAdmissions d e) {key : MetadataKey}
    (hkey : key.isAdmission = true) (hd : d.lookup key ≠ none) : e.lookup key ≠ none := by
  obtain ⟨value, hvalue⟩ := Option.ne_none_iff_exists'.mp hd
  rw [h key value hkey hvalue]
  nofun

variable {identity : LocalIdentityContext}

variable {genesis : ClusterGenesisV1}

theorem stable_knows (attempt : IssuerAttempt) :
    (issuerEvolution identity genesis attempt).Stable fun d =>
      attempt.Knows identity.node d.store := by
  rintro d e - h - ⟨-, hkeeps, hexpects⟩
  unfold IssuerAttempt.Knows at h ⊢
  unfold IssuerAttempt.Expects at hexpects
  split
  · rename_i proposal hoperation hstanding
    rw [hoperation, hstanding] at h hexpects
    rcases h with hfree | hown
    · exact hexpects hfree
    · exact Or.inr (hown.mono hkeeps)
  · rename_i proposal hoperation hstanding
    rw [hoperation, hstanding] at h hexpects
    exact ⟨hkeeps.ne_none rfl h.1, hexpects h.2⟩
  · trivial

theorem stable_settles (attempt : IssuerAttempt) :
    (issuerEvolution identity genesis attempt).Stable fun d =>
      attempt.Settles identity.node d.store := by
  rintro d e - h - ⟨-, hkeeps, -⟩
  unfold IssuerAttempt.Settles at h ⊢
  split
  · rename_i proposal hoperation hstanding
    rw [hoperation, hstanding] at h
    rcases h with huse | hown
    · exact Or.inl (hkeeps.ne_none rfl huse)
    · exact Or.inr (hown.mono hkeeps)
  · trivial

section Setting

variable [Ed25519] {identity : LocalIdentityContext} {genesis : ClusterGenesisV1}

theorem verify_error_kind {grant : AdmissionGrantV1} {key : PublicKey} {error : Error}
    (h : grant.verify key = .error error) : error.kind = .authenticationFailed := by
  unfold AdmissionGrantV1.verify verifyStrict Except.rejectIf at h
  split at h
  · cases h
    rfl
  · cases h

/-- A join attempt fits the proof of `commit_admission`. -/
theorem issuerSetting (hfounded : Founded identity genesis) (proposal : AdmissionProposal)
    (standing : Standing) :
    AdmissionSetting (issuerEvolution identity genesis ⟨.join proposal, standing⟩) identity proposal
      (fun d => IssuerAttempt.Knows identity.node ⟨.join proposal, standing⟩ d.store)
      (fun d => IssuerAttempt.Settles identity.node ⟨.join proposal, standing⟩ d.store) where
  stable := stable_knows _
  settled_stable := stable_settles _
  admissions := fun _ h => h.admissions
  keeps := fun _ _ h => h.2.1
  journaled := by
    intro d stored hinv _ hlookup
    cases standing with
    | alone =>
      obtain ⟨value, hvalue⟩ := hinv.journalUse _ _ hlookup
      exact Or.inl (by rw [hvalue]; nofun)
    | late => trivial
    | contended => trivial
  present := by
    intro d hinv hknows hpresent
    cases standing with
    | alone =>
      rcases hknows with ⟨hfree, hfresh⟩ | hown
      · left
        simp only [admissionPresent, hfree, hfresh, Option.isSome_none, Bool.false_or,
          Bool.or_false] at hpresent
        exact Option.isSome_iff_ne_none.mp hpresent
      · exact Or.inr hown
    | late => trivial
    | contended => trivial
  classifies := by
    intro d error hinv hknows herror halone
    obtain rfl : standing = .alone := halone
    rw [classifyAdmission_conflict hinv hknows herror]
    decide
  aborted := by
    intro d hinv hknows hsettles haborted halone
    obtain rfl : standing = .alone := halone
    have huse := lookup_use_of_aborted haborted
    rcases hsettles with hsome | ⟨cluster, signature, hstored⟩
    · exact absurd huse hsome
    · rw [show d.store.lookup (.credentialUse identity.node proposal.generation) = _ from
        hstored.use_eq] at huse
      cases huse
  identityFault := fun d error hinv herror => absurd herror (localIdentityValue_ne_error hinv)
  pinsFault := fun d e error hd he herror => absurd herror (admissionPins_ne_error hfounded hd he)
  signFault := fun _ _ _ _ hconsiders _ => hconsiders.2
  verifyFault := by
    intro grant error herror _
    rw [verify_error_kind herror]
    decide
  admits := by
    intro d transaction base localValue pointer issuerBinding t hinv hknows hprepared hbatch hissuer
      hproposal haccepts
    obtain ⟨hinv', hkeeps⟩ := hinv.admitted hprepared hbatch hissuer haccepts
    obtain ⟨hunbound, hown⟩ := expects_admit hinv hprepared hbatch hissuer haccepts
    subst hproposal
    refine ⟨hinv', ⟨.applied d transaction, hkeeps, ?_⟩,
      touches_admit hinv hprepared hbatch rfl haccepts⟩
    cases standing with
    | alone => exact fun _ => Or.inr hown
    | late => exact absurd hunbound hknows.1
    | contended => trivial

/-- A join attempt that is late delivers nothing. -/
theorem triple_join (hfounded : Founded identity genesis) (proposal : AdmissionProposal)
    (standing : Standing) : (issuerEvolution identity genesis ⟨.join proposal, standing⟩).Triple
      (fun d => IssuerAttempt.Knows identity.node ⟨.join proposal, standing⟩ d.store)
      (IssuerOperation.perform identity (.join proposal)) (fun answer d => ∀ grant genesisDigest,
        answer = .delivered grant genesisDigest → standing ≠ .late ∧
          Admitted identity proposal grant d.store) := by
  have S := issuerSetting hfounded proposal standing
  have hcommit := S.triple_commitAdmission
  have hdeliver : (issuerEvolution identity genesis ⟨.join proposal, standing⟩).Triple
      (fun d => IssuerAttempt.Knows identity.node ⟨.join proposal, standing⟩ d.store)
      (commitAndDeliver identity proposal) (fun answer d =>
        IssuerAttempt.Knows identity.node ⟨.join proposal, standing⟩ d.store ∧
          Admitted identity proposal answer.1 d.store) := by
    refine hcommit.bind fun grant => ?_
    refine (triple_snapshot (S.stable.and (S.stable_admitted grant))).bind fun current => ?_
    refine .assume (p := existingCluster current = .ok (some genesis)) ?_ fun hcluster => ?_
    · rintro d hinv ⟨-, rfl⟩
      exact existingCluster_of_issuerInv hfounded hinv
    rw [hcluster]
    exact .pure fun d _ h => h.1
  refine hdeliver.bind fun answer => .pure ?_
  rintro d hinv ⟨hknows, hadmitted⟩ grant genesisDigest heq
  cases heq
  refine ⟨?_, hadmitted⟩
  rintro rfl
  -- The grant would have to be there.
  obtain ⟨cluster, signature, -, hstored⟩ := hadmitted.stored
  have hnone := hknows.2
  rw [show d.store.lookup (.admissionGrant proposal.admission) = _ from hstored.grant_eq] at hnone
  cases hnone

omit [Ed25519] in
theorem triple_revokedKeyCtx {attempt : IssuerAttempt} (subject : NodeId) :
    (issuerEvolution identity genesis attempt).Triple (fun _ => True) (revokedKeyCtx subject)
      (fun _ _ => True) := by
  refine (triple_snapshot stable_true).bind fun current => ?_
  cases current.lookup (.revocation subject) with
  | none => exact .pure fun _ _ _ => trivial
  | some stored =>
    refine .bindResult (fun key _ => .pure fun _ _ _ => trivial) fun error herror _ _ _ _ => ?_
    cases hkey : stored.asRevocation with
    | some key =>
      rw [hkey] at herror
      cases herror
    | none =>
      rw [hkey] at herror
      cases herror
      decide

omit [Ed25519] in
theorem triple_adoptBindingCtx (standing : Standing) (node : NodeId) (key : PublicKey) :
    (issuerEvolution identity genesis ⟨.adopt node key, standing⟩).Triple (fun _ => True)
      (adoptBindingCtx node key) (fun _ _ => True) := by
  refine (triple_snapshot stable_true).bind fun current => ?_
  cases current.lookup (.identityBinding node) with
  | some existing =>
    refine .bindResult (fun stored _ => ?_) fun error herror _ _ _ _ => ?_
    · refine .ofResult (fun _ _ _ _ _ => trivial) fun error herror _ _ _ _ => ?_
      unfold Except.rejectIf at herror
      split at herror
      · cases herror
        decide
      · cases herror
    · cases hbinding : existing.asIdentityBinding with
      | some binding =>
        rw [hbinding] at herror
        cases herror
      | none =>
        rw [hbinding] at herror
        cases herror
        decide
  | none =>
    refine Triple.bind ((triple_revokedKeyCtx node).conseq (fun _ _ _ => trivial)
      fun _ _ _ h => h) fun revoked => ?_
    cases revoked with
    | some revokedKey =>
      refine .throwBind fun _ _ _ _ => ?_
      decide
    | none =>
      refine (triple_prepare stable_true _ _ _).bind fun transaction => ?_
      refine .assume (fun _ _ h => h.2.2) fun hbatch => ?_
      refine Triple.bind ((triple_commitRecords (stable_prepared transaction) ?_).conseq
        (fun _ _ h => h.2.1) fun _ _ _ h => h) fun _ => .pure fun _ _ _ => trivial
      intro d hinv hprepared haccepts
      have hactions : transaction.batch.actions =
          [.put (.identityBinding node) none (.identityBinding ⟨node, key⟩)] := by
        rw [hbatch]
        rfl
      have hnodup := hinv.admissions.sound.keys transaction hprepared
      obtain ⟨hinv', hkeeps⟩ := hinv.adopt hprepared hactions haccepts
      refine ⟨hinv', ⟨.applied d transaction, hkeeps, trivial⟩, ?_, ?_⟩
      · intro other hnone
        rcases lookup_apply_of_none haccepts hnodup hnone with hsame | ⟨value, hput⟩
        · exact Or.inl hsame
        · rw [hactions] at hput
          cases List.mem_singleton.mp hput
          exact Or.inr rfl
      · intro admission hnone
        rcases lookup_apply_of_none haccepts hnodup hnone with hsame | ⟨value, hput⟩
        · exact Or.inl hsame
        · rw [hactions] at hput
          cases List.mem_singleton.mp hput

end Setting

/-! ## Runs -/

/-- How an attempt may start: its admission id is fresh, and its standing is as it says. -/
structure IssuerAttempt.Starts (attempt : IssuerAttempt) (s : NodeStore) (running : List IssuerAttempt) : Prop where
  fresh : ∀ proposal, attempt.operation = .join proposal →
    s.disk.store.lookup (.admissionGrant proposal.admission) = none
  unused : ∀ other ∈ running, ∀ proposal proposal', attempt.operation = .join proposal →
    other.operation = .join proposal' → proposal.admission ≠ proposal'.admission
  alone : attempt.standing = .alone →
    s.disk.store.lookup (.identityBinding attempt.operation.subject) = none
  apart : ∀ other ∈ running, attempt.standing = .alone ∨ other.standing = .alone →
    attempt.operation.subject ≠ other.operation.subject
  late : attempt.standing = .late →
    s.disk.store.lookup (.identityBinding attempt.operation.subject) ≠ none

theorem IssuerAttempt.Starts.knows {s : NodeStore} {running : List IssuerAttempt}
    (h : attempt.Starts s running) (node : NodeId) : attempt.Knows node s.disk.store := by
  unfold IssuerAttempt.Knows
  split
  · rename_i proposal hoperation hstanding
    have halone := h.alone hstanding
    rw [hoperation] at halone
    exact Or.inl ⟨halone, h.fresh proposal hoperation⟩
  · rename_i proposal hoperation hstanding
    have hlate := h.late hstanding
    rw [hoperation] at hlate
    exact ⟨hlate, h.fresh proposal hoperation⟩
  · trivial

/-- The joins and adoptions of an issuer, any number at a time. -/
def issuerSchedule [Ed25519] (identity : LocalIdentityContext) :
    Schedule IssuerAttempt NodeCall NodeCall.Answer (Result IssuerAnswer) NodeStore :=
  nodeSchedule (fun attempt => attempt.operation.perform identity) IssuerAttempt.Starts

/-- What a delivered grant says about the attempt. -/
def IssuerAttempt.Delivers [Ed25519] (identity : LocalIdentityContext) (attempt : IssuerAttempt)
    (answer : IssuerAnswer) (store : RecordStore) : Prop :=
  ∀ proposal grant genesisDigest, attempt.operation = .join proposal →
    answer = .delivered grant genesisDigest →
    attempt.standing ≠ .late ∧ Admitted identity proposal grant store

def issuerContracts [Ed25519] {identity : LocalIdentityContext} {genesis : ClusterGenesisV1}
    (hfounded : Founded identity genesis) :
    ((issuerSchedule identity).within NodeCall.Sincere).Contracts :=
  (issuerFamily identity genesis).contracts (fun attempt => attempt.operation.perform identity)
    IssuerAttempt.Starts (fun attempt d => attempt.Knows identity.node d.store)
    (fun attempt answer d => attempt.Delivers identity answer d.store)
    (fun attempt s running h => ⟨h.knows identity.node, fun other hother =>
      ⟨h.apart other hother, h.unused other hother⟩⟩)
    (fun _ _ _ _ _ _ _ h hdoes proposal grant genesisDigest hoperation hanswer =>
      ⟨(h proposal grant genesisDigest hoperation hanswer).1,
        (h proposal grant genesisDigest hoperation hanswer).2.mono hdoes.1.2.1⟩)
    (by
      rintro ⟨operation, standing⟩
      cases operation with
      | join proposal =>
        refine (triple_join hfounded proposal standing).conseq (fun _ _ h => h) ?_
        intro answer d _ h other grant genesisDigest hoperation hanswer
        cases hoperation
        exact h grant genesisDigest hanswer
      | adopt node key =>
        refine Triple.bind ((triple_adoptBindingCtx standing node key).conseq (fun _ _ _ => trivial)
          fun _ _ _ h => h) fun _ => .pure ?_
        intro d _ _ proposal grant genesisDigest hoperation
        cases hoperation)

/-- An issuer that has created its cluster, before its first admission. -/
structure NodeStore.NewIssuer (identity : LocalIdentityContext) (genesis : ClusterGenesisV1)
    (s : NodeStore) : Prop where
  before : s.BeforeAdmissions
  identityValue : s.disk.store.lookup .localIdentity = some (.localIdentity identity)
  pointer : s.disk.store.lookup .localClusterPointer =
    some (.localClusterPointer ⟨genesis.cluster, genesis.digest⟩)
  genesisScan : s.disk.store.scan MetadataKey.isClusterGenesis =
    [(.clusterGenesis genesis.cluster, .clusterGenesis genesis)]
  issuer : s.disk.store.lookup (.identityBinding identity.node) =
    some (.identityBinding ⟨identity.node, identity.publicKey⟩)
  bindings : ∀ node value, s.disk.store.lookup (.identityBinding node) = some value →
    ∃ record, value = .identityBinding record
  journal : ∀ generation, s.disk.store.lookup (.pendingTransaction (.admission generation)) = none

theorem NodeStore.NewIssuer.issuerInv {s : NodeStore} (h : s.NewIssuer identity genesis) :
    s.disk.IssuerInv identity genesis := by
  refine ⟨(h.before.inv identity.node).1, h.identityValue, h.pointer, h.genesisScan, h.issuer,
    h.bindings, fun generation stored hlookup => ?_⟩
  rw [h.journal] at hlookup
  cases hlookup

/-- An attempt that is alone with an unbound subject never ends in corruption. An attempt whose
    subject is bound when it starts never delivers a grant. -/
theorem join_attempts [Ed25519] {identity : LocalIdentityContext} {genesis : ClusterGenesisV1}
    (hfounded : Founded identity genesis) {origin : NodeStore}
    (horigin : origin.NewIssuer identity genesis)
    {s : Threads IssuerAttempt NodeCall NodeCall.Answer (Result IssuerAnswer) NodeStore}
    (hs : (((issuerSchedule identity).within NodeCall.Sincere).runs origin).Reachable s) :
    (∀ operation error, ⟨⟨operation, .alone⟩, .done (.error error)⟩ ∈ s.threads →
      error.kind ≠ .storageCorrupt) ∧
    (∀ proposal standing grant genesisDigest,
      ⟨⟨.join proposal, standing⟩, .done (.ok (.delivered grant genesisDigest))⟩ ∈ s.threads →
      standing ≠ .late ∧ Admitted identity proposal grant s.state.disk.store) := by
  have hinv : (issuerFamily identity genesis).Inv origin :=
    ⟨horigin.issuerInv, (horigin.before.inv identity.node).2⟩
  have hholds := (issuerContracts hfounded).holds_of_reachable hinv hs
  constructor
  · intro operation error hthread
    exact (hholds.post hthread).2 rfl
  · intro proposal standing grant genesisDigest hthread
    exact (hholds.post hthread).2 proposal grant genesisDigest rfl rfl

/-! ### A lost grant -/

/-- The subject of the first proposal, with a new credential. -/
def sampleRetry : AdmissionProposal :=
  { sampleProposal 1 with subject := (sampleProposal 0).subject }

theorem newIssuer_sampleIssuer :
    NodeStore.NewIssuer sampleIssuer sampleGenesis ⟨.ready, sampleIssuerDisk⟩ := by
  refine ⟨beforeAdmissions_sampleIssuer, rfl, rfl, rfl, rfl, ?_, fun _ => rfl⟩
  intro node value hlookup
  have hscan : sampleIssuerStore.scan MetadataKey.isAdmission =
      [(.identityBinding sampleIssuer.node, sampleBinding)] := rfl
  have hmem : (MetadataKey.identityBinding node, value) ∈
      sampleIssuerStore.scan MetadataKey.isAdmission := Store.mem_scan.mpr ⟨hlookup, rfl⟩
  cases List.mem_singleton.mp (hscan ▸ hmem)
  exact ⟨_, rfl⟩

theorem founded_sampleIssuer : @Founded sampleScheme sampleIssuer sampleGenesis :=
  @Founded.mk sampleScheme _ _ rfl rfl sampleGenesis_verify

theorem admitsStore_sincere : AdmitsStore NodeCall.Sincere := by
  constructor
  all_goals
    intros
    exact ⟨trivial, trivial⟩

/-- The subject is admitted, and its grant is on the way. -/
def sampleDelivery : Threads IssuerAttempt NodeCall NodeCall.Answer (Result IssuerAnswer) NodeStore :=
  ⟨⟨.ready, sampleFinalDisk⟩, [⟨⟨.join (sampleProposal 0), .alone⟩,
    .done (.ok (.delivered (sampleGrant 0) sampleGenesis.digest))⟩]⟩

theorem issuerInv_sampleFinalDisk : sampleFinalDisk.IssuerInv sampleIssuer sampleGenesis := by
  have horigin := newIssuer_sampleIssuer.issuerInv
  have hfirst : (sampleIssuerDisk.prepare (sampleAdmission 0)).IssuerInv sampleIssuer sampleGenesis :=
    horigin.prepare nofun (keys_sampleAdmission 0 (Or.inl rfl))
  have hadmitted : sampleAdmittedDisk.IssuerInv sampleIssuer sampleGenesis :=
    (hfirst.admitted (t := ⟨sampleCluster, sampleIssuer.node, sampleProposal 0,
      (sampleGrant 0).signature⟩) List.mem_cons_self rfl rfl
      (accepts_sampleAdmission 0 (Or.inl rfl))).1
  have hsecond : (sampleAdmittedDisk.prepare sampleCleanup).IssuerInv sampleIssuer sampleGenesis :=
    hadmitted.prepare (by decide) (List.nodup_singleton _)
  have haccepts : sampleAdmittedDisk.store.accepts sampleCleanup.batch = true := by
    refine Store.accepts_iff.mpr ⟨rfl, fun action haction => ?_⟩
    cases List.mem_singleton.mp haction
    rfl
  exact (hsecond.cleanup List.mem_cons_self rfl haccepts).1

theorem reachable_sampleDelivery :
    (((@issuerSchedule sampleScheme sampleIssuer).within NodeCall.Sincere).runs
      ⟨.ready, sampleIssuerDisk⟩).Reachable sampleDelivery := by
  let _ := sampleScheme
  have hok := admitsStore_sincere
  have hrun : Leads NodeCall.Sincere (IssuerOperation.perform sampleIssuer (.join (sampleProposal 0)))
      ⟨.ready, sampleIssuerDisk⟩ (pure (.delivered (sampleGrant 0) sampleGenesis.digest))
      ⟨.ready, sampleFinalDisk⟩ := by
    have hdeliver : Leads NodeCall.Sincere (commitAndDeliver sampleIssuer (sampleProposal 0))
        ⟨.ready, sampleIssuerDisk⟩ (pure (sampleGrant 0, sampleGenesis.digest))
        ⟨.ready, sampleFinalDisk⟩ := by
      refine (leads_sampleCommit hok fun _ _ _ _ => ⟨trivial, trivial⟩).andThen ?_
      refine (leads_snapshot _ (hok.snapshot _)).andThen ?_
      refine (leads_ofResult (existingCluster_of_issuerInv founded_sampleIssuer
        issuerInv_sampleFinalDisk) _).andThen ?_
      exact .refl _ _
    exact hdeliver.andThen (.refl _ _)
  refine ⟨_, rfl, .head (.start ⟨.join (sampleProposal 0), .alone⟩ ?_) ?_⟩
  · refine ⟨fun _ _ => rfl, nofun, fun _ => rfl, nofun, nofun⟩
  · exact Schedule.path_of_runs (S := (issuerSchedule sampleIssuer).within NodeCall.Sincere) hrun
      [] [] ⟨.join (sampleProposal 0), .alone⟩

/-- A first attempt, alone. -/
theorem first_attempt_delivers :
    (((@issuerSchedule sampleScheme sampleIssuer).within NodeCall.Sincere).runs
      ⟨.ready, sampleIssuerDisk⟩).Reachable sampleDelivery ∧
    @Admitted sampleScheme sampleIssuer (sampleProposal 0) (sampleGrant 0)
      sampleDelivery.state.disk.store :=
  ⟨reachable_sampleDelivery, ((@join_attempts sampleScheme _ _ founded_sampleIssuer _
    newIssuer_sampleIssuer _ reachable_sampleDelivery).2 (sampleProposal 0) .alone (sampleGrant 0)
    sampleGenesis.digest List.mem_cons_self).2⟩

/-- The grant is lost, and the subject tries again under a new credential: the issuer reports
    corruption, in an honest run. -/
theorem lost_grant_corrupt :
    ∃ (s : Threads IssuerAttempt NodeCall NodeCall.Answer (Result IssuerAnswer) NodeStore)
      (proposal retry : AdmissionProposal) (grant : AdmissionGrantV1) (genesisDigest : Digest)
      (error : Error),
      (((@issuerSchedule sampleScheme sampleIssuer).within NodeCall.Sincere).runs
        ⟨.ready, sampleIssuerDisk⟩).Reachable s ∧
      retry.subject = proposal.subject ∧ retry.subjectKey = proposal.subjectKey ∧
      ⟨⟨.join proposal, .alone⟩, .done (.ok (.delivered grant genesisDigest))⟩ ∈ s.threads ∧
      ⟨⟨.join retry, .late⟩, .done (.error error)⟩ ∈ s.threads ∧ error.kind = .storageCorrupt := by
  let _ := sampleScheme
  have hok := admitsStore_sincere
  have hinv := issuerInv_sampleFinalDisk
  have hclassify : classifyAdmission sampleIssuer sampleRetry sampleFinalDisk.store =
      .error discoveryCorrupt := rfl
  have hstate : Leads NodeCall.Sincere (admissionState sampleIssuer sampleRetry)
      ⟨.ready, sampleFinalDisk⟩ (ofResult (.error discoveryCorrupt)) ⟨.ready, sampleFinalDisk⟩ := by
    refine (leads_snapshot _ (hok.snapshot _)).andThen ?_
    rw [show classifyAdmission sampleIssuer sampleRetry
      (NodeStore.disk ⟨.ready, sampleFinalDisk⟩).store = _ from hclassify]
    exact .refl _ _
  obtain ⟨localValue, hlocal⟩ : ∃ value, localIdentityValue sampleIssuer sampleFinalDisk.store =
      .ok value := by
    cases h : localIdentityValue sampleIssuer sampleFinalDisk.store with
    | ok value => exact ⟨value, rfl⟩
    | error error => exact absurd h (localIdentityValue_ne_error hinv)
  obtain ⟨pins, hpins⟩ : ∃ value, admissionPins sampleIssuer sampleFinalDisk.store
      sampleFinalDisk.store = .ok value := by
    cases h : admissionPins sampleIssuer sampleFinalDisk.store sampleFinalDisk.store with
    | ok value => exact ⟨value, rfl⟩
    | error error => exact absurd h (admissionPins_ne_error founded_sampleIssuer hinv hinv)
  have hcommit : Leads NodeCall.Sincere (commitAdmission sampleIssuer sampleRetry)
      ⟨.ready, sampleFinalDisk⟩ (throw discoveryCorrupt) ⟨.ready, sampleFinalDisk⟩ := by
    refine (leads_recoverJournalPrologue hok rfl).andThen ?_
    refine (leads_snapshot _ (hok.snapshot _)).andThen ?_
    refine (leads_ofResult hlocal _).andThen ?_
    refine (leads_snapshot _ (hok.snapshot _)).andThen ?_
    refine (leads_ofResult hpins _).andThen ?_
    dsimp only
    rw [if_pos (by rfl)]
    exact hstate.lift.andThen (.refl _ _)
  have hrun : Leads NodeCall.Sincere (IssuerOperation.perform sampleIssuer (.join sampleRetry))
      ⟨.ready, sampleFinalDisk⟩ (throw discoveryCorrupt) ⟨.ready, sampleFinalDisk⟩ :=
    Leads.fail (Leads.fail hcommit _) _
  refine ⟨⟨⟨.ready, sampleFinalDisk⟩, sampleDelivery.threads ++
      [⟨⟨.join sampleRetry, .late⟩, .done (.error discoveryCorrupt)⟩]⟩,
    sampleProposal 0, sampleRetry, sampleGrant 0, sampleGenesis.digest, discoveryCorrupt,
    reachable_sampleDelivery.path (.head (.start ⟨.join sampleRetry, .late⟩ ?_) ?_), rfl, rfl,
    List.mem_cons_self, List.mem_cons_of_mem _ List.mem_cons_self, rfl⟩
  · refine ⟨?_, nofun, nofun, nofun, fun _ => ?_⟩
    · intro proposal hoperation
      cases hoperation
      rfl
    · nofun
  · exact Schedule.path_of_runs (S := (issuerSchedule sampleIssuer).within NodeCall.Sincere) hrun
      sampleDelivery.threads [] ⟨.join sampleRetry, .late⟩

end Radiata
