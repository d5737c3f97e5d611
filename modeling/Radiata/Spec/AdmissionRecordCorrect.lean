import Radiata.Native.AdmissionRecord
import Radiata.Spec.HandshakeComplete
import Radiata.Spec.NodeStoreCorrect
import Radiata.Spec.NodeStoreRun

/-!
# Admissions are committed whole

The three records of an admission are put by one transaction, each under a key that had no value,
and are never changed again. As long as an operation that asks for the outcome of its commit gets
the outcome of that commit, a grant that is returned is durable with its two other records.

`MetadataStore::reconcile` answers for the transaction the store is frozen on. Between an unknown
commit and the reconciliation of its caller, another operation may resolve the freeze and freeze
the store anew.

## Key results

- `AdmissionTriple.Stored`: the durable records of an admission
- `admissionEvolution`: what concurrent admissions do to the store
- `admission_committed_whole`: the three parts, in every run that keeps to its own outcomes
- `grant_without_records`: a grant that is returned for the commit of another operation
-/

namespace Radiata

open Evolution NodeM

/-! ## The records of an admission -/

/-- An admission by an issuer. -/
structure AdmissionTriple where
  cluster : ClusterId
  issuer : NodeId
  proposal : AdmissionProposal
  signature : Signature

namespace AdmissionTriple

def credentialUse (t : AdmissionTriple) : CredentialUseV1 :=
  ⟨t.cluster, t.issuer, t.proposal.generation, t.proposal.admission, t.proposal.subject,
    t.proposal.subjectKey⟩

def grant (t : AdmissionTriple) : AdmissionGrantV1 :=
  ⟨t.cluster, t.proposal.admission, t.proposal.subject, t.proposal.subjectKey, t.issuer,
    t.proposal.generation, t.signature⟩

def binding (t : AdmissionTriple) : IdentityBindingV1 := ⟨t.proposal.subject, t.proposal.subjectKey⟩

/-- The three records are in the store. -/
structure Stored (t : AdmissionTriple) (store : RecordStore) : Prop where
  use_eq : store.lookup (.credentialUse t.issuer t.proposal.generation) =
    some (.credentialUse t.credentialUse)
  grant_eq : store.lookup (.admissionGrant t.proposal.admission) = some (.admissionGrant t.grant)
  binding_eq : store.lookup (.identityBinding t.proposal.subject) =
    some (.identityBinding t.binding)

end AdmissionTriple

/-- Every credential use and every grant is one of a stored admission by the node. -/
structure AdmissionsWhole (node : NodeId) (store : RecordStore) : Prop where
  use_whole : ∀ issuer generation value, store.lookup (.credentialUse issuer generation) = some value →
    ∃ t : AdmissionTriple, t.issuer = node ∧ issuer = node ∧ t.proposal.generation = generation ∧
      value = .credentialUse t.credentialUse ∧ t.Stored store
  grant_whole : ∀ admission value, store.lookup (.admissionGrant admission) = some value →
    ∃ t : AdmissionTriple, t.issuer = node ∧ t.proposal.admission = admission ∧
      value = .admissionGrant t.grant ∧ t.Stored store

/-- The keys of the three families. -/
def MetadataKey.isAdmission : MetadataKey → Bool
  | .identityBinding _ => true
  | .credentialUse _ _ => true
  | .admissionGrant _ => true
  | _ => false

/-- The records of the three families stay. -/
def KeepsAdmissions (d e : RecordStore) : Prop :=
  ∀ key value, key.isAdmission = true → d.lookup key = some value → e.lookup key = some value

theorem KeepsAdmissions.trans {d e f : RecordStore} (hde : KeepsAdmissions d e)
    (hef : KeepsAdmissions e f) : KeepsAdmissions d f := fun key value hkey hlookup =>
  hef key value hkey (hde key value hkey hlookup)

theorem AdmissionTriple.Stored.mono {t : AdmissionTriple} {d e : RecordStore} (h : t.Stored d)
    (hkeeps : KeepsAdmissions d e) : t.Stored e :=
  ⟨hkeeps _ _ rfl h.use_eq, hkeeps _ _ rfl h.grant_eq, hkeeps _ _ rfl h.binding_eq⟩

/-- The operation reads the key, or puts a value where there was none. -/
def AddsOnly (action : RecordAction) : Prop :=
  action.result = action.expected ∨ action.expected = none

variable {batch : StoreBatch MetadataKey MetadataRecord}

variable {store : RecordStore}

/-- A transaction that adds to the three families keeps what is there. -/
theorem keepsAdmissions_apply (haccepts : store.accepts batch = true) (hnodup : batch.keys.Nodup)
    (hadds : ∀ action ∈ batch.actions, action.key.isAdmission = true → AddsOnly action) :
    KeepsAdmissions store (store.apply batch) := by
  intro key value hkey hlookup
  rcases Store.lookup_apply haccepts hnodup key with ⟨action, haction, rfl, hexpected, hresult⟩ |
      ⟨-, hsame⟩
  · rcases hadds action haction hkey with heq | hnone
    · rw [hresult, heq, ← hexpected]
      exact hlookup
    · rw [hexpected, hnone] at hlookup
      cases hlookup
  · rw [hsame]
    exact hlookup

/-- The admission transaction leaves its three records. -/
theorem stored_of_apply (haccepts : store.accepts batch = true) (hnodup : batch.keys.Nodup)
    {t : AdmissionTriple} (huse : .put (.credentialUse t.issuer t.proposal.generation) none
      (.credentialUse t.credentialUse) ∈ batch.actions)
    (hgrant : .put (.admissionGrant t.proposal.admission) none (.admissionGrant t.grant) ∈
      batch.actions)
    (hbinding : .put (.identityBinding t.proposal.subject) none (.identityBinding t.binding) ∈
      batch.actions) : t.Stored (store.apply batch) :=
  ⟨Store.lookup_apply_of_mem haccepts hnodup huse, Store.lookup_apply_of_mem haccepts hnodup hgrant,
    Store.lookup_apply_of_mem haccepts hnodup hbinding⟩

/-! ## The invariant -/

/-- A journal record names an applied transaction. -/
def Disk.Journaled (d : Disk) : Prop :=
  ∀ purpose stored, d.store.lookup (.pendingTransaction purpose) = some stored →
    ∃ id, stored = .pendingTransaction id ∧ d.HasReceipt id

theorem Disk.HasReceipt.applied {d : Disk} {id : TransactionId} (h : d.HasReceipt id)
    (transaction : RecordTransaction) : (d.applied transaction).HasReceipt id := by
  obtain ⟨other, hmem, hid⟩ := h
  exact ⟨other, List.mem_cons_of_mem _ hmem, hid⟩

variable {transaction : RecordTransaction}

/-- The only journal record a transaction puts is its own. -/
theorem Disk.Journaled.applied {d : Disk} (h : d.Journaled)
    (haccepts : d.store.accepts transaction.batch = true) (hnodup : transaction.batch.keys.Nodup)
    (hown : ∀ action ∈ transaction.batch.actions, ∀ purpose value,
      action.key = .pendingTransaction purpose → action.result = some value →
      value = .pendingTransaction transaction.id) : (d.applied transaction).Journaled := by
  intro purpose stored hlookup
  replace hlookup : (d.store.apply transaction.batch).lookup (.pendingTransaction purpose) =
    some stored := hlookup
  rcases Store.lookup_apply haccepts hnodup (.pendingTransaction purpose) with
    ⟨action, haction, hkey, -, hresult⟩ | ⟨-, hsame⟩
  · rw [hresult] at hlookup
    exact ⟨transaction.id, hown action haction purpose stored hkey hlookup, transaction,
      List.mem_cons_self, rfl⟩
  · obtain ⟨id, hstored, hid⟩ := h purpose stored (hsame ▸ hlookup)
    exact ⟨id, hstored, hid.applied transaction⟩

/-- The transaction puts a credential use. -/
def RecordTransaction.Admits (transaction : RecordTransaction) : Prop :=
  ∃ issuer generation value,
    .put (.credentialUse issuer generation) none value ∈ transaction.batch.actions

/-- What the applied admissions put in the three families is there. -/
def Disk.Durable (d : Disk) : Prop :=
  ∀ transaction ∈ d.receipts, transaction.Admits → ∀ key value, key.isAdmission = true →
    .put key none value ∈ transaction.batch.actions → d.store.lookup key = some value

structure Disk.AdmissionInv (node : NodeId) (d : Disk) : Prop where
  sound : d.Sound
  journaled : d.Journaled
  whole : AdmissionsWhole node d.store
  durable : d.Durable

/-- A transaction that adds to the three families keeps the invariant if what it adds is whole. -/
theorem Disk.AdmissionInv.applied {node : NodeId} {d : Disk} (h : d.AdmissionInv node)
    (hprepared : transaction ∈ d.prepared) (haccepts : d.store.accepts transaction.batch = true)
    (hadds : ∀ action ∈ transaction.batch.actions, action.key.isAdmission = true → AddsOnly action)
    (hown : ∀ action ∈ transaction.batch.actions, ∀ purpose value,
      action.key = .pendingTransaction purpose → action.result = some value →
      value = .pendingTransaction transaction.id)
    (hwhole : AdmissionsWhole node (d.store.apply transaction.batch)) :
    (d.applied transaction).AdmissionInv node ∧
      KeepsAdmissions d.store (d.applied transaction).store := by
  have hnodup := h.sound.keys transaction hprepared
  have hkeeps := keepsAdmissions_apply haccepts hnodup hadds
  refine ⟨⟨h.sound.applied hprepared, h.journaled.applied haccepts hnodup hown, hwhole, ?_⟩, hkeeps⟩
  intro other hmem hadmits key value hkey hput
  rcases List.mem_cons.mp hmem with rfl | hmem
  · exact Store.lookup_apply_of_mem haccepts hnodup hput
  · exact hkeeps key value hkey (h.durable other hmem hadmits key value hkey hput)

/-- A key after a transaction that only adds: what was there, or what an operation put there. -/
theorem lookup_apply_of_addsOnly (haccepts : store.accepts batch = true)
    (hnodup : batch.keys.Nodup)
    (hadds : ∀ action ∈ batch.actions, action.key.isAdmission = true → AddsOnly action)
    {key : MetadataKey} (hkey : key.isAdmission = true) {value : MetadataRecord}
    (hlookup : (store.apply batch).lookup key = some value) : store.lookup key = some value ∨
      ∃ action ∈ batch.actions, action.key = key ∧ action.expected = none ∧
        action.result = some value := by
  rcases Store.lookup_apply haccepts hnodup key with ⟨action, haction, rfl, hexpected, hresult⟩ |
      ⟨-, hsame⟩
  · rcases hadds action haction hkey with heq | hnone
    · exact Or.inl (by rw [hexpected, ← heq, ← hresult, hlookup])
    · exact Or.inr ⟨action, haction, rfl, hnone, hresult ▸ hlookup⟩
  · exact Or.inl (hsame ▸ hlookup)

/-- The admissions stay whole if what is put into the families is of a stored admission. -/
theorem AdmissionsWhole.apply {node : NodeId} (h : AdmissionsWhole node store)
    (haccepts : store.accepts batch = true) (hnodup : batch.keys.Nodup)
    (hadds : ∀ action ∈ batch.actions, action.key.isAdmission = true → AddsOnly action)
    (huse : ∀ action ∈ batch.actions, ∀ issuer generation value,
      action.key = .credentialUse issuer generation → action.expected = none →
      action.result = some value → ∃ t : AdmissionTriple, t.issuer = node ∧ issuer = node ∧
        t.proposal.generation = generation ∧ value = .credentialUse t.credentialUse ∧
        t.Stored (store.apply batch)) (hgrant : ∀ action ∈ batch.actions, ∀ admission value,
      action.key = .admissionGrant admission → action.expected = none →
      action.result = some value → ∃ t : AdmissionTriple, t.issuer = node ∧
        t.proposal.admission = admission ∧ value = .admissionGrant t.grant ∧
        t.Stored (store.apply batch)) :
    AdmissionsWhole node (store.apply batch) := by
  have hkeeps := keepsAdmissions_apply haccepts hnodup hadds
  constructor
  · intro issuer generation value hlookup
    rcases lookup_apply_of_addsOnly haccepts hnodup hadds rfl hlookup with
      hold | ⟨action, haction, hkey, hnone, hresult⟩
    · obtain ⟨t, hnode, hissuer, hgeneration, hvalue, hstored⟩ := h.use_whole issuer generation value hold
      exact ⟨t, hnode, hissuer, hgeneration, hvalue, hstored.mono hkeeps⟩
    · exact huse action haction issuer generation value hkey hnone hresult
  · intro admission value hlookup
    rcases lookup_apply_of_addsOnly haccepts hnodup hadds rfl hlookup with
      hold | ⟨action, haction, hkey, hnone, hresult⟩
    · obtain ⟨t, hnode, hadmission, hvalue, hstored⟩ := h.grant_whole admission value hold
      exact ⟨t, hnode, hadmission, hvalue, hstored.mono hkeeps⟩
    · exact hgrant action haction admission value hkey hnone hresult

/-! ## The admission transaction -/

section Transaction

variable {d : Disk} {transaction : RecordTransaction} {base : Nat}
  {localValue pointer issuerBinding : MetadataRecord} {identity : LocalIdentityContext}
  {t : AdmissionTriple} {purpose : JournalPurpose}

/-- The operations of an admission with its journal record. -/
theorem mem_admissionBatch (hbatch : transaction.batch = ⟨base, admissionActions localValue pointer
      issuerBinding identity t.proposal t.credentialUse t.grant ++
      journalAction transaction.id (some purpose)⟩) (action : RecordAction)
    (h : action ∈ transaction.batch.actions) :
    (∃ key expected, action = .check key (some expected) ∧
      (key = .localIdentity ∨ key = .localClusterPointer ∨ key = .identityBinding identity.node)) ∨
      action = .put (.identityBinding t.proposal.subject) none (.identityBinding t.binding) ∨
      action = .put (.credentialUse identity.node t.proposal.generation) none
        (.credentialUse t.credentialUse) ∨
      action = .put (.admissionGrant t.proposal.admission) none (.admissionGrant t.grant) ∨
      action = .put (.pendingTransaction purpose) none (.pendingTransaction transaction.id) := by
  rw [hbatch] at h
  simp only [admissionActions, journalAction, List.mem_append, List.mem_cons, List.not_mem_nil,
    or_false] at h
  rcases h with (h | h | h | h | h | h) | h
  · exact Or.inl ⟨_, _, h, Or.inl rfl⟩
  · exact Or.inl ⟨_, _, h, Or.inr (Or.inl rfl)⟩
  · exact Or.inl ⟨_, _, h, Or.inr (Or.inr rfl)⟩
  · exact Or.inr (Or.inl h)
  · exact Or.inr (Or.inr (Or.inl h))
  · exact Or.inr (Or.inr (Or.inr (Or.inl h)))
  · exact Or.inr (Or.inr (Or.inr (Or.inr h)))

/-- The transaction of an admission keeps the invariant. -/
theorem Disk.AdmissionInv.admitted (h : d.AdmissionInv identity.node)
    (hprepared : transaction ∈ d.prepared)
    (hbatch : transaction.batch = ⟨base, admissionActions localValue pointer issuerBinding identity
      t.proposal t.credentialUse t.grant ++ journalAction transaction.id (some purpose)⟩)
    (hissuer : t.issuer = identity.node) (haccepts : d.store.accepts transaction.batch = true) :
    (d.applied transaction).AdmissionInv identity.node ∧
      KeepsAdmissions d.store (d.applied transaction).store := by
  have hnodup := h.sound.keys transaction hprepared
  have hcases := mem_admissionBatch hbatch
  have hadds : ∀ action ∈ transaction.batch.actions, action.key.isAdmission = true →
      AddsOnly action := by
    intro action haction hkey
    rcases hcases action haction with ⟨key, expected, rfl, -⟩ | rfl | rfl | rfl | rfl
    · exact Or.inl rfl
    all_goals exact Or.inr rfl
  have hstored : t.Stored (d.store.apply transaction.batch) := by
    refine stored_of_apply haccepts hnodup ?_ ?_ ?_
    all_goals
      rw [hbatch]
      simp [admissionActions, AdmissionTriple.binding, hissuer]
  refine h.applied hprepared haccepts hadds ?_ ?_
  · intro action haction other value hkey hresult
    rcases hcases action haction with ⟨key, expected, rfl, hpin⟩ | rfl | rfl | rfl | rfl
    · -- The checks are of records outside the journal.
      rcases hpin with rfl | rfl | rfl <;> cases hkey
    · cases hkey
    · cases hkey
    · cases hkey
    · cases hresult
      rfl
  · refine h.whole.apply haccepts hnodup hadds ?_ ?_
    · intro action haction issuer generation value hkey hnone hresult
      rcases hcases action haction with ⟨key, expected, rfl, -⟩ | rfl | rfl | rfl | rfl
      · cases hnone
      · cases hkey
      · cases hkey
        cases hresult
        exact ⟨t, hissuer, rfl, rfl, rfl, hstored⟩
      · cases hkey
      · cases hkey
    · intro action haction admission value hkey hnone hresult
      rcases hcases action haction with ⟨key, expected, rfl, -⟩ | rfl | rfl | rfl | rfl
      · cases hnone
      · cases hkey
      · cases hkey
      · cases hkey
        cases hresult
        exact ⟨t, hissuer, rfl, rfl, hstored⟩
      · cases hkey

/-- An applied admission is stored. -/
theorem Disk.AdmissionInv.stored (h : d.AdmissionInv identity.node)
    (hreceipt : transaction ∈ d.receipts)
    (hbatch : transaction.batch = ⟨base, admissionActions localValue pointer issuerBinding identity
      t.proposal t.credentialUse t.grant ++ journalAction transaction.id (some purpose)⟩)
    (hissuer : t.issuer = identity.node) : t.Stored d.store := by
  have hadmits : transaction.Admits := by
    refine ⟨identity.node, t.proposal.generation, .credentialUse t.credentialUse, ?_⟩
    rw [hbatch]
    simp [admissionActions]
  constructor
  all_goals
    refine h.durable transaction hreceipt hadmits _ _ rfl ?_
    rw [hbatch]
    simp [admissionActions, AdmissionTriple.binding, hissuer]

end Transaction

/-- The removal of a journal record. -/
theorem Disk.AdmissionInv.cleanup {node : NodeId} {d : Disk} (h : d.AdmissionInv node)
    (hprepared : transaction ∈ d.prepared) {purpose : JournalPurpose} {stored : MetadataRecord}
    (hactions : transaction.batch.actions = [.delete (.pendingTransaction purpose) stored])
    (haccepts : d.store.accepts transaction.batch = true) :
    (d.applied transaction).AdmissionInv node ∧
      KeepsAdmissions d.store (d.applied transaction).store := by
  have hnodup := h.sound.keys transaction hprepared
  have hcases : ∀ action ∈ transaction.batch.actions,
      action = .delete (.pendingTransaction purpose) stored := by
    intro action haction
    rw [hactions] at haction
    exact List.mem_singleton.mp haction
  have hadds : ∀ action ∈ transaction.batch.actions, action.key.isAdmission = true →
      AddsOnly action := by
    intro action haction hkey
    rw [hcases action haction] at hkey
    cases hkey
  refine h.applied hprepared haccepts hadds ?_ ?_
  · intro action haction other value hkey hresult
    rw [hcases action haction] at hresult
    cases hresult
  · refine h.whole.apply haccepts hnodup hadds ?_ ?_
    · intro action haction issuer generation value hkey
      rw [hcases action haction] at hkey
      cases hkey
    · intro action haction admission value hkey
      rw [hcases action haction] at hkey
      cases hkey

/-! ## Classification -/

section Admission

variable [Ed25519]

variable {identity : LocalIdentityContext} {proposal : AdmissionProposal}

omit [Ed25519] in
theorem checkCredentialUse_eq_ok {cluster : Option ClusterId} {stored : MetadataRecord}
    {record : CredentialUseV1} :
    checkCredentialUse identity proposal cluster stored = .ok record ↔
      stored = .credentialUse record ∧ cluster = some record.cluster ∧
        record = ⟨record.cluster, identity.node, proposal.generation, proposal.admission,
          proposal.subject, proposal.subjectKey⟩ := by
  unfold checkCredentialUse
  simp only [Except.bind_eq_ok, Except.okOr_eq_ok, Except.rejectIf_eq_ok, Except.pure_eq,
    Except.ok.injEq, exists_const, not_or, not_not]
  cases stored <;> simp [MetadataRecord.asCredentialUse]
  cases record
  grind

theorem checkAdmissionGrant_eq_ok {cluster : Option ClusterId} {stored : MetadataRecord}
    {record : AdmissionGrantV1} :
    checkAdmissionGrant identity proposal cluster stored = .ok record ↔
      stored = .admissionGrant record ∧ cluster = some record.cluster ∧
        record = ⟨record.cluster, proposal.admission, proposal.subject, proposal.subjectKey,
          identity.node, proposal.generation, record.signature⟩ ∧
        record.verify identity.publicKey = .ok () := by
  unfold checkAdmissionGrant
  simp only [Except.bind_eq_ok, Except.okOr_eq_ok, Except.rejectIf_eq_ok, Except.pure_eq,
    Except.ok.injEq, Except.mapError_eq_ok, exists_const, not_or, not_not]
  cases stored <;> simp [MetadataRecord.asAdmissionGrant]
  cases record
  grind

omit [Ed25519] in
theorem checkSubjectBinding_eq_ok {stored : MetadataRecord} {record : IdentityBindingV1} :
    checkSubjectBinding proposal stored = .ok record ↔
      stored = .identityBinding record ∧ record = ⟨proposal.subject, proposal.subjectKey⟩ := by
  unfold checkSubjectBinding
  simp only [Except.bind_eq_ok, Except.okOr_eq_ok, Except.rejectIf_eq_ok, Except.pure_eq,
    Except.ok.injEq, exists_const, not_or, not_not]
  cases stored <;> simp [MetadataRecord.asIdentityBinding]
  cases record
  grind

/-- The grant is the durable one of the proposal, with its two other records, and verifies. -/
structure Admitted (identity : LocalIdentityContext) (proposal : AdmissionProposal)
    (grant : AdmissionGrantV1) (store : RecordStore) : Prop where
  stored : ∃ cluster signature, grant = AdmissionTriple.grant ⟨cluster, identity.node, proposal, signature⟩ ∧
    AdmissionTriple.Stored ⟨cluster, identity.node, proposal, signature⟩ store
  verified : grant.verify identity.publicKey = .ok ()

theorem Admitted.mono {grant : AdmissionGrantV1} {d e : RecordStore}
    (h : Admitted identity proposal grant d) (hkeeps : KeepsAdmissions d e) :
    Admitted identity proposal grant e := by
  obtain ⟨cluster, signature, hgrant, hstored⟩ := h.stored
  exact ⟨⟨cluster, signature, hgrant, hstored.mono hkeeps⟩, h.verified⟩

/-- What is classified as consumed is a stored admission. -/
theorem admitted_of_classifyAdmission {snapshot : RecordStore} {credentialUse : CredentialUseV1}
    {grant : AdmissionGrantV1}
    (h : classifyAdmission identity proposal snapshot = .ok (.consumed credentialUse grant)) :
    Admitted identity proposal grant snapshot := by
  unfold classifyAdmission at h
  obtain ⟨pointer, -, h⟩ := Except.bind_eq_ok.mp h
  obtain ⟨foundUse, huse, h⟩ := Except.bind_eq_ok.mp h
  obtain ⟨foundGrant, hgrant, h⟩ := Except.bind_eq_ok.mp h
  obtain ⟨foundBinding, hbinding, h⟩ := Except.bind_eq_ok.mp h
  rw [Except.option_mapM_eq_ok] at huse hgrant hbinding
  split at h
  · rename_i use' grant' binding'
    obtain ⟨hcluster, h⟩ := Except.seq_eq_ok.mp h
    rw [Except.rejectIf_eq_ok, not_not] at hcluster
    cases h
    -- The three records are there and passed their checks.
    generalize huseValue : snapshot.lookup (.credentialUse identity.node proposal.generation) =
      useValue at huse
    generalize hgrantValue : snapshot.lookup (.admissionGrant proposal.admission) = grantValue
      at hgrant
    generalize hbindingValue : snapshot.lookup (.identityBinding proposal.subject) = bindingValue
      at hbinding
    cases huse with | some huse =>
    cases hgrant with | some hgrant =>
    cases hbinding with | some hbinding =>
    obtain ⟨rfl, -, huse⟩ := checkCredentialUse_eq_ok.mp huse
    obtain ⟨rfl, -, hgrant, hverified⟩ := checkAdmissionGrant_eq_ok.mp hgrant
    obtain ⟨rfl, hsubject⟩ := checkSubjectBinding_eq_ok.mp hbinding
    refine ⟨⟨grant.cluster, grant.signature, hgrant, ?_, ?_, ?_⟩, hverified⟩
    · rw [huseValue, huse, hcluster]
      rfl
    · rw [hgrantValue]
      exact congrArg (fun record => some (MetadataRecord.admissionGrant record)) hgrant
    · rw [hbindingValue, hsubject]
      rfl
  · cases h
  · cases h

/-! ## Triples -/

/-- What is used of an evolution and of what is known while `commit_admission` runs: `pre` holds
    throughout, and `settled` once the generation is journaled or one of the records is there. -/
structure AdmissionSetting (E : Evolution) (identity : LocalIdentityContext)
    (proposal : AdmissionProposal) (pre settled : Disk → Prop) : Prop where
  stable : E.Stable pre
  settled_stable : E.Stable settled
  admissions : ∀ d, E.inv d → d.AdmissionInv identity.node
  keeps : ∀ d e, E.grows d e → KeepsAdmissions d.store e.store
  journaled : ∀ d stored, E.inv d → pre d → d.store.lookup
    (.pendingTransaction (.admission proposal.generation)) = some stored → settled d
  present : ∀ d, E.inv d → pre d → admissionPresent identity proposal d.store = true → settled d
  classifies : ∀ d error, E.inv d → pre d →
    classifyAdmission identity proposal d.store = .error error → E.tolerates error
  aborted : ∀ d, E.inv d → pre d → settled d →
    classifyAdmission identity proposal d.store = .ok .aborted → E.tolerates discoveryCorrupt
  identityFault : ∀ d error, E.inv d → localIdentityValue identity d.store = .error error →
    E.tolerates error
  pinsFault : ∀ d e error, E.inv d → E.inv e →
    admissionPins identity d.store e.store = .error error → E.tolerates error
  signFault : ∀ handle message s error, E.considers (.sign handle message) s (.error error) →
    E.tolerates error
  verifyFault : ∀ (grant : AdmissionGrantV1) error,
    grant.verify identity.publicKey = .error error → E.tolerates error
  admits : ∀ d transaction base localValue pointer issuerBinding (t : AdmissionTriple),
    E.inv d → pre d → transaction ∈ d.prepared →
    transaction.batch = ⟨base, admissionActions localValue pointer issuerBinding identity t.proposal
      t.credentialUse t.grant ++
        journalAction transaction.id (some (.admission t.proposal.generation))⟩ →
    t.issuer = identity.node → t.proposal = proposal → d.store.accepts transaction.batch = true →
    E.inv (d.applied transaction) ∧ E.does d (d.applied transaction)

namespace AdmissionSetting

variable {E : Evolution} {identity : LocalIdentityContext} {proposal : AdmissionProposal}
  {pre settled : Disk → Prop}

theorem stable_admitted (S : AdmissionSetting E identity proposal pre settled)
    (grant : AdmissionGrantV1) : E.Stable fun d => Admitted identity proposal grant d.store := by
  intro d e _ h _ hgrows
  exact h.mono (S.keeps d e hgrows)

theorem triple_admissionState (S : AdmissionSetting E identity proposal pre settled)
    {known : Disk → Prop} (hstable : E.Stable known) (hknown : ∀ d, known d → pre d) :
    E.Triple known (admissionState identity proposal) (fun state d => known d ∧
      (∀ credentialUse grant, state = .consumed credentialUse grant →
        Admitted identity proposal grant d.store) ∧
      (state = .aborted → classifyAdmission identity proposal d.store = .ok .aborted)) := by
  refine (triple_snapshot hstable).bind fun snapshot => ?_
  refine .ofResult ?_ ?_
  · rintro state hstate d _ ⟨h, rfl⟩
    refine ⟨h, ?_, ?_⟩
    · rintro credentialUse grant rfl
      exact admitted_of_classifyAdmission hstate
    · rintro rfl
      exact hstate
  · rintro error herror d hinv ⟨h, rfl⟩
    exact S.classifies d error hinv (hknown d h) herror

omit [Ed25519] in
/-- The grant of an admission that was found. -/
theorem eq_ok_of_existingAdmission {state : Result AdmissionState} {grant : AdmissionGrantV1}
    (h : existingAdmission state = .ok grant) : ∃ credentialUse,
      state = .ok (.consumed credentialUse grant) := by
  unfold existingAdmission at h
  split at h
  · cases h
    exact ⟨_, rfl⟩
  · cases h
  · split at h <;> cases h

/-- The answer where one of the three records is there. -/
theorem triple_existingAdmission (S : AdmissionSetting E identity proposal pre settled) :
    E.Triple (fun d => pre d ∧ settled d)
      (ExceptT.lift (admissionState identity proposal).run >>= fun state =>
        ofResult (existingAdmission state))
      (fun grant d => pre d ∧ Admitted identity proposal grant d.store) := by
  have hboth := S.stable.and S.settled_stable
  have hstate := S.triple_admissionState hboth fun _ h => h.1
  have hlift : E.Triple (fun d => pre d ∧ settled d)
      (ExceptT.lift (admissionState identity proposal).run) (fun state d =>
        (∀ credentialUse grant, state = .ok (.consumed credentialUse grant) →
          pre d ∧ Admitted identity proposal grant d.store) ∧
        (state = .ok .aborted → E.tolerates discoveryCorrupt) ∧
        ∀ error, state = .error error → E.tolerates error) := by
    refine hstate.lift ?_ ?_
    · intro state d hinv h
      refine ⟨fun credentialUse grant heq => ?_, fun heq => ?_, nofun⟩
      · exact ⟨h.1.1, h.2.1 credentialUse grant (Except.ok.inj heq)⟩
      · exact S.aborted d hinv h.1.1 h.1.2 (h.2.2 (Except.ok.inj heq))
    · intro error d _ htolerates
      refine ⟨nofun, nofun, fun other heq => ?_⟩
      cases heq
      exact htolerates
  refine hlift.bind fun state => .ofResult ?_ ?_
  · intro grant hgrant d _ h
    obtain ⟨credentialUse, hconsumed⟩ := eq_ok_of_existingAdmission hgrant
    exact h.1 credentialUse grant hconsumed
  · intro error herror d _ h
    unfold existingAdmission at herror
    split at herror
    · cases herror
    · cases herror
      exact h.2.1 rfl
    · split at herror
      · cases herror
        exact h.2.2 _ rfl
      · cases herror
        exact E.slotFault _ (by decide)

/-- The commit of an admission. -/
theorem triple_commit (S : AdmissionSetting E identity proposal pre settled) {base : Nat}
    {localValue pointer issuerBinding : MetadataRecord} {t : AdmissionTriple}
    (hissuer : t.issuer = identity.node) (hproposal : t.proposal = proposal)
    (hverified : t.grant.verify identity.publicKey = .ok ()) {transaction : RecordTransaction}
    (hbatch : transaction.batch = ⟨base, admissionActions localValue pointer issuerBinding
      identity t.proposal t.credentialUse t.grant ++
        journalAction transaction.id (some (.admission t.proposal.generation))⟩) :
    E.Triple (fun d => pre d ∧ transaction ∈ d.prepared) (commitWithReconcile transaction)
      (fun outcome d => pre d ∧ (outcome = .committed →
        Admitted identity proposal t.grant d.store)) := by
  have hknown := S.stable.and (stable_prepared (E := E) transaction)
  refine (triple_commitWithReconcile hknown (fun _ _ h => h.2) ?_).conseq (fun _ _ h => h) ?_
  · intro d hinv h haccepts
    exact S.admits d transaction base localValue pointer issuerBinding t hinv h.1 h.2 hbatch
      hissuer hproposal haccepts
  · intro outcome d hinv h
    refine ⟨h.1.1, fun hcommitted => ?_⟩
    obtain ⟨cluster, issuer, own, signature⟩ := t
    subst hissuer hproposal
    exact ⟨⟨cluster, signature, rfl, (S.admissions d hinv).stored (h.2 hcommitted) hbatch rfl⟩,
      hverified⟩

theorem triple_finishAdmission (S : AdmissionSetting E identity proposal pre settled)
    {grant : AdmissionGrantV1} (outcome : CommitWithReconcile) :
    E.Triple (fun d => pre d ∧ (outcome = .committed → Admitted identity proposal grant d.store))
      (finishAdmission identity proposal grant outcome)
      (fun grant d => pre d ∧ Admitted identity proposal grant d.store) := by
  cases outcome with
  | committed =>
    have hknown := S.stable.and (S.stable_admitted grant)
    refine Triple.bind ((triple_cleanupPendingExact hknown _ _).conseq
      (fun _ _ h => ⟨h.1, h.2 rfl⟩) fun _ _ _ h => h) fun _ => ?_
    exact .pure fun _ _ h => h
  | aborted =>
    have hstate := S.triple_admissionState S.stable fun _ h => h
    refine Triple.bind (hstate.conseq (fun _ _ h => h.1) fun _ _ _ h => h) fun state => ?_
    cases state with
    | consumed credentialUse existing =>
      have hknown := S.stable.and (S.stable_admitted existing)
      refine Triple.bind ((triple_cleanupPendingExact hknown _ _).conseq
        (fun _ _ h => ⟨h.1, h.2.1 credentialUse existing rfl⟩) fun _ _ _ h => h) fun _ => ?_
      exact .pure fun _ _ h => h
    | aborted => exact .throw fun _ _ _ => E.slotFault _ (by decide)

/-- A grant that `commit_admission` returns is durable. -/
theorem triple_commitAdmission (S : AdmissionSetting E identity proposal pre settled) :
    E.Triple pre (commitAdmission identity proposal) (fun grant d =>
      pre d ∧ Admitted identity proposal grant d.store) := by
  unfold commitAdmission
  refine (triple_recoverJournalPrologue S.stable _ _ S.settled_stable S.journaled).bind
    fun recovered => ?_
  cases recovered with
  | true =>
    have hstate := S.triple_admissionState (S.stable.and S.settled_stable) fun _ h => h.1
    refine Triple.bind (hstate.conseq (fun _ _ h => ⟨h.1, h.2 rfl⟩) fun _ _ _ h => h)
      fun state => ?_
    cases state with
    | consumed credentialUse grant => exact .pure fun _ _ h => ⟨h.1.1, h.2.1 credentialUse grant rfl⟩
    | aborted =>
      refine .throwBind fun d hinv h => ?_
      exact S.aborted d hinv h.1.1 h.1.2 (h.2.2 rfl)
  | false =>
    refine Triple.bind ((triple_snapshot S.stable).conseq (fun _ _ h => h.1) fun _ _ _ h => h)
      fun first => ?_
    refine .assume (p := ∃ d, E.inv d ∧ pre d ∧ d.store = first)
      (fun d hinv h => ⟨d, hinv, h.1, h.2⟩) ?_
    rintro ⟨d₁, hinv₁, hpre₁, rfl⟩
    refine .bindResult (fun localValue _ => ?_) fun error herror _ _ _ =>
      S.identityFault d₁ error hinv₁ herror
    -- From here on it is known whether one of the records is there.
    have hpresent : E.Stable fun d => pre d ∧
        (admissionPresent identity proposal d₁.store = true → settled d) :=
      S.stable.and (S.settled_stable.imp _)
    refine Triple.bind ((triple_snapshot hpresent).conseq ?_ fun _ _ _ h => h) fun second => ?_
    · rintro d hinv ⟨hpre, hstore⟩
      exact ⟨hpre, fun h => S.present d hinv hpre (hstore ▸ h)⟩
    refine .assume (p := ∃ d, E.inv d ∧ d.store = second) (fun d hinv h => ⟨d, hinv, h.2⟩) ?_
    rintro ⟨d₂, hinv₂, rfl⟩
    refine .bindResult (fun pins _ => ?_) fun error herror _ _ _ =>
      S.pinsFault d₁ d₂ error hinv₁ hinv₂ herror
    obtain ⟨cluster, pointer, issuerBinding⟩ := pins
    dsimp only
    split
    · rename_i hfound
      exact S.triple_existingAdmission.conseq (fun _ _ h => ⟨h.1.1, h.1.2 hfound⟩) fun _ _ _ h => h
    · refine Triple.bind ((triple_sign S.stable _ _ fun s error => S.signFault _ _ s error).conseq
        (fun _ _ h => h.1.1) fun _ _ _ h => h) fun signature => ?_
      -- The grant is verified before it is written.
      refine .bindResult (fun _ hverified => ?_) fun error herror _ _ _ => S.verifyFault _ error herror
      refine (triple_prepare S.stable _ _ _).bind fun transaction => ?_
      refine .assume (fun _ _ h => h.2.2) fun hbatch => ?_
      have hcommit := S.triple_commit (t := ⟨cluster, identity.node, proposal, signature⟩) rfl rfl
        hverified hbatch
      exact Triple.bind (hcommit.conseq (fun _ _ h => ⟨h.1, h.2.1⟩) fun _ _ _ h => h) fun outcome =>
        S.triple_finishAdmission outcome

end AdmissionSetting

end Admission

/-! ## Runs -/

/-- Concurrent admissions by a node, each of which asks for its own outcomes. -/
def admissionEvolution (node : NodeId) : Evolution where
  inv := Disk.AdmissionInv node
  grows := fun d e => d.Later e ∧ KeepsAdmissions d.store e.store
  does := fun d e => d.Later e ∧ KeepsAdmissions d.store e.store
  considers := NodeCall.AsksOwn
  tolerates := fun _ => True
  deletes := fun _ _ _ => True
  sound := fun _ h => h.sound
  later := fun _ _ h => h.1
  refl := fun d => ⟨.refl d, fun _ _ _ h => h⟩
  trans := fun _ _ _ hde hef => ⟨hde.1.trans hef.1, hde.2.trans hef.2⟩
  does_grows := fun _ _ h => h
  does_refl := fun d => ⟨.refl d, fun _ _ _ h => h⟩
  prepare := by
    intro d transaction h hfresh hkeys
    exact ⟨⟨h.sound.prepare hfresh hkeys, h.journaled, h.whole, h.durable⟩, .prepare d transaction,
      fun _ _ _ h => h⟩
  journal := fun _ h => h.journaled
  cleanup := by
    intro d transaction purpose stored h hprepared hactions haccepts
    obtain ⟨hinv, hkeeps⟩ := h.cleanup hprepared hactions haccepts
    exact ⟨hinv, .applied d transaction, hkeeps⟩
  own := fun own s id journalProven hconsiders hslot => hconsiders id journalProven hslot
  snapshotFault := fun _ _ _ => trivial
  prepareFault := fun _ _ _ _ _ _ => trivial
  commitFault := fun _ _ _ _ => trivial
  reconcileFault := fun _ _ _ _ => trivial
  slotFault := fun _ _ => trivial

def admissionFamily (node : NodeId) : Family AdmissionProposal where
  evolution := fun _ => admissionEvolution node
  inv := Disk.AdmissionInv node
  considers := NodeCall.AsksOwn
  compatible := fun _ _ => True
  inv_eq := fun _ => rfl
  considers_eq := fun _ => rfl
  compatible_symm := fun _ _ _ => trivial
  fit := fun _ _ _ _ _ _ _ h => h

section Runs

variable [Ed25519]

theorem admissionSetting (identity : LocalIdentityContext) (proposal : AdmissionProposal) :
    AdmissionSetting (admissionEvolution identity.node) identity proposal (fun _ => True)
      (fun _ => True) where
  stable := stable_true
  settled_stable := stable_true
  admissions := fun _ h => h
  keeps := fun _ _ h => h.2
  journaled := fun _ _ _ _ _ => trivial
  present := fun _ _ _ _ => trivial
  classifies := fun _ _ _ _ _ => trivial
  aborted := fun _ _ _ _ _ => trivial
  identityFault := fun _ _ _ _ => trivial
  pinsFault := fun _ _ _ _ _ _ => trivial
  signFault := fun _ _ _ _ _ => trivial
  verifyFault := fun _ _ _ => trivial
  admits := by
    intro d transaction base localValue pointer issuerBinding t hinv _ hprepared hbatch hissuer _
      haccepts
    obtain ⟨hinv', hkeeps⟩ := hinv.admitted hprepared hbatch hissuer haccepts
    exact ⟨hinv', .applied d transaction, hkeeps⟩

/-- Admissions by one issuer, any number at a time, each started at any time. -/
def admissionSchedule (identity : LocalIdentityContext) :
    Schedule AdmissionProposal NodeCall NodeCall.Answer (Result AdmissionGrantV1) NodeStore :=
  nodeSchedule (commitAdmission identity) fun _ _ _ => True

/-- The contracts of concurrent admissions. -/
def admissionContracts (identity : LocalIdentityContext) :
    ((admissionSchedule identity).within NodeCall.AsksOwn).Contracts :=
  (admissionFamily identity.node).contracts (commitAdmission identity) (fun _ _ _ => True)
    (fun _ _ => True) (fun proposal grant d => Admitted identity proposal grant d.store)
    (fun _ _ _ _ => ⟨trivial, fun _ _ => trivial⟩) (fun _ _ _ _ _ _ _ h hdoes => h.mono hdoes.2)
    fun proposal => (admissionSetting identity proposal).triple_commitAdmission.conseq
      (fun _ _ _ => trivial) fun _ _ _ h => h.2

end Runs

/-- The store of an issuer before its first admission. -/
structure NodeStore.BeforeAdmissions (s : NodeStore) : Prop where
  ready : s.slot = .ready
  sound : s.disk.Sound
  journaled : s.disk.Journaled
  receipts : ∀ transaction ∈ s.disk.receipts, ¬ transaction.Admits
  uses : ∀ issuer generation, s.disk.store.lookup (.credentialUse issuer generation) = none
  grants : ∀ admission, s.disk.store.lookup (.admissionGrant admission) = none

theorem NodeStore.BeforeAdmissions.inv {s : NodeStore} (h : s.BeforeAdmissions) (node : NodeId) :
    (admissionFamily node).Inv s := by
  refine ⟨⟨h.sound, h.journaled, ⟨?_, ?_⟩, ?_⟩, ?_⟩
  · intro issuer generation value hlookup
    rw [h.uses] at hlookup
    cases hlookup
  · intro admission value hlookup
    rw [h.grants] at hlookup
    cases hlookup
  · intro transaction hmem hadmits
    exact absurd hadmits (h.receipts transaction hmem)
  · intro id active hfrozen
    rw [h.ready] at hfrozen
    cases hfrozen

/-- In a run in which every operation asks for the outcome of its own transactions, a credential
    generation has one use for good, admissions are whole in every state, and a grant that is
    returned is durable. -/
theorem admission_committed_whole [Ed25519] (identity : LocalIdentityContext) {origin : NodeStore}
    (horigin : origin.BeforeAdmissions)
    {s : Threads AdmissionProposal NodeCall NodeCall.Answer (Result AdmissionGrantV1) NodeStore}
    (hs : (((admissionSchedule identity).within NodeCall.AsksOwn).runs origin).Reachable s) :
    (∀ t, (((admissionSchedule identity).within NodeCall.AsksOwn).runs origin).Path s t →
      ∀ issuer issuer' generation value value',
        s.state.disk.store.lookup (.credentialUse issuer generation) = some value →
        t.state.disk.store.lookup (.credentialUse issuer' generation) = some value' →
        value = value') ∧
    AdmissionsWhole identity.node s.state.disk.store ∧
    ∀ proposal grant, ⟨proposal, .done (.ok grant)⟩ ∈ s.threads →
      Admitted identity proposal grant s.state.disk.store := by
  have hholds := (admissionContracts identity).holds_of_reachable (horigin.inv identity.node) hs
  have hwhole : AdmissionsWhole identity.node s.state.disk.store := hholds.invariant.1.whole
  refine ⟨fun t hpath issuer issuer' generation value value' hlookup hlookup' => ?_, hwhole, ?_⟩
  · have hkeeps : KeepsAdmissions s.state.disk.store t.state.disk.store :=
      Family.contracts_path (F := admissionFamily identity.node)
        (R := fun d e => KeepsAdmissions d.store e.store) (fun _ _ _ _ h => h)
        (fun _ _ _ => KeepsAdmissions.trans) (fun _ _ _ _ _ h => h.2) hholds hpath
    have hholds' := (admissionContracts identity).holds_of_reachable (horigin.inv identity.node)
      (hs.path hpath)
    have hwhole' : AdmissionsWhole identity.node t.state.disk.store := hholds'.invariant.1.whole
    -- Both uses are of the issuer, and the first is still there.
    obtain ⟨-, -, rfl, -⟩ := hwhole.use_whole issuer generation value hlookup
    obtain ⟨-, -, rfl, -⟩ := hwhole'.use_whole issuer' generation value' hlookup'
    have hkept := hkeeps _ _ rfl hlookup
    rw [hlookup'] at hkept
    exact (Option.some.inj hkept).symm
  · intro proposal grant hthread
    exact (hholds.post hthread).2

/-! ## A grant for the commit of another operation -/

section Run

variable [Ed25519]

/-- A cluster whose records are there. -/
theorem existingCluster_eq_ok {snapshot : RecordStore} {genesis : ClusterGenesisV1}
    (hpointer : snapshot.lookup .localClusterPointer =
      some (.localClusterPointer ⟨genesis.cluster, genesis.digest⟩))
    (hscan : snapshot.scan MetadataKey.isClusterGenesis =
      [(.clusterGenesis genesis.cluster, .clusterGenesis genesis)])
    (hverify : genesis.verify = .ok ())
    (hbinding : snapshot.lookup (.identityBinding genesis.creator) =
      some (.identityBinding ⟨genesis.creator, genesis.creatorKey⟩)) :
    existingCluster snapshot = .ok (some genesis) := by
  have hlocal : localCluster snapshot = .ok (some ⟨genesis.cluster, genesis.digest⟩) := by
    unfold localCluster
    rw [hpointer]
    rfl
  unfold existingCluster
  rw [hlocal, hscan]
  simp only [Except.ok_bind_eq, MetadataRecord.asClusterGenesis, Except.okOr, hverify,
    Except.mapError, hbinding, MetadataRecord.asIdentityBinding]
  rw [Except.rejectIf_of_not _ (by simp), Except.rejectIf_of_not _ (by simp)]
  rfl

/-- `commit_admission` up to its commit, where nothing stands in its way. -/
theorem leads_commitAdmission {ok : (call : NodeCall) → NodeStore → call.Answer → Prop}
    (hok : AdmitsStore ok)
    (hsign : ∀ handle message s signature, ok (.sign handle message) s (.ok signature))
    {identity : LocalIdentityContext} {proposal : AdmissionProposal} {s : NodeStore} {disk : Disk}
    {cluster : ClusterId} {localValue pointer issuerBinding : MetadataRecord}
    (hprologue : Leads ok (recoverJournalPrologue (.admission proposal.generation)
      "admission pending cleanup") s (pure false) ⟨.ready, disk⟩)
    (hlocal : localIdentityValue identity disk.store = .ok localValue)
    (hpins : admissionPins identity disk.store disk.store = .ok (cluster, pointer, issuerBinding))
    (hpresent : admissionPresent identity proposal disk.store = false) {signature : Signature}
    {grant : AdmissionGrantV1} (hgrant : grant = ⟨cluster, proposal.admission, proposal.subject,
      proposal.subjectKey, identity.node, proposal.generation, signature⟩)
    (hverify : grant.verify identity.publicKey = .ok ()) {id : TransactionId}
    (hfresh : ∀ transaction ∈ disk.prepared, transaction.id ≠ id)
    {transaction : RecordTransaction} (htransaction : transaction = prepared id disk.store.revision
      (admissionActions localValue pointer issuerBinding identity proposal
        ⟨cluster, identity.node, proposal.generation, proposal.admission, proposal.subject,
          proposal.subjectKey⟩ grant) (some (.admission proposal.generation)))
    (hkeys : transaction.batch.keys.Nodup) :
    Leads ok (commitAdmission identity proposal) s
      (commitWithReconcile transaction >>= finishAdmission identity proposal grant)
      ⟨.ready, disk.prepare transaction⟩ := by
  subst hgrant htransaction
  refine hprologue.andThen ?_
  refine (leads_snapshot _ (hok.snapshot _)).andThen ?_
  refine (leads_ofResult hlocal _).andThen ?_
  refine (leads_snapshot _ (hok.snapshot _)).andThen ?_
  refine (leads_ofResult hpins _).andThen ?_
  dsimp only
  rw [if_neg (by rw [hpresent]; exact Bool.false_ne_true)]
  refine (leads_sign signature (hsign _ _ _ _)).andThen ?_
  refine (leads_ofResult hverify _).andThen ?_
  exact (leads_prepare (hok.prepare _ _ _ _ _) hfresh hkeys).andThen (.refl _ _)

end Run

/-! ### A sample issuer -/

def sampleIssuer : LocalIdentityV1 where
  node := sampleInitiatorId
  publicKey := sampleInitiatorKey
  operation := .ofDigits 0 0
  handle := .ofByte 1

def sampleGenesisWith (signature : Signature) : ClusterGenesisV1 :=
  ⟨sampleCluster, sampleIssuer.node, sampleIssuer.publicKey, signature⟩

/-- The creator signs the genesis. -/
def sampleGenesis : ClusterGenesisV1 :=
  sampleGenesisWith (sampleSign sampleIssuer.publicKey (signatureMessage clusterGenesisDomain
    (sampleGenesisWith (.fill 0)).signedBody))

def samplePointer : MetadataRecord := .localClusterPointer ⟨sampleCluster, sampleGenesis.digest⟩

def sampleBinding : MetadataRecord := .identityBinding ⟨sampleIssuer.node, sampleIssuer.publicKey⟩

/-- A node that has created a cluster. -/
def sampleIssuerStore : RecordStore where
  revision := 0
  entries := ((((∅ : AList fun _ : MetadataKey => MetadataRecord).insert
    .localIdentity (.localIdentity sampleIssuer)).insert
    .localClusterPointer samplePointer).insert
    (.clusterGenesis sampleCluster) (.clusterGenesis sampleGenesis)).insert
    (.identityBinding sampleIssuer.node) sampleBinding

def sampleIssuerDisk : Disk := ⟨sampleIssuerStore, [], []⟩

def sampleSubject : NodeId := ⟨Bytes.utf8 "node_222222222222222222222", by decide⟩

/-- Two joiners, each with a credential of its own. -/
def sampleProposal (n : UInt8) : AdmissionProposal where
  subject := if n = 0 then sampleResponderId else sampleSubject
  subjectKey := sampleResponderKey
  generation := ⟨List.replicate 16 n, rfl⟩
  admission := ⟨List.replicate 16 n, rfl⟩

def sampleGrant (n : UInt8) : AdmissionGrantV1 :=
  let proposal := sampleProposal n
  ⟨sampleCluster, proposal.admission, proposal.subject, proposal.subjectKey, sampleIssuer.node,
    proposal.generation, sampleSign sampleIssuer.publicKey (signatureMessage admissionGrantDomain
      (AdmissionGrantV1.encodeSignedBody sampleCluster proposal.admission proposal.subject
        proposal.subjectKey sampleIssuer.node proposal.generation))⟩

def sampleUse (n : UInt8) : CredentialUseV1 :=
  let proposal := sampleProposal n
  ⟨sampleCluster, sampleIssuer.node, proposal.generation, proposal.admission, proposal.subject,
    proposal.subjectKey⟩

def sampleTransactionId (n : UInt8) : TransactionId :=
  if n = 0 then .ofDigits 0 0
  else .ofDigits 1 1

def sampleAdmission (n : UInt8) : RecordTransaction :=
  prepared (sampleTransactionId n) 0 (admissionActions (.localIdentity sampleIssuer) samplePointer
    sampleBinding sampleIssuer (sampleProposal n) (sampleUse n) (sampleGrant n))
    (some (.admission (sampleProposal n).generation))

theorem signedBody_sampleGenesisWith (signature other : Signature) :
    (sampleGenesisWith signature).signedBody = (sampleGenesisWith other).signedBody := by
  simp only [ClusterGenesisV1.signedBody, ClusterGenesisV1.bodyFields, sampleGenesisWith]

theorem sampleGenesis_verify : @ClusterGenesisV1.verify sampleScheme sampleGenesis = .ok () := by
  unfold ClusterGenesisV1.verify sampleGenesis
  rw [signedBody_sampleGenesisWith _ ⟨List.replicate 64 0, rfl⟩]
  exact verifyStrict_sampleSign _ _ _ _

theorem sampleGrant_verify (n : UInt8) :
    @AdmissionGrantV1.verify sampleScheme (sampleGrant n) sampleIssuer.publicKey = .ok () :=
  verifyStrict_sampleSign _ _ _ _

theorem sampleIssuer_pins : @admissionPins sampleScheme sampleIssuer sampleIssuerStore
    sampleIssuerStore = .ok (sampleCluster, samplePointer, sampleBinding) := by
  let _ := sampleScheme
  have hcluster : existingCluster sampleIssuerStore = .ok (some sampleGenesis) :=
    existingCluster_eq_ok rfl rfl sampleGenesis_verify rfl
  unfold admissionPins
  rw [hcluster]
  rfl

theorem beforeAdmissions_sampleIssuer : NodeStore.BeforeAdmissions ⟨.ready, sampleIssuerDisk⟩ := by
  refine ⟨rfl, ⟨nofun, nofun, nofun⟩, ?_, nofun, fun _ _ => rfl, fun _ => rfl⟩
  intro purpose stored hlookup
  cases hlookup

theorem accepts_sampleAdmission (n : UInt8) (hn : n = 0 ∨ n = 1) :
    sampleIssuerStore.accepts (sampleAdmission n).batch = true := by
  refine Store.accepts_iff.mpr ⟨rfl, ?_⟩
  rcases hn with rfl | rfl
  all_goals
    intro action haction
    simp only [sampleAdmission, prepared, admissionActions, journalAction, List.mem_append,
      List.mem_cons, List.not_mem_nil, or_false] at haction
    rcases haction with (rfl | rfl | rfl | rfl | rfl | rfl) | rfl
    all_goals rfl

theorem keys_sampleAdmission (n : UInt8) (hn : n = 0 ∨ n = 1) :
    (sampleAdmission n).batch.keys.Nodup := by
  rcases hn with rfl | rfl
  · decide
  · decide

variable {ok : (call : NodeCall) → NodeStore → call.Answer → Prop}

theorem leads_sampleAdmission (hok : AdmitsStore ok)
    (hsign : ∀ handle message s signature, ok (.sign handle message) s (.ok signature))
    {n : UInt8} (hn : n = 0 ∨ n = 1) {s : NodeStore} {disk : Disk}
    (hprologue : Leads ok (recoverJournalPrologue (.admission (sampleProposal n).generation)
      "admission pending cleanup") s (pure false) ⟨.ready, disk⟩)
    (hstore : disk.store = sampleIssuerStore)
    (hfresh : ∀ transaction ∈ disk.prepared, transaction.id ≠ sampleTransactionId n) :
    Leads ok (@commitAdmission sampleScheme sampleIssuer (sampleProposal n)) s
      (commitWithReconcile (sampleAdmission n) >>=
        @finishAdmission sampleScheme sampleIssuer (sampleProposal n) (sampleGrant n))
      ⟨.ready, disk.prepare (sampleAdmission n)⟩ := by
  let _ := sampleScheme
  refine leads_commitAdmission hok hsign hprologue (by rw [hstore]; rfl)
    (by rw [hstore]; exact sampleIssuer_pins) ?_ rfl (sampleGrant_verify n) hfresh ?_
    (keys_sampleAdmission n hn)
  · rw [hstore]
    rcases hn with rfl | rfl <;> rfl
  · rw [hstore]
    rfl

/-- The store after one admission, before and after the removal of its journal record. -/
def sampleAdmittedDisk : Disk :=
  (sampleIssuerDisk.prepare (sampleAdmission 0)).applied (sampleAdmission 0)

def sampleCleanup : RecordTransaction :=
  cleanupTransaction sampleAdmittedDisk (.admission (sampleProposal 0).generation)
    (sampleTransactionId 0) (sampleTransactionId 1)

def sampleFinalDisk : Disk := (sampleAdmittedDisk.prepare sampleCleanup).applied sampleCleanup

theorem leads_sampleCommit (hok : AdmitsStore ok)
    (hsign : ∀ handle message s signature, ok (.sign handle message) s (.ok signature)) :
    Leads ok (@commitAdmission sampleScheme sampleIssuer (sampleProposal 0))
      ⟨.ready, sampleIssuerDisk⟩ (pure (sampleGrant 0)) ⟨.ready, sampleFinalDisk⟩ := by
  let _ := sampleScheme
  let disk := sampleIssuerDisk.prepare (sampleAdmission 0)
  have hcommits : disk.Commits (sampleAdmission 0) (some (.ok .committed)) sampleAdmittedDisk :=
    .applied _ List.not_mem_nil (accepts_sampleAdmission 0 (Or.inl rfl)) (Or.inl rfl)
  have hlookup : sampleAdmittedDisk.store.lookup (.pendingTransaction
      (.admission (sampleProposal 0).generation)) =
      some (.pendingTransaction (sampleTransactionId 0)) := rfl
  have hcleanup := leads_cleanupPendingExact hok _ "admission pending cleanup"
    (sampleTransactionId 1) hlookup (by decide) (fun _ h => h) rfl rfl
  refine (leads_sampleAdmission hok hsign (Or.inl rfl) (leads_recoverJournalPrologue hok rfl) rfl
    (by decide)).trans ?_
  have hcommit : Leads ok (commitWithReconcile (sampleAdmission 0)) ⟨.ready, disk⟩
      (pure .committed) ⟨.ready, sampleAdmittedDisk⟩ :=
    (leads_commitRecords hok hcommits nofun).andThen (.refl _ _)
  exact hcommit.andThen (hcleanup.andThen (.refl _ _))

theorem admitsStore_asksOwn : AdmitsStore NodeCall.AsksOwn := by
  constructor <;> intros <;> trivial

/-- What is left of an admission whose commit has an unknown outcome. -/
def unsettledAdmission [Ed25519] (n : UInt8) : NodeM AdmissionGrantV1 :=
  settleCommit (sampleAdmission n) .unknown >>=
    finishAdmission sampleIssuer (sampleProposal n) (sampleGrant n)

/-- The first commit fails, but its outcome is unknown. -/
theorem leads_unsettledAdmission (hok : AdmitsStore ok)
    (hsign : ∀ handle message s signature, ok (.sign handle message) s (.ok signature)) :
    letI := sampleScheme
    Leads ok (commitAdmission sampleIssuer (sampleProposal 0)) ⟨.ready, sampleIssuerDisk⟩
      (unsettledAdmission 0) ⟨.frozen (sampleTransactionId 0) false false,
        sampleIssuerDisk.prepare (sampleAdmission 0)⟩ := by
  let _ := sampleScheme
  refine (leads_sampleAdmission hok hsign (Or.inl rfl) (leads_recoverJournalPrologue hok rfl) rfl
    (by decide)).trans ?_
  have hcommits : (sampleIssuerDisk.prepare (sampleAdmission 0)).Commits (sampleAdmission 0)
      (some (.ok .unknown)) (sampleIssuerDisk.prepare (sampleAdmission 0)) := .failed _ (Or.inr trivial)
  exact ((leads_commitRecords_unknown hok hcommits).bind _).bind _

/-- An admission resolves the freeze that another one has left and is committed. -/
theorem resolving_admission_whole :
    letI := sampleScheme
    ∃ (s : Threads AdmissionProposal NodeCall NodeCall.Answer (Result AdmissionGrantV1) NodeStore),
      (((admissionSchedule sampleIssuer).within NodeCall.AsksOwn).runs
        ⟨.ready, sampleIssuerDisk⟩).Reachable s ∧
      s.threads = [⟨sampleProposal 0, (unsettledAdmission 0).run⟩,
        ⟨sampleProposal 1, .done (.ok (sampleGrant 1))⟩] ∧
      Admitted sampleIssuer (sampleProposal 1) (sampleGrant 1) s.state.disk.store := by
  let _ := sampleScheme
  have hok := admitsStore_asksOwn
  let first := sampleIssuerDisk.prepare (sampleAdmission 0)
  let second := first.prepare (sampleAdmission 1)
  let applied := second.applied (sampleAdmission 1)
  let cleanup := cleanupTransaction applied (.admission (sampleProposal 1).generation)
    (sampleTransactionId 1) (.ofDigits 2 2)
  let final := (applied.prepare cleanup).applied cleanup
  have hfirst := leads_unsettledAdmission hok fun _ _ _ _ => trivial
  have hsecond : Leads NodeCall.AsksOwn (commitAdmission sampleIssuer (sampleProposal 1))
      ⟨.frozen (sampleTransactionId 0) false false, first⟩ (pure (sampleGrant 1)) ⟨.ready, final⟩ := by
    have hreconciles : first.Reconciles (sampleTransactionId 0) (some (.ok .aborted)) := .aborted nofun
    refine (leads_sampleAdmission hok (fun _ _ _ _ => trivial) (Or.inr rfl)
      (leads_recoverJournalPrologue_frozen hok rfl hreconciles (Or.inr rfl)) rfl (by decide)).trans ?_
    have hcommits : second.Commits (sampleAdmission 1) (some (.ok .committed)) applied :=
      .applied _ List.not_mem_nil (accepts_sampleAdmission 1 (Or.inr rfl)) (Or.inl rfl)
    have hcommit : Leads NodeCall.AsksOwn (commitWithReconcile (sampleAdmission 1)) ⟨.ready, second⟩
        (pure .committed) ⟨.ready, applied⟩ :=
      (leads_commitRecords hok hcommits nofun).andThen (.refl _ _)
    have hlookup : applied.store.lookup (.pendingTransaction
        (.admission (sampleProposal 1).generation)) =
        some (.pendingTransaction (sampleTransactionId 1)) := rfl
    have hcleanup := leads_cleanupPendingExact hok _ "admission pending cleanup"
      (.ofDigits 2 2) hlookup (by decide)
      (fun _ h => List.mem_cons.mpr (Or.inl (List.mem_singleton.mp h))) rfl rfl
    exact hcommit.andThen (hcleanup.andThen (.refl _ _))
  have hs : (((admissionSchedule sampleIssuer).within NodeCall.AsksOwn).runs
      ⟨.ready, sampleIssuerDisk⟩).Reachable
      ⟨⟨.ready, final⟩, [⟨sampleProposal 0, (unsettledAdmission 0).run⟩,
        ⟨sampleProposal 1, .done (.ok (sampleGrant 1))⟩]⟩ := by
    refine ⟨_, rfl, .head (.start (sampleProposal 0) trivial) ?_⟩
    refine (Schedule.path_of_runs (S := (admissionSchedule sampleIssuer).within NodeCall.AsksOwn)
      hfirst [] [] (sampleProposal 0)).trans ?_
    refine .head (.start (sampleProposal 1) trivial) ?_
    exact Schedule.path_of_runs (S := (admissionSchedule sampleIssuer).within NodeCall.AsksOwn)
      hsecond [⟨sampleProposal 0, (unsettledAdmission 0).run⟩] [] (sampleProposal 1)
  exact ⟨_, hs, rfl, (admission_committed_whole sampleIssuer beforeAdmissions_sampleIssuer hs).2.2
    (sampleProposal 1) (sampleGrant 1) (List.mem_cons_of_mem _ List.mem_cons_self)⟩

/-- An admission whose commit failed with an unknown outcome is reported as committed, because the
    store is by then frozen on the transaction of another admission. -/
theorem grant_without_records :
    ∃ (s : Threads AdmissionProposal NodeCall NodeCall.Answer (Result AdmissionGrantV1) NodeStore)
      (proposal : AdmissionProposal) (grant : AdmissionGrantV1),
      NodeStore.BeforeAdmissions ⟨.ready, sampleIssuerDisk⟩ ∧
      ((@admissionSchedule sampleScheme sampleIssuer).runs ⟨.ready, sampleIssuerDisk⟩).Reachable s ∧
      ⟨proposal, .done (.ok grant)⟩ ∈ s.threads ∧
      s.state.disk.store.lookup (.credentialUse sampleIssuer.node proposal.generation) = none ∧
      s.state.disk.store.lookup (.admissionGrant proposal.admission) = none ∧
      s.state.disk.store.lookup (.identityBinding proposal.subject) = none := by
  let _ := sampleScheme
  have hok := admitsStore_anyAnswer
  have hmono : ∀ (call : NodeCall) (s : NodeStore) (answer : call.Answer) (t : NodeStore),
      AnyAnswer call s answer ∧ call.answers s answer t → call.answers s answer t :=
    fun _ _ _ _ h => h.2
  let first := sampleIssuerDisk.prepare (sampleAdmission 0)
  let second := first.prepare (sampleAdmission 1)
  let final := second.applied (sampleAdmission 1)
  let waiting := unsettledAdmission 0
  let other := unsettledAdmission 1
  have hfirst := leads_unsettledAdmission hok fun _ _ _ _ => trivial
  -- The other admission resolves the freeze, and its own commit is applied.
  have hsecond : Leads AnyAnswer (commitAdmission sampleIssuer (sampleProposal 1))
      ⟨.frozen (sampleTransactionId 0) false false, first⟩ other
      ⟨.frozen (sampleTransactionId 1) false false, final⟩ := by
    have hreconciles : first.Reconciles (sampleTransactionId 0) (some (.ok .aborted)) := .aborted nofun
    refine (leads_sampleAdmission hok (fun _ _ _ _ => trivial) (Or.inr rfl)
      (leads_recoverJournalPrologue_frozen hok rfl hreconciles (Or.inr rfl)) rfl (by decide)).trans ?_
    have hcommits : second.Commits (sampleAdmission 1) (some (.ok .unknown)) final :=
      .applied _ List.not_mem_nil (accepts_sampleAdmission 1 (Or.inr rfl)) (Or.inr trivial)
    exact ((leads_commitRecords_unknown hok hcommits).bind _).bind _
  -- The first one now gets the outcome of the other.
  have hthird : Leads AnyAnswer waiting ⟨.frozen (sampleTransactionId 1) false false, final⟩
      (pure (sampleGrant 0)) ⟨.ready, final⟩ := by
    have hreconciles : final.Reconciles (sampleTransactionId 1) (some (.ok .committed)) :=
      .committed (sampleAdmission 1) List.mem_cons_self rfl
    have hsettle : Leads AnyAnswer (settleCommit (sampleAdmission 0) .unknown)
        ⟨.frozen (sampleTransactionId 1) false false, final⟩ (pure .committed) ⟨.ready, final⟩ :=
      (leads_reconcileRecords hok trivial hreconciles (Or.inl rfl)).andThen (.refl _ _)
    refine hsettle.andThen ?_
    exact (leads_cleanupPendingExact_absent trivial rfl).andThen (.refl _ _)
  refine ⟨⟨⟨.ready, final⟩, [⟨sampleProposal 0, .done (.ok (sampleGrant 0))⟩,
    ⟨sampleProposal 1, other.run⟩]⟩, sampleProposal 0, sampleGrant 0, beforeAdmissions_sampleIssuer,
    ?_, List.mem_cons_self, rfl, rfl, rfl⟩
  refine ⟨_, rfl, .head (.start (sampleProposal 0) trivial) ?_⟩
  refine (Schedule.path_of_runs (hfirst.mono hmono) [] [] (sampleProposal 0)).trans ?_
  refine .head (.start (sampleProposal 1) trivial) ?_
  refine (Schedule.path_of_runs (hsecond.mono hmono) [⟨sampleProposal 0, waiting.run⟩] []
    (sampleProposal 1)).trans ?_
  exact Schedule.path_of_runs (hthird.mono hmono) [] [⟨sampleProposal 1, other.run⟩]
    (sampleProposal 0)

end Radiata
