import Radiata.Native.Reference
import Radiata.Spec.ReceiptAudit

/-!
# Sessions of a storage adapter

An `Adapter` is the storage interface over some state. A session is any finite
sequence of commits, reconciliations, snapshots, and lookups and scans in any of the
snapshots taken so far. Two adapters whose states are related call by call answer
every session alike.

## Key results

- `Adapter.Simulation.run_eq`: related adapters give the same answers
- `referenceAdapter_scansExactly`: what a scan of the reference store yields
-/

namespace Radiata

/-- The entries a scan yields when `next` is called until it answers `none`, at most
    `fuel` times. -/
def drain {σ ε : Type} (next : σ → Option ε × σ) : (fuel : Nat) → σ → List ε
  | 0, _ => []
  | fuel + 1, scan =>
    match next scan with
    | (none, _) => []
    | (some entry, rest) => entry :: drain next fuel rest

variable [DnsName]

/-- The storage interface over a state. -/
structure Adapter where
  State : Type
  Snapshot : Type
  commit : State → StoreTransaction → Result CommitOutcome × State
  reconcile : State → TransactionId → Digest → Result ReconcileOutcome
  snapshot : State → Result Snapshot
  revision : Snapshot → StoreRevision
  get : Snapshot → StoreNamespace → StoreKey → Option StoreValue
  scan : Snapshot → StoreNamespace → Bytes → List StoreEntry

/-- A call of a session. Lookups and scans name one of the snapshots taken before. -/
inductive StoreCall where
  | commit (transaction : StoreTransaction)
  | reconcile (transaction : TransactionId) (digest : Digest)
  | snapshot
  | get (index : Nat) (namespaceTag : StoreNamespace) (key : StoreKey)
  | scan (index : Nat) (namespaceTag : StoreNamespace) (keyPrefix : Bytes)

/-- The answer to a call. A lookup or scan in a snapshot that was not taken has none. -/
inductive StoreAnswer where
  | commit (result : Result CommitOutcome)
  | reconcile (result : Result ReconcileOutcome)
  | snapshot (result : Result StoreRevision)
  | get (value : Option (Option StoreValue))
  | scan (entries : Option (List StoreEntry))

namespace Adapter

/-- A state and the snapshots taken so far, newest first. -/
structure Session (A : Adapter) where
  state : A.State
  snapshots : List A.Snapshot

/-- A call and its answer. -/
def step (A : Adapter) (session : A.Session) : StoreCall → StoreAnswer × A.Session
  | .commit transaction =>
    (.commit (A.commit session.state transaction).1,
      { session with state := (A.commit session.state transaction).2 })
  | .reconcile transaction digest =>
    (.reconcile (A.reconcile session.state transaction digest), session)
  | .snapshot =>
    match A.snapshot session.state with
    | .error e => (.snapshot (.error e), session)
    | .ok snapshot =>
      (.snapshot (.ok (A.revision snapshot)),
        { session with snapshots := snapshot :: session.snapshots })
  | .get index namespaceTag key =>
    (.get (session.snapshots[index]?.map (A.get · namespaceTag key)), session)
  | .scan index namespaceTag keyPrefix =>
    (.scan (session.snapshots[index]?.map (A.scan · namespaceTag keyPrefix)), session)

/-- The answers to a sequence of calls, and the session after it. -/
def run (A : Adapter) : A.Session → List StoreCall → List StoreAnswer × A.Session
  | session, [] => ([], session)
  | session, call :: calls =>
    ((A.step session call).1 :: (A.run (A.step session call).2 calls).1,
      (A.run (A.step session call).2 calls).2)

/-- The session of an adapter in `state` with no snapshot taken. -/
def start (A : Adapter) (state : A.State) : A.Session := ⟨state, []⟩

/-- Every scan of the snapshot yields exactly the entries of its namespace whose key
    starts with the prefix, each once, in unsigned byte order of the keys. -/
def ScansExactly (A : Adapter) (snapshot : A.Snapshot) : Prop :=
  ∀ namespaceTag keyPrefix,
    (∀ entry, entry ∈ A.scan snapshot namespaceTag keyPrefix ↔
      entry.namespaceTag = namespaceTag ∧ keyPrefix <+: entry.key.asBytes ∧
        A.get snapshot namespaceTag entry.key = some entry.value) ∧
    (A.scan snapshot namespaceTag keyPrefix).Pairwise (fun a b => a.key.asBytes < b.key.asBytes)

variable {result : Result CommitOutcome}

/-- Only a commit answers as one. -/
theorem step_eq_commit {A : Adapter} {session : A.Session} {call : StoreCall}
    (h : (A.step session call).1 = .commit result) :
    ∃ transaction, call = .commit transaction ∧
      result = (A.commit session.state transaction).1 := by
  cases call with
  | commit transaction =>
    cases h
    exact ⟨transaction, rfl, rfl⟩
  | reconcile transaction digest => cases h
  | snapshot =>
    simp only [step] at h
    split at h <;> cases h
  | get index namespaceTag key => cases h
  | scan index namespaceTag keyPrefix => cases h

theorem exists_of_mem_run {A : Adapter} {session : A.Session} {calls : List StoreCall}
    (h : .commit result ∈ (A.run session calls).1) :
    ∃ transaction, .commit transaction ∈ calls := by
  induction calls generalizing session with
  | nil => cases h
  | cons call calls ih =>
    rcases List.mem_cons.mp h with h | h
    · obtain ⟨transaction, rfl, -⟩ := step_eq_commit h.symm
      exact ⟨transaction, List.mem_cons_self ..⟩
    · obtain ⟨transaction, hmem⟩ := ih h
      exact ⟨transaction, List.mem_cons_of_mem _ hmem⟩

/-! ## Simulation -/

/-- The snapshots show the same revision, lookups and scans. -/
structure SnapshotsAgree (A B : Adapter) (a : A.Snapshot) (b : B.Snapshot) : Prop where
  revision : A.revision a = B.revision b
  get : ∀ namespaceTag key, A.get a namespaceTag key = B.get b namespaceTag key
  scan : ∀ namespaceTag keyPrefix, A.scan a namespaceTag keyPrefix = B.scan b namespaceTag keyPrefix

/-- `R` relates the states of two adapters through every call, as long as the first
    adapter's commits answer within `P`. -/
structure Simulation (A B : Adapter) (P : Result CommitOutcome → Prop)
    (R : A.State → B.State → Prop) : Prop where
  commit : ∀ {a b} transaction, R a b → P (A.commit a transaction).1 →
    (A.commit a transaction).1 = (B.commit b transaction).1 ∧
      R (A.commit a transaction).2 (B.commit b transaction).2
  reconcile : ∀ {a b} transaction digest, R a b →
    A.reconcile a transaction digest = B.reconcile b transaction digest
  snapshot : ∀ {a b}, R a b → ∃ x y, A.snapshot a = .ok x ∧ B.snapshot b = .ok y ∧
    SnapshotsAgree A B x y

/-- Every commit of the session answers within `P`. -/
def Within (P : Result CommitOutcome → Prop) (answers : List StoreAnswer) : Prop :=
  ∀ result, .commit result ∈ answers → P result

variable {A B : Adapter} {P : Result CommitOutcome → Prop} {R : A.State → B.State → Prop}

/-- One call of related sessions. -/
theorem Simulation.step_eq (sim : Simulation A B P R) {a : A.Session} {b : B.Session}
    (hstate : R a.state b.state)
    (hsnapshots : List.Forall₂ (SnapshotsAgree A B) a.snapshots b.snapshots) (call : StoreCall)
    (hP : ∀ result, (A.step a call).1 = .commit result → P result) :
    (A.step a call).1 = (B.step b call).1 ∧
      R (A.step a call).2.state (B.step b call).2.state ∧
      List.Forall₂ (SnapshotsAgree A B) (A.step a call).2.snapshots (B.step b call).2.snapshots := by
  cases call with
  | commit transaction =>
    obtain ⟨hanswer, hnext⟩ := sim.commit transaction hstate (hP _ rfl)
    exact ⟨congrArg StoreAnswer.commit hanswer, hnext, hsnapshots⟩
  | reconcile transaction digest =>
    exact ⟨congrArg StoreAnswer.reconcile (sim.reconcile transaction digest hstate), hstate,
      hsnapshots⟩
  | snapshot =>
    obtain ⟨x, y, hx, hy, hagree⟩ := sim.snapshot hstate
    simp only [step, hx, hy, hagree.revision]
    exact ⟨trivial, hstate, .cons hagree hsnapshots⟩
  | get index namespaceTag key =>
    exact ⟨congrArg StoreAnswer.get
      (hsnapshots.getElem?_map_eq (fun _ _ h => h.get namespaceTag key) index), hstate, hsnapshots⟩
  | scan index namespaceTag keyPrefix =>
    exact ⟨congrArg StoreAnswer.scan
      (hsnapshots.getElem?_map_eq (fun _ _ h => h.scan namespaceTag keyPrefix) index), hstate,
      hsnapshots⟩

/-- Related adapters answer every session alike. -/
theorem Simulation.run_eq (sim : Simulation A B P R) {a : A.Session} {b : B.Session}
    (hstate : R a.state b.state)
    (hsnapshots : List.Forall₂ (SnapshotsAgree A B) a.snapshots b.snapshots)
    (calls : List StoreCall) (hP : Within P (A.run a calls).1) :
    (A.run a calls).1 = (B.run b calls).1 ∧
      List.Forall₂ (SnapshotsAgree A B) (A.run a calls).2.snapshots (B.run b calls).2.snapshots := by
  induction calls generalizing a b with
  | nil => exact ⟨rfl, hsnapshots⟩
  | cons call calls ih =>
    obtain ⟨hanswer, hnext, hkept⟩ := sim.step_eq hstate hsnapshots call
      (fun result h => hP result (h ▸ List.mem_cons_self ..))
    obtain ⟨hanswers, hrest⟩ := ih hnext hkept
      (fun result h => hP result (List.mem_cons_of_mem _ h))
    exact ⟨by rw [run, run, hanswer, hanswers], hrest⟩

theorem SnapshotsAgree.scansExactly {a : A.Snapshot} {b : B.Snapshot}
    (h : SnapshotsAgree A B a b) (hb : B.ScansExactly b) : A.ScansExactly a := by
  intro namespaceTag keyPrefix
  rw [h.scan]
  simp only [h.get]
  exact hb namespaceTag keyPrefix

end Adapter

/-! ## The reference store -/

/-- The reference store as an adapter. -/
def referenceAdapter : Adapter where
  State := ReferenceState
  Snapshot := StoreSnapshot
  commit := ReferenceState.commit
  reconcile := fun state transaction digest => .ok (state.reconcile transaction digest)
  snapshot := fun state => .ok state.snapshot
  revision := StoreSnapshot.revision
  get := StoreSnapshot.get
  scan := StoreSnapshot.scan

/-- A scan goes through the entries in ascending order. -/
theorem pairwise_scan (snapshot : StoreSnapshot) (namespaceTag : StoreNamespace)
    (keyPrefix : Bytes) :
    (snapshot.scan namespaceTag keyPrefix).Pairwise (fun a b => a.key.asBytes < b.key.asBytes) := by
  unfold StoreSnapshot.scan
  rw [List.pairwise_filterMap]
  refine snapshot.entries.sorted.imp ?_
  intro a b hlt x hx y hy
  -- both entries are of the one namespace, so their keys decide
  simp only [Option.ite_none_right_eq_some, Option.some.injEq] at hx hy
  obtain ⟨⟨hnx, -⟩, rfl⟩ := hx
  obtain ⟨⟨hny, -⟩, rfl⟩ := hy
  rcases EntryKey.lt_iff.mp hlt with hns | ⟨-, hkey⟩
  · rw [hnx, hny] at hns
    exact absurd hns (lt_irrefl _)
  · exact hkey

theorem referenceAdapter_scansExactly (snapshot : StoreSnapshot) :
    referenceAdapter.ScansExactly snapshot := by
  intro namespaceTag keyPrefix
  refine ⟨?_, pairwise_scan snapshot namespaceTag keyPrefix⟩
  intro entry
  show entry ∈ snapshot.scan namespaceTag keyPrefix ↔
    entry.namespaceTag = namespaceTag ∧ keyPrefix <+: entry.key.asBytes ∧
      snapshot.get namespaceTag entry.key = some entry.value
  rw [mem_scan]
  constructor
  · rintro ⟨hget, rfl, hpre⟩
    exact ⟨rfl, hpre, hget⟩
  · rintro ⟨rfl, hpre, hget⟩
    exact ⟨hget, rfl, hpre⟩

/-! ## Commits of the reference store -/

/-- The commit of a transaction without a receipt. -/
theorem ReferenceState.commit_of_none {state : ReferenceState}
    {transaction : StoreTransaction} (h : state.receipts.get transaction.id = none) :
    state.commit transaction = if state.accepts transaction then
        match checkedAdd state.generation 1 with
        | none => (.error (.provider .resourceExhausted .storageCommit), state)
        | some next => (.ok (.committed (receiptAt transaction next)), state.apply transaction next)
      else (.ok .conflict, state) := by
  simp only [commit, h, accepts]
  by_cases hdigest : transaction.operationDigest = transaction.computedOperationDigest
  · by_cases hrevision : transaction.baseRevision = .ofGeneration state.generation
    · by_cases hall : transaction.operations.all (conditionMatches state.entries state.receipts)
      · cases checkedAdd state.generation 1 <;> simp [hdigest, hrevision, hall]
      · simp [hdigest, hrevision, hall]
    · simp [hdigest, hrevision]
  · simp [hdigest]

/-- Receipts as the adapters make them: filed under their transaction, with the revision
    of a generation. -/
def Receipts.Stamped (receipts : Receipts) : Prop :=
  ∀ id receipt, receipts.get id = some receipt →
    receipt.transaction = id ∧ ∃ generation, receipt.committedRevision = .ofGeneration generation

variable {receipts : Receipts}

omit [DnsName] in
theorem Receipts.Stamped.erase (h : receipts.Stamped) (id : TransactionId) :
    Receipts.Stamped (receipts.erase id) := by
  intro id' receipt hget
  rw [SortedMap.get_erase] at hget
  split at hget
  · cases hget
  · exact h id' receipt hget

theorem Receipts.Stamped.insert (h : receipts.Stamped) (transaction : StoreTransaction)
    (generation : UInt64) :
    Receipts.Stamped (receipts.insert transaction.id (ReferenceState.receiptAt transaction generation)) := by
  intro id receipt hget
  rw [SortedMap.get_insert] at hget
  split at hget
  · rename_i hid
    cases hget
    exact ⟨hid.symm, generation, rfl⟩
  · exact h id receipt hget

theorem Receipts.Stamped.foldl_forget (h : receipts.Stamped) (operations : List StoreOperation) :
    Receipts.Stamped (operations.foldl forgetOperation receipts) := by
  induction operations generalizing receipts with
  | nil => exact h
  | cons operation operations ih =>
    refine ih ?_
    cases operation with
    | forgetReceipt transaction expectedOperationDigest =>
      rw [forgetOperation]
      split
      · exact h.erase transaction
      · exact h
    | _ => exact h

/-- Commits file stamped receipts. -/
theorem ReferenceState.commit_stamped {state : ReferenceState} (h : state.receipts.Stamped)
    (transaction : StoreTransaction) : (state.commit transaction).2.receipts.Stamped := by
  cases hreceipt : state.receipts.get transaction.id with
  | some existing =>
    have hsame : (state.commit transaction).2 = state := by
      simp only [commit, hreceipt]
      split <;> rfl
    rw [hsame]
    exact h
  | none =>
    rw [commit_of_none hreceipt]
    split
    · cases checkedAdd state.generation 1 with
      | none => exact h
      | some next => exact (h.foldl_forget transaction.operations).insert transaction next
    · exact h

end Radiata
