import Radiata.Spec.RecordChange

/-!
# Runs of the receipt engine: the step rule

A snapshot that carries the current revision of the store holds the current
entries. So a transaction that passes the base-revision check was built from the
entries it is applied to, and the change it makes to every receipt is a
`RecordChange`.

## Key results

- `Engine.step_cases`: what one step of a run does
- `Engine.reachable_run`: runs that can be evaluated
-/

namespace Radiata

variable [DnsName]

/-- The snapshot is an earlier state of the store, and the current one if its
    revision is. -/
def ReferenceState.Covers (store : ReferenceState) (snapshot : StoreSnapshot) : Prop :=
  ∃ generation, snapshot.revision = .ofGeneration generation ∧
    generation.toNat ≤ store.generation.toNat ∧
    (generation = store.generation → snapshot.entries = store.entries)

theorem ReferenceState.covers_snapshot (store : ReferenceState) : store.Covers store.snapshot :=
  ⟨store.generation, rfl, Nat.le_refl _, fun _ => rfl⟩

/-- A commit moves the store past every snapshot. -/
theorem ReferenceState.Covers.commit {s t : ReferenceState} {snapshot : StoreSnapshot}
    {transaction : StoreTransaction} {outcome : Result CommitOutcome} (h : s.Covers snapshot)
    (hcommit : ConformingCommit s transaction outcome t) : t.Covers snapshot := by
  rcases hcommit.cases with rfl | ⟨generation, rfl, hgeneration, -, -⟩
  · exact h
  · obtain ⟨old, hrevision, hle, -⟩ := h
    have hlt : old.toNat < generation.toNat := by omega
    refine ⟨old, hrevision, hlt.le, ?_⟩
    rintro rfl
    exact absurd hlt (Nat.lt_irrefl _)

namespace Engine

/-- Snapshots and submissions are earlier states of the store, and a submission is
    what its call prepares. -/
structure Inv (s : Engine) : Prop where
  snapshots : ∀ snapshot ∈ s.snapshots, s.store.Covers snapshot
  covered : ∀ submission ∈ s.submissions, s.store.Covers submission.snapshot
  prepared : ∀ submission ∈ s.submissions,
    Prepared submission.call.cleanup submission.snapshot submission.prepared

theorem inv_of_fresh {s : Engine} (h : s.Fresh) : s.Inv := by
  obtain ⟨-, hsnapshots, hsubmissions, -⟩ := h
  exact ⟨by simp [hsnapshots], by simp [hsubmissions], by simp [hsubmissions]⟩

theorem inv_step {s t : Engine} (hinv : s.Inv) (h : Step s t) : t.Inv := by
  cases h with
  | takeSnapshot =>
    refine ⟨?_, hinv.covered, hinv.prepared⟩
    intro snapshot hmem
    rcases List.mem_cons.mp hmem with rfl | hmem
    · exact s.store.covers_snapshot
    · exact hinv.snapshots snapshot hmem
  | prepare hsnapshot hprepares =>
    refine ⟨hinv.snapshots, ?_, ?_⟩
    · intro submission hmem
      rcases List.mem_cons.mp hmem with rfl | hmem
      · exact hinv.snapshots _ hsnapshot
      · exact hinv.covered submission hmem
    · intro submission hmem
      rcases List.mem_cons.mp hmem with rfl | hmem
      · exact EngineCall.prepared_of_prepares hprepares
      · exact hinv.prepared submission hmem
  | commit hsubmission hcommit =>
    exact ⟨fun snapshot hmem => (hinv.snapshots snapshot hmem).commit hcommit,
      fun submission hmem => (hinv.covered submission hmem).commit hcommit, hinv.prepared⟩

theorem inv_of_reachable {s : Engine} (h : system.Reachable s) : s.Inv :=
  h.invariant (fun _ => inv_of_fresh) (fun _ _ _ => inv_step)

end Engine

/-! ## The step rule -/

/-- What an applied submission did: the operations in front of its marker have a
    profile over the entries it met, all conditions held, and the store changed by
    exactly these operations. -/
structure CommitRecord.AppliedAs (internal : StoreNamespace) (r : CommitRecord)
    (planned : List StoreOperation) : Prop where
  operations : r.transaction.operations = planned ++ [putMarker internal r.id]
  profile : ∀ t, Profile internal r.before.entries r.submission.call.cleanup r.id t planned
  nodup : (r.transaction.operations.map StoreOperation.identity).Nodup
  conditions : ∀ op ∈ r.transaction.operations,
    conditionMatches r.before.entries r.before.receipts op = true
  entries : r.after.entries = r.transaction.operations.foldl applyOperation r.before.entries
  receipts : ∃ receipt, r.after.receipts =
    (r.transaction.operations.foldl forgetOperation r.before.receipts).insert r.id receipt

theorem CommitRecord.AppliedAs.change {internal : StoreNamespace} {r : CommitRecord}
    {planned : List StoreOperation} (h : r.AppliedAs internal planned) (t : TransactionId) :
    RecordChange internal r.before.entries r.after.entries r.submission.call.cleanup r.id t := by
  have hnodup := h.nodup
  have hconditions := h.conditions
  rw [h.entries]
  rw [h.operations] at hnodup hconditions ⊢
  exact .of_profile (h.profile t) hnodup hconditions

namespace Engine

/-- A step keeps store and log, logs a commit that changed nothing, or logs an applied
    submission. -/
theorem step_cases {s t : Engine} (hinv : s.Inv) (h : Step s t) :
    (t.store = s.store ∧ t.log = s.log) ∨
    ∃ r : CommitRecord, t.log = r :: s.log ∧ r.before = s.store ∧ t.store = r.after ∧
      ConformingCommit r.before r.transaction r.outcome r.after ∧
      (∃ internal, internalNamespace = .ok internal) ∧
      ∀ internal, internalNamespace = .ok internal →
        (∃ planned, r.transaction.operations = planned ++ [putMarker internal r.id]) ∧
        (r.after = r.before ∨ r.Applied ∧ ∃ planned, r.AppliedAs internal planned) := by
  cases h with
  | takeSnapshot => exact .inl ⟨rfl, rfl⟩
  | prepare _ _ => exact .inl ⟨rfl, rfl⟩
  | @commit submission outcome after hsubmission hcommit =>
    have hprepared := hinv.prepared submission hsubmission
    refine .inr ⟨⟨submission, s.store, outcome, after⟩, rfl, rfl, rfl, hcommit,
      hprepared.namespaceTag, ?_⟩
    intro internal hns
    refine ⟨?_, ?_⟩
    · obtain ⟨planned, hops, -⟩ := hprepared.profile internal hns submission.snapshot.entries
        (fun _ => rfl)
      exact ⟨planned, hops⟩
    rcases hcommit.cases with hsame | ⟨generation, happly, hgeneration, -, haccepts⟩
    · exact .inl hsame
    · simp only [ReferenceState.accepts, Bool.and_eq_true, beq_iff_eq, List.all_eq_true] at haccepts
      obtain ⟨⟨-, hbase⟩, hconditions⟩ := haccepts
      -- the base revision is current, so the snapshot has the current entries
      have hentries : submission.prepared.transaction.baseRevision = submission.snapshot.revision →
          s.store.entries = submission.snapshot.entries := by
        intro hrevision
        obtain ⟨old, hold, -, hsame⟩ := hinv.covered submission hsubmission
        rw [hbase, hold] at hrevision
        exact (hsame (StoreRevision.ofGeneration_inj hrevision).symm).symm
      obtain ⟨planned, hops, hprofile⟩ := hprepared.profile internal hns s.store.entries hentries
      refine .inr ⟨?_, planned, hops, hprofile, hprepared.nodup, hconditions, ?_, ?_⟩
      · intro hsame
        have hgen := congrArg ReferenceState.generation (happly.symm.trans hsame)
        have : generation = s.store.generation := hgen
        rw [this] at hgeneration
        omega
      · rw [happly]
        rfl
      · rw [happly]
        exact ⟨_, rfl⟩

/-! ## Executable runs -/

/-- A call with a snapshot of its own, on a store that applies what it accepts. The
    digest of a prepared transaction needs no check. -/
def perform (s : Engine) (call : EngineCall) : Engine :=
  match call.prepares s.store.snapshot, checkedAdd s.store.generation 1 with
  | some prepared, some generation =>
    let submission : Submission := ⟨call, s.store.snapshot, prepared⟩
    let (outcome, after) := match s.store.receipts.get prepared.transaction.id with
      | some receipt =>
        if receipt.operationDigest = prepared.transaction.operationDigest then
          (.ok (.committed receipt), s.store)
        else (.ok .conflict, s.store)
      | none =>
        if prepared.transaction.baseRevision = .ofGeneration s.store.generation
            ∧ prepared.transaction.operations.all
              (conditionMatches s.store.entries s.store.receipts) then
          (.ok (.committed (ReferenceState.receiptAt prepared.transaction generation)),
            s.store.apply prepared.transaction generation)
        else (.ok .conflict, s.store)
    { store := after
      snapshots := s.store.snapshot :: s.snapshots
      submissions := submission :: s.submissions
      log := ⟨submission, s.store, outcome, after⟩ :: s.log }
  | _, _ => s

/-- The calls in order, from the empty store. -/
def run (calls : List EngineCall) : Engine := calls.foldl perform ⟨.fresh 0, [], [], []⟩

theorem reachable_perform {s : Engine} (h : system.Reachable s) (call : EngineCall) :
    system.Reachable (s.perform call) := by
  simp only [perform]
  split
  · rename_i prepared generation hprepares hgeneration
    have hsnapshot := h.step (.takeSnapshot (s := s))
    have hmem : s.store.snapshot ∈ s.store.snapshot :: s.snapshots := List.mem_cons_self ..
    refine (hsnapshot.step (.prepare hmem hprepares)).step (.commit (List.mem_cons_self ..) ?_)
    split
    · rename_i receipt hknown
      split
      · rename_i hdigest
        exact .replayed hknown hdigest
      · rename_i hdigest
        exact .repeated hknown hdigest
    · rename_i hnew
      split
      · rename_i haccepted
        refine .applied hnew ?_ hgeneration (.inl rfl)
        rw [ReferenceState.accepts, (EngineCall.prepared_of_prepares hprepares).digest,
          haccepted.1, haccepted.2]
        simp
      · exact .refused hnew
  · exact h

theorem reachable_run (calls : List EngineCall) : system.Reachable (run calls) := by
  refine List.foldlRecOn calls perform (motive := system.Reachable) ?_ ?_
  · exact .init ⟨⟨0, rfl⟩, rfl, rfl, rfl⟩
  · exact fun s hs call _ => reachable_perform hs call

end Engine

end Radiata
