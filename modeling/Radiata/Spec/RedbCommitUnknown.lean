import Radiata.Native.Redb
import Radiata.Spec.MetadataInvariant

/-!
# The outcome of an uncertain redb commit

A commit that fails inside `write.commit()` may or may not be durable. This file runs
`commit_blocking` under every schedule of faults and follows its answer into
`MetadataStore::commit`: the answer is never reported as unknown, and the store goes
back to ready with the outcome undecided.

## Key results

- `stage_not_commit`: only the last call of a commit is `write.commit()`
- `commit_error_unknown_iff`: an error after `write.commit()` is reported as unknown
  exactly when there is none
-/

namespace Radiata

/-! ## The calls before `write.commit()` -/

theorem RedbCall.attempt_not_commit {call : RedbCall} (h : call ≠ .commit)
    (mapError : call.Err → Error) : (call.attempt mapError).run.All (· ≠ .commit) :=
  Prog.All.bind (Prog.All.perform h) (fun _ => Prog.All.pure _)

/-- A part of a commit that makes no call. -/
theorem settled_not_commit {α : Type} (result : Result α) :
    (ExceptT.mk (pure result) : RedbM α).run.All (· ≠ .commit) := Prog.All.pure _

theorem readReceipt_not_commit (transaction : TransactionId) :
    (readReceipt transaction).run.All (· ≠ .commit) :=
  (RedbCall.attempt_not_commit (by simp) _).exceptT_bind (fun _ => settled_not_commit _)

section Stage

variable [DnsName]

theorem readEntry_not_commit (namespaceTag : StoreNamespace) (key : StoreKey) :
    (readEntry namespaceTag key).run.All (· ≠ .commit) :=
  (RedbCall.attempt_not_commit (by simp) _).exceptT_bind (fun _ => settled_not_commit (.ok _))

theorem conditionMatchesTable_not_commit (operation : StoreOperation) :
    (conditionMatchesTable operation).run.All (· ≠ .commit) := by
  cases operation with
  | check namespaceTag key expected | put namespaceTag key expected value
  | delete namespaceTag key expected =>
    exact (readEntry_not_commit _ _).exceptT_bind (fun _ => settled_not_commit (.ok _))
  | forgetReceipt forgotten expectedOperationDigest =>
    exact (readReceipt_not_commit _).exceptT_bind (fun _ => settled_not_commit (.ok _))

theorem checkConditions_not_commit (operations : List StoreOperation) :
    (checkConditions operations).run.All (· ≠ .commit) := by
  induction operations with
  | nil => exact settled_not_commit (.ok true)
  | cons operation operations ih =>
    refine (conditionMatchesTable_not_commit operation).exceptT_bind ?_
    intro holds
    -- the loop goes on after a match and ends otherwise
    cases holds with
    | true => exact ih
    | false => exact settled_not_commit (.ok false)

theorem applyToTables_not_commit (operation : StoreOperation) :
    (applyToTables operation).run.All (· ≠ .commit) := by
  cases operation with
  | check namespaceTag key expected => exact settled_not_commit (.ok ())
  | put namespaceTag key expected value => exact RedbCall.attempt_not_commit (by simp) _
  | delete namespaceTag key expected => exact RedbCall.attempt_not_commit (by simp) _
  | forgetReceipt forgotten expectedOperationDigest =>
    exact RedbCall.attempt_not_commit (by simp) _

theorem applyAllToTables_not_commit (operations : List StoreOperation) :
    (applyAllToTables operations).run.All (· ≠ .commit) := by
  induction operations with
  | nil => exact settled_not_commit (.ok ())
  | cons operation operations ih =>
    exact (applyToTables_not_commit operation).exceptT_bind (fun _ => ih)

theorem stageOperations_not_commit (transaction : StoreTransaction) (generation : UInt64) :
    (stageOperations transaction generation).run.All (· ≠ .commit) := by
  unfold stageOperations
  cases checkedAdd generation 1 with
  | none => exact settled_not_commit (.error _)
  | some nextGeneration =>
    refine (applyAllToTables_not_commit _).exceptT_bind (fun _ => ?_)
    refine (RedbCall.attempt_not_commit (by simp) _).exceptT_bind (fun _ => ?_)
    refine (settled_not_commit _).exceptT_bind (fun _ => ?_)
    exact (RedbCall.attempt_not_commit (by simp) _).exceptT_bind
      (fun _ => settled_not_commit (.ok _))

theorem stageFresh_not_commit (transaction : StoreTransaction) :
    (stageFresh transaction).run.All (· ≠ .commit) := by
  unfold stageFresh
  split
  · exact settled_not_commit (.ok _)
  · refine Prog.All.exceptT_bind (p := currentGeneration .storageCommit) ?_ ?_
    · exact (RedbCall.attempt_not_commit (by simp) _).exceptT_bind (fun _ => settled_not_commit _)
    · intro generation
      split
      · exact settled_not_commit (.ok _)
      · refine (checkConditions_not_commit _).exceptT_bind ?_
        intro holds
        cases holds with
        | true =>
          exact (stageOperations_not_commit _ _).exceptT_bind (fun _ => settled_not_commit (.ok _))
        | false => exact settled_not_commit (.ok _)

/-- No call before the last one is `write.commit()`. -/
theorem stage_not_commit (transaction : StoreTransaction) :
    (stage transaction).run.All (· ≠ .commit) := by
  unfold stage
  -- the write transaction, its durability and the three tables
  iterate 5 refine (RedbCall.attempt_not_commit (by simp) _).exceptT_bind (fun _ => ?_)
  refine (readReceipt_not_commit _).exceptT_bind ?_
  intro receipt
  cases receipt with
  | some existing => exact settled_not_commit (.ok _)
  | none => exact stageFresh_not_commit transaction

end Stage

/-! ## Runs under faults -/

/-- `commit_blocking` on a database under faults. -/
def RedbDatabase.commitUnder [DnsName] (database : RedbDatabase) (faults : RedbFaults)
    (transaction : StoreTransaction) : Result CommitOutcome × RedbWorld :=
  Prog.run (RedbWorld.handle faults) (commitBlocking transaction).run ⟨database, 0, false⟩

/-- A call that is not `write.commit()` leaves the flag. -/
theorem RedbWorld.handle_commitInvoked {faults : RedbFaults} {call : RedbCall} (h : call ≠ .commit)
    (world : RedbWorld) : (handle faults call world).2.commitInvoked = world.commitInvoked := by
  cases call with
  | commit => exact absurd rfl h
  | _ => rfl

/-- No error of `write.commit()` is reported as unknown. -/
theorem mapCommitError_kind (error : CommitError) (context : ProviderErrorContext) :
    (mapCommitError error context).kind ≠ .commitUnknown := by
  cases error with
  | other => simp [mapCommitError, ProviderErrorKind.intoErrorKind]
  | storage storage =>
    cases storage with
    | io kind => cases kind <;> simp [mapCommitError, mapStorageError,
        ProviderErrorKind.intoErrorKind]
    | _ => simp [mapCommitError, mapStorageError, ProviderErrorKind.intoErrorKind]

/-! ## The metadata store -/

/-- A commit whose caller gets this error leaves the metadata store frozen on the
    transaction, and the store then accepts no other commit. -/
def LeavesFrozen (e : Error) : Prop :=
  ∀ (ι : Type) [DecidableEq ι] (s t : Metadata ι) (i : ι) (pending : PendingCommit) (call : Nat),
    (Metadata.system ι).Reachable s → s.callers i = .committed pending call (.error e) →
      Metadata.Step i s t →
        Metadata.FrozenOn pending.identity t ∧
          ∀ other, beginCommit other t.state = .error (.notReady "metadata storage commit")

/-! ## The answer of a commit -/

section Commit

variable [DnsName]

theorem commitInvoked_stage (faults : RedbFaults) (transaction : StoreTransaction)
    (world : RedbWorld) :
    (Prog.run (RedbWorld.handle faults) (stage transaction).run world).2.commitInvoked
      = world.commitInvoked := by
  refine (stage_not_commit transaction).run_invariant
    (I := fun w : RedbWorld => w.commitInvoked = world.commitInvoked) ?_ rfl
  intro call w hcall hw
  rw [RedbWorld.handle_commitInvoked hcall, hw]

/-- A commit that invoked `write.commit()` had staged a receipt, and answers with it or
    with the mapped error of the call. -/
theorem commitUnder_of_commitInvoked {database : RedbDatabase} {faults : RedbFaults}
    {transaction : StoreTransaction}
    (h : (database.commitUnder faults transaction).2.commitInvoked = true) :
    ∃ receipt, (database.commitUnder faults transaction).1 = match faults.commit with
      | none => .ok (.committed receipt)
      | some fault => .error (mapCommitError fault.error .storageCommit) := by
  have hstage := commitInvoked_stage faults transaction ⟨database, 0, false⟩
  simp only [RedbDatabase.commitUnder, commitBlocking, Prog.run_exceptT_bind] at h ⊢
  cases hrun : Prog.run (RedbWorld.handle faults) (stage transaction).run
      ⟨database, 0, false⟩ with
  | mk result world =>
    rw [hrun] at h hstage
    cases result with
    | error e => exact absurd (hstage.symm.trans h) (by simp)
    | ok staged =>
      cases staged with
      | settled outcome => exact absurd (hstage.symm.trans h) (by simp)
      | receipt receipt =>
        refine ⟨receipt, ?_⟩
        cases hfault : faults.commit with
        | none | some fault =>
          simp [Prog.run_exceptT_bind, RedbCall.attempt, RedbWorld.handle, RedbWorld.handleCommit,
            hfault, Except.mapError]

/-- Under every schedule of faults in which `write.commit()` is invoked, every error is
    reported as unknown and freezes the metadata store exactly when `write.commit()` does
    not fail; when it fails, the store goes back to ready on another error, durable
    transaction or not. -/
theorem commit_error_unknown_iff (database : RedbDatabase) (faults : RedbFaults)
    (transaction : StoreTransaction)
    (hinvoked : (database.commitUnder faults transaction).2.commitInvoked = true) :
    ((∀ e, (database.commitUnder faults transaction).1 = .error e →
        e.kind = .commitUnknown ∧ LeavesFrozen e) ↔ faults.commit = none) ∧
    ∀ fault, faults.commit = some fault →
      ∃ e, (database.commitUnder faults transaction).1 = .error e ∧ e.kind ≠ .commitUnknown ∧
        ∀ pending, commitDisposition pending (.error e) = .ready (.error e) := by
  obtain ⟨receipt, hanswer⟩ := commitUnder_of_commitInvoked hinvoked
  refine ⟨?_, ?_⟩
  · constructor
    · intro hunknown
      cases hfault : faults.commit with
      | none => rfl
      | some fault =>
        rw [hfault] at hanswer
        exact absurd (hunknown _ hanswer).1 (mapCommitError_kind fault.error .storageCommit)
    · intro hnone e he
      rw [hnone] at hanswer
      rw [hanswer] at he
      cases he
  · intro fault hfault
    rw [hfault] at hanswer
    refine ⟨_, hanswer, mapCommitError_kind fault.error .storageCommit, ?_⟩
    intro pending
    rw [commitDisposition, if_neg (mapCommitError_kind fault.error .storageCommit)]

end Commit

/-! ## A failing commit -/

/-- A tag to build transactions with. -/
def sampleTag : @StoreNamespace .hostNames :=
  letI := DnsName.hostNames
  ⟨Bytes.utf8 "radiata.test/metadata/entry", 12, 21, Bytes.utf8 "radiata.test/metadata/entry",
    by decide⟩

/-- Puts one entry into a new store. -/
def samplePut : @StoreTransaction .hostNames :=
  letI := DnsName.hostNames
  ⟨default, digestStoreOperations (.ofGeneration 0) [.put sampleTag ⟨[1]⟩ .absent ⟨[2]⟩],
    .ofGeneration 0, [.put sampleTag ⟨[1]⟩ .absent ⟨[2]⟩]⟩

def RedbDatabase.fresh : RedbDatabase := ⟨.fresh, .fresh⟩

/-- The disk reports an I/O error after the transaction has become durable. -/
def RedbFaults.durableIoError : RedbFaults where
  calls := fun _ _ => none
  commit := some ⟨.storage (.io .other), true⟩

theorem commitInvoked_samplePut :
    letI := DnsName.hostNames
    (RedbDatabase.fresh.commitUnder .durableIoError samplePut).2.commitInvoked = true := by
  decide +kernel

theorem commit_error_unknown_iff_samplePut :
    letI := DnsName.hostNames
    (RedbDatabase.fresh.commitUnder .durableIoError samplePut).2.commitInvoked = true ∧
      ¬ ∀ e, (RedbDatabase.fresh.commitUnder .durableIoError samplePut).1 = .error e →
        e.kind = .commitUnknown ∧ LeavesFrozen e := by
  let _ := DnsName.hostNames
  refine ⟨commitInvoked_samplePut, ?_⟩
  rw [(commit_error_unknown_iff .fresh .durableIoError samplePut commitInvoked_samplePut).1]
  exact Option.some_ne_none _

/-- The transaction is durable, its commit answers with an I/O error, and the metadata
    store takes that for a proven abort. -/
theorem durable_commit_not_unknown :
    letI := DnsName.hostNames
    (RedbDatabase.fresh.commitUnder .durableIoError samplePut).2.commitInvoked = true ∧
      (RedbDatabase.fresh.commitUnder .durableIoError samplePut).1
        = .error (.provider .io .storageCommit) ∧
      (Error.provider .io .storageCommit).kind ≠ .commitUnknown ∧
      (∀ pending, commitDisposition pending (.error (.provider .io .storageCommit))
        = .ready (.error (.provider .io .storageCommit))) ∧
      (RedbDatabase.fresh.commitUnder .durableIoError samplePut).2.database.reconcile samplePut.id
          samplePut.operationDigest
        = .ok (.committed ⟨samplePut.id, samplePut.operationDigest, .ofGeneration 1⟩) := by
  let _ := DnsName.hostNames
  refine ⟨commitInvoked_samplePut, ?_, by decide, ?_, by decide +kernel⟩
  · obtain ⟨receipt, hanswer⟩ := commitUnder_of_commitInvoked commitInvoked_samplePut
    exact hanswer
  · intro pending
    rfl

end Radiata
