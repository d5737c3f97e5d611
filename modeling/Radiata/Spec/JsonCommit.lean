import Radiata.Spec.JsonFiles
import Radiata.Spec.StoreSession

/-!
# Commits of the JSON store

A commit of the JSON store either settles its outcome as the reference store does, or
refuses for a limit, or plans a document for the state the reference store would reach.
Without faults the plan is carried out.

## Key results

- `prepareCommit_cases`: what a commit decides before it touches the directory
- `run_commitInner`: a commit without faults, as the reference store sees it
-/

namespace Radiata

/-! ## Limits -/

/-- The refusals of a commit that meets a limit. -/
def Exhausted {α : Type} (result : Result α) : Prop :=
  ∃ e, result = .error e ∧ e.kind = .resourceExhausted

theorem JsonStorage.addBytes_cases (storage : JsonStorage) (totalBytes : UInt64)
    (documentBytes : Bytes) : (∃ total, storage.addBytes totalBytes documentBytes = .ok total) ∨
      Exhausted (storage.addBytes totalBytes documentBytes) := by
  unfold addBytes
  split
  · exact .inr ⟨_, rfl, rfl⟩
  · split
    · exact .inr ⟨_, rfl, rfl⟩
    · split
      · exact .inr ⟨_, rfl, rfl⟩
      · exact .inl ⟨_, rfl⟩

theorem JsonStorage.nextGeneration_cases [DnsName] (storage : JsonStorage) (head : Head) :
    (∃ next, storage.nextGeneration head = .ok next ∧ checkedAdd head.generation 1 = some next) ∨
      Exhausted (storage.nextGeneration head) := by
  unfold nextGeneration
  split
  · exact .inr ⟨_, rfl, rfl⟩
  · rename_i next hnext
    split
    · exact .inr ⟨_, rfl, rfl⟩
    · exact .inl ⟨next, rfl, hnext⟩

theorem GenerationDocument.build_cases [SerdeJson] (input : GenerationInput) :
    (∃ bytes, build input = .ok bytes) ∨ Exhausted (build input) := by
  unfold build Radiata.bodyLength
  split
  · exact .inl ⟨_, rfl⟩
  · exact .inr ⟨_, rfl, rfl⟩

/-! ## Plans -/

section Plan

variable [DnsName]

/-- The head as a state of the reference store. -/
def Head.reference (head : Head) : ReferenceState := ⟨head.generation, head.entries, head.receipts⟩

/-- The state of the apply loop after the operations of a transaction. -/
def Head.applied (head : Head) (transaction : StoreTransaction) : Applied :=
  transaction.operations.foldl Applied.apply ⟨head.entries, head.receipts, []⟩

/-- The apply loop works on the entries and the receipts as the reference store does. -/
theorem foldl_applied (operations : List StoreOperation) (applied : Applied) :
    (operations.foldl Applied.apply applied).entries
        = operations.foldl applyOperation applied.entries ∧
      (operations.foldl Applied.apply applied).receipts
        = operations.foldl forgetOperation applied.receipts := by
  induction operations generalizing applied with
  | nil => exact ⟨rfl, rfl⟩
  | cons operation operations ih =>
    have hentries : (applied.apply operation).entries
        = applyOperation applied.entries operation := by
      cases operation with
      | forgetReceipt target digest =>
        simp only [Applied.apply, applyOperation]
        split <;> rfl
      | _ => rfl
    have hreceipts : (applied.apply operation).receipts
        = forgetOperation applied.receipts operation := by
      cases operation with
      | forgetReceipt target digest =>
        simp only [Applied.apply, forgetOperation]
        split <;> rfl
      | _ => rfl
    rw [List.foldl_cons, List.foldl_cons, List.foldl_cons, ← hentries, ← hreceipts]
    exact ih (applied.apply operation)

/-- The state a transaction leads to, from the apply loop. -/
theorem Head.applied_eq (head : Head) (transaction : StoreTransaction) (next : UInt64) :
    (⟨next, (head.applied transaction).entries, (head.applied transaction).receipts.insert
        transaction.id (ReferenceState.receiptAt transaction next)⟩ : ReferenceState)
      = head.reference.apply transaction next := by
  obtain ⟨hentries, hreceipts⟩ :=
    foldl_applied transaction.operations ⟨head.entries, head.receipts, []⟩
  rw [Head.applied, hentries, hreceipts]
  rfl

variable [SerdeJson]

/-- The plan of an accepted transaction: the next state of the reference store, with the
    document that holds it. -/
structure Planned (storage : JsonStorage) (head : Head) (transaction : StoreTransaction)
    (plan : CommitPlan) : Prop where
  fresh : head.receipts.get transaction.id = none
  accepts : head.reference.accepts transaction = true
  next : checkedAdd head.generation 1 = some plan.head.generation
  state : plan.head.reference = head.reference.apply transaction plan.head.generation
  storeUuid : plan.head.storeUuid = head.storeUuid
  receipt : plan.receipt = ReferenceState.receiptAt transaction plan.head.generation
  document : GenerationDocument.build (generationInput head transaction plan.head.generation
    (head.applied transaction) plan.receipt) = .ok plan.documentBytes
  digest : plan.head.digest = GenerationDocument.digest plan.documentBytes
  totalBytes : storage.addBytes head.totalBytes plan.documentBytes = .ok plan.head.totalBytes
  tempName : plan.tempName = Radiata.tempName plan.head.generation transaction.id
  finalName : plan.finalName = Radiata.finalName plan.head.generation transaction.id

/-- The plan of an accepted transaction, unless a limit is met. -/
theorem JsonStorage.planGeneration_cases {storage : JsonStorage} {head : Head}
    {transaction : StoreTransaction} {next : UInt64}
    (hfresh : head.receipts.get transaction.id = none)
    (haccepts : head.reference.accepts transaction = true)
    (hnext : checkedAdd head.generation 1 = some next) :
    (∃ plan, storage.planGeneration head transaction next = .ok plan ∧
        Planned storage head transaction plan) ∨
      Exhausted (storage.planGeneration head transaction next) := by
  unfold planGeneration
  rw [StoreRevision.new_u64ToBEBytes]
  simp only [Except.mapError, Result.ok_bind]
  have hbuild := GenerationDocument.build_cases (generationInput head transaction next
    (head.applied transaction) (ReferenceState.receiptAt transaction next))
  rcases hbuild with ⟨bytes, hbytes⟩ | ⟨e, he, hkind⟩
  · have hdocument := hbytes
    unfold Head.applied ReferenceState.receiptAt at hbytes
    rw [hbytes, Result.ok_bind]
    rcases storage.addBytes_cases head.totalBytes bytes with ⟨total, htotal⟩ | ⟨e, he, hkind⟩
    · rw [htotal, Result.ok_bind]
      refine .inl ⟨_, rfl, ?_⟩
      exact {
        fresh := hfresh
        accepts := haccepts
        next := hnext
        state := head.applied_eq transaction next
        storeUuid := rfl
        receipt := rfl
        document := hdocument
        digest := rfl
        totalBytes := htotal
        tempName := rfl
        finalName := rfl }
    · rw [he]
      exact .inr ⟨e, rfl, hkind⟩
  · unfold Head.applied ReferenceState.receiptAt at he
    rw [he]
    exact .inr ⟨e, rfl, hkind⟩

theorem commitInner_of_plan {storage : JsonStorage} {head : Head} {transaction : StoreTransaction}
    {plan : CommitPlan} (h : storage.prepareCommit head transaction = .ok (.write plan)) :
    storage.commitInner head transaction = storage.writeCommit head transaction plan := by
  rw [JsonStorage.commitInner, h]

/-- What a commit decides before it touches the directory: the outcome the reference
    store settles, a plan for the state it reaches, or a refusal for a limit. -/
theorem prepareCommit_cases (storage : JsonStorage) (head : Head)
    (transaction : StoreTransaction) :
    (∃ outcome, storage.prepareCommit head transaction = .ok (.settled outcome) ∧
        head.reference.commit transaction = (.ok outcome, head.reference)) ∨
      (∃ plan, storage.prepareCommit head transaction = .ok (.write plan) ∧
        Planned storage head transaction plan) ∨
      Exhausted (storage.prepareCommit head transaction) := by
  unfold JsonStorage.prepareCommit
  cases hget : head.receipts.get transaction.id with
  | some receipt =>
    have hreference : head.reference.receipts.get transaction.id = some receipt := hget
    refine .inl ⟨_, rfl, ?_⟩
    rw [ReferenceState.commit, hreference]
    dsimp only
    split <;> rfl
  | none =>
    have hreference : head.reference.receipts.get transaction.id = none := hget
    have hbase : transaction.baseRevision.asBytes = u64ToBEBytes head.generation ↔
        transaction.baseRevision = .ofGeneration head.generation :=
      ⟨fun h => StoreRevision.ext_asBytes h, fun h => by rw [h]; rfl⟩
    have haccepts : head.reference.accepts transaction = true ↔
        ¬ (transaction.operationDigest ≠ transaction.computedOperationDigest
          ∨ transaction.baseRevision.asBytes ≠ u64ToBEBytes head.generation
          ∨ ¬ transaction.operations.all (conditionMatches head.entries head.receipts)) := by
      simp only [ReferenceState.accepts, Bool.and_eq_true, beq_iff_eq, ne_eq, hbase, not_or,
        not_not, and_assoc]
      rfl
    dsimp only
    split
    · rename_i hrefused
      have hfalse : head.reference.accepts transaction = false := by
        rw [← Bool.not_eq_true, haccepts, not_not]
        exact hrefused
      refine .inl ⟨.conflict, rfl, ?_⟩
      rw [ReferenceState.commit_of_none hreference, hfalse]
      rfl
    · rename_i haccepted
      refine .inr ?_
      rcases storage.nextGeneration_cases head with ⟨next, hok, hnext⟩ | ⟨e, he, hkind⟩
      · rw [hok, Result.ok_bind]
        rcases JsonStorage.planGeneration_cases hget (haccepts.mpr haccepted) hnext with
          ⟨plan, hplan, hplanned⟩ | ⟨e, he, hkind⟩
        · rw [hplan, Result.ok_bind]
          exact .inl ⟨plan, rfl, hplanned⟩
        · rw [he]
          exact .inr ⟨e, rfl, hkind⟩
      · rw [he]
        exact .inr ⟨e, rfl, hkind⟩

/-- Every plan of a commit is one of an accepted transaction. -/
theorem planned_of_prepareCommit {storage : JsonStorage} {head : Head}
    {transaction : StoreTransaction} {plan : CommitPlan}
    (h : storage.prepareCommit head transaction = .ok (.write plan)) :
    Planned storage head transaction plan := by
  rcases prepareCommit_cases storage head transaction with
    ⟨outcome, hprepare, -⟩ | ⟨other, hprepare, hplanned⟩ | ⟨e, hprepare, -⟩
  · rw [hprepare] at h
    cases h
  · rw [hprepare] at h
    cases h
    exact hplanned
  · rw [hprepare] at h
    cases h

namespace Planned

variable {storage : JsonStorage} {head : Head} {transaction : StoreTransaction} {plan : CommitPlan}

theorem toNat_generation (h : Planned storage head transaction plan) :
    plan.head.generation.toNat = head.generation.toNat + 1 :=
  checkedAdd_eq_some.mp h.next

theorem generation_ne_zero (h : Planned storage head transaction plan) :
    plan.head.generation ≠ 0 := by
  intro hzero
  have hnext := h.toNat_generation
  rw [hzero] at hnext
  simp at hnext

theorem commit (h : Planned storage head transaction plan) :
    head.reference.commit transaction = (.ok (.committed plan.receipt), plan.head.reference) := by
  rw [ReferenceState.commit_of_none h.fresh, h.accepts]
  have hnext : checkedAdd head.reference.generation 1 = some plan.head.generation := h.next
  simp only [if_true, hnext]
  rw [h.state, h.receipt]

theorem generationOf_tempName (h : Planned storage head transaction plan) :
    generationOf plan.tempName = none := by
  rw [h.tempName]
  exact generationOf_of_isTemp (isTemp_tempName _ _)

theorem generationOf_finalName (h : Planned storage head transaction plan) :
    generationOf plan.finalName = some (plan.head.generation, transaction.id) := by
  rw [h.finalName]
  exact Radiata.generationOf_finalName h.generation_ne_zero transaction.id

end Planned

end Plan

/-! ## Commits without faults -/

section Run

variable [DnsName]

/-- Every generation of the directory is at most that of the head. -/
def Head.Bounds (head : Head) (files : Files) : Prop :=
  ∀ name generation transaction, generationOf name = some (generation, transaction) →
    (files.get name).isSome = true → generation ≤ head.generation

variable [SerdeJson] {storage : JsonStorage} {head : Head} {transaction : StoreTransaction}
  {plan : CommitPlan} {files files' : Files}

/-- The name of the next generation is not taken. -/
theorem Planned.get_finalName (h : Planned storage head transaction plan)
    (hbounds : head.Bounds files) : files.get plan.finalName = none := by
  cases hget : files.get plan.finalName with
  | none => rfl
  | some bytes =>
    have hle := hbounds _ _ _ h.generationOf_finalName (by rw [hget]; rfl)
    have hnext := h.toNat_generation
    rw [UInt64.le_iff_toNat_le] at hle
    omega

theorem Planned.bounds (h : Planned storage head transaction plan) (hbounds : head.Bounds files)
    (hadds : AddsGeneration plan.finalName plan.documentBytes files files') :
    plan.head.Bounds files' := by
  intro name generation id hname hthere
  rw [hadds name (by rw [hname]; rfl)] at hthere
  split at hthere
  · rename_i heq
    rw [heq, h.generationOf_finalName] at hname
    cases hname
    exact UInt64.le_refl _
  · have hle := hbounds name generation id hname hthere
    have hnext := h.toNat_generation
    rw [UInt64.le_iff_toNat_le] at hle ⊢
    omega

/-- A planned commit without faults is committed and adds its generation. -/
theorem Planned.run (h : Planned storage head transaction plan) (hbounds : head.Bounds files) :
    (Prog.run FsCall.perform (storage.writeCommit head transaction plan) files).1
        = (.ok (.committed plan.receipt), plan.head) ∧
      AddsGeneration plan.finalName plan.documentBytes files
        (Prog.run FsCall.perform (storage.writeCommit head transaction plan) files).2 :=
  run_writeCommit storage head transaction h.generationOf_tempName (h.get_finalName hbounds)

/-- A commit without faults and limits: the outcome and the state of the reference store. -/
theorem run_commitInner (hbounds : head.Bounds files)
    (hlimit : ¬ Exhausted
      (Prog.run FsCall.perform (storage.commitInner head transaction) files).1.1) :
    (Prog.run FsCall.perform (storage.commitInner head transaction) files).1.1
        = (head.reference.commit transaction).1 ∧
      (Prog.run FsCall.perform (storage.commitInner head transaction) files).1.2.reference
        = (head.reference.commit transaction).2 ∧
      (Prog.run FsCall.perform (storage.commitInner head transaction) files).1.2.Bounds
        (Prog.run FsCall.perform (storage.commitInner head transaction) files).2 := by
  rcases prepareCommit_cases storage head transaction with
    ⟨outcome, hprepare, hcommit⟩ | ⟨plan, hprepare, hplanned⟩ | ⟨e, hprepare, hkind⟩
  · have hinner : storage.commitInner head transaction = pure (.ok outcome, head) := by
      rw [JsonStorage.commitInner, hprepare]
    rw [hinner, hcommit]
    exact ⟨rfl, rfl, hbounds⟩
  · obtain ⟨hresult, hadds⟩ := hplanned.run hbounds
    rw [commitInner_of_plan hprepare, hresult, hplanned.commit]
    exact ⟨rfl, rfl, hplanned.bounds hbounds hadds⟩
  · have hinner : storage.commitInner head transaction = pure (.error e, head) := by
      rw [JsonStorage.commitInner, hprepare]
    rw [hinner] at hlimit
    exact absurd ⟨e, rfl, hkind⟩ hlimit

end Run

end Radiata
