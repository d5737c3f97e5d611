import Radiata.Spec.JsonReopen
import Radiata.Spec.UsedId

/-!
# Reconciliation of the JSON store

`reconcile` answers from the head in memory, while a commit with an unknown outcome
leaves the doubt in the directory. Under faults the two agree as long as no rename
reports an error after it took effect: then a commit changes head and directory
together or neither. A receipt in memory is backed by a barrier if one has worked after
the rename.

## Key results

- `exec_commitInner`: what a commit under faults leaves
- `reconcile_truthful`: reconciliation in every state such commits reach
- `reconcile_of_lost_rename`: after a lost rename reconciliation denies what is on disk
-/

namespace Radiata

/-- The commit reports that its outcome is not known. -/
def isUnknown : Result CommitOutcome → Bool
  | .ok (.unknown _ _) => true
  | .ok _ => false
  | .error e => e.kind = .commitUnknown

/-- A rename to the name of a generation of `transaction` has worked, and a barrier after it. -/
def BarrierAfterRename (transaction : TransactionId) (trace : List (FsCall × Fault)) : Prop :=
  ∃ newer older temp generation,
    trace = newer ++ (.rename temp (finalName generation transaction), .none) :: older ∧
      (.barrier, .none) ∈ newer

variable {transaction : TransactionId}

theorem BarrierAfterRename.append {trace : List (FsCall × Fault)}
    (h : BarrierAfterRename transaction trace) (newest : List (FsCall × Fault)) :
    BarrierAfterRename transaction (newest ++ trace) := by
  obtain ⟨newer, older, temp, generation, rfl, hbarrier⟩ := h
  refine ⟨newest ++ newer, older, temp, generation, ?_, List.mem_append_right _ hbarrier⟩
  rw [List.append_assoc]

theorem BarrierAfterRename.append_right {trace : List (FsCall × Fault)}
    (h : BarrierAfterRename transaction trace) (oldest : List (FsCall × Fault)) :
    BarrierAfterRename transaction (trace ++ oldest) := by
  obtain ⟨newer, older, temp, generation, rfl, hbarrier⟩ := h
  refine ⟨newer, older ++ oldest, temp, generation, ?_, hbarrier⟩
  rw [List.append_assoc, List.cons_append]

/-- The faults a commit may meet: no rename reports an error after it took effect, and once
    a rename has worked, a barrier works too or nothing fails. -/
structure Tolerable (trace : List (FsCall × Fault)) : Prop where
  noLostRename : ∀ temp final e, (.rename temp final, .failedAfter e) ∉ trace
  settled : ∀ newer older temp final, trace = newer ++ (.rename temp final, .none) :: older →
    (.barrier, .none) ∈ newer ∨ ∀ entry ∈ newer, entry.2 = .none

section Commit

variable [DnsName]

/-- After the rename the head is the planned one, whatever fails. -/
theorem exec_settle_head (storage : JsonStorage) (transaction : StoreTransaction)
    (plan : CommitPlan) (world : FsWorld) :
    ((storage.settle transaction plan).exec world).1.2 = plan.head := by
  unfold JsonStorage.settle
  simp only [FsProg.exec, Prog.run_bind]
  split
  · rfl
  · rw [Prog.run_bind]
    split <;> rfl

omit [DnsName] in
/-- The test for the next generation finds nothing, with or without a fault. -/
theorem exec_fileExists {name : Bytes} {world : FsWorld} (h : world.files.get name = none) :
    (world.handle (.exists name)).1 = false := by
  rcases handle_cases (.exists name) world with ⟨hanswer, -⟩ | ⟨e, hanswer⟩
  · rw [hanswer]
    show world.files.contains name = false
    rw [SortedMap.contains, h]
    rfl
  · exact hanswer

/-- The part of a commit after its write. -/
def JsonStorage.afterWrite (storage : JsonStorage) (head : Head) (transaction : StoreTransaction)
    (plan : CommitPlan) : Except FsError Unit → FsProg (Result CommitOutcome × Head)
  | .error e => pure (.error (mapCommitIoError e), head)
  | .ok () => storage.settle transaction plan

variable {plan : CommitPlan}

/-- A commit whose final name is not taken goes on to write. -/
theorem exec_of_absent (storage : JsonStorage) (head : Head) (transaction : StoreTransaction)
    {world : FsWorld} (habsent : world.files.get plan.finalName = none) :
    (storage.writeCommit head transaction plan).exec world
        = FsProg.exec (writeAndRename plan.tempName plan.finalName plan.documentBytes >>=
            storage.afterWrite head transaction plan)
          (world.handle (.exists plan.finalName)).2 ∧
      (storage.writeCommit head transaction plan).trace world
        = FsProg.trace (writeAndRename plan.tempName plan.finalName plan.documentBytes >>=
            storage.afterWrite head transaction plan)
          (world.handle (.exists plan.finalName)).2
          ++ [(.exists plan.finalName, world.fault)] := by
  have hcontinue : ∀ b : Bool, b = false →
      (if b = true then pure (.error (.provider .storageCorrupt .storageCommit), head)
        else do
          match ← writeAndRename plan.tempName plan.finalName plan.documentBytes with
          | .error e => return (.error (mapCommitIoError e), head)
          | .ok () => storage.settle transaction plan : FsProg (Result CommitOutcome × Head))
      = writeAndRename plan.tempName plan.finalName plan.documentBytes >>=
          storage.afterWrite head transaction plan := by
    intro b hb
    rw [hb]
    rw [if_neg Bool.false_ne_true]
    congr 1
  have hresume := hcontinue _ (exec_fileExists habsent)
  constructor
  · rw [← hresume]
    rfl
  · rw [← hresume]
    rfl

variable [SerdeJson]

/-- What a commit under faults leaves: head and generations as they were, or the planned
    head with its generation, committed or behind a barrier. -/
inductive CommitEffect (storage : JsonStorage) (head : Head) (transaction : StoreTransaction)
    (files files' : Files) (trace : List (FsCall × Fault)) (answer : Result CommitOutcome)
    (head' : Head) : Prop where
  | kept (hhead : head' = head) (hsame : SameGenerations files files')
      (hunknown : isUnknown answer = true → head.receipts.get transaction.id = none)
  | added (plan : CommitPlan) (hplanned : Planned storage head transaction plan)
      (hhead : head' = plan.head)
      (hadds : AddsGeneration plan.finalName plan.documentBytes files files')
      (hbarrier : isUnknown answer = true → BarrierAfterRename transaction.id trace)

variable {transaction : StoreTransaction}

/-- A planned commit under tolerable faults. -/
theorem exec_writeCommit {storage : JsonStorage} {head : Head}
    (hplanned : Planned storage head transaction plan) {world : FsWorld}
    (habsent : world.files.get plan.finalName = none)
    (htolerable : Tolerable ((storage.writeCommit head transaction plan).trace world)) :
    CommitEffect storage head transaction world.files
      ((storage.writeCommit head transaction plan).exec world).2.files
      ((storage.writeCommit head transaction plan).trace world)
      ((storage.writeCommit head transaction plan).exec world).1.1
      ((storage.writeCommit head transaction plan).exec world).1.2 := by
  obtain ⟨hexec, htrace⟩ := exec_of_absent storage head transaction habsent
  rw [htrace] at htolerable ⊢
  rw [hexec]
  have hharmless : Harmless (.exists plan.finalName) := trivial
  have hkept := hharmless.handle world
  generalize (world.handle (.exists plan.finalName)).2 = after at *
  rw [FsProg.trace_bind] at htolerable ⊢
  rw [FsProg.exec, Prog.run_bind]
  have hwrites := @Writes.writeAndRename plan.tempName plan.finalName plan.documentBytes
    hplanned.generationOf_tempName after
  rcases hwrites with ⟨e, hresult, hsame⟩ | ⟨older, hresult, hadds, hrename⟩ | ⟨e, hmem⟩
  · -- nothing was renamed
    rw [hresult]
    exact .kept rfl (hkept.trans hsame) (fun _ => hplanned.fresh)
  · rw [hresult] at htolerable ⊢
    have hsettle := exec_harmless (settle_harmless storage transaction plan)
      ((writeAndRename plan.tempName plan.finalName plan.documentBytes).exec after).2
    refine .added plan hplanned (exec_settle_head storage transaction plan _)
      ((hkept.adds hadds).same hsettle) ?_
    intro hunknown
    rw [hrename, List.append_assoc] at htolerable ⊢
    rcases htolerable.settled _ _ _ _ rfl with hbarrier | hclean
    · refine ⟨_, older ++ [(.exists plan.finalName, world.fault)], plan.tempName,
        plan.head.generation, ?_, hbarrier⟩
      rw [← hplanned.finalName]
      rfl
    · -- without a fault after the rename the commit is answered
      have hanswer := (FsProg.exec_of_trace hclean).1.trans
        (run_settle storage transaction plan _)
      have hcommitted : isUnknown (.ok (.committed plan.receipt)) = true :=
        (congrArg (fun result => isUnknown result.1) hanswer).symm.trans hunknown
      cases hcommitted
  · exact absurd (List.mem_append_left _ (List.mem_append_right _ hmem))
      (htolerable.noLostRename plan.tempName plan.finalName e)

/-- A commit under tolerable faults. -/
theorem exec_commitInner {storage : JsonStorage} {head : Head} {transaction : StoreTransaction}
    {world : FsWorld} (hbounds : head.Bounds world.files)
    (htolerable : Tolerable ((storage.commitInner head transaction).trace world)) :
    CommitEffect storage head transaction world.files
      ((storage.commitInner head transaction).exec world).2.files
      ((storage.commitInner head transaction).trace world)
      ((storage.commitInner head transaction).exec world).1.1
      ((storage.commitInner head transaction).exec world).1.2 := by
  rcases prepareCommit_cases storage head transaction with
    ⟨outcome, hprepare, hcommit⟩ | ⟨plan, hprepare, hplanned⟩ | ⟨e, hprepare, hkind⟩
  · have hinner : storage.commitInner head transaction = pure (.ok outcome, head) := by
      rw [JsonStorage.commitInner, hprepare]
    rw [hinner]
    refine .kept rfl (.refl _) ?_
    intro hunknown
    -- the reference store settles no outcome as unknown
    cases hget : head.receipts.get transaction.id with
    | none => rfl
    | some receipt =>
      have hreference : head.reference.receipts.get transaction.id = some receipt := hget
      rw [ReferenceState.commit, hreference] at hcommit
      dsimp only at hcommit
      split at hcommit
      · cases hcommit
        cases hunknown
      · cases hcommit
        cases hunknown
  · rw [commitInner_of_plan hprepare] at htolerable ⊢
    exact exec_writeCommit hplanned (hplanned.get_finalName hbounds) htolerable
  · have hinner : storage.commitInner head transaction = pure (.error e, head) := by
      rw [JsonStorage.commitInner, hprepare]
    rw [hinner]
    refine .kept rfl (.refl _) ?_
    intro hunknown
    have hkind' : e.kind = .commitUnknown := of_decide_eq_true hunknown
    rw [hkind] at hkind'
    cases hkind'

/-! ## Histories -/

/-- A commit that was answered: the calls it made and what they met. -/
structure CommitRun where
  transaction : StoreTransaction
  answer : Result CommitOutcome
  trace : List (FsCall × Fault)

/-- An open store: its head, its directory, and its commits, newest first. -/
structure JsonProcess where
  head : Head
  files : Files
  history : List CommitRun

namespace JsonProcess

/-- All calls of the process, newest first. -/
def trace (process : JsonProcess) : List (FsCall × Fault) :=
  process.history.flatMap CommitRun.trace

/-- The answer to the last commit of the transaction. -/
def lastAnswer (process : JsonProcess) (id : TransactionId) : Option (Result CommitOutcome) :=
  (process.history.find? (fun run => run.transaction.id = id)).map CommitRun.answer

/-- A commit under a schedule of faults. -/
def commit (storage : JsonStorage) (process : JsonProcess) (transaction : StoreTransaction)
    (faults : List Fault) : JsonProcess :=
  let program := storage.commitInner process.head transaction
  let run := program.exec ⟨process.files, faults⟩
  { head := run.1.2
    files := run.2.files
    history := ⟨transaction, run.1.1, program.trace ⟨process.files, faults⟩⟩ :: process.history }

/-- The processes that commits lead to, each under its own faults. -/
inductive Reaches (storage : JsonStorage) (start : JsonProcess) : JsonProcess → Prop where
  | refl : Reaches storage start start
  | commit {process : JsonProcess} (transaction : StoreTransaction) (faults : List Fault)
      (h : Reaches storage start process) :
      Reaches storage start (process.commit storage transaction faults)

end JsonProcess

/-- The commit met only tolerable faults, and its namespaces parse from their text. -/
def CommitRun.Tolerable (run : CommitRun) : Prop :=
  Radiata.Tolerable run.trace ∧ ∀ operation ∈ run.transaction.operations, operation.Reparses

/-- The directory validates to the head, and a receipt of a transaction that was last
    answered as unknown is behind a barrier. -/
structure ReconcileInv (storeUuid : StoreUuid) (process : JsonProcess) : Prop where
  store : JsonStore storeUuid (process.head, process.files)
  barrier : ∀ id answer, process.lastAnswer id = some answer → isUnknown answer = true →
    process.head.receipts.get id ≠ none → BarrierAfterRename id process.trace

variable {storage : JsonStorage} {storeUuid : StoreUuid}

theorem ReconcileInv.commit (hbytes : storage.maxTotalBytes ≤ maxTotalBytes)
    {process : JsonProcess} (h : ReconcileInv storeUuid process) {transaction : StoreTransaction}
    {faults : List Fault}
    (hoperations : ∀ operation ∈ transaction.operations, operation.Reparses)
    (htolerable : Radiata.Tolerable ((storage.commitInner process.head transaction).trace
      ⟨process.files, faults⟩)) :
    ReconcileInv storeUuid (process.commit storage transaction faults) := by
  obtain ⟨⟨hloads, huuid⟩, hbarrier⟩ := h
  have heffect := @exec_commitInner _ _ storage process.head transaction ⟨process.files, faults⟩
    hloads.bounds htolerable
  -- the last answer to another transaction is the one before
  have hother : ∀ id, transaction.id ≠ id →
      (process.commit storage transaction faults).lastAnswer id = process.lastAnswer id := by
    intro id hne
    rw [JsonProcess.lastAnswer, JsonProcess.commit, List.find?_cons_of_neg (by simpa using hne)]
    rfl
  have hself : (process.commit storage transaction faults).lastAnswer transaction.id
      = some ((storage.commitInner process.head transaction).exec
        ⟨process.files, faults⟩).1.1 := by
    rw [JsonProcess.lastAnswer, JsonProcess.commit, List.find?_cons_of_pos (by simp)]
    rfl
  have htrace : (process.commit storage transaction faults).trace
      = (storage.commitInner process.head transaction).trace ⟨process.files, faults⟩
        ++ process.trace := rfl
  rcases heffect with ⟨hhead, hsame, hunknown⟩ | ⟨plan, hplanned, hhead, hadds, hunknown⟩
  · have hhead' : (process.commit storage transaction faults).head = process.head := hhead
    constructor
    · rw [hhead']
      exact ⟨hloads.same hsame, huuid⟩
    · intro id answer hlast hanswer hreceipt
      rw [hhead'] at hreceipt
      by_cases hid : transaction.id = id
      · rw [← hid, hself] at hlast
        cases hlast
        rw [← hid] at hreceipt
        exact absurd (hunknown hanswer) hreceipt
      · rw [hother id hid] at hlast
        rw [htrace]
        exact (hbarrier id answer hlast hanswer hreceipt).append _
  · have hhead' : (process.commit storage transaction faults).head = plan.head := hhead
    constructor
    · rw [hhead']
      exact ⟨hloads.planned hplanned (hplanned.sound hloads.sound hoperations) hbytes hadds,
        hplanned.storeUuid.trans huuid⟩
    · intro id answer hlast hanswer hreceipt
      by_cases hid : transaction.id = id
      · rw [← hid, hself] at hlast
        cases hlast
        rw [htrace, ← hid]
        exact (hunknown hanswer).append_right _
      · -- another receipt has been there before
        have hbefore : process.head.receipts.get id ≠ none := by
          intro hnone
          have hreceipts : plan.head.receipts
              = (transaction.operations.foldl forgetOperation process.head.receipts).insert
                transaction.id (ReferenceState.receiptAt transaction plan.head.generation) :=
            congrArg ReferenceState.receipts hplanned.state
          rw [hhead', hreceipts, SortedMap.get_insert_ne _ _ (Ne.symm hid),
            get_forgetOperations_of_none _ hnone] at hreceipt
          exact hreceipt rfl
        rw [hother id hid] at hlast
        rw [htrace]
        exact (hbarrier id answer hlast hanswer hbefore).append _

/-- The invariant in every process that tolerable commits reach. -/
theorem ReconcileInv.reaches (hbytes : storage.maxTotalBytes ≤ maxTotalBytes)
    {start process : JsonProcess} (hstart : ReconcileInv storeUuid start)
    (hreaches : JsonProcess.Reaches storage start process)
    (htolerable : ∀ run ∈ process.history, run.Tolerable) : ReconcileInv storeUuid process := by
  induction hreaches with
  | refl => exact hstart
  | commit transaction faults _ ih =>
    obtain ⟨htrace, hoperations⟩ := htolerable _ (List.mem_cons_self ..)
    have hbefore := ih (fun run hrun => htolerable run (List.mem_cons_of_mem _ hrun))
    exact hbefore.commit hbytes hoperations htrace

/-- In every state that commits under tolerable faults reach, reconciliation of a
    transaction whose commit was last answered as unknown tells the truth: `Aborted` only if
    the directory reopens without it, `Committed` only if it reopens with that receipt and a
    barrier has worked after the rename. -/
theorem reconcile_truthful (hbytes : storage.maxTotalBytes ≤ maxTotalBytes) {head : Head}
    {files : Files} (hopened : JsonStore storeUuid (head, files)) {process : JsonProcess}
    (hreaches : JsonProcess.Reaches storage ⟨head, files, []⟩ process)
    (htolerable : ∀ run ∈ process.history, run.Tolerable) {id : TransactionId}
    {answer : Result CommitOutcome} (hlast : process.lastAnswer id = some answer)
    (hunknown : isUnknown answer = true) (digest : Digest) {listing : List Bytes}
    (hlists : Lists listing process.files) :
    (process.head.reconcile id digest = .aborted →
        ∃ reopened, loadChain listing process.files storeUuid = .ok reopened ∧
          reopened.receipts.get id = none) ∧
      ∀ receipt, process.head.reconcile id digest = .committed receipt →
        (∃ reopened, loadChain listing process.files storeUuid = .ok reopened ∧
          reopened.receipts.get id = some receipt) ∧
        BarrierAfterRename id process.trace := by
  have hstart : ReconcileInv storeUuid ⟨head, files, []⟩ :=
    ⟨hopened, fun id answer hlast => by cases hlast⟩
  obtain ⟨⟨hloads, huuid⟩, hbarrier⟩ := hstart.reaches hbytes hreaches htolerable
  have hload : loadChain listing process.files storeUuid = .ok process.head := by
    rw [← huuid]
    exact loadChain_eq hloads hlists
  unfold Head.reconcile
  cases hget : process.head.receipts.get id with
  | none =>
    refine ⟨fun _ => ⟨process.head, hload, hget⟩, ?_⟩
    intro receipt hcommitted
    cases hcommitted
  | some found =>
    have hbehind := hbarrier id answer hlast hunknown (by rw [hget]; exact Option.some_ne_none _)
    constructor
    · intro haborted
      dsimp only at haborted
      split at haborted <;> cases haborted
    · intro receipt hcommitted
      dsimp only at hcommitted
      split at hcommitted
      · cases hcommitted
        exact ⟨⟨process.head, hload, hget⟩, hbehind⟩
      · cases hcommitted

/-! ## Lost renames -/

/-- The schedule in which the rename of a new temporary file takes effect and reports `e`. -/
def lostRename (e : FsError) : List Fault := [.none, .none, .none, .none, .failedAfter e]

omit [DnsName] [SerdeJson] in
/-- A write whose rename is lost reports the error and has added the generation. -/
theorem exec_writeAndRename_lost {temp final bytes : Bytes} {files : Files}
    (htemp : files.get temp = none) (e : FsError) :
    (writeAndRename temp final bytes).exec ⟨files, [.none, .none, .none, .failedAfter e]⟩
      = (.error e, ⟨(((files.insert temp []).insert temp bytes).erase temp).insert final bytes,
        []⟩) := by
  have hcreate : FsCall.perform (.createNew temp) files = (.ok (), files.insert temp []) :=
    Fs.run_createNew htemp
  have hwrite : FsCall.perform (.writeAll temp bytes) (files.insert temp [])
      = (.ok (), (files.insert temp []).insert temp bytes) :=
    Fs.run_writeAll (SortedMap.get_insert_self ..)
  have hrename : FsCall.perform (.rename temp final) ((files.insert temp []).insert temp bytes)
      = (.ok (), (((files.insert temp []).insert temp bytes).erase temp).insert final bytes) :=
    Fs.run_rename (SortedMap.get_insert_self ..)
  have hfirst : FsWorld.handle (.createNew temp) ⟨files, [.none, .none, .none, .failedAfter e]⟩
      = (.ok (), ⟨files.insert temp [], [.none, .none, .failedAfter e]⟩) := by
    show ((FsCall.perform (.createNew temp) files).1,
      FsWorld.mk (FsCall.perform (.createNew temp) files).2 _) = _
    rw [hcreate]
    rfl
  have hsecond : FsWorld.handle (.writeAll temp bytes)
      ⟨files.insert temp [], [.none, .none, .failedAfter e]⟩
      = (.ok (), ⟨(files.insert temp []).insert temp bytes, [.none, .failedAfter e]⟩) := by
    show ((FsCall.perform (.writeAll temp bytes) (files.insert temp [])).1,
      FsWorld.mk (FsCall.perform (.writeAll temp bytes) (files.insert temp [])).2 _) = _
    rw [hwrite]
    rfl
  have hlast : FsWorld.handle (.rename temp final)
      ⟨(files.insert temp []).insert temp bytes, [.failedAfter e]⟩
      = (.error e, ⟨(((files.insert temp []).insert temp bytes).erase temp).insert final bytes,
        []⟩) := by
    show (Except.error e, FsWorld.mk (FsCall.perform (.rename temp final)
      ((files.insert temp []).insert temp bytes)).2 _) = _
    rw [hrename]
    rfl
  unfold writeAndRename
  rw [writeAttempts, FsProg.exec, Prog.run_bind, Prog.run_perform, hfirst]
  show Prog.run FsWorld.handle (writeTemp temp final bytes) _ = _
  unfold writeTemp
  rw [Prog.run_bind, Prog.run_perform, hsecond]
  exact hlast

/-- After a commit whose rename is lost, the store denies the transaction that the directory
    reopens with. -/
theorem reconcile_of_lost_rename (hbytes : storage.maxTotalBytes ≤ maxTotalBytes) {head : Head}
    {files : Files} (hopened : JsonStore storeUuid (head, files)) {transaction : StoreTransaction}
    (hoperations : ∀ operation ∈ transaction.operations, operation.Reparses) {plan : CommitPlan}
    (hprepare : storage.prepareCommit head transaction = .ok (.write plan))
    (hplanned : Planned storage head transaction plan)
    (htemp : files.get plan.tempName = none) (e : FsError) {listing : List Bytes}
    (hlists : Lists listing
      ((JsonProcess.mk head files []).commit storage transaction (lostRename e)).files)
    (digest : Digest) :
    (∃ answer, ((JsonProcess.mk head files []).commit storage transaction
        (lostRename e)).lastAnswer transaction.id = some answer ∧ isUnknown answer = true) ∧
      ((JsonProcess.mk head files []).commit storage transaction
        (lostRename e)).head.reconcile transaction.id digest = .aborted ∧
      ∃ reopened receipt, loadChain listing ((JsonProcess.mk head files []).commit storage
          transaction (lostRename e)).files storeUuid = .ok reopened ∧
        reopened.receipts.get transaction.id = some receipt := by
  obtain ⟨hloads, huuid⟩ := hopened
  have hexec : (storage.commitInner head transaction).exec ⟨files, lostRename e⟩
      = ((.error (mapCommitIoError e), head), ⟨(((files.insert plan.tempName []).insert
        plan.tempName plan.documentBytes).erase plan.tempName).insert plan.finalName
          plan.documentBytes, []⟩) := by
    have hinner := commitInner_of_plan hprepare
    have habsent : (FsWorld.mk files (lostRename e)).files.get plan.finalName = none :=
      hplanned.get_finalName hloads.bounds
    rw [hinner, (exec_of_absent storage head transaction habsent).1, FsProg.exec, Prog.run_bind]
    have hwrite := @exec_writeAndRename_lost plan.tempName plan.finalName plan.documentBytes files
      htemp e
    rw [FsProg.exec] at hwrite
    have hworld : ((FsWorld.mk files (lostRename e)).handle (.exists plan.finalName)).2
        = ⟨files, [.none, .none, .none, .failedAfter e]⟩ := rfl
    rw [hworld, hwrite]
    rfl
  have hhead : ((JsonProcess.mk head files []).commit storage transaction (lostRename e)).head
      = head := congrArg (fun result => result.1.2) hexec
  have hfiles : ((JsonProcess.mk head files []).commit storage transaction (lostRename e)).files
      = (((files.insert plan.tempName []).insert plan.tempName plan.documentBytes).erase
        plan.tempName).insert plan.finalName plan.documentBytes :=
    congrArg (fun result => result.2.files) hexec
  have hnone := hplanned.generationOf_tempName
  have hadds : AddsGeneration plan.finalName plan.documentBytes files
      ((JsonProcess.mk head files []).commit storage transaction (lostRename e)).files := by
    rw [hfiles]
    exact ((SameGenerations.insert hnone files []).trans (.insert hnone _ _)).adds
      (.of_rename hnone _)
  have hreopened := loadChain_eq (hloads.planned hplanned
    (hplanned.sound hloads.sound hoperations) hbytes hadds) hlists
  refine ⟨⟨.error (mapCommitIoError e), ?_, rfl⟩, ?_, plan.head, plan.receipt, ?_, ?_⟩
  · rw [JsonProcess.lastAnswer, JsonProcess.commit, List.find?_cons_of_pos (by simp)]
    exact congrArg (fun result => some result.1.1) hexec
  · rw [hhead, Head.reconcile, hplanned.fresh]
  · rw [← huuid]
    rw [hplanned.storeUuid] at hreopened
    exact hreopened
  · have hreceipts : plan.head.receipts
        = (transaction.operations.foldl forgetOperation head.receipts).insert transaction.id
          (ReferenceState.receiptAt transaction plan.head.generation) :=
      congrArg ReferenceState.receipts hplanned.state
    rw [hreceipts, SortedMap.get_insert_self, hplanned.receipt]

/-- A commit whose temporary file cannot be created stops there: its outcome is answered as
    unknown, and it has met no fault but that one. -/
theorem commit_of_refused {head : Head} {files : Files}
    (hoperations : ∀ operation ∈ transaction.operations, operation.Reparses)
    (hprepare : storage.prepareCommit head transaction = .ok (.write plan))
    (habsent : files.get plan.finalName = none) (digest : Digest) :
    ((JsonProcess.mk head files []).commit storage transaction
        [.none, .failed .other 0]).lastAnswer transaction.id
        = some (.error (mapCommitIoError .other)) ∧
      ((JsonProcess.mk head files []).commit storage transaction
        [.none, .failed .other 0]).head.reconcile transaction.id digest = .aborted ∧
      ∀ run ∈ ((JsonProcess.mk head files []).commit storage transaction
        [.none, .failed .other 0]).history, run.Tolerable := by
  have hinner := commitInner_of_plan hprepare
  have hworld : (FsWorld.mk files [.none, .failed .other 0]).files.get plan.finalName = none :=
    habsent
  obtain ⟨hexec, htrace⟩ := exec_of_absent storage head transaction hworld
  refine ⟨?_, ?_, ?_⟩
  · rw [JsonProcess.lastAnswer, JsonProcess.commit, List.find?_cons_of_pos (by simp), hinner,
      hexec]
    rfl
  · rw [JsonProcess.commit, hinner, hexec]
    show head.reconcile transaction.id digest = .aborted
    rw [Head.reconcile, (planned_of_prepareCommit hprepare).fresh]
  · intro run hrun
    rw [List.mem_singleton.mp hrun]
    refine ⟨?_, hoperations⟩
    show Radiata.Tolerable ((storage.commitInner head transaction).trace _)
    rw [hinner, htrace]
    -- nothing was renamed
    show Radiata.Tolerable [(.createNew plan.tempName, .failed .other 0),
      (.exists plan.finalName, .none)]
    constructor
    · intro temp final e hmem
      simp at hmem
    · intro newer older temp final heq
      have hmem : (FsCall.rename temp final, Fault.none)
          ∈ newer ++ (.rename temp final, .none) :: older := by simp
      rw [← heq] at hmem
      simp at hmem

end Commit

/-! ## A refused and a lost write -/

/-- A new store after a put whose temporary file could not be created. -/
def refusedPut : @JsonProcess .hostNames :=
  letI := DnsName.hostNames
  letI := SerdeJson.compact
  (JsonProcess.mk (Head.fresh sampleUuid) .empty []).commit sampleStorage samplePut
    [.none, .failed .other 0]

theorem reconcile_truthful_refusedPut :
    letI := DnsName.hostNames
    letI := SerdeJson.compact
    (∃ answer, refusedPut.lastAnswer samplePut.id = some answer ∧ isUnknown answer = true) ∧
      refusedPut.head.reconcile samplePut.id samplePut.operationDigest = .aborted ∧
      ∃ reopened,
        loadChain (refusedPut.files.toList.map Prod.fst) refusedPut.files sampleUuid
            = .ok reopened ∧
          reopened.receipts.get samplePut.id = none := by
  let _ := DnsName.hostNames
  let _ := SerdeJson.compact
  obtain ⟨plan, hprepare⟩ := CommitDecision.eq_write writes_samplePut
  have hopened : JsonStore sampleUuid (Head.fresh sampleUuid, .empty) :=
    JsonStore.fresh (fun _ _ => rfl) sampleUuid
  obtain ⟨hlast, haborted, htolerable⟩ := commit_of_refused reparses_samplePut hprepare
    (SortedMap.get_empty plan.finalName) samplePut.operationDigest
  have hreaches : JsonProcess.Reaches sampleStorage ⟨Head.fresh sampleUuid, .empty, []⟩ refusedPut :=
    .commit samplePut [.none, .failed .other 0] .refl
  have hlists : Lists (refusedPut.files.toList.map Prod.fst) refusedPut.files :=
    ⟨SortedMap.nodup_keys _, SortedMap.mem_keys _⟩
  exact ⟨⟨_, hlast, rfl⟩, haborted,
    (reconcile_truthful (le_refl maxTotalBytes) hopened hreaches htolerable hlast rfl
      samplePut.operationDigest hlists).1 haborted⟩

/-- A new store after a put whose rename took effect and reported an error. -/
def lostPut : @JsonProcess .hostNames :=
  letI := DnsName.hostNames
  letI := SerdeJson.compact
  (JsonProcess.mk (Head.fresh sampleUuid) .empty []).commit sampleStorage samplePut
    (lostRename .other)

/-- The commit was answered as unknown, reconciliation answers that it was aborted, and the
    directory reopens with its receipt. -/
theorem reconcile_denies_lostPut :
    letI := DnsName.hostNames
    letI := SerdeJson.compact
    (∃ answer, lostPut.lastAnswer samplePut.id = some answer ∧ isUnknown answer = true) ∧
      lostPut.head.reconcile samplePut.id samplePut.operationDigest = .aborted ∧
      ∃ reopened receipt,
        loadChain (lostPut.files.toList.map Prod.fst) lostPut.files sampleUuid = .ok reopened ∧
          reopened.receipts.get samplePut.id = some receipt := by
  let _ := DnsName.hostNames
  let _ := SerdeJson.compact
  obtain ⟨plan, hprepare⟩ := CommitDecision.eq_write writes_samplePut
  have hopened : JsonStore sampleUuid (Head.fresh sampleUuid, .empty) :=
    JsonStore.fresh (fun _ _ => rfl) sampleUuid
  have hlists : Lists (lostPut.files.toList.map Prod.fst) lostPut.files :=
    ⟨SortedMap.nodup_keys _, SortedMap.mem_keys _⟩
  exact @reconcile_of_lost_rename _ _ sampleStorage sampleUuid (le_refl maxTotalBytes)
    (Head.fresh sampleUuid) .empty hopened samplePut reparses_samplePut plan hprepare
    (planned_of_prepareCommit hprepare) (SortedMap.get_empty _) .other _ hlists
    samplePut.operationDigest

end Radiata
