import Radiata.ForStd.System
import Radiata.Native.Receipt

/-!
# The single-commit state machine of the metadata store

`src/storage/mod.rs`: `MetadataStore` serialises provider commits through one
mutex-protected `CommitState`. This file models its four entry points `commit`,
`reconcile`, `freeze_journaled` and `reconcile_if_frozen` as programs of any
number of concurrent callers.

Each critical section is a function on `CommitState`; a caller is a program
counter with its local variables; a step of the system is one lock acquisition,
one provider call or one provider return. The provider answers anything, a
caller's future may be dropped between any two steps, and a caller that is
refused entry may wait for another attempt or give up (the bounded entry wait).
Provider calls and their answers are recorded in a trace, newest first.

No critical section can panic, so the mutex is never poisoned and `lock_state`
does not fail.
-/

namespace Radiata

structure PendingCommit where
  transaction : TransactionId
  digest : Digest
  journalProven : Bool
  deriving DecidableEq

/-- The transaction and digest a pending commit is about. -/
def PendingCommit.identity (pending : PendingCommit) : ReceiptIdentity :=
  ⟨pending.transaction, pending.digest⟩

inductive CommitState where
  | ready
  | frozen (pending : PendingCommit) (providerCallActive : Bool)
  deriving DecidableEq

/-! ## Critical sections -/

/-- `begin_commit` -/
def beginCommit (pending : PendingCommit) : CommitState → Result CommitState
  | .ready => .ok (.frozen pending true)
  | .frozen _ _ => .error (.notReady "metadata storage commit")

/-- `begin_reconcile`: the pending commit is copied out of the state. -/
def beginReconcile : CommitState → Result (PendingCommit × CommitState)
  | .ready => .error (.notReady "metadata storage reconcile")
  | .frozen pending providerCallActive =>
    if providerCallActive then .error (.notReady "metadata storage reconcile")
    else .ok (pending, .frozen pending true)

/-- The critical section of `finish_frozen`. -/
def finishFrozen : CommitState → Result CommitState
  | .frozen pending _ => .ok (.frozen pending false)
  | .ready => .error (.internal "metadata storage commit state")

/-- `ProviderCall::drop` of a call that was not completed. -/
def dropProviderCall : CommitState → CommitState
  | .frozen pending _ => .frozen pending false
  | .ready => .ready

/-- `freeze_journaled` -/
def freezeJournaled (identity : ReceiptIdentity) : CommitState → Result CommitState
  | .ready =>
    .ok (.frozen ⟨identity.transaction, identity.operationDigest, true⟩ false)
  | .frozen pending providerCallActive =>
    if pending.transaction = identity.transaction ∧ pending.digest = identity.operationDigest then
      .ok (.frozen { pending with journalProven := true } providerCallActive)
    else .error (.notReady "metadata storage journal recovery")

/-- `validate_receipt` -/
def validateReceipt (pending : PendingCommit) (receipt : CommitReceipt)
    (context : ProviderErrorContext) : Result Unit :=
  if receipt.transaction ≠ pending.transaction ∨ receipt.operationDigest ≠ pending.digest then
    .error (.provider .storageCorrupt context)
  else .ok ()

/-! ## Dispositions of a provider answer -/

/-- What a caller reports when its call is over. -/
inductive Report where
  | commit (result : Result CommitOutcome)
  | reconcile (result : Result ReconcileOutcome)
  | reconcileIfFrozen (result : Result Unit)
  | freezeJournaled (result : Result Unit)
  | cancelled
  deriving DecidableEq

/-- How a caller leaves its provider call: `finish_ready`, `finish_frozen`, or an
    early return that drops the guard. -/
inductive Disposition (α : Type) where
  | ready (result : Result α)
  | frozen (result : Result α)
  | bail (error : Error)

/-- The match of `commit` on the provider's answer. -/
def commitDisposition (pending : PendingCommit) :
    Result CommitOutcome → Disposition CommitOutcome
  | .ok (.committed receipt) =>
    match validateReceipt pending receipt .storageCommit with
    | .error e => .bail e
    | .ok () => .ready (.ok (.committed receipt))
  | .ok .aborted => .ready (.ok .aborted)
  | .ok .conflict => .ready (.ok .conflict)
  | .ok (.unknown transaction operationDigest) =>
    if transaction ≠ pending.transaction ∨ operationDigest ≠ pending.digest then
      .bail (.provider .storageCorrupt .storageCommit)
    else .frozen (.ok (.unknown transaction operationDigest))
  | .error e => if e.kind = .commitUnknown then .frozen (.error e) else .ready (.error e)

/-- The match of `reconcile` on the provider's answer. An aborted reconciliation
    contradicts a durable journal. -/
def reconcileDisposition (pending : PendingCommit) :
    Result ReconcileOutcome → Disposition ReconcileOutcome
  | .ok (.committed receipt) =>
    match validateReceipt pending receipt .storageReconcile with
    | .error e => .bail e
    | .ok () => .ready (.ok (.committed receipt))
  | .ok .aborted =>
    if pending.journalProven then .frozen (.error (.provider .storageCorrupt .storageReconcile))
    else .ready (.ok .aborted)
  | .ok .digestConflict => .frozen (.ok .digestConflict)
  | .ok .unknown => .frozen (.ok .unknown)
  | .error e => .frozen (.error e)

/-- The result `reconcile_if_frozen` makes of the result of its `reconcile`. -/
def reconcileIfFrozenResult : Result ReconcileOutcome → Result Unit
  | .ok (.committed _) => .ok ()
  | .ok .aborted => .ok ()
  | .ok .digestConflict => .error (.provider .storageCorrupt .storageReconcile)
  | .ok .unknown => .error (.provider .commitUnknown .storageReconcile)
  | .error e => .error e

/-- The report of a reconciliation, by the entry point it was started from. -/
def reconcileReport (ifFrozen : Bool) (result : Result ReconcileOutcome) : Report :=
  if ifFrozen then .reconcileIfFrozen (reconcileIfFrozenResult result) else .reconcile result

/-! ## Callers -/

/-- A caller's program counter. From `commitReady`/`reconcileReady` to its last
    step the caller holds the provider-call guard and its copy of the pending
    commit; `call` is the number of the provider call. -/
inductive Caller where
  | idle
  | enterCommit (identity : ReceiptIdentity)
  | commitReady (pending : PendingCommit)
  | committing (pending : PendingCommit) (call : Nat)
  | committed (pending : PendingCommit) (call : Nat) (answer : Result CommitOutcome)
  | checkFrozen
  | enterReconcile (ifFrozen : Bool)
  | reconcileReady (ifFrozen : Bool) (pending : PendingCommit)
  | reconciling (ifFrozen : Bool) (pending : PendingCommit) (call : Nat)
  | reconciled (ifFrozen : Bool) (pending : PendingCommit) (call : Nat)
      (answer : Result ReconcileOutcome)
  | dropping (pending : PendingCommit) (report : Report)
  | done (report : Report)
  deriving DecidableEq

namespace Caller

/-- The pending commit of the guard a caller holds. -/
def guard : Caller → Option PendingCommit
  | commitReady pending => some pending
  | committing pending _ => some pending
  | committed pending _ _ => some pending
  | reconcileReady _ pending => some pending
  | reconciling _ pending _ => some pending
  | reconciled _ pending _ _ => some pending
  | dropping pending _ => some pending
  | _ => none

/-- Whether a provider call of the caller is in flight. -/
def inFlight : Caller → Bool
  | committing _ _ => true
  | reconciling _ _ _ => true
  | _ => false

/-- Whether the caller can start a new operation. -/
def isIdle : Caller → Bool
  | idle => true
  | done _ => true
  | _ => false

end Caller

/-! ## The system -/

/-- A recorded event. `froze` marks the store leaving `Ready`, `frozeJournaled` an
    `Ok` of `freeze_journaled`. -/
inductive Event where
  | froze (identity : ReceiptIdentity)
  | frozeJournaled (identity : ReceiptIdentity)
  | commitCalled (call : Nat) (identity : ReceiptIdentity)
  | commitAnswered (call : Nat) (identity : ReceiptIdentity) (answer : Result CommitOutcome)
  | reconcileCalled (call : Nat) (identity : ReceiptIdentity)
  | reconcileAnswered (call : Nat) (identity : ReceiptIdentity) (answer : Result ReconcileOutcome)
  deriving DecidableEq

/-- A metadata store with its callers, indexed by `ι`. -/
structure Metadata (ι : Type) where
  state : CommitState
  callers : ι → Caller
  trace : List Event

namespace Metadata

variable {ι : Type} [DecidableEq ι]

/-- Move caller `i` to `c`. -/
def setCaller (s : Metadata ι) (i : ι) (c : Caller) : Metadata ι :=
  { s with callers := Function.update s.callers i c }

/-- The events `freeze_journaled` leaves when it returns `Ok`. -/
def freezeEvents (identity : ReceiptIdentity) : CommitState → List Event
  | .ready => [.frozeJournaled identity, .froze identity]
  | .frozen _ _ => [.frozeJournaled identity]

/-- The steps of caller `i`. -/
inductive Step (i : ι) : Metadata ι → Metadata ι → Prop where
  | startCommit {s} (identity : ReceiptIdentity) (hidle : (s.callers i).isIdle = true) :
      Step i s (s.setCaller i (.enterCommit identity))
  | startReconcile {s} (hidle : (s.callers i).isIdle = true) :
      Step i s (s.setCaller i (.enterReconcile false))
  | startReconcileIfFrozen {s} (hidle : (s.callers i).isIdle = true) :
      Step i s (s.setCaller i .checkFrozen)
  /-- `freeze_journaled` freezes a ready store or upgrades the same identity. -/
  | freezeJournaled {s} (identity : ReceiptIdentity) {state' : CommitState}
      (hidle : (s.callers i).isIdle = true)
      (hfreeze : Radiata.freezeJournaled identity s.state = .ok state') :
      Step i s { s.setCaller i (.done (.freezeJournaled (.ok ()))) with
        state := state', trace := freezeEvents identity s.state ++ s.trace }
  | freezeJournaledRefused {s} (identity : ReceiptIdentity) {e : Error}
      (hidle : (s.callers i).isIdle = true)
      (hfreeze : Radiata.freezeJournaled identity s.state = .error e) :
      Step i s (s.setCaller i (.done (.freezeJournaled (.error e))))
  /-- `begin_commit` takes the commit slot. -/
  | beginCommit {s} {identity : ReceiptIdentity} {state' : CommitState}
      (hpc : s.callers i = .enterCommit identity)
      (hbegin : Radiata.beginCommit ⟨identity.transaction, identity.operationDigest, false⟩ s.state
        = .ok state') :
      Step i s { s.setCaller i
          (.commitReady ⟨identity.transaction, identity.operationDigest, false⟩) with
        state := state', trace := .froze identity :: s.trace }
  /-- The refused caller sleeps and tries again. -/
  | retryCommit {s} {identity : ReceiptIdentity} {e : Error}
      (hpc : s.callers i = .enterCommit identity)
      (hbegin : Radiata.beginCommit ⟨identity.transaction, identity.operationDigest, false⟩ s.state
        = .error e) :
      Step i s s
  /-- The entry wait is over. -/
  | refuseCommit {s} {identity : ReceiptIdentity} {e : Error}
      (hpc : s.callers i = .enterCommit identity)
      (hbegin : Radiata.beginCommit ⟨identity.transaction, identity.operationDigest, false⟩ s.state
        = .error e) :
      Step i s (s.setCaller i (.done (.commit (.error e))))
  | callCommit {s} {pending : PendingCommit} (hpc : s.callers i = .commitReady pending) :
      Step i s { s.setCaller i (.committing pending s.trace.length) with
        trace := .commitCalled s.trace.length pending.identity :: s.trace }
  | answerCommit {s} {pending : PendingCommit} {call : Nat} (answer : Result CommitOutcome)
      (hpc : s.callers i = .committing pending call) :
      Step i s { s.setCaller i (.committed pending call answer) with
        trace := .commitAnswered call pending.identity answer :: s.trace }
  /-- `reconcile_if_frozen` finds the store ready. -/
  | checkReady {s} (hpc : s.callers i = .checkFrozen) (hstate : s.state = .ready) :
      Step i s (s.setCaller i (.done (.reconcileIfFrozen (.ok ()))))
  | checkFrozen {s} (hpc : s.callers i = .checkFrozen) (hstate : s.state ≠ .ready) :
      Step i s (s.setCaller i (.enterReconcile true))
  | beginReconcile {s} {ifFrozen : Bool} {pending : PendingCommit} {state' : CommitState}
      (hpc : s.callers i = .enterReconcile ifFrozen)
      (hbegin : Radiata.beginReconcile s.state = .ok (pending, state')) :
      Step i s { s.setCaller i (.reconcileReady ifFrozen pending) with state := state' }
  | retryReconcile {s} {ifFrozen : Bool} {e : Error} (hpc : s.callers i = .enterReconcile ifFrozen)
      (hbegin : Radiata.beginReconcile s.state = .error e) :
      Step i s s
  | refuseReconcile {s} {ifFrozen : Bool} {e : Error} (hpc : s.callers i = .enterReconcile ifFrozen)
      (hbegin : Radiata.beginReconcile s.state = .error e) :
      Step i s (s.setCaller i (.done (reconcileReport ifFrozen (.error e))))
  | callReconcile {s} {ifFrozen : Bool} {pending : PendingCommit}
      (hpc : s.callers i = .reconcileReady ifFrozen pending) :
      Step i s { s.setCaller i (.reconciling ifFrozen pending s.trace.length) with
        trace := .reconcileCalled s.trace.length pending.identity :: s.trace }
  | answerReconcile {s} {ifFrozen : Bool} {pending : PendingCommit} {call : Nat}
      (answer : Result ReconcileOutcome) (hpc : s.callers i = .reconciling ifFrozen pending call) :
      Step i s { s.setCaller i (.reconciled ifFrozen pending call answer) with
        trace := .reconcileAnswered call pending.identity answer :: s.trace }
  /-- `finish_ready` -/
  | finishReadyCommit {s} {pending : PendingCommit} {call : Nat} {answer : Result CommitOutcome}
      {result : Result CommitOutcome} (hpc : s.callers i = .committed pending call answer)
      (hdisp : commitDisposition pending answer = .ready result) :
      Step i s { s.setCaller i (.done (.commit result)) with state := .ready }
  | finishReadyReconcile {s} {ifFrozen : Bool} {pending : PendingCommit} {call : Nat}
      {answer : Result ReconcileOutcome} {result : Result ReconcileOutcome}
      (hpc : s.callers i = .reconciled ifFrozen pending call answer)
      (hdisp : reconcileDisposition pending answer = .ready result) :
      Step i s { s.setCaller i (.done (reconcileReport ifFrozen result)) with state := .ready }
  /-- `finish_frozen` -/
  | finishFrozenCommit {s} {pending : PendingCommit} {call : Nat} {answer : Result CommitOutcome}
      {result : Result CommitOutcome} {state' : CommitState}
      (hpc : s.callers i = .committed pending call answer)
      (hdisp : commitDisposition pending answer = .frozen result)
      (hfinish : finishFrozen s.state = .ok state') :
      Step i s { s.setCaller i (.done (.commit result)) with state := state' }
  | finishFrozenReconcile {s} {ifFrozen : Bool} {pending : PendingCommit} {call : Nat}
      {answer : Result ReconcileOutcome} {result : Result ReconcileOutcome} {state' : CommitState}
      (hpc : s.callers i = .reconciled ifFrozen pending call answer)
      (hdisp : reconcileDisposition pending answer = .frozen result)
      (hfinish : finishFrozen s.state = .ok state') :
      Step i s { s.setCaller i (.done (reconcileReport ifFrozen result)) with state := state' }
  /-- `finish_frozen` on a store that is not frozen: the error drops the guard. -/
  | finishFrozenCommitFailed {s} {pending : PendingCommit} {call : Nat}
      {answer : Result CommitOutcome} {result : Result CommitOutcome} {e : Error}
      (hpc : s.callers i = .committed pending call answer)
      (hdisp : commitDisposition pending answer = .frozen result)
      (hfinish : finishFrozen s.state = .error e) :
      Step i s (s.setCaller i (.dropping pending (.commit (.error e))))
  | finishFrozenReconcileFailed {s} {ifFrozen : Bool} {pending : PendingCommit} {call : Nat}
      {answer : Result ReconcileOutcome} {result : Result ReconcileOutcome} {e : Error}
      (hpc : s.callers i = .reconciled ifFrozen pending call answer)
      (hdisp : reconcileDisposition pending answer = .frozen result)
      (hfinish : finishFrozen s.state = .error e) :
      Step i s (s.setCaller i (.dropping pending (reconcileReport ifFrozen (.error e))))
  /-- An early return on a mismatched answer drops the guard. -/
  | bailCommit {s} {pending : PendingCommit} {call : Nat} {answer : Result CommitOutcome}
      {e : Error} (hpc : s.callers i = .committed pending call answer)
      (hdisp : commitDisposition pending answer = .bail e) :
      Step i s (s.setCaller i (.dropping pending (.commit (.error e))))
  | bailReconcile {s} {ifFrozen : Bool} {pending : PendingCommit} {call : Nat}
      {answer : Result ReconcileOutcome} {e : Error}
      (hpc : s.callers i = .reconciled ifFrozen pending call answer)
      (hdisp : reconcileDisposition pending answer = .bail e) :
      Step i s (s.setCaller i (.dropping pending (reconcileReport ifFrozen (.error e))))
  /-- The caller's future is dropped while it holds no guard. -/
  | cancel {s} (hpc : (s.callers i).guard = none) :
      Step i s (s.setCaller i (.done .cancelled))
  /-- The caller's future is dropped while it holds the guard. -/
  | cancelCall {s} {pending : PendingCommit} (hpc : (s.callers i).guard = some pending) :
      Step i s (s.setCaller i (.dropping pending .cancelled))
  /-- `ProviderCall::drop` -/
  | dropGuard {s} {pending : PendingCommit} {report : Report}
      (hpc : s.callers i = .dropping pending report) :
      Step i s { s.setCaller i (.done report) with state := dropProviderCall s.state }

/-- A freshly opened store: ready (`open`), or frozen on a recovered identity
    (`open_recovered`, `open_pending_recovered`), with no call in flight. -/
def Opened (s : Metadata ι) : Prop :=
  (∀ i, s.callers i = .idle) ∧
    ((s.state = .ready ∧ s.trace = []) ∨
      ∃ pending, s.state = .frozen pending false ∧ s.trace = [.froze pending.identity])

/-- The metadata store under any number of concurrent callers. -/
def system (ι : Type) [DecidableEq ι] : TransitionSystem (Metadata ι) where
  init := Opened
  next := fun s t => ∃ i, Step i s t

end Metadata

end Radiata
