import Radiata.ForStd.System
import Radiata.Native.Reference

/-!
# Conditional writers

The pattern shared by the register and descriptor stores (`src/resource/store.rs`,
`src/membership.rs`, `snapshot_expectation` in `src/provider.rs`): a call reads one snapshot,
decides on it, and either answers or puts one value under one key, conditional on the
revision and on the value of the key in that snapshot.

Any number of calls run on one store. A step is the read of one call with its decision, or
one commit; the store is the reference store. A commit whose answer is lost may or may not
have taken effect. Other transactions of the node leave the keys of these calls alone.
Transaction ids are generated at random; a new id has not been used before.

The loops that apply a page (`apply_page_ctx` of `src/resource/page.rs` and
`src/membership/page.rs`) test each item on a snapshot of its own and then make one call for
it. An `Aborted` commit counts as installed in the membership loop alone; no store of the
repository answers it.
-/

namespace Radiata

variable [DnsName]

/-- What a call decides on a snapshot. -/
inductive PutDecision (ω : Type) where
  | answer (outcome : ω)
  | put (key : EntryKey) (value : StoreValue)

/-- How a call ended. -/
inductive PutOutcome (ω : Type) where
  | answered (outcome : ω)
  | installed (receipt : CommitReceipt)
  | conflicted
  | aborted
  | indeterminate
  | failed (error : Error)

/-- The call has come to its decision and, if that was a put, made it. -/
def PutOutcome.isSettled {ω : Type} : PutOutcome ω → Bool
  | .answered _ => true
  | .installed _ => true
  | _ => false

/-- The program counter of a call. -/
inductive PutCall (γ ω : Type) where
  | started (operation : γ)
  | prepared (operation : γ) (transaction : StoreTransaction)
  | finished (operation : γ) (outcome : PutOutcome ω)

def PutCall.operation {γ ω : Type} : PutCall γ ω → γ
  | .started operation => operation
  | .prepared operation _ => operation
  | .finished operation _ => operation

/-- `snapshot_expectation` -/
def snapshotExpectation (snapshot : StoreSnapshot) (key : EntryKey) : StoreExpectation :=
  match snapshot.entries.get key with
  | some current => .exact current.digest
  | none => .absent

/-- The transaction of a conditional put. -/
def conditionalPut (snapshot : StoreSnapshot) (id : TransactionId) (key : EntryKey)
    (value : StoreValue) : Result PreparedTransaction :=
  prepareTransaction id snapshot.revision
    [.put key.namespaceTag key.key (snapshotExpectation snapshot key) value]

/-- What the answer of the store makes of a call. -/
def commitAnswer {ω : Type} : Result CommitOutcome → PutOutcome ω
  | .ok (.committed receipt) => .installed receipt
  | .ok .aborted => .aborted
  | .ok .conflict => .conflicted
  | .ok (.unknown _ _) => .indeterminate
  | .error error => .failed error

/-- A family of calls: what each decides, and the keys it may put. The keys are outside the
    namespace of the receipts. -/
structure PutProtocol (γ ω : Type) where
  decide : γ → Entries → Result (PutDecision ω)
  owned : EntryKey → Prop
  external : ∀ key, owned key → key.namespaceTag.asStr ≠ internalNamespaceText
  puts : ∀ operation entries key value, decide operation entries = .ok (.put key value) → owned key

/-- A store with the calls on it. -/
structure PutSystem (γ ω : Type) where
  store : ReferenceState
  calls : List (PutCall γ ω)

namespace PutSystem

variable {γ ω : Type}

def setCall (s : PutSystem γ ω) (i : Nat) (call : PutCall γ ω) : PutSystem γ ω :=
  { s with calls := s.calls.set i call }

/-- The operations of all calls so far. -/
def operations (s : PutSystem γ ω) : List γ := s.calls.map PutCall.operation

/-- A call of the operation has been settled. -/
def Delivered (s : PutSystem γ ω) (operation : γ) : Prop :=
  ∃ (i : Nat) (outcome : PutOutcome ω),
    s.calls[i]? = some (.finished operation outcome) ∧ outcome.isSettled = true

/-- The id is in no receipt and in no transaction under way. -/
def Unused (s : PutSystem γ ω) (id : TransactionId) : Prop :=
  s.store.receipts.get id = none ∧
    ∀ operation transaction, .prepared operation transaction ∈ s.calls → transaction.id ≠ id

/-- What a call goes on with after it has read the store. -/
def afterRead (protocol : PutProtocol γ ω) (store : ReferenceState) (operation : γ)
    (id : TransactionId) : PutCall γ ω :=
  match protocol.decide operation store.entries with
  | .error error => .finished operation (.failed error)
  | .ok (.answer outcome) => .finished operation (.answered outcome)
  | .ok (.put key value) =>
    match conditionalPut store.snapshot id key value with
    | .error error => .finished operation (.failed error)
    | .ok prepared => .prepared operation prepared.transaction

/-- The steps of the calls under way and of the rest of the node. -/
inductive Work (protocol : PutProtocol γ ω) (s : PutSystem γ ω) : PutSystem γ ω → Prop where
  | read (i : Nat) (operation : γ) (id : TransactionId) :
      s.calls[i]? = some (.started operation) → s.Unused id →
      Work protocol s (s.setCall i (afterRead protocol s.store operation id))
  | commit (i : Nat) (operation : γ) (transaction : StoreTransaction) :
      s.calls[i]? = some (.prepared operation transaction) →
      Work protocol s { s.setCall i (.finished operation
          (commitAnswer (s.store.commit transaction).1)) with
        store := (s.store.commit transaction).2 }
  /-- The answer of a commit is lost, and the commit may be lost as well. -/
  | lost (i : Nat) (operation : γ) (transaction : StoreTransaction) (effective : Bool) :
      s.calls[i]? = some (.prepared operation transaction) →
      Work protocol s { s.setCall i (.finished operation .indeterminate) with
        store := if effective then (s.store.commit transaction).2 else s.store }
  /-- A transaction of another part of the node. -/
  | other (transaction : StoreTransaction) :
      (∀ operation ∈ transaction.operations, ∀ key, protocol.owned key →
        operation.identity ≠ .key key) → s.Unused transaction.id →
      Work protocol s { s with store := (s.store.commit transaction).2 }

/-- A new call. -/
def start (s : PutSystem γ ω) (operation : γ) : PutSystem γ ω :=
  { s with calls := s.calls ++ [.started operation] }

end PutSystem

/-! ## Pages -/

/-- The loop over a received page: what it does before and after the call for an item. -/
structure PageProtocol (γ ω : Type) extends PutProtocol γ ω where
  /-- The calls other parts of the node make. -/
  issued : γ → Prop
  /-- The test on a snapshot of its own that lets an item through. -/
  admits : γ → Entries → Bool
  /-- The outcomes the loop reports as applied. -/
  counts : PutOutcome ω → Bool
  /-- The outcomes that end the loop with an error. -/
  stops : PutOutcome ω → Bool

/-- The loop over one page. -/
structure PageTask (γ : Type) where
  page : List γ
  /-- The items from the present one on. -/
  rest : List γ
  /-- The call that the loop waits for. -/
  waiting : Option Nat
  /-- The items that were not let through. -/
  skipped : List γ
  applied : List γ
  stopped : Bool

def PageTask.receive {γ : Type} (page : List γ) : PageTask γ := ⟨page, page, none, [], [], false⟩

/-- The loop after an item that was not let through. -/
def PageTask.skip {γ : Type} (task : PageTask γ) (item : γ) (rest : List γ) : PageTask γ :=
  { task with rest := rest, skipped := task.skipped ++ [item] }

/-- The loop after the call for an item. -/
def PageTask.resume {γ ω : Type} (task : PageTask γ) (protocol : PageProtocol γ ω) (item : γ)
    (rest : List γ) (outcome : PutOutcome ω) : PageTask γ where
  page := task.page
  rest := rest
  waiting := none
  skipped := task.skipped
  applied := if protocol.counts outcome then task.applied ++ [item] else task.applied
  stopped := protocol.stops outcome

/-- A store with the calls on it and the pages being applied to it. -/
structure PageSystem (γ ω : Type) where
  system : PutSystem γ ω
  tasks : List (PageTask γ)

namespace PageSystem

variable {γ ω : Type}

/-- The steps of a node that applies pages. -/
inductive Step (protocol : PageProtocol γ ω) (s : PageSystem γ ω) : PageSystem γ ω → Prop where
  | start (operation : γ) : protocol.issued operation →
      Step protocol s { s with system := s.system.start operation }
  | work (system : PutSystem γ ω) : PutSystem.Work protocol.toPutProtocol s.system system →
      Step protocol s { s with system }
  | receive (page : List γ) : Step protocol s { s with tasks := s.tasks ++ [.receive page] }
  | skip (k : Nat) (task : PageTask γ) (item : γ) (rest : List γ) :
      s.tasks[k]? = some task → task.stopped = false → task.waiting = none →
      task.rest = item :: rest → protocol.admits item s.system.store.entries = false →
      Step protocol s { s with tasks := s.tasks.set k (task.skip item rest) }
  | call (k : Nat) (task : PageTask γ) (item : γ) (rest : List γ) :
      s.tasks[k]? = some task → task.stopped = false → task.waiting = none →
      task.rest = item :: rest → protocol.admits item s.system.store.entries = true →
      Step protocol s
        { system := s.system.start item
          tasks := s.tasks.set k { task with waiting := some s.system.calls.length } }
  | resume (k : Nat) (task : PageTask γ) (i : Nat) (item : γ) (rest : List γ)
      (outcome : PutOutcome ω) :
      s.tasks[k]? = some task → task.waiting = some i → task.rest = item :: rest →
      s.system.calls[i]? = some (.finished item outcome) →
      Step protocol s { s with tasks := s.tasks.set k (task.resume protocol item rest outcome) }

/-- The runs from a store. -/
def runs (protocol : PageProtocol γ ω) (origin : ReferenceState) :
    TransitionSystem (PageSystem γ ω) where
  init := fun s => s = ⟨⟨origin, []⟩, []⟩
  next := Step protocol

end PageSystem

end Radiata
