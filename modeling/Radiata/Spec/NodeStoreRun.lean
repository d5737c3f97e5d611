import Radiata.Native.NodeStore

/-!
# Runs of store programs

How a program over the store gets from one point to the next when nothing else happens meanwhile.
These rules build the runs in which operations meet.

## Key results

- `Leads.andThen`, `Leads.bind`: a run of a sequence
- `leads_commitRecords`, `leads_commitRecords_unknown`: a commit
- `leads_reconcileRecords`: a reconciliation, of whichever transaction the store is frozen on
-/

namespace Radiata

open NodeM

/-- The program gets to `q` by calls of its own, with answers that `ok` admits. -/
def Leads {α : Type} (ok : (call : NodeCall) → NodeStore → call.Answer → Prop) (p : NodeM α)
    (s : NodeStore) (q : NodeM α) (t : NodeStore) : Prop :=
  Prog.Runs (fun call s answer t => ok call s answer ∧ call.answers s answer t) p.run s q.run t

/-- Every answer. -/
def AnyAnswer : (call : NodeCall) → NodeStore → call.Answer → Prop := fun _ _ _ => True

section Leads

variable {α β : Type} {ok : (call : NodeCall) → NodeStore → call.Answer → Prop}

theorem Leads.refl (p : NodeM α) (s : NodeStore) : Leads ok p s p s := Prog.Runs.refl _ _

variable {s t : NodeStore}

variable {p : NodeM α}

theorem Leads.trans {q r : NodeM α} {u : NodeStore} (hpq : Leads ok p s q t)
    (hqr : Leads ok q t r u) : Leads ok p s r u := Prog.Runs.trans hpq hqr

theorem Leads.bind {q : NodeM α} (h : Leads ok p s q t) (f : α → NodeM β) :
    Leads ok (p >>= f) s (q >>= f) t := Prog.Runs.bind h _

/-- The first part ends with a value. -/
theorem Leads.andThen {value : α} {f : α → NodeM β} {q : NodeM β} {u : NodeStore}
    (hp : Leads ok p s (pure value) t) (hf : Leads ok (f value) t q u) :
    Leads ok (p >>= f) s q u := (hp.bind f).trans hf

/-- The first part ends with an error. -/
theorem Leads.fail {p : NodeM α} {error : Error} (hp : Leads ok p s (throw error) t)
    (f : α → NodeM β) : Leads ok (p >>= f) s (throw error) t := hp.bind f

/-- The result of a program as a value. -/
theorem Leads.lift {result : Result α} (hp : Leads ok p s (ofResult result) t) :
    Leads ok (ExceptT.lift p.run) s (pure result) t := Prog.Runs.bind hp _

theorem leads_ofResult {result : Result α} {value : α} (h : result = .ok value) (s : NodeStore) :
    Leads ok (ofResult result) s (pure value) s := by
  subst h
  exact .refl _ _

/-- A call of the program. -/
theorem leads_perform (call : NodeCall) {answer : call.Answer} (hok : ok call s answer)
    (h : call.answers s answer t) :
    Prog.Runs (fun call s answer t => ok call s answer ∧ call.answers s answer t) call.perform s
      (pure answer) t := .call ⟨hok, h⟩ (.refl _ _)

theorem leads_lift (call : NodeCall) {answer : call.Answer} (hok : ok call s answer)
    (h : call.answers s answer t) :
    Leads ok (ExceptT.lift call.perform) s (pure answer) t := Prog.Runs.bind (leads_perform call hok h) _

theorem leads_snapshot (s : NodeStore) (hok : ok .snapshot s (.ok s.disk.store)) :
    Leads ok snapshot s (pure s.disk.store) s := leads_perform .snapshot hok ⟨rfl, Or.inl rfl⟩

theorem leads_prepare {id : TransactionId} {base : Nat} {actions : List RecordAction}
    {journal : Option JournalPurpose}
    (hok : ok (.prepare base actions journal) s (.ok (prepared id base actions journal)))
    (hfresh : ∀ transaction ∈ s.disk.prepared, transaction.id ≠ id)
    (hkeys : (prepared id base actions journal).batch.keys.Nodup) :
    Leads ok (prepare base actions journal) s (pure (prepared id base actions journal))
      { s with disk := { s.disk with
        prepared := prepared id base actions journal :: s.disk.prepared } } :=
  leads_perform (.prepare base actions journal) hok (Or.inr ⟨id, hfresh, hkeys, rfl, rfl⟩)

theorem leads_sign {handle : KeyHandle} {message : Bytes} (signature : Signature)
    (hok : ok (.sign handle message) s (.ok signature)) :
    Leads ok (sign handle message) s (pure signature) s := leads_perform (.sign handle message) hok rfl

theorem leads_isReady (hok : ok .isReady s (decide (s.slot = .ready))) :
    Leads ok isReady s (pure (decide (s.slot = .ready))) s :=
  leads_lift .isReady hok ⟨rfl, rfl⟩

end Leads

/-! ## Commits -/

section Commit

variable {ok : (call : NodeCall) → NodeStore → call.Answer → Prop}

theorem leads_beginCommit {disk : Disk} {id : TransactionId}
    (hok : ok (.beginCommit id) ⟨.ready, disk⟩ (.ok ())) :
    Leads ok (NodeM.beginCommit id) ⟨.ready, disk⟩ (pure ()) ⟨.frozen id false true, disk⟩ :=
  leads_perform (.beginCommit id) hok ⟨rfl, rfl⟩

theorem leads_providerCommit {slot : CommitSlot} {disk disk' : Disk}
    {transaction : RecordTransaction} {answer : Option (Result StoreOutcome)}
    (hok : ok (.providerCommit transaction) ⟨slot, disk⟩ answer)
    (h : disk.Commits transaction answer disk') :
    Leads ok (providerCommit transaction) ⟨slot, disk⟩ (pure answer) ⟨slot, disk'⟩ :=
  leads_lift (.providerCommit transaction) hok ⟨rfl, h⟩

theorem leads_finishReady {slot : CommitSlot} {disk : Disk} (hok : ok .finishReady ⟨slot, disk⟩ ()) :
    Leads ok finishReady ⟨slot, disk⟩ (pure ()) ⟨.ready, disk⟩ :=
  leads_lift .finishReady hok rfl

theorem leads_finishFrozenSlot {disk : Disk} {id : TransactionId} {journalProven active : Bool}
    (hok : ok .finishFrozen ⟨.frozen id journalProven active, disk⟩ (.ok ())) :
    Leads ok finishFrozenSlot ⟨.frozen id journalProven active, disk⟩ (pure ())
      ⟨.frozen id journalProven false, disk⟩ :=
  (leads_lift .finishFrozen hok ⟨rfl, rfl⟩).andThen (.refl _ _)

/-- The answers to the calls of one commit or reconciliation are admitted. -/
structure AdmitsStore (ok : (call : NodeCall) → NodeStore → call.Answer → Prop) : Prop where
  snapshot : ∀ s, ok .snapshot s (.ok s.disk.store)
  prepare : ∀ base actions journal s transaction,
    ok (.prepare base actions journal) s (.ok transaction)
  beginCommit : ∀ id s, ok (.beginCommit id) s (.ok ())
  providerCommit : ∀ transaction s outcome, ok (.providerCommit transaction) s (some (.ok outcome))
  beginReconcile : ∀ s answer, ok (.beginReconcile none) s answer
  providerReconcile : ∀ id s outcome, ok (.providerReconcile id) s (some (.ok outcome))
  finishReady : ∀ s, ok .finishReady s ()
  finishFrozen : ∀ s, ok .finishFrozen s (.ok ())
  isReady : ∀ s answer, ok .isReady s answer

theorem admitsStore_anyAnswer : AdmitsStore AnyAnswer := by
  constructor <;> intros <;> trivial

variable (hok : AdmitsStore ok) {disk disk' : Disk} {transaction : RecordTransaction}
include hok

/-- A commit whose outcome is known. -/
theorem leads_commitRecords {outcome : StoreOutcome}
    (h : disk.Commits transaction (some (.ok outcome)) disk') (hknown : outcome ≠ .unknown) :
    Leads ok (commitRecords transaction) ⟨.ready, disk⟩ (pure outcome) ⟨.ready, disk'⟩ := by
  refine (leads_beginCommit (hok.beginCommit _ _)).andThen ?_
  refine (leads_providerCommit (hok.providerCommit _ _ _) h).andThen ?_
  cases outcome with
  | unknown => exact absurd rfl hknown
  | committed | aborted | conflict =>
    exact (leads_finishReady (hok.finishReady _)).andThen (.refl _ _)

/-- A commit whose outcome is unknown freezes the store. -/
theorem leads_commitRecords_unknown (h : disk.Commits transaction (some (.ok .unknown)) disk') :
    Leads ok (commitRecords transaction) ⟨.ready, disk⟩ (pure .unknown)
      ⟨.frozen transaction.id false false, disk'⟩ := by
  refine (leads_beginCommit (hok.beginCommit _ _)).andThen ?_
  refine (leads_providerCommit (hok.providerCommit _ _ _) h).andThen ?_
  exact (leads_finishFrozenSlot (hok.finishFrozen _)).andThen (.refl _ _)

variable {pending : TransactionId}

/-- A reconciliation answers for the transaction the store is frozen on. -/
theorem leads_reconcileRecords {own : Option TransactionId} {outcome : StoreReconcile}
    (hbegin : ok (.beginReconcile own) ⟨.frozen pending false false, disk⟩ (.ok (pending, false)))
    (h : disk.Reconciles pending (some (.ok outcome)))
    (hknown : outcome = .committed ∨ outcome = .aborted) :
    Leads ok (reconcileRecords own) ⟨.frozen pending false false, disk⟩ (pure outcome)
      ⟨.ready, disk⟩ := by
  have hstart : Leads ok (NodeM.beginReconcile own) ⟨.frozen pending false false, disk⟩
      (pure (pending, false)) ⟨.frozen pending false true, disk⟩ :=
    leads_perform (.beginReconcile own) hbegin ⟨rfl, rfl⟩
  have hask : Leads ok (providerReconcile pending) ⟨.frozen pending false true, disk⟩
      (pure (some (.ok outcome))) ⟨.frozen pending false true, disk⟩ :=
    leads_lift (.providerReconcile pending) (hok.providerReconcile _ _ _) ⟨rfl, h⟩
  refine hstart.andThen (hask.andThen ?_)
  rcases hknown with rfl | rfl
  · exact (leads_finishReady (hok.finishReady _)).andThen (.refl _ _)
  · exact (leads_finishReady (hok.finishReady _)).andThen (.refl _ _)

/-! ## The journal -/

variable {purpose : JournalPurpose}

omit hok in
theorem leads_recoverPending_none {s : NodeStore} (hsnapshot : ok .snapshot s (.ok s.disk.store))
    (hnone : s.disk.store.lookup (.pendingTransaction purpose) = none) :
    Leads ok (recoverPending purpose) s (pure none) s := by
  refine (leads_snapshot s hsnapshot).andThen ?_
  rw [hnone]
  exact .refl _ _

/-- Nothing is to be recovered. -/
theorem leads_recoverJournalPrologue {context : String}
    (hnone : disk.store.lookup (.pendingTransaction purpose) = none) :
    Leads ok (recoverJournalPrologue purpose context) ⟨.ready, disk⟩ (pure false)
      ⟨.ready, disk⟩ := by
  refine (leads_recoverPending_none (hok.snapshot _) hnone).andThen ?_
  have hready : Leads ok reconcileFrozen ⟨.ready, disk⟩ (pure ()) ⟨.ready, disk⟩ :=
    (leads_isReady (hok.isReady _ _)).andThen (.refl _ _)
  exact hready.andThen (.refl _ _)

/-- The store is frozen on the transaction of another operation. -/
theorem leads_recoverJournalPrologue_frozen {context : String} {outcome : StoreReconcile}
    (hnone : disk.store.lookup (.pendingTransaction purpose) = none)
    (h : disk.Reconciles pending (some (.ok outcome)))
    (hknown : outcome = .committed ∨ outcome = .aborted) :
    Leads ok (recoverJournalPrologue purpose context) ⟨.frozen pending false false, disk⟩
      (pure false) ⟨.ready, disk⟩ := by
  refine (leads_recoverPending_none (hok.snapshot _) hnone).andThen ?_
  have hfrozen : Leads ok reconcileFrozen ⟨.frozen pending false false, disk⟩ (pure ())
      ⟨.ready, disk⟩ := by
    refine (leads_isReady (hok.isReady _ _)).andThen ?_
    refine (leads_reconcileRecords hok (hok.beginReconcile _ _) h hknown).andThen ?_
    rcases hknown with rfl | rfl <;> exact .refl _ _
  exact hfrozen.andThen (.refl _ _)

omit hok in
theorem leads_cleanupPendingExact_absent {context : String} {s : NodeStore}
    (hsnapshot : ok .snapshot s (.ok s.disk.store))
    (hnone : s.disk.store.lookup (.pendingTransaction purpose) = none) :
    Leads ok (cleanupPendingExact purpose context) s (pure ()) s := by
  have hcleanup : Leads ok (cleanupJournal purpose) s (pure .absent) s := by
    refine (leads_snapshot s hsnapshot).andThen ?_
    rw [hnone]
    exact .refl _ _
  exact hcleanup.andThen (.refl _ _)

/-- The transaction that removes a journal record. -/
def cleanupTransaction (disk : Disk) (purpose : JournalPurpose) (pending id : TransactionId) :
    RecordTransaction :=
  prepared id disk.store.revision
    [.delete (.pendingTransaction purpose) (.pendingTransaction pending)] none

/-- The journal record is removed. -/
theorem leads_cleanupPendingExact (purpose : JournalPurpose) (context : String)
    (id : TransactionId)
    (hlookup : disk.store.lookup (.pendingTransaction purpose) = some (.pendingTransaction pending))
    (hfresh : ∀ transaction ∈ disk.prepared, transaction.id ≠ id)
    (hsound : ∀ transaction ∈ disk.receipts, transaction ∈ disk.prepared)
    (htransaction : transaction = cleanupTransaction disk purpose pending id)
    (hdisk : disk' = { disk with prepared := transaction :: disk.prepared }) :
    Leads ok (cleanupPendingExact purpose context) ⟨.ready, disk⟩ (pure ())
      ⟨.ready, disk'.applied transaction⟩ := by
  subst hdisk htransaction
  set transaction := cleanupTransaction disk purpose pending id
  set ready : Disk := { disk with prepared := transaction :: disk.prepared }
  have hcommits : ready.Commits transaction (some (.ok .committed)) (ready.applied transaction) := by
    refine .applied _ ?_ ?_ (Or.inl rfl)
    · intro hmem
      exact hfresh transaction (hsound transaction hmem) rfl
    · refine Store.accepts_iff.mpr ⟨rfl, fun action haction => ?_⟩
      cases List.mem_singleton.mp haction
      exact hlookup
  have hcleanup : Leads ok (cleanupJournal purpose) ⟨.ready, disk⟩ (pure .applied)
      ⟨.ready, ready.applied transaction⟩ := by
    refine (leads_snapshot _ (hok.snapshot _)).andThen ?_
    rw [show NodeStore.disk ⟨.ready, disk⟩ = disk from rfl, hlookup]
    refine (leads_ofResult rfl _).andThen ?_
    have hkeys : transaction.batch.keys.Nodup := List.nodup_singleton _
    refine (leads_prepare (hok.prepare _ _ _ _ _) hfresh hkeys).andThen ?_
    exact (leads_commitRecords hok hcommits nofun).andThen (.refl _ _)
  exact hcleanup.andThen (.refl _ _)

end Commit

end Radiata
