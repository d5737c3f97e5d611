import Radiata.Native.NodeStore

/-!
# Contracts of the metadata store

What concurrent operations do to the durable store is stated once: an invariant of the disk and a
preorder along which it moves. A triple says what a program does to the disk under these, whatever
the others do meanwhile.

## Key results

- `Evolution.Triple`: a program over the store, with assertions about the disk
- `Evolution.triple_commitRecords`, `Evolution.triple_reconcileRecords`
- `Evolution.triple_commitWithReconcile`: a commit that is reported was applied
-/

namespace Radiata

open Prog

namespace Disk

/-- The store moves on. -/
structure Later (d e : Disk) : Prop where
  revision : d.store.revision ≤ e.store.revision
  same : d.store.revision = e.store.revision → e.store = d.store
  receipts : ∀ transaction ∈ d.receipts, transaction ∈ e.receipts
  prepared : ∀ transaction ∈ d.prepared, transaction ∈ e.prepared

theorem Later.refl (d : Disk) : Later d d := ⟨Nat.le_refl _, fun _ => rfl, fun _ h => h, fun _ h => h⟩

theorem Later.trans {d e f : Disk} (hde : Later d e) (hef : Later e f) : Later d f := by
  refine ⟨Nat.le_trans hde.revision hef.revision, fun heq => ?_,
    fun transaction h => hef.receipts _ (hde.receipts _ h),
    fun transaction h => hef.prepared _ (hde.prepared _ h)⟩
  have hle := hde.revision
  have hle' := hef.revision
  rw [hef.same (by omega), hde.same (by omega)]

/-- Prepared transactions have distinct ids, and only prepared ones are applied. -/
structure Sound (d : Disk) : Prop where
  ids : ∀ transaction ∈ d.prepared, ∀ other ∈ d.prepared, transaction.id = other.id →
    transaction = other
  receipts : ∀ transaction ∈ d.receipts, transaction ∈ d.prepared
  keys : ∀ transaction ∈ d.prepared, transaction.batch.keys.Nodup

/-- A further transaction is prepared. -/
def prepare (d : Disk) (transaction : RecordTransaction) : Disk :=
  { d with prepared := transaction :: d.prepared }

variable {transaction : RecordTransaction}

theorem Sound.prepare {d : Disk} (h : d.Sound)
    (hfresh : ∀ other ∈ d.prepared, other.id ≠ transaction.id)
    (hkeys : transaction.batch.keys.Nodup) : (d.prepare transaction).Sound := by
  refine ⟨fun a ha b hb hid => ?_, fun a ha => List.mem_cons_of_mem _ (h.receipts a ha),
    fun a ha => ?_⟩
  · rcases List.mem_cons.mp ha with rfl | hold
    · rcases List.mem_cons.mp hb with rfl | hold'
      · rfl
      · exact absurd hid.symm (hfresh b hold')
    · rcases List.mem_cons.mp hb with rfl | hold'
      · exact absurd hid (hfresh a hold)
      · exact h.ids a hold b hold' hid
  · rcases List.mem_cons.mp ha with rfl | ha
    · exact hkeys
    · exact h.keys a ha

theorem Later.prepare (d : Disk) (transaction : RecordTransaction) :
    Later d (d.prepare transaction) :=
  ⟨Nat.le_refl _, fun _ => rfl, fun _ h => h, fun _ h => List.mem_cons_of_mem _ h⟩

theorem Sound.applied {d : Disk} (h : d.Sound) (hprepared : transaction ∈ d.prepared) :
    (d.applied transaction).Sound := by
  refine ⟨h.ids, fun a ha => ?_, h.keys⟩
  rcases List.mem_cons.mp ha with rfl | ha
  · exact hprepared
  · exact h.receipts a ha

theorem Later.applied (d : Disk) (transaction : RecordTransaction) :
    Later d (d.applied transaction) := by
  refine ⟨Nat.le_succ _, fun heq => ?_, fun _ h => List.mem_cons_of_mem _ h, fun _ h => h⟩
  replace heq : d.store.revision = d.store.revision + 1 := heq
  omega

/-- A conforming commit leaves the disk or applies the transaction. -/
theorem Commits.cases {d e : Disk} {answer : Option (Result StoreOutcome)}
    (h : d.Commits transaction answer e) :
    e = d ∨ e = d.applied transaction ∧ d.store.accepts transaction.batch = true := by
  cases h with
  | replayed hmem => exact Or.inl rfl
  | refused => exact Or.inl rfl
  | applied answer hnew haccepts hanswer => exact Or.inr ⟨rfl, haccepts⟩
  | failed answer hanswer => exact Or.inl rfl

/-- A commit that is reported was applied. -/
theorem Commits.mem_receipts {d e : Disk} (h : d.Commits transaction (some (.ok .committed)) e) :
    transaction ∈ e.receipts := by
  cases h with
  | replayed hmem => exact hmem
  | applied answer hnew haccepts hanswer => exact List.mem_cons_self
  | failed answer hanswer => simp [Unsettled] at hanswer

end Disk

namespace NodeCall

/-- The call leaves the disk alone. -/
def isSilent : NodeCall → Bool
  | prepare _ _ _ => false
  | providerCommit _ => false
  | _ => true

theorem disk_of_answers {call : NodeCall} (hsilent : call.isSilent = true) {s t : NodeStore}
    {answer : call.Answer} (h : call.answers s answer t) : t.disk = s.disk := by
  cases call with
  | prepare base actions journal => cases hsilent
  | providerCommit transaction => cases hsilent
  | snapshot => rw [h.1]
  | beginCommit id | beginReconcile own =>
    simp only [answers] at h
    split at h <;> rw [h.2]
  | providerReconcile id => rw [h.1]
  | finishReady => rw [show t = _ from h]
  | finishFrozen =>
    simp only [answers] at h
    split at h <;> rw [h.2]
  | dropProviderCall =>
    simp only [answers] at h
    split at h <;> rw [h]
  | freezeJournaled id =>
    simp only [answers] at h
    split at h
    · rw [h.2]
    · split at h <;> rw [h.2]
  | isReady => rw [h.1]
  | generateNode | generateOperation | sign handle message | createKey operation
  | reconcileCreate operation | publicKey handle | deleteKey operation handle
  | reconcileDelete operation handle => rw [show t = s from h]

end NodeCall

/-- A transaction with the id was applied. -/
def Disk.HasReceipt (d : Disk) (id : TransactionId) : Prop :=
  ∃ transaction ∈ d.receipts, transaction.id = id

/-- A store frozen on a journal record is frozen on an applied transaction. -/
def NodeStore.Proven (s : NodeStore) : Prop :=
  ∀ id active, s.slot = .frozen id true active → s.disk.HasReceipt id

/-- The ids that a call freezes the store on are of applied transactions. -/
def NodeCall.proves : NodeCall → Disk → Prop
  | .freezeJournaled id, d => d.HasReceipt id
  | _, _ => True

theorem NodeStore.Proven.of_answers {call : NodeCall} (hsilent : call.isSilent = true)
    {s t : NodeStore} (hs : s.Proven) (hproves : call.proves s.disk) {answer : call.Answer}
    (h : call.answers s answer t) : t.Proven := by
  have hsame : t.slot = s.slot → t.Proven := by
    intro hslot id active hfrozen
    rw [NodeCall.disk_of_answers hsilent h]
    exact hs id active (hslot ▸ hfrozen)
  intro id active hfrozen
  have hdisk := NodeCall.disk_of_answers hsilent h
  rw [hdisk]
  cases call with
  | prepare base actions journal => cases hsilent
  | providerCommit transaction => cases hsilent
  | beginCommit other =>
    simp only [NodeCall.answers] at h
    split at h
    · rw [h.2] at hfrozen
      cases hfrozen
    · exact hdisk ▸ hsame (by rw [h.2]) id active hfrozen
  | beginReconcile own =>
    simp only [NodeCall.answers] at h
    split at h
    · rename_i other journalProven hslot
      rw [h.2] at hfrozen
      cases hfrozen
      exact hs id false hslot
    · exact hdisk ▸ hsame (by rw [h.2]) id active hfrozen
  | finishReady =>
    rw [show t = { s with slot := .ready } from h] at hfrozen
    cases hfrozen
  | finishFrozen =>
    simp only [NodeCall.answers] at h
    split at h
    · rename_i other journalProven wasActive hslot
      rw [h.2] at hfrozen
      cases hfrozen
      exact hs id wasActive hslot
    · exact hdisk ▸ hsame (by rw [h.2]) id active hfrozen
  | dropProviderCall =>
    simp only [NodeCall.answers] at h
    split at h
    · rename_i other journalProven wasActive hslot
      rw [h] at hfrozen
      cases hfrozen
      exact hs id wasActive hslot
    · exact hdisk ▸ hsame (by rw [h]) id active hfrozen
  | freezeJournaled other =>
    simp only [NodeCall.answers] at h
    split at h
    · rw [h.2] at hfrozen
      cases hfrozen
      exact hproves
    · split at h
      · rw [h.2] at hfrozen
        cases hfrozen
        exact hproves
      · exact hdisk ▸ hsame (by rw [h.2]) id active hfrozen
  | snapshot | providerReconcile other | isReady =>
    exact hdisk ▸ hsame (by rw [h.1]) id active hfrozen
  | generateNode | generateOperation | sign handle message | createKey operation
  | reconcileCreate operation | publicKey handle | deleteKey operation handle
  | reconcileDelete operation handle =>
    exact hdisk ▸ hsame (by rw [show t = s from h]) id active hfrozen

/-- An operation that asks for the outcome of its own transaction asks while the store is frozen on
    that transaction. -/
def NodeCall.AsksOwn : (call : NodeCall) → NodeStore → call.Answer → Prop
  | .beginReconcile (some own), s, _ => ∀ id journalProven,
      s.slot = .frozen id journalProven false → id = own
  | _, _, _ => True

/-- No answer reports corruption. -/
def NodeCall.Honest : (call : NodeCall) → NodeStore → call.Answer → Prop
  | .snapshot, _, .error error => error.kind ≠ .storageCorrupt
  | .prepare _ _ _, _, .error error => error.kind ≠ .storageCorrupt
  | .providerCommit _, _, some (.error error) => error.kind ≠ .storageCorrupt
  | .providerReconcile _, _, some (.error error) => error.kind ≠ .storageCorrupt
  | .sign _ _, _, .error error => error.kind ≠ .storageCorrupt
  | _, _, _ => True

/-! ## Evolutions -/

/-- An invariant of the disk, how it moves and what an operation itself does to it, the answers
    that are considered, the errors that may come of them, and what is asked when the provider is
    to delete a key. -/
structure Evolution where
  inv : Disk → Prop
  grows : Disk → Disk → Prop
  does : Disk → Disk → Prop
  considers : (call : NodeCall) → NodeStore → call.Answer → Prop
  tolerates : Error → Prop
  deletes : KeyOperationId → KeyHandle → Disk → Prop
  sound : ∀ d, inv d → d.Sound
  later : ∀ d e, grows d e → d.Later e
  refl : ∀ d, grows d d
  trans : ∀ d e f, grows d e → grows e f → grows d f
  does_grows : ∀ d e, does d e → grows d e
  does_refl : ∀ d, does d d
  prepare : ∀ d transaction, inv d → (∀ other ∈ d.prepared, other.id ≠ transaction.id) →
    transaction.batch.keys.Nodup → inv (d.prepare transaction) ∧ does d (d.prepare transaction)
  /-- A journal record names an applied transaction. -/
  journal : ∀ d, inv d → ∀ purpose stored, d.store.lookup (.pendingTransaction purpose) = some stored →
    ∃ id, stored = .pendingTransaction id ∧ d.HasReceipt id
  /-- A journal record may be removed. -/
  cleanup : ∀ d transaction purpose stored, inv d → transaction ∈ d.prepared →
    transaction.batch.actions = [.delete (.pendingTransaction purpose) stored] →
    d.store.accepts transaction.batch = true →
    inv (d.applied transaction) ∧ does d (d.applied transaction)
  /-- An operation that asks for the outcome of its own transaction asks while the store is frozen
      on it. -/
  own : ∀ own s id journalProven, considers (.beginReconcile (some own)) s (.ok (id, journalProven)) →
    s.slot = .frozen id journalProven false → id = own
  snapshotFault : ∀ s error, considers .snapshot s (.error error) → tolerates error
  prepareFault : ∀ base actions journal s error, considers (.prepare base actions journal) s
    (.error error) → tolerates error
  commitFault : ∀ transaction s error, considers (.providerCommit transaction) s
    (some (.error error)) → tolerates error
  reconcileFault : ∀ id s error, considers (.providerReconcile id) s (some (.error error)) →
    tolerates error
  slotFault : ∀ error : Error, error.kind = .notReady ∨ error.kind = .internal ∨
    error.kind = .cancelled ∨ error.kind = .commitUnknown ∨ error.kind = .conflict →
    tolerates error

namespace Evolution

variable {E : Evolution} {α β : Type}

/-- The invariant with the slot. -/
def Inv (E : Evolution) (s : NodeStore) : Prop := E.inv s.disk ∧ s.Proven

/-- The disk moves as the evolution says. -/
def moves (E : Evolution) (s t : NodeStore) : Prop :=
  E.Inv s → E.Inv t ∧ E.grows s.disk t.disk

/-- What an operation itself does. -/
def makes (E : Evolution) (s t : NodeStore) : Prop :=
  E.Inv s → E.Inv t ∧ E.does s.disk t.disk

def answers (E : Evolution) (call : NodeCall) (s : NodeStore) (answer : call.Answer)
    (t : NodeStore) : Prop :=
  E.considers call s answer ∧ call.answers s answer t

/-- What is asked of a call when it is made. -/
def asks (E : Evolution) : NodeCall → Disk → Prop
  | .deleteKey operation handle, d => E.deletes operation handle d
  | _, _ => True

def contract (E : Evolution) : Contract NodeCall NodeCall.Answer NodeStore where
  answers := E.answers
  rely := E.moves
  guarantee := E.makes
  permits := fun call s => E.Inv s → E.asks call s.disk

theorem moves_refl (s : NodeStore) : E.moves s s := fun h => ⟨h, E.refl _⟩

theorem moves_trans {s t u : NodeStore} (hst : E.moves s t) (htu : E.moves t u) : E.moves s u := by
  intro hs
  obtain ⟨ht, hgrows⟩ := hst hs
  obtain ⟨hu, hgrows'⟩ := htu ht
  exact ⟨hu, E.trans _ _ _ hgrows hgrows'⟩

/-- The assertion survives the steps of others. -/
def Stable (E : Evolution) (pre : Disk → Prop) : Prop :=
  ∀ d e, E.inv d → pre d → E.inv e → E.grows d e → pre e

variable {pre : Disk → Prop}

theorem Stable.and {pre' : Disk → Prop} (h : E.Stable pre) (h' : E.Stable pre') :
    E.Stable fun d => pre d ∧ pre' d := fun d e hd hpre he hgrows =>
  ⟨h d e hd hpre.1 he hgrows, h' d e hd hpre.2 he hgrows⟩

theorem Stable.imp (p : Prop) (h : E.Stable pre) :
    E.Stable fun d => p → pre d := fun d e hd hpre he hgrows hp => h d e hd (hpre hp) he hgrows

theorem stable_true : E.Stable fun _ => True := fun _ _ _ _ _ _ => trivial

theorem stable_prepared (transaction : RecordTransaction) :
    E.Stable fun d => transaction ∈ d.prepared := fun d e _ h _ hgrows =>
  (E.later d e hgrows).prepared _ h

theorem stable_receipt (transaction : RecordTransaction) :
    E.Stable fun d => transaction ∈ d.receipts := fun d e _ h _ hgrows =>
  (E.later d e hgrows).receipts _ h

theorem stable_hasReceipt (id : TransactionId) : E.Stable fun d => d.HasReceipt id := by
  intro d e _ h _ hgrows
  obtain ⟨transaction, hmem, hid⟩ := h
  exact ⟨transaction, (E.later d e hgrows).receipts _ hmem, hid⟩

/-- What the program does to the disk, whatever the others do. -/
def Triple (E : Evolution) (pre : Disk → Prop) (p : NodeM α) (post : α → Disk → Prop) : Prop :=
  ∀ s, E.Inv s → pre s.disk →
    Ensures E.contract (Outcome (fun value t => E.Inv t ∧ post value t.disk)
      (fun error t => E.Inv t ∧ E.tolerates error)) p.run s

variable {post : α → Disk → Prop}

theorem Triple.pure {value : α} (h : ∀ d, E.inv d → pre d → post value d) :
    E.Triple pre (pure value) post :=
  fun s hinv hpre => ⟨hinv, h s.disk hinv.1 hpre⟩

theorem Triple.throw {error : Error} (h : ∀ d, E.inv d → pre d → E.tolerates error) :
    E.Triple pre (throw error) post :=
  fun s hinv hpre => ⟨hinv, h s.disk hinv.1 hpre⟩

theorem Triple.ofResult {result : Result α}
    (hok : ∀ value, result = .ok value → ∀ d, E.inv d → pre d → post value d)
    (herror : ∀ error, result = .error error → ∀ d, E.inv d → pre d → E.tolerates error) :
    E.Triple pre (NodeM.ofResult result) post := by
  intro s hinv hpre
  cases result with
  | ok value => exact ⟨hinv, hok value rfl s.disk hinv.1 hpre⟩
  | error error => exact ⟨hinv, herror error rfl s.disk hinv.1 hpre⟩

theorem Triple.bind {p : NodeM α} {mid : α → Disk → Prop} {f : α → NodeM β}
    {post : β → Disk → Prop} (hp : E.Triple pre p mid)
    (hf : ∀ value, E.Triple (mid value) (f value) post) : E.Triple pre (p >>= f) post := by
  intro s hinv hpre
  refine ensures_exceptT_bind ((hp s hinv hpre).mono ?_)
  intro result t h
  cases result with
  | ok value => exact hf value t h.1 h.2
  | error error => exact h

theorem Triple.conseq {pre' : Disk → Prop} {p : NodeM α} {post' : α → Disk → Prop}
    (h : E.Triple pre p post) (hpre : ∀ d, E.inv d → pre' d → pre d)
    (hpost : ∀ value d, E.inv d → post value d → post' value d) : E.Triple pre' p post' := by
  intro s hinv hpre'
  refine (h s hinv (hpre s.disk hinv.1 hpre')).mono ?_
  intro result t h
  cases result with
  | ok value => exact ⟨h.1, hpost value t.disk h.1.1 h.2⟩
  | error error => exact h

/-- A program whose failure is caught: the continuation gets the result. -/
theorem Triple.lift {p : NodeM α} {post' : Result α → Disk → Prop} (h : E.Triple pre p post)
    (hok : ∀ value d, E.inv d → post value d → post' (.ok value) d)
    (herror : ∀ error d, E.inv d → E.tolerates error → post' (.error error) d) :
    E.Triple pre (ExceptT.lift p.run) post' := by
  intro s hinv hpre
  refine ensures_bind ((h s hinv hpre).mono ?_)
  intro result t h
  cases result with
  | ok value => exact ⟨h.1, hok value t.disk h.1.1 h.2⟩
  | error error => exact ⟨h.1, herror error t.disk h.1.1 h.2⟩

/-- A fact that does not depend on the disk. -/
theorem Triple.assume {p : Prop} {q : NodeM α} (hp : ∀ d, E.inv d → pre d → p)
    (h : p → E.Triple pre q post) : E.Triple pre q post :=
  fun s hinv hpre => h (hp s.disk hinv.1 hpre) s hinv hpre

/-- The continuation of a result knows where its value is from. -/
theorem Triple.bindResult {result : Result α} {f : α → NodeM β} {post : β → Disk → Prop}
    (hok : ∀ value, result = .ok value → E.Triple pre (f value) post)
    (herror : ∀ error, result = .error error → ∀ d, E.inv d → pre d → E.tolerates error) :
    E.Triple pre (NodeM.ofResult result >>= f) post := by
  cases result with
  | ok value => exact hok value rfl
  | error error => exact .throw (herror error rfl)

/-- Nothing follows an error. -/
theorem Triple.throwBind {error : Error} {f : α → NodeM β} {post : β → Disk → Prop}
    (h : ∀ d, E.inv d → pre d → E.tolerates error) :
    E.Triple pre ((MonadExcept.throw error : NodeM α) >>= f) post :=
  fun s hinv hpre => ⟨hinv, h s.disk hinv.1 hpre⟩

/-- A precondition that cannot hold. -/
theorem Triple.absurd {p : NodeM α} (h : ∀ d, E.inv d → ¬ pre d) :
    E.Triple pre p post := fun s hinv hpre =>
  False.elim (h s.disk hinv.1 hpre)

/-! ## Calls -/

/-- A call that leaves the disk alone. -/
theorem ensures_silent (call : NodeCall) (hsilent : call.isSilent = true) (hstable : E.Stable pre)
    (hasks : ∀ d, E.inv d → pre d → E.asks call d)
    (hproves : ∀ d, E.inv d → pre d → call.proves d) {post : call.Answer → NodeStore → Prop}
    {s : NodeStore} (hinv : E.Inv s) (hpre : pre s.disk)
    (hpost : ∀ t answer u, E.Inv t → pre t.disk → E.considers call t answer →
      call.answers t answer u → u.disk = t.disk → E.Inv u → post answer u) :
    Ensures E.contract post call.perform s := by
  refine ensures_perform (fun t => E.Inv t ∧ pre t.disk) ⟨hinv, hpre⟩ ?_ ?_
  · intro t u ht hmoves
    obtain ⟨hu, hgrows⟩ := hmoves ht.1
    exact ⟨hu, hstable _ _ ht.1.1 ht.2 hu.1 hgrows⟩
  · intro t ht
    refine ⟨fun _ => hasks t.disk ht.1.1 ht.2, fun answer u hanswer => ?_⟩
    have hdisk := NodeCall.disk_of_answers hsilent hanswer.2
    have hu : E.Inv u := by
      refine ⟨hdisk ▸ ht.1.1, ?_⟩
      exact ht.1.2.of_answers hsilent (hproves t.disk ht.1.1 ht.2) hanswer.2
    refine ⟨fun _ => ⟨hu, hdisk ▸ E.does_refl _⟩, ?_⟩
    exact hpost t answer u ht.1 ht.2 hanswer.1 hanswer.2 hdisk hu

variable {pre : Disk → Prop}

theorem triple_snapshot (hstable : E.Stable pre) :
    E.Triple pre NodeM.snapshot (fun snapshot d => pre d ∧ d.store = snapshot) := by
  intro s hinv hpre
  refine ensures_silent .snapshot rfl hstable (fun _ _ _ => trivial) (fun _ _ _ => trivial) hinv hpre ?_
  intro t answer u ht hpre hconsiders hanswer hdisk hu
  rcases hanswer.2 with rfl | ⟨error, rfl⟩
  · exact ⟨hu, hdisk ▸ hpre, by rw [hdisk]⟩
  · exact ⟨hu, E.snapshotFault t error hconsiders⟩

/-- A silent call whose answer is of no interest. -/
theorem triple_perform (call : NodeCall) (hsilent : call.isSilent = true) (hstable : E.Stable pre)
    (hasks : ∀ d, E.inv d → pre d → E.asks call d) (hproves : ∀ d, E.inv d → pre d → call.proves d) :
    E.Triple pre (ExceptT.lift call.perform) (fun _ d => pre d) := by
  intro s hinv hpre
  refine ensures_bind (ensures_silent call hsilent hstable hasks hproves hinv hpre ?_)
  intro t answer u ht hpre _ _ hdisk hu
  exact ⟨hu, hdisk ▸ hpre⟩

/-- The transaction is prepared. -/
theorem triple_prepare (hstable : E.Stable pre) (base : Nat) (actions : List RecordAction)
    (journal : Option JournalPurpose) :
    E.Triple pre (NodeM.prepare base actions journal) (fun transaction d => pre d ∧
      transaction ∈ d.prepared ∧
      transaction.batch = ⟨base, actions ++ journalAction transaction.id journal⟩) := by
  intro s hinv hpre
  refine ensures_perform (fun t => E.Inv t ∧ pre t.disk) ⟨hinv, hpre⟩ ?_ ?_
  · intro t u ht hmoves
    obtain ⟨hu, hgrows⟩ := hmoves ht.1
    exact ⟨hu, hstable _ _ ht.1.1 ht.2 hu.1 hgrows⟩
  · intro t ht
    refine ⟨fun _ => trivial, fun answer u hanswer => ?_⟩
    rcases hanswer.2 with ⟨error, rfl, rfl⟩ | ⟨id, hfresh, hkeys, rfl, rfl⟩
    · exact ⟨fun hu => ⟨hu, E.does_refl _⟩, ht.1,
        E.prepareFault base actions journal u error hanswer.1⟩
    · obtain ⟨hinv', hdoes⟩ :=
        E.prepare t.disk (prepared id base actions journal) ht.1.1 hfresh hkeys
      have hu : E.Inv { t with disk := t.disk.prepare (prepared id base actions journal) } :=
        ⟨hinv', ht.1.2⟩
      refine ⟨fun _ => ⟨hu, hdoes⟩, hu, ?_, List.mem_cons_self, rfl⟩
      exact hstable _ _ ht.1.1 ht.2 hinv' (E.does_grows _ _ hdoes)

/-- A silent call that may fail with an error of the slot. -/
theorem ensures_slot (call : NodeCall) (hsilent : call.isSilent = true) (hstable : E.Stable pre)
    (hasks : ∀ d, E.inv d → pre d → E.asks call d) (hproves : ∀ d, E.inv d → pre d → call.proves d)
    {post : call.Answer → NodeStore → Prop} {s : NodeStore} (hinv : E.Inv s) (hpre : pre s.disk)
    (hpost : ∀ answer u, (∃ t, E.considers call t answer ∧ call.answers t answer u) → E.Inv u →
      pre u.disk → post answer u) :
    Ensures E.contract post call.perform s := by
  refine ensures_silent call hsilent hstable hasks hproves hinv hpre ?_
  intro t answer u ht hpre hconsiders hanswer hdisk hu
  exact hpost answer u ⟨t, hconsiders, hanswer⟩ hu (hdisk ▸ hpre)

theorem triple_beginCommit (hstable : E.Stable pre) (id : TransactionId) :
    E.Triple pre (NodeM.beginCommit id) (fun _ d => pre d) := by
  intro s hinv hpre
  refine ensures_slot (.beginCommit id) rfl hstable (fun _ _ _ => trivial) (fun _ _ _ => trivial)
    hinv hpre ?_
  rintro answer u ⟨t, -, hanswer⟩ hu hpre
  simp only [NodeCall.answers] at hanswer
  split at hanswer
  · rw [hanswer.1]
    exact ⟨hu, hpre⟩
  · rw [hanswer.1]
    exact ⟨hu, E.slotFault _ (Or.inl rfl)⟩

theorem triple_finishReady (hstable : E.Stable pre) :
    E.Triple pre NodeM.finishReady (fun _ d => pre d) :=
  triple_perform .finishReady rfl hstable (fun _ _ _ => trivial) (fun _ _ _ => trivial)

theorem triple_dropProviderCall (hstable : E.Stable pre) :
    E.Triple pre NodeM.dropProviderCall (fun _ d => pre d) :=
  triple_perform .dropProviderCall rfl hstable (fun _ _ _ => trivial) (fun _ _ _ => trivial)

theorem triple_isReady (hstable : E.Stable pre) :
    E.Triple pre NodeM.isReady (fun _ d => pre d) :=
  triple_perform .isReady rfl hstable (fun _ _ _ => trivial) (fun _ _ _ => trivial)

theorem triple_finishFrozenSlot (hstable : E.Stable pre) :
    E.Triple pre finishFrozenSlot (fun _ d => pre d) := by
  have hcall : E.Triple pre (ExceptT.lift (NodeCall.perform .finishFrozen))
      (fun answer d => pre d ∧ ∀ error, answer = .error error → error.kind = .internal) := by
    intro s hinv hpre
    refine ensures_bind (ensures_slot .finishFrozen rfl hstable (fun _ _ _ => trivial)
      (fun _ _ _ => trivial) hinv hpre ?_)
    rintro answer u ⟨t, -, hanswer⟩ hu hpre
    refine ⟨hu, hpre, fun error herror => ?_⟩
    simp only [NodeCall.answers] at hanswer
    split at hanswer
    · rw [hanswer.1] at herror
      cases herror
    · rw [hanswer.1] at herror
      cases herror
      rfl
  refine hcall.bind fun answer => ?_
  cases answer with
  | ok value => exact .pure fun d _ h => h.1
  | error error =>
    have hkind : E.Stable fun _ => error.kind = .internal := fun _ _ _ h _ _ => h
    refine Triple.bind ((triple_dropProviderCall (hstable.and hkind)).conseq
      (fun _ _ h => ⟨h.1, h.2 error rfl⟩) (fun _ _ _ h => h)) fun _ => ?_
    exact .throw fun d _ h => E.slotFault error (Or.inr (Or.inl h.2))

variable {transaction : RecordTransaction}

/-- The commit at the provider. -/
theorem triple_providerCommit (hstable : E.Stable pre)
    (happly : ∀ d, E.inv d → pre d → d.store.accepts transaction.batch = true →
      E.inv (d.applied transaction) ∧ E.does d (d.applied transaction)) :
    E.Triple pre (NodeM.providerCommit transaction) (fun answer d => pre d ∧
      (answer = some (.ok .committed) → transaction ∈ d.receipts) ∧
      ∀ error, answer = some (.error error) → E.tolerates error) := by
  intro s hinv hpre
  refine ensures_bind (ensures_perform (fun t => E.Inv t ∧ pre t.disk) ⟨hinv, hpre⟩ ?_ ?_)
  · intro t u ht hmoves
    obtain ⟨hu, hgrows⟩ := hmoves ht.1
    exact ⟨hu, hstable _ _ ht.1.1 ht.2 hu.1 hgrows⟩
  · intro t ht
    refine ⟨fun _ => trivial, fun answer u hanswer => ?_⟩
    obtain ⟨hconsiders, hslot, hcommits⟩ := hanswer
    have hmade : E.inv u.disk ∧ E.does t.disk u.disk := by
      rcases hcommits.cases with hsame | ⟨happlied, haccepts⟩
      · rw [hsame]
        exact ⟨ht.1.1, E.does_refl _⟩
      · rw [happlied]
        exact happly t.disk ht.1.1 ht.2 haccepts
    have hgrows := E.does_grows _ _ hmade.2
    have hu : E.Inv u := by
      refine ⟨hmade.1, fun id active hfrozen => ?_⟩
      exact stable_hasReceipt id t.disk u.disk ht.1.1 (ht.1.2 id active (hslot ▸ hfrozen)) hmade.1
        hgrows
    refine ⟨fun _ => ⟨hu, hmade.2⟩, hu, hstable _ _ ht.1.1 ht.2 hmade.1 hgrows, ?_, ?_⟩
    · intro hcommitted
      subst hcommitted
      exact hcommits.mem_receipts
    · intro error herror
      subst herror
      exact E.commitFault transaction t error hconsiders

/-- A signature of the key provider. -/
theorem triple_sign (hstable : E.Stable pre) (handle : KeyHandle) (message : Bytes)
    (hfault : ∀ s error, E.considers (.sign handle message) s (.error error) → E.tolerates error) :
    E.Triple pre (NodeM.sign handle message) (fun _ d => pre d) := by
  intro s hinv hpre
  refine ensures_silent (.sign handle message) rfl hstable (fun _ _ _ => trivial)
    (fun _ _ _ => trivial) hinv hpre ?_
  intro t answer u ht hpre hconsiders _ hdisk hu
  cases answer with
  | ok signature => exact ⟨hu, hdisk ▸ hpre⟩
  | error error => exact ⟨hu, hfault t error hconsiders⟩

/-! ## Functions of the store -/

theorem triple_commitRecords (hstable : E.Stable pre)
    (happly : ∀ d, E.inv d → pre d → d.store.accepts transaction.batch = true →
      E.inv (d.applied transaction) ∧ E.does d (d.applied transaction)) :
    E.Triple pre (commitRecords transaction) (fun outcome d => pre d ∧
      (outcome = .committed → transaction ∈ d.receipts)) := by
  refine (triple_beginCommit hstable transaction.id).bind fun _ => ?_
  refine (triple_providerCommit hstable happly).bind fun answer => ?_
  match answer with
  | none =>
    refine Triple.bind ((triple_dropProviderCall hstable).conseq (fun _ _ h => h.1)
      (fun _ _ _ h => h)) fun _ => ?_
    exact .throw fun _ _ _ => E.slotFault _ (Or.inr (Or.inr (Or.inl rfl)))
  | some (.ok .unknown) =>
    refine Triple.bind ((triple_finishFrozenSlot hstable).conseq (fun _ _ h => h.1)
      (fun _ _ _ h => h)) fun _ => ?_
    exact .pure fun _ _ h => ⟨h, nofun⟩
  | some (.ok .committed) =>
    refine Triple.bind ((triple_finishReady (hstable.and (stable_receipt transaction))).conseq
      (fun _ _ h => ⟨h.1, h.2.1 rfl⟩) (fun _ _ _ h => h)) fun _ => ?_
    exact .pure fun _ _ h => ⟨h.1, fun _ => h.2⟩
  | some (.ok .aborted) | some (.ok .conflict) =>
    refine Triple.bind ((triple_finishReady hstable).conseq (fun _ _ h => h.1)
      (fun _ _ _ h => h)) fun _ => ?_
    exact .pure fun _ _ h => ⟨h, nofun⟩
  | some (.error error) =>
    have htolerates : E.Stable fun _ => E.tolerates error := fun _ _ _ h _ _ => h
    show E.Triple _ (if error.kind = .commitUnknown then (finishFrozenSlot >>= fun _ => throw error)
      else (NodeM.finishReady >>= fun _ => throw error)) _
    split
    · refine Triple.bind ((triple_finishFrozenSlot htolerates).conseq ?_ fun _ _ _ h => h) fun _ => ?_
      · intro d _ h
        exact h.2.2 error rfl
      · exact .throw fun _ _ h => h
    · refine Triple.bind ((triple_finishReady htolerates).conseq ?_ fun _ _ _ h => h) fun _ => ?_
      · intro d _ h
        exact h.2.2 error rfl
      · exact .throw fun _ _ h => h

theorem triple_beginReconcile (hstable : E.Stable pre) (own : Option TransactionId) :
    E.Triple pre (NodeM.beginReconcile own) (fun pending d => pre d ∧
      (∀ id, own = some id → pending.1 = id) ∧ (pending.2 = true → d.HasReceipt pending.1)) := by
  intro s hinv hpre
  refine ensures_silent (.beginReconcile own) rfl hstable (fun _ _ _ => trivial)
    (fun _ _ _ => trivial) hinv hpre ?_
  intro t answer u ht hpre hconsiders hanswer hdisk hu
  simp only [NodeCall.answers] at hanswer
  split at hanswer
  · rename_i pending journalProven hslot
    obtain ⟨rfl, -⟩ := hanswer
    refine ⟨hu, hdisk ▸ hpre, fun id hown => ?_, fun hproven => ?_⟩
    · subst hown
      exact E.own id t pending journalProven hconsiders hslot
    · subst hproven
      rw [hdisk]
      exact ht.2 pending false hslot
  · rw [hanswer.1]
    exact ⟨hu, E.slotFault _ (Or.inl rfl)⟩

theorem triple_providerReconcile (hstable : E.Stable pre) (id : TransactionId) :
    E.Triple pre (NodeM.providerReconcile id) (fun answer d => pre d ∧
      (answer = some (.ok .committed) → d.HasReceipt id) ∧
      (answer = some (.ok .aborted) → ¬ d.HasReceipt id) ∧
      answer ≠ some (.ok .digestConflict) ∧
      ∀ error, answer = some (.error error) → E.tolerates error) := by
  intro s hinv hpre
  refine ensures_bind (ensures_silent (.providerReconcile id) rfl hstable (fun _ _ _ => trivial)
    (fun _ _ _ => trivial) hinv hpre ?_)
  intro t answer u ht hpre hconsiders hanswer hdisk hu
  have hreconciles : u.disk.Reconciles id answer := hdisk ▸ hanswer.2
  refine ⟨hu, hdisk ▸ hpre, fun h => ?_, fun h => ?_, fun h => ?_, fun error h => ?_⟩
  · subst h
    cases hreconciles with
    | committed transaction hmem hid => exact ⟨transaction, hmem, hid⟩
  · subst h
    cases hreconciles with
    | aborted hnone =>
      rintro ⟨transaction, hmem, hid⟩
      exact hnone transaction hmem hid
  · subst h
    cases hreconciles
  · subst h
    exact E.reconcileFault id t error hconsiders

/-- A reconciliation for `own` reports a commit only of an applied transaction, and an abort only if
    the transaction was not applied in some state on the way. -/
theorem triple_reconcileRecords (hstable : E.Stable pre) (own : Option TransactionId) :
    E.Triple pre (reconcileRecords own) (fun outcome d => pre d ∧ outcome ≠ .digestConflict ∧
      ∀ id, own = some id → (outcome = .committed → d.HasReceipt id) ∧
        (outcome = .aborted → ∃ e, E.inv e ∧ pre e ∧ ¬ e.HasReceipt id)) := by
  refine (triple_beginReconcile hstable own).bind fun pending => ?_
  obtain ⟨pending, journalProven⟩ := pending
  -- From here on the facts about the pending transaction are part of the assertion.
  have hknown : E.Stable fun d => pre d ∧ (∀ id, own = some id → pending = id) ∧
      (journalProven = true → d.HasReceipt pending) := by
    refine hstable.and (Stable.and (fun _ _ _ h _ _ => h) ?_)
    exact (stable_hasReceipt pending).imp _
  refine (triple_providerReconcile hknown pending).bind fun answer => ?_
  match answer with
  | none =>
    refine Triple.bind ((triple_dropProviderCall hstable).conseq (fun _ _ h => h.1.1)
      (fun _ _ _ h => h)) fun _ => ?_
    exact .throw fun _ _ _ => E.slotFault _ (Or.inr (Or.inr (Or.inl rfl)))
  | some (.ok .committed) =>
    have hreceipt := hknown.and (stable_hasReceipt (E := E) pending)
    refine Triple.bind ((triple_finishReady hreceipt).conseq (fun _ _ h => ⟨h.1, h.2.1 rfl⟩)
      (fun _ _ _ h => h)) fun _ => ?_
    refine .pure fun d _ h => ⟨h.1.1, nofun, fun id hown => ⟨fun _ => ?_, nofun⟩⟩
    exact h.1.2.1 id hown ▸ h.2
  | some (.ok .aborted) =>
    by_cases hproven : journalProven = true
    · refine .absurd fun d _ h => ?_
      exact h.2.2.1 rfl (h.1.2.2 hproven)
    · have hnone : E.Stable fun d => pre d ∧ ∀ id, own = some id →
          ∃ e, E.inv e ∧ pre e ∧ ¬ e.HasReceipt id := hstable.and fun _ _ _ h _ _ => h
      rw [Bool.not_eq_true] at hproven
      subst hproven
      refine Triple.bind ((triple_finishReady hnone).conseq ?_ (fun _ _ _ h => h)) fun _ => ?_
      · intro d hinv h
        exact ⟨h.1.1, fun id hown => ⟨d, hinv, h.1.1, h.1.2.1 id hown ▸ h.2.2.1 rfl⟩⟩
      · exact .pure fun d _ h => ⟨h.1, nofun, fun id hown => ⟨nofun, fun _ => h.2 id hown⟩⟩
  | some (.ok .digestConflict) => exact .absurd fun d _ h => h.2.2.2.1 rfl
  | some (.ok .unknown) =>
    refine Triple.bind ((triple_finishFrozenSlot hstable).conseq (fun _ _ h => h.1.1)
      (fun _ _ _ h => h)) fun _ => ?_
    exact .pure fun _ _ h => ⟨h, nofun, fun id hown => ⟨nofun, nofun⟩⟩
  | some (.error error) =>
    have htolerates : E.Stable fun _ => E.tolerates error := fun _ _ _ h _ _ => h
    refine Triple.bind ((triple_finishFrozenSlot htolerates).conseq ?_ (fun _ _ _ h => h))
      fun _ => ?_
    · intro d _ h
      exact h.2.2.2.2 error rfl
    · exact .throw fun _ _ h => h

theorem triple_reconcileFrozen (hstable : E.Stable pre) :
    E.Triple pre reconcileFrozen (fun _ d => pre d) := by
  refine (triple_isReady hstable).bind fun ready => ?_
  cases ready with
  | true => exact .pure fun _ _ h => h
  | false =>
    refine (triple_reconcileRecords hstable none).bind fun outcome => ?_
    cases outcome with
    | committed => exact .pure fun _ _ h => h.1
    | aborted => exact .pure fun _ _ h => h.1
    | digestConflict => exact .absurd fun _ _ h => h.2.1 rfl
    | unknown => exact .throw fun _ _ _ => E.slotFault _ (by decide)

theorem triple_freezeJournaled (hstable : E.Stable pre) {id : TransactionId}
    (hreceipt : ∀ d, E.inv d → pre d → d.HasReceipt id) :
    E.Triple pre (NodeM.freezeJournaled id) (fun _ d => pre d) := by
  intro s hinv hpre
  refine ensures_slot (.freezeJournaled id) rfl hstable (fun _ _ _ => trivial) hreceipt hinv hpre ?_
  rintro answer u ⟨t, -, hanswer⟩ hu hpre
  simp only [NodeCall.answers] at hanswer
  split at hanswer
  · rw [hanswer.1]
    exact ⟨hu, hpre⟩
  split at hanswer
  · rw [hanswer.1]
    exact ⟨hu, hpre⟩
  · rw [hanswer.1]
    exact ⟨hu, E.slotFault _ (Or.inl rfl)⟩

/-- The journal record of a snapshot. -/
theorem triple_journalRecord {purpose : JournalPurpose} {snapshot : RecordStore}
    {stored : MetadataRecord} (hlookup : snapshot.lookup (.pendingTransaction purpose) = some stored) :
    E.Triple (fun d => pre d ∧ d.store = snapshot)
      (NodeM.ofResult (Except.okOr discoveryCorrupt stored.asPendingTransaction))
      (fun id d => stored = .pendingTransaction id ∧ (pre d ∧ d.HasReceipt id) ∧
        d.store = snapshot) := by
  have hreceipt : ∀ d, E.inv d → pre d ∧ d.store = snapshot →
      ∃ id, stored = .pendingTransaction id ∧ d.HasReceipt id := by
    rintro d hinv ⟨hpre, rfl⟩
    exact E.journal d hinv purpose stored hlookup
  refine .ofResult ?_ ?_
  · intro id hid d hinv h
    obtain ⟨other, rfl, hother⟩ := hreceipt d hinv h
    cases hid
    exact ⟨rfl, ⟨h.1, hother⟩, h.2⟩
  · intro error herror d hinv h
    obtain ⟨other, rfl, hother⟩ := hreceipt d hinv h
    cases herror

/-- A journal record that is found is of an applied transaction; what is known of a disk with the
    record stays known. -/
theorem triple_recoverPending (hstable : E.Stable pre) (purpose : JournalPurpose)
    {known : Disk → Prop} (hknown : E.Stable known)
    (hfound : ∀ d stored, E.inv d → pre d →
      d.store.lookup (.pendingTransaction purpose) = some stored → known d) :
    E.Triple pre (recoverPending purpose) (fun found d => pre d ∧
      ∀ id, found = some id → d.HasReceipt id ∧ known d) := by
  refine (triple_snapshot hstable).bind fun snapshot => ?_
  cases hlookup : snapshot.lookup (.pendingTransaction purpose) with
  | none => exact .pure fun _ _ h => ⟨h.1, nofun⟩
  | some stored =>
    have hrecord : E.Triple (fun d => (pre d ∧ known d) ∧ d.store = snapshot)
        (NodeM.ofResult (Except.okOr discoveryCorrupt stored.asPendingTransaction))
        (fun id d => stored = .pendingTransaction id ∧ ((pre d ∧ known d) ∧ d.HasReceipt id) ∧
          d.store = snapshot) := triple_journalRecord hlookup
    refine Triple.bind (hrecord.conseq ?_ fun _ _ _ h => h) fun id => ?_
    · rintro d hinv ⟨hpre, rfl⟩
      exact ⟨⟨hpre, hfound d stored hinv hpre hlookup⟩, rfl⟩
    have hall : E.Stable fun d => (pre d ∧ known d) ∧ d.HasReceipt id :=
      (hstable.and hknown).and (stable_hasReceipt id)
    refine Triple.bind ((triple_freezeJournaled hall (fun _ _ h => h.2)).conseq
      (fun _ _ h => h.2.1) (fun _ _ _ h => h)) fun _ => ?_
    refine .pure fun d _ h => ⟨h.1.1, fun other hother => ?_⟩
    cases hother
    exact ⟨h.2, h.1.2⟩

theorem triple_cleanupJournal (hstable : E.Stable pre) (purpose : JournalPurpose) :
    E.Triple pre (cleanupJournal purpose) (fun _ d => pre d) := by
  refine (triple_snapshot hstable).bind fun snapshot => ?_
  cases hlookup : snapshot.lookup (.pendingTransaction purpose) with
  | none => exact .pure fun _ _ h => h.1
  | some stored =>
    refine (triple_journalRecord hlookup).bind fun id => ?_
    refine Triple.bind ((triple_prepare hstable snapshot.revision
      [.delete (.pendingTransaction purpose) stored] none).conseq (fun _ _ h => h.2.1.1)
      (fun _ _ _ h => h)) fun transaction => ?_
    refine .assume (fun _ _ h => h.2.2) fun hbatch => ?_
    have hprepared := hstable.and (stable_prepared (E := E) transaction)
    refine Triple.bind ((triple_commitRecords hprepared ?_).conseq (fun _ _ h => ⟨h.1, h.2.1⟩)
      (fun _ _ _ h => h)) fun outcome => ?_
    · intro d hinv h haccepts
      exact E.cleanup d transaction purpose stored hinv h.2 (by rw [hbatch]; rfl) haccepts
    · cases outcome <;> exact .pure fun _ _ h => h.1.1

theorem triple_cleanupPendingOnce (hstable : E.Stable pre) (purpose : JournalPurpose)
    (context : String) {retry : NodeM Unit} (hretry : E.Triple pre retry (fun _ d => pre d)) :
    E.Triple pre (cleanupPendingOnce purpose context retry) (fun _ d => pre d) := by
  refine (triple_cleanupJournal hstable purpose).bind fun outcome => ?_
  cases outcome with
  | applied => exact .pure fun _ _ h => h
  | absent => exact .pure fun _ _ h => h
  | conflict => exact .throw fun _ _ _ => E.slotFault _ (Or.inr (Or.inr (Or.inr (Or.inr rfl))))
  | aborted => exact hretry
  | unknown id =>
    refine (triple_reconcileRecords hstable (some id)).bind fun answer => ?_
    cases answer with
    | committed => exact .pure fun _ _ h => h.1
    | aborted => exact hretry.conseq (fun _ _ h => h.1) (fun _ _ _ h => h)
    | digestConflict => exact .absurd fun _ _ h => h.2.1 rfl
    | unknown => exact .throw fun _ _ _ => E.slotFault _ (by decide)

theorem triple_cleanupPendingExact (hstable : E.Stable pre) (purpose : JournalPurpose)
    (context : String) : E.Triple pre (cleanupPendingExact purpose context) (fun _ d => pre d) := by
  refine triple_cleanupPendingOnce hstable purpose context ?_
  refine triple_cleanupPendingOnce hstable purpose context ?_
  exact .throw fun _ _ _ => E.slotFault _ (Or.inr (Or.inr (Or.inr (Or.inr rfl))))

theorem triple_reconcileRecoveredJournal (hstable : E.Stable pre) {id : TransactionId}
    (hreceipt : ∀ d, E.inv d → pre d → d.HasReceipt id) :
    E.Triple pre (reconcileRecoveredJournal id) (fun _ d => pre d) := by
  refine (triple_reconcileRecords hstable (some id)).bind fun outcome => ?_
  cases outcome with
  | committed => exact .pure fun _ _ h => h.1
  | aborted =>
    refine .absurd fun d _ h => ?_
    obtain ⟨e, hinv, hpre, hnone⟩ := (h.2.2 id rfl).2 rfl
    exact hnone (hreceipt e hinv hpre)
  | digestConflict => exact .absurd fun _ _ h => h.2.1 rfl
  | unknown => exact .throw fun _ _ _ => E.slotFault _ (by decide)

theorem triple_recoverJournalPrologue (hstable : E.Stable pre) (purpose : JournalPurpose)
    (context : String) {known : Disk → Prop} (hknown : E.Stable known)
    (hfound : ∀ d stored, E.inv d → pre d →
      d.store.lookup (.pendingTransaction purpose) = some stored → known d) :
    E.Triple pre (recoverJournalPrologue purpose context) (fun recovered d => pre d ∧
      (recovered = true → known d)) := by
  refine (triple_recoverPending hstable purpose hknown hfound).bind fun found => ?_
  cases found with
  | none =>
    refine Triple.bind ((triple_reconcileFrozen hstable).conseq (fun _ _ h => h.1)
      (fun _ _ _ h => h)) fun _ => ?_
    exact .pure fun _ _ h => ⟨h, nofun⟩
  | some id =>
    have hboth := hstable.and hknown
    have hall : E.Stable fun d => (pre d ∧ known d) ∧ d.HasReceipt id :=
      hboth.and (stable_hasReceipt id)
    refine Triple.bind ((triple_reconcileRecoveredJournal hall (fun _ _ h => h.2)).conseq
      (fun _ _ h => ⟨⟨h.1, (h.2 id rfl).2⟩, (h.2 id rfl).1⟩) (fun _ _ _ h => h)) fun _ => ?_
    refine Triple.bind ((triple_cleanupPendingExact hboth purpose context).conseq
      (fun _ _ h => h.1) (fun _ _ _ h => h)) fun _ => ?_
    exact .pure fun _ _ h => ⟨h.1, fun _ => h.2⟩

/-- A commit that is reported, at once or after a reconciliation, was applied. -/
theorem triple_commitWithReconcile (hstable : E.Stable pre)
    (hprepared : ∀ d, E.inv d → pre d → transaction ∈ d.prepared)
    (happly : ∀ d, E.inv d → pre d → d.store.accepts transaction.batch = true →
      E.inv (d.applied transaction) ∧ E.does d (d.applied transaction)) :
    E.Triple pre (commitWithReconcile transaction) (fun outcome d => pre d ∧
      (outcome = .committed → transaction ∈ d.receipts)) := by
  refine (triple_commitRecords hstable happly).bind fun outcome => ?_
  cases outcome with
  | committed => exact .pure fun _ _ h => ⟨h.1, fun _ => h.2 rfl⟩
  | aborted => exact .pure fun _ _ h => ⟨h.1, nofun⟩
  | conflict => exact .pure fun _ _ h => ⟨h.1, nofun⟩
  | unknown =>
    refine Triple.bind ((triple_reconcileRecords hstable (some transaction.id)).conseq
      (fun _ _ h => h.1) (fun _ _ _ h => h)) fun answer => ?_
    cases answer with
    | committed =>
      refine .pure fun d hinv h => ⟨h.1, fun _ => ?_⟩
      -- The id was drawn once, so the applied transaction is this one.
      obtain ⟨other, hmem, hid⟩ := (h.2.2 _ rfl).1 rfl
      have hsound := E.sound d hinv
      have heq := hsound.ids other (hsound.receipts other hmem) transaction
        (hprepared d hinv h.1) hid
      exact heq ▸ hmem
    | aborted => exact .pure fun _ _ h => ⟨h.1, nofun⟩
    | digestConflict => exact .absurd fun _ _ h => h.2.1 rfl
    | unknown => exact .throw fun _ _ _ => E.slotFault _ (by decide)

/-! ## Runs -/

/-- Operations with evolutions over one invariant, where what one does is what the others expect. -/
structure Family (Λ : Type) where
  evolution : Λ → Evolution
  inv : Disk → Prop
  considers : (call : NodeCall) → NodeStore → call.Answer → Prop
  /-- Two operations that may be under way together. -/
  compatible : Λ → Λ → Prop
  inv_eq : ∀ label, (evolution label).inv = inv
  considers_eq : ∀ label, (evolution label).considers = considers
  compatible_symm : ∀ label other, compatible label other → compatible other label
  fit : ∀ label other, compatible label other → ∀ d e, inv d → inv e →
    (evolution other).does d e → (evolution label).grows d e

namespace Family

variable {Λ : Type} (F : Family Λ)

/-- The invariant with the slot. -/
def Inv (s : NodeStore) : Prop := F.inv s.disk ∧ s.Proven

variable {F}

theorem inv_iff (label : Λ) (s : NodeStore) : (F.evolution label).Inv s ↔ F.Inv s := by
  unfold Evolution.Inv Inv
  rw [F.inv_eq]

/-- Operations that keep their triples keep them in every run. -/
def contracts (operation : Λ → NodeM α) (starts : Λ → NodeStore → List Λ → Prop)
    (pre : Λ → Disk → Prop) (post : Λ → α → Disk → Prop)
    (hstarts : ∀ label s running, starts label s running → pre label s.disk ∧
      ∀ other ∈ running, F.compatible label other)
    (hstable : ∀ label other value d e, F.inv d → F.inv e → post label value d →
      (F.evolution other).does d e → post label value e)
    (htriple : ∀ label, (F.evolution label).Triple (pre label) (operation label) (post label)) :
    ((nodeSchedule operation starts).within F.considers).Contracts where
  contract := fun label => (F.evolution label).contract
  post := fun label => Outcome (fun value t => F.Inv t ∧ post label value t.disk)
    (fun error t => F.Inv t ∧ (F.evolution label).tolerates error)
  invariant := F.Inv
  compatible := F.compatible
  answers_eq := by
    intro label
    show (F.evolution label).answers = _
    unfold answers
    rw [F.considers_eq]
    rfl
  rely_refl := fun _ => moves_refl
  rely_trans := fun _ _ _ _ => moves_trans
  fit := by
    intro label other hcompatible s t hinv hmakes _
    obtain ⟨ht, hdoes⟩ := hmakes ((inv_iff other s).mpr hinv)
    rw [inv_iff] at ht ⊢
    exact ⟨ht, F.fit label other hcompatible _ _ hinv.1 ht.1 hdoes⟩
  compatible_symm := F.compatible_symm
  starts_compatible := fun label s running h => (hstarts label s running h).2
  starts_ensures := by
    intro label s running hinv h
    refine ((htriple label) s ((inv_iff label s).mpr hinv) (hstarts label s running h).1).mono ?_
    intro result t hpost
    cases result with
    | ok value => exact ⟨(inv_iff label t).mp hpost.1, hpost.2⟩
    | error error => exact ⟨(inv_iff label t).mp hpost.1, hpost.2⟩
  invariant_guarantee := by
    intro label s t hinv hmakes
    exact (inv_iff label t).mp (hmakes ((inv_iff label s).mpr hinv)).1
  invariant_reset := by
    rintro s t hinv rfl
    exact ⟨hinv.1, nofun⟩
  post_guarantee := by
    intro label other value s t hinv hpost hmakes
    obtain ⟨ht, hdoes⟩ := hmakes ((inv_iff other s).mpr hinv)
    rw [inv_iff] at ht
    cases value with
    | ok value => exact ⟨ht, hstable label other value _ _ hinv.1 ht.1 hpost.2 hdoes⟩
    | error error => exact ⟨ht, hpost.2⟩
  post_reset := by
    rintro label value s t hinv hpost rfl
    cases value with
    | ok value => exact ⟨⟨hinv.1, nofun⟩, hpost.2⟩
    | error error => exact ⟨⟨hinv.1, nofun⟩, hpost.2⟩

variable {operation : Λ → NodeM α} {starts : Λ → NodeStore → List Λ → Prop}
  {pre : Λ → Disk → Prop} {post : Λ → α → Disk → Prop}
  {hstarts : ∀ label s running, starts label s running → pre label s.disk ∧
    ∀ other ∈ running, F.compatible label other}
  {hstable : ∀ label other value d e, F.inv d → F.inv e → post label value d →
    (F.evolution other).does d e → post label value e}
  {htriple : ∀ label, (F.evolution label).Triple (pre label) (operation label) (post label)}

/-- What every operation does to the disk in one step holds along a run. -/
theorem contracts_path {R : Disk → Disk → Prop} (hrefl : ∀ d, R d d)
    (htrans : ∀ d e f, R d e → R e f → R d f)
    (hdoes : ∀ label d e, F.inv d → F.inv e → (F.evolution label).does d e → R d e)
    {origin : NodeStore} {s t : Threads Λ NodeCall NodeCall.Answer (Result α) NodeStore}
    (h : (F.contracts operation starts pre post hstarts hstable htriple).Holds s)
    (hpath : (((nodeSchedule operation starts).within F.considers).runs origin).Path s t) :
    R s.state.disk t.state.disk := by
  refine Schedule.Contracts.Holds.path_state (R := fun s t => R s.disk t.disk) (fun s => hrefl s.disk)
    (fun s t u => htrans s.disk t.disk u.disk) ?_ ?_ h hpath
  · intro label s t hinv hmakes
    obtain ⟨ht, hstep⟩ := hmakes ((inv_iff label s).mpr hinv)
    exact hdoes label _ _ hinv.1 ((inv_iff label t).mp ht).1 hstep
  · rintro s t - rfl
    exact hrefl s.disk

end Family

end Evolution

end Radiata
