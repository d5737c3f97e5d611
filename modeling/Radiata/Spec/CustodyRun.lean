import Radiata.Native.KeyCustody
import Radiata.Spec.AdmissionRecordCorrect

/-!
# Sequential operations

Where one operation at a time runs on the store, nothing happens between two of its calls, and a
triple says exactly what is durable before and after: what is stored, which transactions were
applied and what the key provider has created. A regime is an invariant of these, which holds
wherever an operation is cut off, and a preorder along which they move.

## Key results

- `Regime.Triple`: a program from a known view on
- `Regime.triple_commitWithReconcile`: an answered commit was applied or was not
- `Regime.contracts`: sequential operations keep the regime
-/

namespace Radiata

open Prog

/-- What is durable. -/
structure CustodyView where
  store : RecordStore
  receipts : List RecordTransaction
  vault : Vault

namespace CustodyView

def applied (w : CustodyView) (transaction : RecordTransaction) : CustodyView :=
  { w with store := w.store.apply transaction.batch, receipts := transaction :: w.receipts }

/-- A journal record names an applied transaction. -/
def Journaled (w : CustodyView) : Prop :=
  ∀ purpose stored, w.store.lookup (.pendingTransaction purpose) = some stored →
    ∃ id, stored = .pendingTransaction id ∧ ∃ transaction ∈ w.receipts, transaction.id = id

/-- The only journal record a transaction puts is its own. -/
theorem Journaled.applied {w : CustodyView} (h : w.Journaled) {transaction : RecordTransaction}
    (haccepts : w.store.accepts transaction.batch = true) (hnodup : transaction.batch.keys.Nodup)
    (hown : ∀ action ∈ transaction.batch.actions, ∀ purpose value,
      action.key = .pendingTransaction purpose → action.result = some value →
      value = .pendingTransaction transaction.id) : (w.applied transaction).Journaled :=
  Disk.Journaled.applied (d := ⟨w.store, w.receipts, []⟩) h haccepts hnodup hown

end CustodyView

namespace Custody

def view (s : Custody) : CustodyView := ⟨s.node.disk.store, s.node.disk.receipts, s.vault⟩

/-- The transaction is prepared and not applied. -/
def Awaits (transaction : RecordTransaction) (s : Custody) : Prop :=
  transaction ∈ s.node.disk.prepared ∧ ¬ s.node.disk.HasReceipt transaction.id

end Custody

/-- The error of an answer. -/
def NodeCall.fault : (call : NodeCall) → call.Answer → Option Error
  | .snapshot, .error error => some error
  | .prepare _ _ _, .error error => some error
  | .beginCommit _, .error error => some error
  | .providerCommit _, some (.error error) => some error
  | .beginReconcile _, .error error => some error
  | .providerReconcile _, some (.error error) => some error
  | .finishFrozen, .error error => some error
  | .freezeJournaled _, .error error => some error
  | .generateNode, .error error => some error
  | .generateOperation, .error error => some error
  | .sign _ _, .error error => some error
  | .createKey _, .error error => some error
  | .reconcileCreate _, .error error => some error
  | .publicKey _, .error error => some error
  | .deleteKey _ _, .error error => some error
  | .reconcileDelete _ _, .error error => some error
  | _, _ => none

/-! ## Regimes -/

/-- An invariant of what is durable, how it moves, and the errors that may come of the calls. -/
structure Regime where
  inv : CustodyView → Prop
  grows : CustodyView → CustodyView → Prop
  tolerates : Error → Prop
  /-- What the builder of a transaction may answer besides. -/
  refuses : CustodyView → List RecordAction → Error → Prop
  refl : ∀ w, grows w w
  trans : ∀ w x y, grows w x → grows x y → grows w y
  tolerated : ∀ error : Error, error.kind ≠ .storageCorrupt → tolerates error
  journaled : ∀ w, inv w → w.Journaled
  /-- A journal record may be removed. -/
  cleanup : ∀ w transaction purpose stored, inv w →
    transaction.batch.actions = [.delete (.pendingTransaction purpose) stored] →
    w.store.accepts transaction.batch = true →
    inv (w.applied transaction) ∧ grows w (w.applied transaction)
  refused : ∀ w purpose stored error, inv w →
    w.store.lookup (.pendingTransaction purpose) = some stored →
    refuses w [.delete (.pendingTransaction purpose) stored] error → tolerates error

namespace Regime

variable {R : Regime} {α β : Type} {w : CustodyView}

structure Inv (R : Regime) (s : Custody) : Prop where
  sound : s.node.disk.Sound
  proven : s.node.Proven
  inv : R.inv s.view

/-- The answers whose errors are tolerated or come of the builder of a transaction. -/
def considers (R : Regime) : (call : NodeCall) → Custody → call.Answer → Prop
  | .prepare _ actions _, s, .error error => R.tolerates error ∨ R.refuses s.view actions error
  | request, _, answer => ∀ error, request.fault answer = some error → R.tolerates error

/-- Where every error is tolerated, every answer is considered. -/
theorem considers_of_tolerates (h : ∀ error, R.tolerates error) {request : NodeCall} {s : Custody}
    {answer : request.Answer} : R.considers request s answer := by
  unfold considers
  split
  · exact Or.inl (h _)
  · exact fun error _ => h error

def contract (R : Regime) : Contract NodeCall NodeCall.Answer Custody where
  answers := fun call s answer t => R.considers call s answer ∧ Custody.answers call s answer t
  rely := fun s t => t = s
  guarantee := fun s t => R.Inv s → R.Inv t ∧ R.grows s.view t.view
  permits := fun _ _ => True

/-- What the program does from a state that satisfies `pre`. -/
def Triple (R : Regime) (pre : Custody → Prop) (p : NodeM α) (post : α → Custody → Prop) : Prop :=
  ∀ s, R.Inv s → pre s → Ensures R.contract (Outcome (fun value t => R.Inv t ∧ post value t)
    (fun error t => R.Inv t ∧ R.tolerates error)) p.run s

/-- The durable state is the view. -/
def At (w : CustodyView) (s : Custody) : Prop := s.view = w

variable {pre : Custody → Prop}

variable {post : α → Custody → Prop}

theorem Triple.pure {value : α} (h : ∀ s, R.Inv s → pre s → post value s) :
    R.Triple pre (pure value) post := fun s hinv hpre => ⟨hinv, h s hinv hpre⟩

theorem Triple.throw {error : Error} (h : ∀ s, R.Inv s → pre s → R.tolerates error) :
    R.Triple pre (throw error) post :=
  fun s hinv hpre => ⟨hinv, h s hinv hpre⟩

/-- An error that does not report corruption. -/
theorem Triple.fail {error : Error} (h : error.kind ≠ .storageCorrupt) :
    R.Triple pre (MonadExcept.throw error) post := .throw fun _ _ _ => R.tolerated error h

variable {p : NodeM α}

theorem Triple.bind {mid : α → Custody → Prop} {f : α → NodeM β} {post : β → Custody → Prop}
    (hp : R.Triple pre p mid) (hf : ∀ value, R.Triple (mid value) (f value) post) :
    R.Triple pre (p >>= f) post := by
  intro s hinv hpre
  refine ensures_exceptT_bind ((hp s hinv hpre).mono ?_)
  intro result t h
  cases result with
  | ok value => exact hf value t h.1 h.2
  | error error => exact h

variable {pre' : Custody → Prop}

theorem Triple.conseq {post' : α → Custody → Prop} (h : R.Triple pre p post)
    (hpre : ∀ s, R.Inv s → pre' s → pre s)
    (hpost : ∀ value s, R.Inv s → post value s → post' value s) : R.Triple pre' p post' := by
  intro s hinv hpre'
  refine (h s hinv (hpre s hinv hpre')).mono ?_
  intro result t h
  cases result with
  | ok value => exact ⟨h.1, hpost value t h.1 h.2⟩
  | error error => exact h

theorem Triple.weaken (h : R.Triple pre p post) (hpre : ∀ s, R.Inv s → pre' s → pre s) :
    R.Triple pre' p post :=
  fun s hinv hpre' => h s hinv (hpre s hinv hpre')

/-- A sequence whose first program needs less than what is known. -/
theorem Triple.after {mid : α → Custody → Prop} {f : α → NodeM β} {post : β → Custody → Prop}
    (hp : R.Triple pre' p mid) (hpre : ∀ s, R.Inv s → pre s → pre' s)
    (hf : ∀ value, R.Triple (mid value) (f value) post) :
    R.Triple pre (p >>= f) post := (hp.weaken hpre).bind hf

/-- A program from every view that satisfies the precondition. -/
theorem Triple.ofView {P : CustodyView → Prop} (h : ∀ w, P w → R.Triple (At w) p post) :
    R.Triple (fun s => P s.view) p post :=
  fun s hinv hP => h s.view hP s hinv rfl

/-- A fact that the precondition gives. -/
theorem Triple.assume {p : Prop} {q : NodeM α} (hp : ∀ s, R.Inv s → pre s → p)
    (h : p → R.Triple pre q post) : R.Triple pre q post :=
  fun s hinv hpre => h (hp s hinv hpre) s hinv hpre

/-- The continuation of a result knows where its value is from. -/
theorem Triple.bindResult {result : Result α} {f : α → NodeM β} {post : β → Custody → Prop}
    (hok : ∀ value, result = .ok value → R.Triple pre (f value) post)
    (herror : ∀ error, result = .error error → ∀ s, R.Inv s → pre s → R.tolerates error) :
    R.Triple pre (NodeM.ofResult result >>= f) post := by
  cases result with
  | ok value => exact hok value rfl
  | error error => exact .throw (herror error rfl)

theorem Triple.ofResult {result : Result α}
    (hok : ∀ value, result = .ok value → ∀ s, R.Inv s → pre s → post value s)
    (herror : ∀ error, result = .error error → ∀ s, R.Inv s → pre s → R.tolerates error) :
    R.Triple pre (NodeM.ofResult result) post := by
  cases result with
  | ok value => exact .pure (hok value rfl)
  | error error => exact .throw (herror error rfl)

/-- A program whose failure is caught: the continuation gets the result. -/
theorem Triple.lift {post' : Result α → Custody → Prop} (h : R.Triple pre p post)
    (hok : ∀ value s, R.Inv s → post value s → post' (.ok value) s)
    (herror : ∀ error s, R.Inv s → R.tolerates error → post' (.error error) s) :
    R.Triple pre (ExceptT.lift p.run) post' := by
  intro s hinv hpre
  refine ensures_bind ((h s hinv hpre).mono ?_)
  intro result t h
  cases result with
  | ok value => exact ⟨h.1, hok value t h.1 h.2⟩
  | error error => exact ⟨h.1, herror error t h.1 h.2⟩

/-! ## Calls -/

variable {s : Custody}

/-- A call that keeps the regime. -/
theorem ensures_step {call : NodeCall} {post : call.Answer → Custody → Prop}
    (h : ∀ answer t, R.considers call s answer → Custody.answers call s answer t →
      (R.Inv s → R.Inv t ∧ R.grows s.view t.view) ∧ post answer t) :
    Ensures R.contract post call.perform s := by
  refine ensures_perform (fun t => t = s) rfl (fun t u ht hu => hu.trans ht) ?_
  rintro t rfl
  exact ⟨trivial, fun answer u hanswer => h answer u hanswer.1 hanswer.2⟩

/-- The call leaves the disk and the provider alone. -/
def isQuiet : NodeCall → Bool
  | .createKey _ => false
  | .prepare _ _ _ => false
  | .providerCommit _ => false
  | _ => true

theorem vault_of_isQuiet {request : NodeCall} (h : isQuiet request = true) {v w : Vault}
    {answer : request.Answer} (hanswer : Vault.answers request v answer w) : w = v := by
  cases request with
  | createKey operation => cases h
  | generateOperation => exact hanswer.1
  | reconcileCreate operation => exact hanswer.1
  | _ => exact hanswer

theorem isSilent_of_isQuiet {request : NodeCall} (h : isQuiet request = true) :
    request.isSilent = true := by
  cases request <;> first | rfl | cases h

/-- A quiet call changes the slot at most. -/
theorem ensures_quiet (request : NodeCall) (hquiet : isQuiet request = true) (hinv : R.Inv s)
    (hproves : request.proves s.node.disk) {post : request.Answer → Custody → Prop}
    (hpost : ∀ answer t, R.considers request s answer → Custody.answers request s answer t →
      t.node.disk = s.node.disk → t.vault = s.vault → R.Inv t → post answer t) :
    Ensures R.contract post request.perform s := by
  refine ensures_step fun answer t hconsiders hanswer => ?_
  have hdisk := NodeCall.disk_of_answers (isSilent_of_isQuiet hquiet) hanswer.1
  have hvault := vault_of_isQuiet hquiet hanswer.2
  have hview : t.view = s.view := by rw [Custody.view, hdisk, hvault]; rfl
  have ht : R.Inv t := by
    refine ⟨by rw [hdisk]; exact hinv.sound, ?_, by rw [hview]; exact hinv.inv⟩
    exact hinv.proven.of_answers (isSilent_of_isQuiet hquiet) hproves hanswer.1
  exact ⟨fun _ => ⟨ht, by rw [hview]; exact R.refl _⟩,
    hpost answer t hconsiders hanswer hdisk hvault ht⟩

/-- What a quiet call keeps. -/
def Durable (pre : Custody → Prop) : Prop :=
  ∀ s t : Custody, t.node.disk = s.node.disk → t.vault = s.vault → pre s → pre t

theorem durable_at : Durable (At w) := by
  intro s t hdisk hvault h
  rw [At, Custody.view, hdisk, hvault]
  exact h

/-- What is known of the view. -/
theorem durable_view (P : CustodyView → Prop) : Durable fun s => P s.view := by
  intro s t hdisk hvault h
  rw [Custody.view, hdisk, hvault]
  exact h

variable {transaction : RecordTransaction}

theorem durable_awaits : Durable (Custody.Awaits transaction) := by
  intro s t hdisk _ h
  rw [Custody.Awaits, hdisk]
  exact h

variable {id : TransactionId}

theorem durable_hasReceipt : Durable fun s => s.node.disk.HasReceipt id := by
  intro s t hdisk _ h
  rw [hdisk]
  exact h

theorem Durable.and (h : Durable pre) (h' : Durable pre') :
    Durable fun s => pre s ∧ pre' s := fun s t hdisk hvault hpre =>
  ⟨h s t hdisk hvault hpre.1, h' s t hdisk hvault hpre.2⟩

theorem triple_snapshot (hdurable : Durable pre) :
    R.Triple pre NodeM.snapshot (fun current s => pre s ∧ current = s.node.disk.store) := by
  intro s hinv hpre
  refine ensures_quiet .snapshot rfl hinv trivial ?_
  intro answer t hconsiders hanswer hdisk hvault ht
  rcases hanswer.1.2 with rfl | ⟨error, rfl⟩
  · exact ⟨ht, hdurable s t hdisk hvault hpre, by rw [hdisk]⟩
  · exact ⟨ht, hconsiders error rfl⟩

theorem triple_generateNode (hdurable : Durable pre) :
    R.Triple pre NodeM.generateNode (fun _ => pre) := by
  intro s hinv hpre
  refine ensures_quiet .generateNode rfl hinv trivial ?_
  intro answer t hconsiders _ hdisk hvault ht
  cases answer with
  | ok node => exact ⟨ht, hdurable s t hdisk hvault hpre⟩
  | error error => exact ⟨ht, hconsiders error rfl⟩

theorem triple_generateOperation (hdurable : Durable pre) :
    R.Triple pre NodeM.generateOperation (fun operation s => pre s ∧
      operation ∉ s.vault.requested ∧ ¬ s.vault.Created operation) := by
  intro s hinv hpre
  refine ensures_quiet .generateOperation rfl hinv trivial ?_
  intro answer t hconsiders hanswer hdisk hvault ht
  cases answer with
  | ok operation =>
    refine ⟨ht, hdurable s t hdisk hvault hpre, ?_⟩
    rw [hvault]
    exact hanswer.2.2 operation rfl
  | error error => exact ⟨ht, hconsiders error rfl⟩

theorem triple_publicKey (hdurable : Durable pre) (handle : KeyHandle) :
    R.Triple pre (NodeM.publicKey handle) (fun _ => pre) := by
  intro s hinv hpre
  refine ensures_quiet (.publicKey handle) rfl hinv trivial ?_
  intro answer t hconsiders _ hdisk hvault ht
  cases answer with
  | ok key => exact ⟨ht, hdurable s t hdisk hvault hpre⟩
  | error error => exact ⟨ht, hconsiders error rfl⟩

theorem triple_deleteKey (hdurable : Durable pre) (operation : KeyOperationId) (handle : KeyHandle) :
    R.Triple pre (NodeM.deleteKey operation handle) (fun _ => pre) := by
  intro s hinv hpre
  refine ensures_quiet (.deleteKey operation handle) rfl hinv trivial ?_
  intro answer t hconsiders _ hdisk hvault ht
  cases answer with
  | ok state => exact ⟨ht, hdurable s t hdisk hvault hpre⟩
  | error error => exact ⟨ht, hconsiders error rfl⟩

theorem triple_reconcileDelete (hdurable : Durable pre) (operation : KeyOperationId)
    (handle : KeyHandle) : R.Triple pre (NodeM.reconcileDelete operation handle) (fun _ => pre) := by
  intro s hinv hpre
  refine ensures_quiet (.reconcileDelete operation handle) rfl hinv trivial ?_
  intro answer t hconsiders _ hdisk hvault ht
  cases answer with
  | ok state => exact ⟨ht, hdurable s t hdisk hvault hpre⟩
  | error error => exact ⟨ht, hconsiders error rfl⟩

theorem triple_reconcileCreate (hdurable : Durable pre) (operation : KeyOperationId) :
    R.Triple pre (NodeM.reconcileCreate operation) (fun state s => pre s ∧
      (∀ created, state = .present created → (operation, created) ∈ s.vault.keys) ∧
      (state = .absent → ¬ s.vault.Created operation)) := by
  intro s hinv hpre
  refine ensures_quiet (.reconcileCreate operation) rfl hinv trivial ?_
  intro answer t hconsiders hanswer hdisk hvault ht
  cases answer with
  | ok state =>
    refine ⟨ht, hdurable s t hdisk hvault hpre, fun created hstate => ?_, fun hstate => ?_⟩
    · rw [hvault]
      exact hanswer.2.2.1 created (by rw [hstate])
    · rw [hvault]
      exact hanswer.2.2.2 (by rw [hstate])
  | error error => exact ⟨ht, hconsiders error rfl⟩

/-- The provider after a call that creates one key at most. -/
def CreatesOne (v : Vault) (operation : KeyOperationId) (v' : Vault) : Prop :=
  v'.requested = operation :: v.requested ∧
    (v'.keys = v.keys ∨ ∃ created, v'.keys = (operation, created) :: v.keys)

theorem triple_createKey (operation : KeyOperationId)
    (hcreate : ∀ v, CreatesOne w.vault operation v → R.inv { w with vault := v } ∧
      R.grows w { w with vault := v }) :
    R.Triple (At w) (NodeM.createKey operation) (fun state s => ∃ v, CreatesOne w.vault operation v ∧
      At { w with vault := v } s ∧
      ∀ created, state = .present created → (operation, created) ∈ v.keys) := by
  rintro s hinv rfl
  refine ensures_step fun answer t hconsiders hanswer => ?_
  have hnode : t.node = s.node := hanswer.1
  have hview : t.view = { s.view with vault := t.vault } := by rw [Custody.view, hnode]; rfl
  have hone : CreatesOne s.view.vault operation t.vault := ⟨hanswer.2.1, hanswer.2.2.1⟩
  obtain ⟨hinv', hgrows⟩ := hcreate t.vault hone
  have ht : R.Inv t := ⟨by rw [hnode]; exact hinv.sound, by rw [hnode]; exact hinv.proven,
    by rw [hview]; exact hinv'⟩
  refine ⟨fun _ => ⟨ht, by rw [hview]; exact hgrows⟩, ?_⟩
  cases answer with
  | ok state =>
    exact ⟨ht, t.vault, hone, hview, fun created hstate => hanswer.2.2.2 created (by rw [hstate])⟩
  | error error => exact ⟨ht, hconsiders error rfl⟩

/-- The transaction is prepared. -/
theorem triple_prepare (base : Nat) (actions : List RecordAction) (journal : Option JournalPurpose)
    (hrefused : ∀ error, R.inv w → R.refuses w actions error → R.tolerates error) :
    R.Triple (At w) (NodeM.prepare base actions journal) (fun transaction s =>
      (At w s ∧ s.Awaits transaction) ∧ transaction.batch.keys.Nodup ∧
      transaction.batch = ⟨base, actions ++ journalAction transaction.id journal⟩) := by
  intro s hinv hat
  refine ensures_step fun answer t hconsiders hanswer => ?_
  have hvault : t.vault = s.vault := hanswer.2
  rcases hanswer.1 with ⟨error, rfl, hnode⟩ | ⟨id, hfresh, hkeys, rfl, hnode⟩
  · have hsame : t = s := by
      cases t
      cases s
      simp only at hvault hnode
      rw [hvault, hnode]
    subst hsame
    obtain rfl : t.view = w := hat
    exact ⟨fun _ => ⟨hinv, R.refl _⟩, hinv, hconsiders.elim id (hrefused error hinv.inv)⟩
  · have hview : t.view = s.view := by rw [Custody.view, hnode, hvault]; rfl
    have ht : R.Inv t := by
      refine ⟨?_, ?_, by rw [hview]; exact hinv.inv⟩
      · rw [hnode]
        exact hinv.sound.prepare hfresh hkeys
      · intro frozen active hfrozen
        rw [hnode] at hfrozen ⊢
        exact hinv.proven frozen active hfrozen
    refine ⟨fun _ => ⟨ht, by rw [hview]; exact R.refl _⟩, ht, ⟨hview.trans hat, ?_, ?_⟩, hkeys, rfl⟩
    · rw [hnode]
      exact List.mem_cons_self
    · rintro ⟨other, hmem, hid⟩
      rw [hnode] at hmem
      exact hfresh other (hinv.sound.receipts other hmem) hid

/-! ## The slot -/

theorem triple_beginCommit (hdurable : Durable pre) (id : TransactionId) :
    R.Triple pre (NodeM.beginCommit id) (fun _ s => pre s ∧ s.node.slot = .frozen id false true) := by
  intro s hinv hpre
  refine ensures_quiet (.beginCommit id) rfl hinv trivial ?_
  intro answer t hconsiders hanswer hdisk hvault ht
  have hnode := hanswer.1
  simp only [NodeCall.answers] at hnode
  split at hnode
  · rw [hnode.1]
    exact ⟨ht, hdurable s t hdisk hvault hpre, by rw [hnode.2]⟩
  · rw [hnode.1]
    exact ⟨ht, R.tolerated _ (by decide)⟩

theorem triple_finishReady (hdurable : Durable pre) :
    R.Triple pre NodeM.finishReady (fun _ => pre) := by
  intro s hinv hpre
  refine ensures_bind (ensures_quiet .finishReady rfl hinv trivial ?_)
  intro answer t _ _ hdisk hvault ht
  exact ⟨ht, hdurable s t hdisk hvault hpre⟩

theorem triple_dropProviderCall (hdurable : Durable pre) :
    R.Triple pre NodeM.dropProviderCall (fun _ => pre) := by
  intro s hinv hpre
  refine ensures_bind (ensures_quiet .dropProviderCall rfl hinv trivial ?_)
  intro answer t _ _ hdisk hvault ht
  exact ⟨ht, hdurable s t hdisk hvault hpre⟩

/-- The store stays frozen on its transaction. -/
theorem triple_finishFrozenSlot (hdurable : Durable pre) {proven active : Bool} :
    R.Triple (fun s => pre s ∧ s.node.slot = .frozen id proven active) finishFrozenSlot
      (fun _ s => pre s ∧ s.node.slot = .frozen id proven false) := by
  have hstep : R.Triple (fun s => pre s ∧ s.node.slot = .frozen id proven active)
      (ExceptT.lift (NodeCall.perform .finishFrozen))
      (fun answer s => answer = .ok () ∧ pre s ∧ s.node.slot = .frozen id proven false) := by
    intro s hinv hpre
    refine ensures_bind (ensures_quiet .finishFrozen rfl hinv trivial ?_)
    intro answer t _ hanswer hdisk hvault ht
    have hnode := hanswer.1
    simp only [NodeCall.answers, hpre.2] at hnode
    rw [hnode.1]
    exact ⟨ht, rfl, hdurable s t hdisk hvault hpre.1, by rw [hnode.2]⟩
  refine hstep.bind fun answer => ?_
  refine .assume (fun _ _ h => h.1) fun hanswer => ?_
  subst hanswer
  exact .pure fun _ _ h => h.2

/-! ## Commits -/

/-- The transaction was applied to the view or it was not. -/
def Settles (w : CustodyView) (transaction : RecordTransaction) (s : Custody) : Prop :=
  (At w s ∧ ¬ s.node.disk.HasReceipt transaction.id) ∨
    (w.store.accepts transaction.batch = true ∧ At (w.applied transaction) s)

theorem durable_settles : Durable (Settles w transaction) := by
  intro s t hdisk hvault h
  unfold Settles At Custody.view at h ⊢
  rw [hdisk, hvault]
  exact h

/-- What a commit leaves. -/
def Leaves (w : CustodyView) (transaction : RecordTransaction) : StoreOutcome → Custody → Prop
  | .committed, s => w.store.accepts transaction.batch = true ∧ At (w.applied transaction) s
  | .aborted, s => At w s
  | .conflict, s => At w s
  | .unknown, s => Settles w transaction s ∧ s.node.slot = .frozen transaction.id false false

/-- A commit at the provider, from the view of which the transaction is prepared. -/
theorem commits_cases {d e : Disk} {answer : Option (Result StoreOutcome)}
    (h : d.Commits transaction answer e) (hnew : ¬ d.HasReceipt transaction.id) :
    (e = d ∧ answer ≠ some (.ok .committed)) ∨
      (d.store.accepts transaction.batch = true ∧ e = d.applied transaction ∧
        answer ≠ some (.ok .aborted) ∧ answer ≠ some (.ok .conflict)) := by
  cases h with
  | replayed hmem => exact absurd ⟨transaction, hmem, rfl⟩ hnew
  | refused => exact Or.inl ⟨rfl, nofun⟩
  | applied answer _ haccepts hanswer =>
    refine Or.inr ⟨haccepts, rfl, ?_, ?_⟩ <;> rintro rfl <;> simp [Disk.Unsettled] at hanswer
  | failed answer hanswer =>
    refine Or.inl ⟨rfl, ?_⟩
    rintro rfl
    simp [Disk.Unsettled] at hanswer

theorem triple_providerCommit (happly : w.store.accepts transaction.batch = true →
      R.inv (w.applied transaction) ∧ R.grows w (w.applied transaction)) :
    R.Triple (fun s => (At w s ∧ s.Awaits transaction) ∧
        s.node.slot = .frozen transaction.id false true)
      (NodeM.providerCommit transaction)
      (fun answer s => (Settles w transaction s ∧
        (answer = some (.ok .committed) → w.store.accepts transaction.batch = true ∧
          At (w.applied transaction) s) ∧
        (answer = some (.ok .aborted) ∨ answer = some (.ok .conflict) → At w s) ∧
        ∀ error, answer = some (.error error) → R.tolerates error) ∧
        s.node.slot = .frozen transaction.id false true) := by
  rintro s hinv ⟨⟨rfl, hawaits⟩, hslot⟩
  refine ensures_bind (ensures_step fun answer t hconsiders hanswer => ?_)
  obtain ⟨⟨hslot', hcommits⟩, hvault⟩ := hanswer
  have hvault : t.vault = s.vault := hvault
  have hproven : t.node.Proven := by
    intro id active hfrozen
    rw [hslot', hslot] at hfrozen
    cases hfrozen
  have htolerates : ∀ error, answer = some (.error error) → R.tolerates error := by
    rintro error rfl
    exact hconsiders error rfl
  rcases commits_cases hcommits hawaits.2 with ⟨hdisk, hanswer⟩ | ⟨haccepts, hdisk, habort, hconflict⟩
  · have hview : t.view = s.view := by rw [Custody.view, hdisk, hvault]; rfl
    have ht : R.Inv t := ⟨by rw [hdisk]; exact hinv.sound, hproven, by rw [hview]; exact hinv.inv⟩
    refine ⟨fun _ => ⟨ht, by rw [hview]; exact R.refl _⟩, ht, ⟨?_, ?_, fun _ => hview, htolerates⟩,
      hslot'.trans hslot⟩
    · exact Or.inl ⟨hview, by rw [hdisk]; exact hawaits.2⟩
    · intro h
      exact absurd h hanswer
  · have hview : t.view = s.view.applied transaction := by rw [Custody.view, hdisk, hvault]; rfl
    obtain ⟨hinv', hgrows⟩ := happly haccepts
    have ht : R.Inv t := by
      refine ⟨?_, hproven, by rw [hview]; exact hinv'⟩
      rw [hdisk]
      exact hinv.sound.applied hawaits.1
    refine ⟨fun _ => ⟨ht, by rw [hview]; exact hgrows⟩, ht,
      ⟨Or.inr ⟨haccepts, hview⟩, fun _ => ⟨haccepts, hview⟩, ?_, htolerates⟩, hslot'.trans hslot⟩
    rintro (h | h)
    · exact absurd h habort
    · exact absurd h hconflict

theorem triple_commitRecords (happly : w.store.accepts transaction.batch = true →
      R.inv (w.applied transaction) ∧ R.grows w (w.applied transaction)) :
    R.Triple (fun s => At w s ∧ s.Awaits transaction) (commitRecords transaction)
      (Leaves w transaction) := by
  refine (triple_beginCommit (durable_at.and durable_awaits) transaction.id).bind fun _ => ?_
  refine (triple_providerCommit happly).bind fun answer => ?_
  match answer with
  | none =>
    refine (triple_dropProviderCall (durable_settles (w := w))).after
      (fun _ _ h => h.1.1) fun _ => ?_
    exact .fail (by decide)
  | some (.ok .unknown) =>
    refine (triple_finishFrozenSlot (durable_settles (w := w))).after
      (fun _ _ h => ⟨h.1.1, h.2⟩) fun _ => ?_
    exact .pure fun _ _ h => h
  | some (.ok .committed) =>
    refine .assume (fun _ _ h => (h.1.2.1 rfl).1) fun haccepts => ?_
    refine (triple_finishReady durable_at).after (fun _ _ h => (h.1.2.1 rfl).2) fun _ => ?_
    exact .pure fun _ _ h => ⟨haccepts, h⟩
  | some (.ok .aborted) =>
    refine (triple_finishReady durable_at).after (fun _ _ h => h.1.2.2.1 (Or.inl rfl)) fun _ => ?_
    exact .pure fun _ _ h => h
  | some (.ok .conflict) =>
    refine (triple_finishReady durable_at).after (fun _ _ h => h.1.2.2.1 (Or.inr rfl)) fun _ => ?_
    exact .pure fun _ _ h => h
  | some (.error error) =>
    refine .assume (fun _ _ h => h.1.2.2.2 error rfl) fun htolerates => ?_
    show R.Triple _ (if error.kind = .commitUnknown then (finishFrozenSlot >>= fun _ => throw error)
      else (NodeM.finishReady >>= fun _ => throw error)) _
    split
    · refine (triple_finishFrozenSlot (durable_settles (w := w))).after
        (fun _ _ h => ⟨h.1.1, h.2⟩) fun _ => ?_
      exact .throw fun _ _ _ => htolerates
    · refine (triple_finishReady (durable_settles (w := w))).after (fun _ _ h => h.1.1) fun _ => ?_
      exact .throw fun _ _ _ => htolerates

/-! ## Reconciliations -/

/-- The slot is frozen on the transaction that the caller asks for. -/
def Asks (own : Option TransactionId) (s : Custody) : Prop :=
  ∀ id, own = some id → ∃ proven active, s.node.slot = .frozen id proven active

theorem triple_beginReconcile (hdurable : Durable pre) (own : Option TransactionId) :
    R.Triple (fun s => pre s ∧ Asks own s) (NodeM.beginReconcile own) (fun pending s =>
      pre s ∧ (∀ id, own = some id → pending.1 = id) ∧
      s.node.slot = .frozen pending.1 pending.2 true) := by
  intro s hinv hpre
  refine ensures_quiet (.beginReconcile own) rfl hinv trivial ?_
  intro answer t hconsiders hanswer hdisk hvault ht
  have hnode := hanswer.1
  simp only [NodeCall.answers] at hnode
  split at hnode
  · rename_i pending proven hslot
    rw [hnode.1]
    refine ⟨ht, hdurable s t hdisk hvault hpre.1, fun id hown => ?_, by rw [hnode.2]⟩
    obtain ⟨proven', active, hid⟩ := hpre.2 id hown
    rw [hslot] at hid
    cases hid
    rfl
  · rw [hnode.1]
    exact ⟨ht, R.tolerated _ (by decide)⟩

theorem triple_providerReconcile (hdurable : Durable pre) {proven : Bool} :
    R.Triple (fun s => pre s ∧ s.node.slot = .frozen id proven true) (NodeM.providerReconcile id)
      (fun answer s => (pre s ∧ (answer = some (.ok .committed) → s.node.disk.HasReceipt id) ∧
        (answer = some (.ok .aborted) → ¬ s.node.disk.HasReceipt id) ∧
        answer ≠ some (.ok .digestConflict) ∧
        ∀ error, answer = some (.error error) → R.tolerates error) ∧
        s.node.slot = .frozen id proven true) := by
  intro s hinv hpre
  refine ensures_bind (ensures_quiet (.providerReconcile id) rfl hinv trivial ?_)
  intro answer t hconsiders hanswer hdisk hvault ht
  have hnode : t.node = s.node := hanswer.1.1
  have hreconciles : t.node.disk.Reconciles id answer := hdisk ▸ hanswer.1.2
  refine ⟨ht, ⟨hdurable s t hdisk hvault hpre.1, fun h => ?_, fun h => ?_, fun h => ?_,
    fun error h => ?_⟩, by rw [hnode]; exact hpre.2⟩
  · subst h
    cases hreconciles with
    | committed transaction hmem hid => exact ⟨transaction, hmem, hid⟩
  · subst h
    cases hreconciles with
    | aborted hnone =>
      rintro ⟨transaction, hmem, hid⟩
      exact hnone transaction hmem hid
  · subst h
    cases hreconciles
  · subst h
    exact hconsiders error rfl

/-- What a reconciliation says of the transaction. -/
def Reports (id : TransactionId) : StoreReconcile → Custody → Prop
  | .committed, s => s.node.disk.HasReceipt id
  | .aborted, s => ¬ s.node.disk.HasReceipt id
  | .digestConflict, _ => False
  | .unknown, _ => True

/-- No transaction is asked for, or the report is about it. -/
def ReportsOwn (own : Option TransactionId) (outcome : StoreReconcile) (s : Custody) : Prop :=
  ∃ id, (∀ other, own = some other → id = other) ∧ Reports id outcome s

theorem triple_reconcileRecords (hdurable : Durable pre) (own : Option TransactionId) :
    R.Triple (fun s => pre s ∧ Asks own s) (reconcileRecords own) (fun outcome s =>
      pre s ∧ ReportsOwn own outcome s) := by
  refine (triple_beginReconcile hdurable own).bind fun pending => ?_
  obtain ⟨pending, proven⟩ := pending
  refine .assume (fun _ _ h => h.2.1) fun hown => ?_
  refine (triple_providerReconcile hdurable).after (fun _ _ h => ⟨h.1, h.2.2⟩) fun answer => ?_
  match answer with
  | none =>
    refine (triple_dropProviderCall hdurable).after (fun _ _ h => h.1.1) fun _ => ?_
    exact .fail (by decide)
  | some (.ok .committed) =>
    refine (triple_finishReady (hdurable.and durable_hasReceipt)).after
      (fun _ _ h => ⟨h.1.1, h.1.2.1 rfl⟩) fun _ => ?_
    exact .pure fun _ _ h => ⟨h.1, pending, hown, h.2⟩
  | some (.ok .aborted) =>
    cases proven with
    | true =>
      -- A proven journal record has its receipt.
      refine .assume (p := False) ?_ False.elim
      intro s hinv h
      exact h.1.2.2.1 rfl (hinv.proven pending true h.2)
    | false =>
      have hnone : Durable fun s => ¬ s.node.disk.HasReceipt pending := by
        intro s t hdisk _ h
        rw [hdisk]
        exact h
      refine (triple_finishReady (hdurable.and hnone)).after
        (fun _ _ h => ⟨h.1.1, h.1.2.2.1 rfl⟩) fun _ => ?_
      exact .pure fun _ _ h => ⟨h.1, pending, hown, h.2⟩
  | some (.ok .digestConflict) =>
    refine .assume (p := False) ?_ False.elim
    intro s _ h
    exact h.1.2.2.2.1 rfl
  | some (.ok .unknown) =>
    refine (triple_finishFrozenSlot hdurable).after (fun _ _ h => ⟨h.1.1, h.2⟩) fun _ => ?_
    exact .pure fun _ _ h => ⟨h.1, pending, hown, trivial⟩
  | some (.error error) =>
    refine .assume (fun _ _ h => h.1.2.2.2.2 error rfl) fun htolerates => ?_
    refine (triple_finishFrozenSlot hdurable).after (fun _ _ h => ⟨h.1.1, h.2⟩) fun _ => ?_
    exact .throw fun _ _ _ => htolerates

/-- The report on a transaction of the caller. -/
theorem ReportsOwn.some {outcome : StoreReconcile} (h : ReportsOwn (some id) outcome s) :
    Reports id outcome s := by
  obtain ⟨other, hown, hreports⟩ := h
  rw [hown id rfl] at hreports
  exact hreports

theorem ReportsOwn.ne_digestConflict {own : Option TransactionId} :
    ¬ ReportsOwn own .digestConflict s := by
  rintro ⟨id, -, h⟩
  exact h

/-- A prepared transaction is applied and reported, or it is not applied. -/
def Ends (w : CustodyView) (transaction : RecordTransaction) : CommitWithReconcile → Custody → Prop
  | .committed, s => w.store.accepts transaction.batch = true ∧ At (w.applied transaction) s
  | .aborted, s => At w s

theorem triple_commitWithReconcile (happly : w.store.accepts transaction.batch = true →
      R.inv (w.applied transaction) ∧ R.grows w (w.applied transaction)) :
    R.Triple (fun s => At w s ∧ s.Awaits transaction) (commitWithReconcile transaction)
      (Ends w transaction) := by
  refine (triple_commitRecords happly).bind fun outcome => ?_
  cases outcome with
  | committed | aborted | conflict => exact .pure fun _ _ h => h
  | unknown =>
    have hdurable : Durable (Settles w transaction) := durable_settles
    refine (triple_reconcileRecords hdurable (some transaction.id)).after ?_ fun answer => ?_
    · rintro s _ ⟨hsettles, hslot⟩
      refine ⟨hsettles, fun id hid => ?_⟩
      cases hid
      exact ⟨_, _, hslot⟩
    cases answer with
    | committed =>
      refine .pure fun s _ h => ?_
      rcases h.1 with ⟨-, hnone⟩ | happlied
      · exact absurd h.2.some hnone
      · exact happlied
    | aborted =>
      refine .pure fun s _ h => ?_
      rcases h.1 with ⟨hat, -⟩ | ⟨-, hat⟩
      · exact hat
      · -- The applied transaction has its receipt.
        have hreceipts : s.node.disk.receipts = transaction :: w.receipts :=
          congrArg CustodyView.receipts hat
        exact absurd ⟨transaction, by rw [hreceipts]; exact List.mem_cons_self, rfl⟩ h.2.some
    | digestConflict => exact .assume (fun _ _ h => h.2.ne_digestConflict) False.elim
    | unknown => exact .fail (by decide)

/-! ## Rules -/

/-- A program that goes on with the snapshot. -/
theorem Triple.snapshot {f : RecordStore → NodeM α} (h : R.Triple (At w) (f w.store) post) :
    R.Triple (At w) (NodeM.snapshot >>= f) post := by
  refine (triple_snapshot durable_at).bind fun current => ?_
  refine .assume (fun s _ h => h.2.trans (congrArg CustodyView.store h.1)) fun hcurrent => ?_
  subst hcurrent
  exact h.weaken fun _ _ h => h.1

/-- A program that goes on with a prepared transaction. -/
theorem Triple.prepare {base : Nat} {actions : List RecordAction}
    {journal : Option JournalPurpose} {f : RecordTransaction → NodeM α}
    (hrefused : ∀ error, R.inv w → R.refuses w actions error → R.tolerates error)
    (h : ∀ transaction, R.inv w → transaction.batch.keys.Nodup →
      transaction.batch = ⟨base, actions ++ journalAction transaction.id journal⟩ →
      R.Triple (fun s => At w s ∧ s.Awaits transaction) (f transaction) post) :
    R.Triple (At w) (NodeM.prepare base actions journal >>= f) post := by
  refine (triple_prepare base actions journal hrefused).bind fun transaction => ?_
  refine .assume (fun _ _ h => h.2) fun hprepared => ?_
  refine .assume (fun s hinv h => (h.1.1 : At w s) ▸ hinv.inv) fun hinv => ?_
  exact (h transaction hinv hprepared.1 hprepared.2).weaken fun _ _ h => h.1

/-- A program that goes on after the commit. -/
theorem Triple.commit {f : CommitWithReconcile → NodeM α}
    (happly : w.store.accepts transaction.batch = true →
      R.inv (w.applied transaction) ∧ R.grows w (w.applied transaction))
    (hcommitted : w.store.accepts transaction.batch = true →
      R.Triple (At (w.applied transaction)) (f .committed) post)
    (haborted : R.Triple (At w) (f .aborted) post) :
    R.Triple (fun s => At w s ∧ s.Awaits transaction) (commitWithReconcile transaction >>= f)
      post := by
  refine (triple_commitWithReconcile happly).bind fun outcome => ?_
  cases outcome with
  | committed =>
    exact .assume (fun _ _ h => h.1) fun haccepts => (hcommitted haccepts).weaken fun _ _ h => h.2
  | aborted => exact haborted

/-- An early return of an error. -/
theorem Triple.failBind {error : Error} {f : β → NodeM α} (h : error.kind ≠ .storageCorrupt) :
    R.Triple pre (MonadExcept.throw error >>= f) post :=
  fun _ hinv _ => ⟨hinv, R.tolerated error h⟩

/-! ## Journal records -/

/-- Journal records were removed and nothing else was done. -/
structure Tidied (R : Regime) (w w' : CustodyView) : Prop where
  grows : R.grows w w'
  vault : w'.vault = w.vault
  lookup : ∀ key, (∀ purpose, key ≠ .pendingTransaction purpose) →
    w'.store.lookup key = w.store.lookup key
  receipts : ∀ transaction ∈ w'.receipts, transaction ∈ w.receipts ∨
    ∃ purpose stored, transaction.batch.actions = [.delete (.pendingTransaction purpose) stored]
  kept : ∀ transaction ∈ w.receipts, transaction ∈ w'.receipts

theorem Tidied.refl (w : CustodyView) : R.Tidied w w :=
  ⟨R.refl w, rfl, fun _ _ => rfl, fun _ h => Or.inl h, fun _ h => h⟩

theorem Tidied.trans {x y : CustodyView} (hwx : R.Tidied w x) (hxy : R.Tidied x y) :
    R.Tidied w y := by
  refine ⟨R.trans _ _ _ hwx.grows hxy.grows, hxy.vault.trans hwx.vault, fun key hkey => ?_,
    fun transaction h => ?_, fun transaction h => hxy.kept _ (hwx.kept _ h)⟩
  · rw [hxy.lookup key hkey, hwx.lookup key hkey]
  · rcases hxy.receipts transaction h with hx | hdelete
    · exact hwx.receipts transaction hx
    · exact Or.inr hdelete

variable {purpose : JournalPurpose} {stored : MetadataRecord}

/-- The removal of a journal record. -/
theorem tidied_applied (hinv : R.inv w)
    (hactions : transaction.batch.actions = [.delete (.pendingTransaction purpose) stored])
    (haccepts : w.store.accepts transaction.batch = true) : R.Tidied w (w.applied transaction) := by
  refine ⟨(R.cleanup w transaction purpose stored hinv hactions haccepts).2, rfl, fun key hkey => ?_,
    fun other h => ?_, fun other h => List.mem_cons_of_mem _ h⟩
  · refine Store.lookup_apply_of_notMem ?_
    unfold StoreBatch.keys
    rw [hactions]
    intro h
    exact hkey purpose (List.mem_singleton.mp h)
  · rcases List.mem_cons.mp h with rfl | hold
    · exact Or.inr ⟨purpose, stored, hactions⟩
    · exact Or.inl hold

/-- The view differs from `w` by removed journal records. -/
def Tidies (R : Regime) (w : CustodyView) (s : Custody) : Prop := R.Tidied w s.view

theorem Tidied.tidies {w' : CustodyView} (h : R.Tidied w w') (hat : At w' s) :
    R.Tidies w s := by
  unfold Tidies
  rw [show s.view = w' from hat]
  exact h

theorem tidies_at (h : At w s) : R.Tidies w s := (Tidied.refl w).tidies h

theorem tidies_settles (hinv : R.inv w)
    (hactions : transaction.batch.actions = [.delete (.pendingTransaction purpose) stored])
    (h : Settles w transaction s) : R.Tidies w s := by
  rcases h with ⟨hat, -⟩ | ⟨haccepts, hat⟩
  · exact tidies_at hat
  · exact (tidied_applied hinv hactions haccepts).tidies hat

/-- An unknown outcome leaves the store frozen on the transaction of the cleanup. -/
def CleanupAsks : JournalCleanup → Custody → Prop
  | .unknown id, s => Asks (some id) s
  | _, _ => True

/-- The stored journal record of a view. -/
theorem journalRecord (hinv : R.Inv s) (hat : At w s)
    (hlookup : w.store.lookup (.pendingTransaction purpose) = some stored) :
    ∃ id, stored = .pendingTransaction id ∧ s.node.disk.HasReceipt id := by
  rw [← hat] at hlookup
  exact R.journaled s.view hinv.inv purpose stored hlookup

theorem triple_journalRecord
    (hlookup : w.store.lookup (.pendingTransaction purpose) = some stored) :
    R.Triple (At w) (NodeM.ofResult (Except.okOr discoveryCorrupt stored.asPendingTransaction))
      (fun id s => At w s ∧ s.node.disk.HasReceipt id) := by
  refine .ofResult ?_ ?_
  · intro id hid s hinv hat
    obtain ⟨other, rfl, hreceipt⟩ := journalRecord hinv hat hlookup
    cases hid
    exact ⟨hat, hreceipt⟩
  · intro error herror s hinv hat
    obtain ⟨other, rfl, hreceipt⟩ := journalRecord hinv hat hlookup
    cases herror

theorem triple_cleanupJournal (purpose : JournalPurpose) :
    R.Triple (At w) (cleanupJournal purpose) (fun outcome s =>
      R.Tidies w s ∧ CleanupAsks outcome s) := by
  refine .snapshot ?_
  cases hlookup : w.store.lookup (.pendingTransaction purpose) with
  | none => exact .pure fun _ _ h => ⟨tidies_at h, trivial⟩
  | some stored =>
    refine (triple_journalRecord hlookup).bind fun _ => ?_
    refine Triple.weaken (?_ : R.Triple (At w) _ _) fun _ _ h => h.1
    refine .prepare (fun error hinv => R.refused w purpose stored error hinv hlookup)
      fun transaction hinv _ hbatch => ?_
    have hactions : transaction.batch.actions = [.delete (.pendingTransaction purpose) stored] := by
      rw [hbatch]
      rfl
    refine (triple_commitRecords ?_).bind fun outcome => ?_
    · exact R.cleanup w transaction purpose stored hinv hactions
    cases outcome with
    | committed =>
      exact .pure fun _ _ h => ⟨(tidied_applied hinv hactions h.1).tidies h.2, trivial⟩
    | aborted => exact .pure fun _ _ h => ⟨tidies_at h, trivial⟩
    | conflict => exact .pure fun _ _ h => ⟨tidies_at h, trivial⟩
    | unknown =>
      refine .pure fun s _ h => ⟨tidies_settles hinv hactions h.1, fun id hid => ?_⟩
      cases hid
      exact ⟨_, _, h.2⟩

theorem triple_cleanupPendingOnce (purpose : JournalPurpose) (context : String)
    {retry : NodeM Unit} (hretry : ∀ w', R.Tidied w w' → R.Triple (At w') retry
      (fun _ => R.Tidies w)) :
    R.Triple (At w) (cleanupPendingOnce purpose context retry) (fun _ => R.Tidies w) := by
  refine (triple_cleanupJournal purpose).bind fun outcome => ?_
  cases outcome with
  | applied => exact .pure fun _ _ h => h.1
  | absent => exact .pure fun _ _ h => h.1
  | conflict => exact .fail nofun
  | aborted => exact (Triple.ofView hretry).weaken fun _ _ h => h.1
  | unknown id =>
    refine (triple_reconcileRecords (durable_view (R.Tidied w)) (some id)).bind fun answer => ?_
    cases answer with
    | committed => exact .pure fun _ _ h => h.1
    | aborted => exact (Triple.ofView hretry).weaken fun _ _ h => h.1
    | digestConflict => exact .assume (fun _ _ h => h.2.ne_digestConflict) False.elim
    | unknown => exact .fail (by decide)

/-- The view after a cleanup differs by removed journal records. -/
theorem triple_cleanupPendingExact (purpose : JournalPurpose) (context : String) :
    R.Triple (At w) (cleanupPendingExact purpose context) (fun _ => R.Tidies w) := by
  refine triple_cleanupPendingOnce purpose context fun w' htidied => ?_
  refine (triple_cleanupPendingOnce (w := w') purpose context fun w'' _ => ?_).conseq
    (fun _ _ h => h) ?_
  · exact .fail nofun
  · intro _ s _ htidied'
    exact htidied.trans htidied'

theorem triple_freezeJournaled (hdurable : Durable pre) :
    R.Triple (fun s => pre s ∧ s.node.disk.HasReceipt id) (NodeM.freezeJournaled id)
      (fun _ s => (pre s ∧ s.node.disk.HasReceipt id) ∧ Asks (some id) s) := by
  intro s hinv hpre
  refine ensures_quiet (.freezeJournaled id) rfl hinv hpre.2 ?_
  intro answer t _ hanswer hdisk hvault ht
  have hkept := (hdurable.and durable_hasReceipt) s t hdisk hvault hpre
  have hnode := hanswer.1
  simp only [NodeCall.answers] at hnode
  split at hnode
  · rw [hnode.1]
    refine ⟨ht, hkept, fun other hother => ?_⟩
    cases hother
    exact ⟨_, _, by rw [hnode.2]⟩
  split at hnode
  · rw [hnode.1]
    refine ⟨ht, hkept, fun other hother => ?_⟩
    cases hother
    exact ⟨_, _, by rw [hnode.2]⟩
  · rw [hnode.1]
    exact ⟨ht, R.tolerated _ (by decide)⟩

/-- A journal record that is found is of an applied transaction. -/
theorem triple_recoverPending (purpose : JournalPurpose) :
    R.Triple (At w) (recoverPending purpose) (fun found s => At w s ∧
      ∀ id, found = some id → s.node.disk.HasReceipt id ∧ Asks (some id) s) := by
  refine .snapshot ?_
  cases hlookup : w.store.lookup (.pendingTransaction purpose) with
  | none => exact .pure fun _ _ h => ⟨h, nofun⟩
  | some stored =>
    refine (triple_journalRecord hlookup).bind fun id => ?_
    refine (triple_freezeJournaled durable_at).bind fun _ => ?_
    refine .pure fun s _ h => ⟨h.1.1, fun other hother => ?_⟩
    cases hother
    exact ⟨h.1.2, h.2⟩

theorem triple_reconcileRecoveredJournal (hdurable : Durable pre) :
    R.Triple (fun s => (pre s ∧ s.node.disk.HasReceipt id) ∧ Asks (some id) s)
      (reconcileRecoveredJournal id) (fun _ => pre) := by
  refine (triple_reconcileRecords (hdurable.and durable_hasReceipt) (some id)).bind fun outcome => ?_
  cases outcome with
  | committed => exact .pure fun _ _ h => h.1.1
  | aborted => exact .assume (fun _ _ h => h.2.some h.1.2) False.elim
  | digestConflict => exact .assume (fun _ _ h => h.2.ne_digestConflict) False.elim
  | unknown => exact .fail (by decide)

theorem triple_reconcileFrozen (hdurable : Durable pre) :
    R.Triple pre reconcileFrozen (fun _ => pre) := by
  have hready : R.Triple pre NodeM.isReady (fun _ => pre) := by
    intro s hinv hpre
    refine ensures_bind (ensures_quiet .isReady rfl hinv trivial ?_)
    intro answer t _ _ hdisk hvault ht
    exact ⟨ht, hdurable s t hdisk hvault hpre⟩
  refine hready.bind fun ready => ?_
  cases ready with
  | true => exact .pure fun _ _ h => h
  | false =>
    refine (triple_reconcileRecords hdurable none).after (fun _ _ h => ⟨h, nofun⟩) fun outcome => ?_
    cases outcome with
    | committed => exact .pure fun _ _ h => h.1
    | aborted => exact .pure fun _ _ h => h.1
    | digestConflict => exact .assume (fun _ _ h => h.2.ne_digestConflict) False.elim
    | unknown => exact .fail (by decide)

theorem triple_recoverJournalPrologue (purpose : JournalPurpose) (context : String) :
    R.Triple (At w) (recoverJournalPrologue purpose context) (fun _ => R.Tidies w) := by
  refine (triple_recoverPending purpose).bind fun found => ?_
  cases found with
  | none =>
    refine (triple_reconcileFrozen durable_at).after (fun _ _ h => h.1) fun _ => ?_
    exact .pure fun _ _ h => tidies_at h
  | some id =>
    refine (triple_reconcileRecoveredJournal durable_at).after
      (fun _ _ h => ⟨⟨h.1, (h.2 id rfl).1⟩, (h.2 id rfl).2⟩) fun _ => ?_
    refine (triple_cleanupPendingExact purpose context).bind fun _ => ?_
    exact .pure fun _ _ h => h

/-- A program after the recovery of a journal record. -/
theorem triple_recovered {context : String} (h : ∀ w', R.Triple (At w') p post) :
    R.Triple (At w) (recoverPending purpose >>= fun found =>
      match found with
      | some id => do
        reconcileRecoveredJournal id
        cleanupPendingExact purpose context
        p
      | none => p) post := by
  refine (triple_recoverPending purpose).bind fun found => ?_
  cases found with
  | none => exact (h w).weaken fun _ _ h => h.1
  | some id =>
    refine (triple_reconcileRecoveredJournal durable_at).after
      (fun _ _ h => ⟨⟨h.1, (h.2 id rfl).1⟩, (h.2 id rfl).2⟩) fun _ => ?_
    refine (triple_cleanupPendingExact _ _).bind fun _ => ?_
    exact .ofView fun w' _ => h w'

/-! ## Smaller regimes -/

/-- The regime with a further invariant, which journal cleanups keep. -/
def restrict (R : Regime) (P : CustodyView → Prop)
    (hcleanup : ∀ w transaction purpose stored, P w →
      transaction.batch.actions = [.delete (.pendingTransaction purpose) stored] →
      P (w.applied transaction)) : Regime where
  inv := fun w => R.inv w ∧ P w
  grows := R.grows
  tolerates := R.tolerates
  refuses := R.refuses
  refl := R.refl
  trans := R.trans
  tolerated := R.tolerated
  journaled := fun w h => R.journaled w h.1
  cleanup := by
    intro w transaction purpose stored hinv hactions haccepts
    obtain ⟨hinv', hgrows⟩ := R.cleanup w transaction purpose stored hinv.1 hactions haccepts
    exact ⟨⟨hinv', hcleanup w transaction purpose stored hinv.2 hactions⟩, hgrows⟩
  refused := fun w purpose stored error hinv => R.refused w purpose stored error hinv.1

section Restrict

variable {P : CustodyView → Prop} {hcleanup : ∀ w transaction purpose stored, P w →
  transaction.batch.actions = [.delete (.pendingTransaction purpose) stored] →
  P (w.applied transaction)}

theorem Inv.of_restrict {s : Custody} (h : (R.restrict P hcleanup).Inv s) : R.Inv s :=
  ⟨h.sound, h.proven, h.inv.1⟩

theorem ensures_of_restrict {post : α → Custody → Prop} {p : Prog NodeCall NodeCall.Answer α}
    {s : Custody} (hinv : (R.restrict P hcleanup).Inv s)
    (h : Ensures (R.restrict P hcleanup).contract post p s) :
    Ensures R.contract (fun value t => (R.restrict P hcleanup).Inv t ∧ post value t) p s := by
  induction p generalizing s with
  | done value => exact ⟨hinv, h⟩
  | call request resume ih =>
    rintro t rfl
    refine ⟨trivial, fun answer u hanswer => ?_⟩
    obtain ⟨hguarantee, hresume⟩ := (h t rfl).2 answer u hanswer
    have hu := hguarantee hinv
    exact ⟨fun _ => ⟨hu.1.of_restrict, hu.2⟩, ih answer hu.1 hresume⟩

/-- A program that keeps the further invariant also keeps the regime. -/
theorem Triple.of_restrict {p : NodeM α} {post : α → Custody → Prop}
    (h : (R.restrict P hcleanup).Triple pre p post) :
    R.Triple (fun s => pre s ∧ P s.view) p (fun value s => post value s ∧ P s.view) := by
  intro s hinv hpre
  have hinv' : (R.restrict P hcleanup).Inv s := ⟨hinv.sound, hinv.proven, hinv.inv, hpre.2⟩
  refine (ensures_of_restrict hinv' (h s hinv' hpre.1)).mono ?_
  intro result t ht
  cases result with
  | ok value => exact ⟨ht.1.of_restrict, ht.2.2, ht.1.inv.2⟩
  | error error => exact ⟨ht.1.of_restrict, ht.2.2⟩

end Restrict

/-! ## Runs -/

/-- Operations that run one at a time keep the regime in every run. -/
def contracts {Λ : Type} (R : Regime) (operation : Λ → NodeM α)
    (starts : Λ → Custody → List Λ → Prop) (post : Λ → α → CustodyView → Prop)
    (halone : ∀ label s running, starts label s running → running = [])
    (hstable : ∀ label value w w', R.inv w → R.inv w' → R.grows w w' → post label value w →
      post label value w')
    (htriple : ∀ label s running, starts label s running →
      R.Triple (At s.view) (operation label) (fun value t => post label value t.view)) :
    ((custodySchedule operation starts).within R.considers).Contracts where
  contract := fun _ => R.contract
  post := fun label => Outcome (fun value t => R.Inv t ∧ post label value t.view)
    (fun error t => R.Inv t ∧ R.tolerates error)
  invariant := R.Inv
  compatible := fun _ _ => False
  answers_eq := fun _ => rfl
  rely_refl := fun _ _ => rfl
  rely_trans := fun _ _ _ _ hst htu => htu.trans hst
  fit := nofun
  compatible_symm := nofun
  starts_compatible := by
    intro label s running h other hother
    rw [halone label s running h] at hother
    cases hother
  starts_ensures := fun label s running hinv h => htriple label s running h s hinv rfl
  invariant_guarantee := fun _ _ _ hinv hguarantee => (hguarantee hinv).1
  invariant_reset := by
    rintro s t hinv ⟨hnode, hvault⟩
    have hview : t.view = s.view := by rw [Custody.view, hnode, hvault]; rfl
    refine ⟨?_, ?_, by rw [hview]; exact hinv.inv⟩
    · rw [hnode]
      exact hinv.sound
    · rw [hnode]
      nofun
  post_guarantee := by
    intro label other value s t hinv hpost hguarantee
    obtain ⟨ht, hgrows⟩ := hguarantee hinv
    cases value with
    | ok value => exact ⟨ht, hstable label value _ _ hinv.inv ht.inv hgrows hpost.2⟩
    | error error => exact ⟨ht, hpost.2⟩
  post_reset := by
    rintro label value s t hinv hpost ⟨hnode, hvault⟩
    have hview : t.view = s.view := by rw [Custody.view, hnode, hvault]; rfl
    have ht : R.Inv t := by
      refine ⟨?_, ?_, by rw [hview]; exact hinv.inv⟩
      · rw [hnode]
        exact hinv.sound
      · rw [hnode]
        nofun
    cases value with
    | ok value => exact ⟨ht, by rw [hview]; exact hpost.2⟩
    | error error => exact ⟨ht, hpost.2⟩

end Regime

end Radiata
