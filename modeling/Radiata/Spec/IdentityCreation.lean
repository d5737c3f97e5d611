import Radiata.Spec.CborCorrect
import Radiata.Spec.CustodyRun
import Radiata.Spec.FaultFree
import Radiata.Spec.ReceiptBuilder

/-!
# Creation of the local identity

The identity is created through an intent, a key of the provider and a journaled transaction that
puts the identity in the place of the intent. Any number of openings, one after the other, each
of which may be cut off anywhere, pass through the same three phases.

## Key results

- `CreationPhase.Shows`: the records and the asked-for operations of a phase
- `triple_openLocalIdentity`: an opening ends in the last phase
- `open_creates_one_identity`: one operation, one identity, and no report of corruption
-/

namespace Radiata

open Regime

/-- How far the creation of the identity is durable. -/
inductive CreationPhase where
  | fresh
  | intended (intent : KeyCreationIntentV1)
  | settled (identity : LocalIdentityV1)

namespace CreationPhase

def identity : CreationPhase → Option LocalIdentityV1
  | settled identity => some identity
  | _ => none

def intent : CreationPhase → Option KeyCreationIntentV1
  | intended intent => some intent
  | _ => none

def operation : CreationPhase → Option KeyOperationId
  | fresh => none
  | intended intent => some intent.operation
  | settled identity => some identity.operation

/-- What is stored in the phase, and what the provider was asked for. -/
structure Shows (phase : CreationPhase) (w : CustodyView) : Prop where
  identity : w.store.lookup .localIdentity = phase.identity.map .localIdentity
  intents : ∀ operation, w.store.lookup (.keyCreationIntent operation) =
    (phase.intent.filter fun intent => intent.operation = operation).map .keyCreationIntent
  purpose : ∀ intent, phase.intent = some intent → intent.purpose = .localIdentity
  requested : ∀ operation ∈ w.vault.requested, phase.operation = some operation

variable {phase : CreationPhase} {w : CustodyView}

theorem Shows.discoverLocalIdentity (h : phase.Shows w) :
    discoverLocalIdentity w.store = .ok phase.identity := by
  unfold Radiata.discoverLocalIdentity
  rw [h.identity]
  cases phase.identity <;> rfl

theorem Shows.discoverKeyCreationIntent (h : phase.Shows w) :
    discoverKeyCreationIntent w.store = .ok phase.intent := by
  unfold Radiata.discoverKeyCreationIntent
  have hintents := h.intents
  cases hintent : phase.intent with
  | none =>
    rw [hintent] at hintents
    have hscan : w.store.scan MetadataKey.isKeyCreationIntent = [] := by
      refine Store.scan_eq_nil fun key hkey => ?_
      cases key with
      | keyCreationIntent operation => exact hintents operation
      | _ => cases hkey
    rw [hscan]
  | some intent =>
    rw [hintent] at hintents
    have hscan : w.store.scan MetadataKey.isKeyCreationIntent =
        [(.keyCreationIntent intent.operation, .keyCreationIntent intent)] := by
      refine Store.scan_eq_singleton rfl (by simp [hintents]) fun key hkey hne => ?_
      cases key with
      | keyCreationIntent operation =>
        have hoperation : intent.operation ≠ operation := fun heq => hne (by rw [heq])
        simp [hintents, hoperation]
      | _ => cases hkey
    rw [hscan]
    simp [MetadataRecord.asKeyCreationIntent, Except.okOr, Except.rejectIf, h.purpose intent hintent]

/-- A change of other records leaves the phase. -/
theorem Shows.of_lookup (h : phase.Shows w) {w' : CustodyView}
    (hvault : w'.vault = w.vault)
    (hidentity : w'.store.lookup .localIdentity = w.store.lookup .localIdentity)
    (hintents : ∀ operation, w'.store.lookup (.keyCreationIntent operation) =
      w.store.lookup (.keyCreationIntent operation)) : phase.Shows w' := by
  refine ⟨hidentity.trans h.identity, fun operation => (hintents operation).trans (h.intents _),
    h.purpose, ?_⟩
  rw [hvault]
  exact h.requested

/-- The provider is asked for the operation of the phase. -/
theorem Shows.createsOne (h : phase.Shows w) {operation : KeyOperationId}
    (hoperation : phase.operation = some operation) {v : Vault}
    (hone : CreatesOne w.vault operation v) : phase.Shows { w with vault := v } := by
  refine ⟨h.identity, h.intents, h.purpose, fun other hother => ?_⟩
  replace hother : other ∈ v.requested := hother
  rw [hone.1] at hother
  rcases List.mem_cons.mp hother with rfl | hold
  · exact hoperation
  · exact h.requested other hold

end CreationPhase

/-! ## The regime -/

/-- Every record was put by an applied transaction. -/
def CustodyView.Backed (w : CustodyView) : Prop :=
  ∀ key stored, w.store.lookup key = some stored →
    ∃ transaction ∈ w.receipts, transaction.Puts key stored

theorem CustodyView.Backed.applied {w : CustodyView} (h : w.Backed) {transaction : RecordTransaction}
    (hkeys : transaction.batch.keys.Nodup) (haccepts : w.store.accepts transaction.batch = true) :
    (w.applied transaction).Backed := by
  intro key stored hlookup
  have hold : w.store.lookup key = some stored →
      ∃ other ∈ (w.applied transaction).receipts, other.Puts key stored := by
    intro hbefore
    obtain ⟨other, hother, hputs⟩ := h key stored hbefore
    exact ⟨other, List.mem_cons_of_mem _ hother, hputs⟩
  obtain ⟨action, haction, rfl, hbefore, hafter⟩ | ⟨-, hsame⟩ :=
    Store.lookup_apply haccepts hkeys key
  · cases action with
    | check key expected => exact hold (hbefore.trans (hafter.symm.trans hlookup))
    | put key expected value =>
      obtain rfl : value = stored := Option.some.inj (hafter.symm.trans hlookup)
      exact ⟨transaction, List.mem_cons_self, expected, haction⟩
    | delete key expected => cases hafter.symm.trans hlookup
  · exact hold (hsame.symm.trans hlookup)

/-- What is durable on a store that only openings work on. -/
structure CreationInv (w : CustodyView) : Prop where
  journaled : w.Journaled
  backed : w.Backed
  leave : w.store.lookup .leaveIntent = none
  phase : ∃ phase : CreationPhase, phase.Shows w

/-- The local identity stays. -/
def KeepsIdentity (w w' : CustodyView) : Prop :=
  ∀ stored, w.store.lookup .localIdentity = some stored →
    w'.store.lookup .localIdentity = some stored

/-- The errors that may come of the calls of an opening. -/
structure OpenErrors where
  tolerates : Error → Prop
  refuses : List RecordTransaction → List RecordAction → Error → Prop
  tolerated : ∀ error : Error, error.kind ≠ .storageCorrupt → tolerates error
  refused : ∀ receipts actions error, (∀ key stored, .delete key stored ∈ actions →
    ∃ transaction ∈ receipts, transaction.Puts key stored) →
    refuses receipts actions error → tolerates error

def creationRegime (E : OpenErrors) : Regime where
  inv := CreationInv
  grows := KeepsIdentity
  tolerates := E.tolerates
  refuses := fun w => E.refuses w.receipts
  refl := fun _ _ h => h
  trans := fun _ _ _ hwx hxy stored h => hxy stored (hwx stored h)
  tolerated := E.tolerated
  journaled := fun _ h => h.journaled
  cleanup := by
    intro w transaction purpose stored hinv hactions haccepts
    have hkeep : ∀ key, (∀ purpose, key ≠ .pendingTransaction purpose) →
        (w.applied transaction).store.lookup key = w.store.lookup key := by
      intro key hkey
      refine Store.lookup_apply_of_notMem ?_
      simp [StoreBatch.keys, hactions, StoreAction.key, hkey]
    obtain ⟨phase, hshows⟩ := hinv.phase
    have hkeys : transaction.batch.keys.Nodup := by simp [StoreBatch.keys, hactions]
    refine ⟨⟨?_, hinv.backed.applied hkeys haccepts, (hkeep .leaveIntent nofun).trans hinv.leave,
      phase, ?_⟩, fun other h => ?_⟩
    · refine hinv.journaled.applied haccepts hkeys ?_
      simp [hactions, StoreAction.result]
    · exact hshows.of_lookup rfl (hkeep .localIdentity nofun) fun operation => hkeep _ nofun
    · rw [hkeep .localIdentity nofun]
      exact h
  refused := by
    intro w purpose stored error hinv hlookup
    refine E.refused _ _ _ fun key other hmem => ?_
    cases List.mem_singleton.mp hmem
    exact hinv.backed _ _ hlookup

section Open

variable {w : CustodyView} {intent : KeyCreationIntentV1} {identity : LocalIdentityV1}

/-- The intent is stored. -/
theorem CreationInv.intends (hinv : CreationInv w) (hshows : CreationPhase.fresh.Shows w)
    (intent : KeyCreationIntentV1) (hpurpose : intent.purpose = .localIdentity) {transaction : RecordTransaction} {base : Nat}
    (hbatch : transaction.batch = ⟨base,
      [.put (.keyCreationIntent intent.operation) none (.keyCreationIntent intent)] ++
        journalAction transaction.id none⟩)
    (hkeys : transaction.batch.keys.Nodup) (haccepts : w.store.accepts transaction.batch = true) :
    CreationInv (w.applied transaction) ∧
      (CreationPhase.intended intent).Shows (w.applied transaction) := by
  have hkeep : ∀ key, key ≠ .keyCreationIntent intent.operation →
      (w.applied transaction).store.lookup key = w.store.lookup key := by
    intro key hkey
    refine Store.lookup_apply_of_notMem ?_
    simp [StoreBatch.keys, hbatch, StoreAction.key, journalAction, hkey]
  have hput : (w.applied transaction).store.lookup (.keyCreationIntent intent.operation) =
      some (.keyCreationIntent intent) := by
    have hmem : (.put (.keyCreationIntent intent.operation) none (.keyCreationIntent intent)) ∈
        transaction.batch.actions := by simp [hbatch]
    exact Store.lookup_apply_of_mem haccepts hkeys hmem
  have hshows' : (CreationPhase.intended intent).Shows (w.applied transaction) := by
    refine ⟨(hkeep .localIdentity (by simp)).trans hshows.identity, fun operation => ?_, ?_, ?_⟩
    · by_cases hoperation : intent.operation = operation
      · subst hoperation
        rw [hput]
        simp [CreationPhase.intent]
      · rw [hkeep _ fun h => hoperation (MetadataKey.keyCreationIntent.inj h).symm, hshows.intents]
        simp [CreationPhase.intent, hoperation]
    · intro other hother
      cases hother
      exact hpurpose
    · intro operation hoperation
      cases hshows.requested operation hoperation
  refine ⟨⟨?_, hinv.backed.applied hkeys haccepts, (hkeep .leaveIntent (by simp)).trans hinv.leave,
    _, hshows'⟩, hshows'⟩
  refine hinv.journaled.applied haccepts hkeys ?_
  simp [hbatch, journalAction, StoreAction.key]

/-- The identity takes the place of the intent. -/
theorem CreationInv.settles (hinv : CreationInv w)
    (hshows : (CreationPhase.intended intent).Shows w)
    (hoperation : identity.operation = intent.operation) {transaction : RecordTransaction}
    {base : Nat}
    (hbatch : transaction.batch = ⟨base,
      [.delete (.keyCreationIntent intent.operation) (.keyCreationIntent intent),
        .put .localIdentity none (.localIdentity identity)] ++ reuseGuards identity.handle ++
        journalAction transaction.id (some .localIdentity)⟩)
    (hkeys : transaction.batch.keys.Nodup) (haccepts : w.store.accepts transaction.batch = true) :
    CreationInv (w.applied transaction) ∧
      (CreationPhase.settled identity).Shows (w.applied transaction) := by
  have hmem : ∀ action ∈ transaction.batch.actions,
      (w.applied transaction).store.lookup action.key = action.result := fun action haction =>
    Store.lookup_apply_of_mem haccepts hkeys haction
  have hput := hmem (.put .localIdentity none (.localIdentity identity)) (by simp [hbatch])
  have hdelete := hmem (.delete (.keyCreationIntent intent.operation) (.keyCreationIntent intent))
    (by simp [hbatch])
  have hshows' : (CreationPhase.settled identity).Shows (w.applied transaction) := by
    refine ⟨hput, fun operation => ?_, nofun, fun operation hrequested => ?_⟩
    · by_cases heq : intent.operation = operation
      · subst heq
        exact hdelete
      · refine (Store.lookup_apply_of_notMem ?_).trans ?_
        · simp [StoreBatch.keys, hbatch, StoreAction.key, journalAction, reuseGuards, Ne.symm heq]
        · rw [hshows.intents]
          simp [CreationPhase.intent, heq]
    · have h := hshows.requested operation hrequested
      cases h
      exact congrArg some hoperation
  refine ⟨⟨?_, hinv.backed.applied hkeys haccepts, ?_, _, hshows'⟩, hshows'⟩
  · refine hinv.journaled.applied haccepts hkeys ?_
    simp [hbatch, journalAction, reuseGuards, StoreAction.key, StoreAction.result]
  · refine (Store.lookup_apply_of_notMem ?_).trans hinv.leave
    simp [StoreBatch.keys, hbatch, StoreAction.key, journalAction, reuseGuards]

end Open

/-! ## Programs -/

theorem encodeRecord_kind {item : Cbor.Item} {limits : CborLimits} {error : Error}
    (h : encodeRecord item limits = .error error) : error.kind = .invalidInput := by
  by_contra hkind
  exact encodeCanonical_ne_error hkind _ _ _ h

theorem triple_encodeRecord {R : Regime} {α : Type} {pre : Custody → Prop} {item : Cbor.Item}
    {limits : CborLimits} {f : Bytes → NodeM α} {post : α → Custody → Prop}
    (h : ∀ bytes, R.Triple pre (f bytes) post) :
    R.Triple pre (NodeM.ofResult (encodeRecord item limits) >>= f) post := by
  refine .bindResult (fun bytes _ => h bytes) fun error herror _ _ _ => R.tolerated error ?_
  rw [encodeRecord_kind herror]
  exact nofun

theorem triple_verifyProviderKey {R : Regime} {w : CustodyView} (handle : KeyHandle)
    (expected : PublicKey) : R.Triple (At w) (verifyProviderKey handle expected) (fun _ => At w) := by
  refine (triple_publicKey durable_at handle).bind fun provided => ?_
  refine .ofResult (fun _ _ _ _ h => h) fun error herror _ _ _ => R.tolerated error ?_
  unfold Except.rejectIf at herror
  split at herror
  · cases herror
    decide
  · cases herror

section Open

variable {E : OpenErrors} {w : CustodyView}

theorem triple_acceptExactFinalState {intent : KeyCreationIntentV1} (expected : LocalIdentityV1)
    (hshows : (CreationPhase.intended intent).Shows w) :
    (creationRegime E).Triple (At w) (acceptExactFinalState expected)
      (fun _ _ => False) := by
  refine .snapshot ?_
  rw [hshows.discoverLocalIdentity, hshows.discoverKeyCreationIntent]
  exact .fail (by decide)

theorem triple_finalizeIdentity {intent : KeyCreationIntentV1} (created : CreatedKey)
    (hshows : (CreationPhase.intended intent).Shows w) :
    (creationRegime E).Triple (At w) (finalizeIdentity intent created)
      (fun identity s => (CreationPhase.settled identity).Shows s.view) := by
  refine .snapshot ?_
  dsimp only
  split
  · exact .failBind nofun
  refine triple_encodeRecord fun _ => .prepare (fun error hinv => ?_)
    fun transaction hinv hkeys hbatch => ?_
  · -- the intent that goes is the stored one
    refine E.refused _ _ _ fun key stored hmem => hinv.backed _ _ ?_
    simp only [reuseGuards, List.mem_cons, List.mem_append, List.not_mem_nil, reduceCtorEq,
      or_false, StoreAction.delete.injEq] at hmem
    obtain ⟨rfl, rfl⟩ := hmem
    rw [hshows.intents]
    simp [CreationPhase.intent]
  have happlied := hinv.settles hshows rfl hbatch hkeys
  refine .commit ?_ ?_ ?_
  · intro haccepts
    refine ⟨(happlied haccepts).1, fun stored hstored => ?_⟩
    rw [hshows.identity] at hstored
    cases hstored
  · intro haccepts
    have hshows' := (happlied haccepts).2
    refine (triple_cleanupPendingExact _ _).bind fun _ => .pure fun s _ htidied => ?_
    exact hshows'.of_lookup htidied.vault (htidied.lookup _ nofun) fun _ => htidied.lookup _ nofun
  · exact (triple_acceptExactFinalState _ hshows).bind fun _ _ _ h => h.elim

/-- The key of the operation of the phase. -/
theorem triple_createKeyExact {phase : CreationPhase} {operation : KeyOperationId}
    (hoperation : phase.operation = some operation) (hshows : phase.Shows w) :
    (creationRegime E).Triple (At w) (createKeyExact operation)
      (fun _ s => phase.Shows s.view) := by
  refine .assume (fun s hinv h => (h : At w s) ▸ hinv.inv) fun hinv : CreationInv w => ?_
  refine (triple_createKey operation fun v hone => ?_).bind fun state => ?_
  · exact ⟨⟨hinv.journaled, hinv.backed, hinv.leave, phase, hshows.createsOne hoperation hone⟩, fun _ h => h⟩
  cases state with
  | present created =>
    rintro s hs ⟨v, hone, hat, -⟩
    refine Triple.bind (triple_verifyProviderKey _ _) (fun _ => .pure fun t _ h => ?_) s hs hat
    rw [show t.view = _ from h]
    exact hshows.createsOne hoperation hone
  | absent => exact .fail (by decide)
  | unknown => exact .fail (by decide)

theorem triple_createIdentity (hshows : CreationPhase.fresh.Shows w) :
    (creationRegime E).Triple (At w) (createIdentity w.store)
      (fun identity s => (CreationPhase.settled identity).Shows s.view) := by
  refine (triple_generateNode durable_at).bind fun node => ?_
  refine (triple_generateOperation durable_at).after (fun _ _ h => h) fun operation => ?_
  refine Triple.weaken (?_ : (creationRegime E).Triple (At w) _ _) fun _ _ h => h.1
  refine .prepare (fun error _ => E.refused _ _ _ (by simp))
    fun transaction hinv hkeys hbatch => triple_encodeRecord fun _ => ?_
  have happlied := hinv.intends hshows ⟨operation, node, .localIdentity⟩ rfl hbatch hkeys
  refine .commit ?_ ?_ (.failBind (by decide))
  · intro haccepts
    refine ⟨(happlied haccepts).1, fun stored hstored => ?_⟩
    rw [hshows.identity] at hstored
    cases hstored
  · intro haccepts
    refine (triple_createKeyExact rfl (happlied haccepts).2).bind fun created => ?_
    exact .ofView fun w' hshows' => triple_finalizeIdentity created hshows'

theorem triple_resumeIdentityCreation {intent : KeyCreationIntentV1}
    (hshows : (CreationPhase.intended intent).Shows w) :
    (creationRegime E).Triple (At w) (resumeIdentityCreation intent)
      (fun identity s => (CreationPhase.settled identity).Shows s.view) := by
  refine (triple_reconcileCreate durable_at intent.operation).bind fun state => ?_
  refine Triple.weaken (?_ : (creationRegime E).Triple (At w) _ _) fun _ _ h => h.1
  cases state with
  | present created =>
    refine (triple_verifyProviderKey _ _).bind fun _ => ?_
    exact triple_finalizeIdentity created hshows
  | absent =>
    refine (triple_createKeyExact rfl hshows).bind fun created => ?_
    exact .ofView fun w' hshows' => triple_finalizeIdentity created hshows'
  | unknown => exact .failBind (by decide)

theorem triple_openPhase {phase : CreationPhase} (hshows : phase.Shows w) :
    (creationRegime E).Triple (At w) (openPhase w.store)
      (fun identity s => (CreationPhase.settled identity).Shows s.view) := by
  unfold openPhase
  rw [hshows.discoverLocalIdentity, hshows.discoverKeyCreationIntent]
  cases phase with
  | fresh => exact triple_createIdentity hshows
  | intended intent => exact triple_resumeIdentityCreation hshows
  | settled identity =>
    have hverified : (creationRegime E).Triple (At w)
        (verifyProviderKey identity.handle identity.publicKey >>= fun _ => pure identity)
        (fun identity s => (CreationPhase.settled identity).Shows s.view) := by
      refine (triple_verifyProviderKey _ _).bind fun _ => .pure fun s _ hat => ?_
      rw [show s.view = w from hat]
      exact hshows
    exact hverified

theorem triple_resumeIfPending (rounds : Nat) :
    (creationRegime E).Triple (At w) (resumeIfPending rounds)
      (fun found s => found = none ∧ At w s) := by
  have hnone : (creationRegime E).Triple (At w) discoverLeaveIntent
      (fun found s => found = none ∧ At w s) := by
    refine .snapshot (.assume (fun s hinv h => (h : At w s) ▸ hinv.inv) fun hinv => ?_)
    rw [CreationInv.leave hinv]
    exact .pure fun _ _ h => ⟨rfl, h⟩
  refine hnone.bind fun found => .assume (fun _ _ h => h.1) fun hfound => ?_
  subst hfound
  exact .pure fun _ _ h => ⟨rfl, h.2⟩

/-- An opening that returns an identity leaves it stored. -/
theorem triple_openLocalIdentity (capable : Bool) (rounds : Nat) :
    (creationRegime E).Triple (At w) (openLocalIdentity capable rounds)
      (fun identity s => (CreationPhase.settled identity).Shows s.view) := by
  refine triple_recovered fun w' => ?_
  cases capable with
  | false => exact .failBind (by decide)
  | true =>
    refine .snapshot (.assume (fun s hinv h => (h : At w' s) ▸ hinv.inv) fun hinv => ?_)
    obtain ⟨phase, hshows⟩ := CreationInv.phase hinv
    refine (triple_openPhase hshows).bind fun identity => .ofView fun w'' hsettled => ?_
    refine (triple_resumeIfPending rounds).bind fun found => .assume (fun _ _ h => h.1) fun hfound => ?_
    subst hfound
    refine .pure fun s _ h => ?_
    rw [show s.view = w'' from h.2]
    exact hsettled

end Open

/-! ## Runs -/

/-- The providers do not report corruption. The builder of a transaction does where it finds the
    receipt engine so. -/
def NodeCall.Uncorrupt [DnsName] : (call : NodeCall) → Custody → call.Answer → Prop
  | .prepare _ actions _, s, .error error =>
    error.kind ≠ .storageCorrupt ∨ Refuses s.node.disk.receipts actions error
  | call, _, answer => ∀ error, call.fault answer = some error → error.kind ≠ .storageCorrupt

/-- Openings of one store, each with the capabilities of its provider and a bound on its wipes. They
    run one after the other, and each opens the store anew. -/
def openSchedule : Schedule (Bool × Nat) NodeCall NodeCall.Answer (Result LocalIdentityV1) Custody :=
  custodySchedule (fun label => openLocalIdentity label.1 label.2)
    fun _ s running => running = [] ∧ s.node.slot = .ready

/-- The identity that an opening returned. -/
def OpenedAs (_ : Bool × Nat) (identity : LocalIdentityV1) (w : CustodyView) : Prop :=
  w.store.lookup .localIdentity = some (.localIdentity identity)

/-- Nothing is stored, and no key was asked for. -/
structure Custody.Fresh (s : Custody) : Prop where
  ready : s.node.slot = .ready
  sound : s.node.disk.Sound
  store : ∀ key, s.node.disk.store.lookup key = none
  requested : s.vault.requested = []

theorem Custody.Fresh.inv {s : Custody} (h : s.Fresh) (E : OpenErrors) : (creationRegime E).Inv s := by
  refine ⟨h.sound, ?_, ?_, ?_, h.store _, .fresh, h.store _, fun operation => h.store _, nofun, ?_⟩
  · intro id active hslot
    rw [h.ready] at hslot
    cases hslot
  · intro purpose stored hstored
    rw [show s.view.store = s.node.disk.store from rfl, h.store] at hstored
    cases hstored
  · intro key stored hstored
    rw [show s.view.store = s.node.disk.store from rfl, h.store] at hstored
    cases hstored
  · intro operation hoperation
    rw [show s.view.vault = s.vault from rfl, h.requested] at hoperation
    cases hoperation

/-- Openings keep the regime in every run. -/
def openContracts (E : OpenErrors) :
    (openSchedule.within (creationRegime E).considers).Contracts := by
  refine (creationRegime E).contracts _ _ OpenedAs ?_ ?_ ?_
  · intro label s running h
    exact h.1
  · intro label identity w w' _ _ hgrows h
    exact hgrows _ h
  · intro label s running _
    refine (triple_openLocalIdentity label.1 label.2).conseq (fun _ _ h => h) fun identity t _ h => ?_
    exact h.identity

/-- Every answer is considered. -/
def anyErrors : OpenErrors :=
  ⟨fun _ => True, fun _ _ _ => False, fun _ _ => trivial, fun _ _ _ _ => False.elim⟩

theorem within_anyErrors :
    openSchedule.within (creationRegime anyErrors).considers = openSchedule := by
  unfold Schedule.within
  have hanswers : (fun (request : NodeCall) (s : Custody) (answer : request.Answer) t =>
      (creationRegime anyErrors).considers request s answer ∧
        openSchedule.answers request s answer t) = openSchedule.answers := by
    funext request s answer t
    refine propext ⟨fun h => h.2, fun h => ⟨Regime.considers_of_tolerates fun _ => trivial, h⟩⟩
  rw [hanswers]

/-- The builders do not report corruption. -/
def soundErrors [DnsName] {internal namespaceTag : StoreNamespace}
    (hns : internalNamespace = .ok internal) (hpending : pendingNamespace = .ok namespaceTag) :
    OpenErrors :=
  ⟨fun error => error.kind ≠ .storageCorrupt, Refuses, fun _ h => h,
    fun _ _ _ hput h => h.kind_ne hns hpending hput⟩

/-- Openings of a store, one after the other and cut off anywhere, ask for keys under one operation,
    keep the identity once it is stored, return that one, and do not report corruption where the
    providers do not. -/
theorem open_creates_one_identity [DnsName] {origin : Custody} (horigin : origin.Fresh) :
    (∀ s, (openSchedule.runs origin).Reachable s →
      (∀ a ∈ s.state.vault.requested, ∀ b ∈ s.state.vault.requested, a = b) ∧
      (∀ t, (openSchedule.runs origin).Path s t → ∀ stored,
        s.state.node.disk.store.lookup .localIdentity = some stored →
        t.state.node.disk.store.lookup .localIdentity = some stored) ∧
      ∀ label identity label' identity',
        (⟨label, .done (.ok identity)⟩ : Thread _ _ _ _) ∈ s.threads →
        (⟨label', .done (.ok identity')⟩ : Thread _ _ _ _) ∈ s.threads → identity = identity') ∧
    ∀ internal namespaceTag, internalNamespace = .ok internal → pendingNamespace = .ok namespaceTag →
      ∀ s, ((openSchedule.within NodeCall.Uncorrupt).runs origin).Reachable s →
        ∀ label error, (⟨label, .done (.error error)⟩ : Thread _ _ _ _) ∈ s.threads →
          error.kind ≠ .storageCorrupt := by
  refine ⟨?_, ?_⟩
  · intro s hs
    rw [← within_anyErrors] at hs ⊢
    have hholds := (openContracts _).holds_of_reachable (horigin.inv _) hs
    refine ⟨fun a ha b hb => ?_, fun t ht stored hstored => ?_, ?_⟩
    · obtain ⟨phase, hshows⟩ := CreationInv.phase hholds.invariant.inv
      have hboth := (hshows.requested a ha).symm.trans (hshows.requested b hb)
      exact Option.some.inj hboth
    · refine Schedule.Contracts.Holds.path_state (R := fun s t => KeepsIdentity s.view t.view)
        (fun _ _ h => h) (fun _ _ _ hst htu stored h => htu stored (hst stored h)) ?_ ?_ hholds ht
        stored hstored
      · intro label s t hinv hguarantee
        exact (hguarantee hinv).2
      · rintro s t - ⟨hnode, hvault⟩ stored h
        rw [Custody.view, hnode]
        exact h
    · intro label identity label' identity' hdone hdone'
      have hstored := (hholds.post hdone).2.symm.trans (hholds.post hdone').2
      cases hstored
      rfl
  · intro internal namespaceTag hns hpending s hs label error hdone
    have hholds := (openContracts (soundErrors hns hpending)).holds_of_reachable (horigin.inv _) hs
    exact (hholds.post hdone).2

/-! ### A sample opening -/

/-- Ids and keys of a sample node. -/
def sampleSource : CalmSource where
  node := fun _ => sampleIssuer.node
  operation := fun n => if n ≤ 1 then sampleIssuer.operation
    else .ofDigits 3 3
  transaction := fun n => match n % 4 with
    | 0 => .ofDigits 0 0
    | 1 => .ofDigits 1 1
    | 2 => .ofDigits 2 2
    | _ => .ofDigits 3 3
  handle := fun _ => sampleIssuer.handle
  key := fun _ => sampleIssuer.publicKey
  sign := fun _ _ => .fill 0

def emptyCalm : Calm := ⟨⟨⟨.ready, ⟨⟨0, ∅⟩, [], []⟩⟩, ⟨[], []⟩⟩, [], 0⟩

set_option maxRecDepth 20000 in
theorem run_open_emptyCalm : (Prog.run (Calm.serve sampleSource) (openLocalIdentity true 1).run
    emptyCalm).1.toOption = some sampleIssuer := by decide +kernel

theorem fresh_emptyCalm : emptyCalm.custody.Fresh := by
  refine ⟨rfl, ⟨?_, ?_, ?_⟩, fun key => ?_, rfl⟩
  · intro transaction hmem
    cases hmem
  · intro transaction hmem
    cases hmem
  · intro transaction hmem
    cases hmem
  · rfl

theorem exists_pendingNamespace_hostNames :
    ∃ namespaceTag, @pendingNamespace .hostNames = .ok namespaceTag :=
  Result.exists_of_isSome_toOption (by decide)

/-- The first opening of an empty store creates the identity that every opening returns, and none
    reports corruption. -/
theorem open_emptyCalm_once :
    letI := DnsName.hostNames
    emptyCalm.custody.Fresh ∧
    (∃ s, (openSchedule.runs emptyCalm.custody).Reachable s ∧
      (⟨(true, 1), .done (.ok sampleIssuer)⟩ : Thread _ _ _ _) ∈ s.threads ∧
      ∀ label identity, (⟨label, .done (.ok identity)⟩ : Thread _ _ _ _) ∈ s.threads →
        identity = sampleIssuer) ∧
    ∃ internal namespaceTag, internalNamespace = .ok internal ∧
      pendingNamespace = .ok namespaceTag ∧
      ∀ s, ((openSchedule.within NodeCall.Uncorrupt).runs emptyCalm.custody).Reachable s →
        ∀ label error, (⟨label, .done (.error error)⟩ : Thread _ _ _ _) ∈ s.threads →
          error.kind ≠ .storageCorrupt := by
  let _ := DnsName.hostNames
  obtain ⟨hruns, hsound⟩ := open_creates_one_identity fresh_emptyCalm
  obtain ⟨internal, hns⟩ := exists_internalNamespace_hostNames
  obtain ⟨namespaceTag, hpending⟩ := exists_pendingNamespace_hostNames
  refine ⟨fresh_emptyCalm, ?_, internal, namespaceTag, hns, hpending,
    hsound internal namespaceTag hns hpending⟩
  have hopened := Prog.runs_of_run Calm.custody (I := fun _ => True)
    (fun call s _ => ⟨Calm.conforms sampleSource call s, trivial⟩) (openLocalIdentity true 1).run
    (s := emptyCalm) trivial
  rw [Result.toOption_eq_some.mp run_open_emptyCalm] at hopened
  have hstart : (openSchedule.runs emptyCalm.custody).Reachable
      ⟨emptyCalm.custody, [] ++ ⟨(true, 1), (openLocalIdentity true 1).run⟩ :: []⟩ := by
    have hinit : (openSchedule.runs emptyCalm.custody).Reachable ⟨emptyCalm.custody, []⟩ := .init rfl
    exact hinit.step (.start (true, 1) ⟨rfl, rfl⟩)
  have hdone := hstart.path (Schedule.path_of_runs hopened [] [] (true, 1))
  refine ⟨_, hdone, List.mem_cons_self, fun label identity h => ?_⟩
  exact (hruns _ hdone).2.2 label identity (true, 1) sampleIssuer h List.mem_cons_self

end Radiata
