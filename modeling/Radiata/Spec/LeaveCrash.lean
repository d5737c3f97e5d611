import Radiata.Spec.IdentityCreation
import Radiata.Spec.LeaveHandle

/-!
# A leave that is cut off

A leave has six steps: the intent, the key of the replacement, the swap of the identity, the wipe,
the deletion of the former key and the completion. A crash may cut it off before any call, and
every opening that follows takes it up again and may be cut off as well. What is durable is then
always in one of three phases, and an opening that returns leaves none of it half done.

## Key results

- `LeavePhase.Shows`: what is stored in a phase
- `triple_runLeave`: the steps from the intent on end in the last phase
- `leave_crash_atomic`: the phases of every run
-/

namespace Radiata

open Regime

/-! ## Phases -/

/-- The coordinates of the identity that is left. -/
def LeaveIntentV1.Leaves (intent : LeaveIntentV1) (former : LocalIdentityV1) : Prop :=
  intent.formerNode = former.node ∧ intent.formerKey = former.publicKey ∧
    intent.formerHandle = former.handle

/-- The keys that were created for an operation. -/
def Vault.keysOf (vault : Vault) (operation : KeyOperationId) : List CreatedKey :=
  (vault.keys.filter fun entry => entry.1 = operation).map Prod.snd

theorem Vault.mem_keysOf {vault : Vault} {operation : KeyOperationId} {created : CreatedKey} :
    created ∈ vault.keysOf operation ↔ (operation, created) ∈ vault.keys := by
  unfold Vault.keysOf
  simp

theorem Vault.keysOf_eq_nil {vault : Vault} {operation : KeyOperationId}
    (h : ¬ vault.Created operation) : vault.keysOf operation = [] := by
  apply List.eq_nil_iff_forall_not_mem.mpr
  intro created hmem
  exact h ⟨created, Vault.mem_keysOf.mp hmem⟩

/-- How far a leave is durable. -/
inductive LeavePhase where
  | member
  | leaving (intent : LeaveIntentV1)
  | left (intent : LeaveIntentV1) (created : CreatedKey)

namespace LeavePhase

/-- The phases that may follow. -/
inductive Leads : LeavePhase → LeavePhase → Prop where
  | refl (phase : LeavePhase) : Leads phase phase
  | begins (intent : LeaveIntentV1) : Leads member (leaving intent)
  | whole (intent : LeaveIntentV1) (created : CreatedKey) : Leads member (left intent created)
  | ends (intent : LeaveIntentV1) (created : CreatedKey) :
      Leads (leaving intent) (left intent created)

theorem Leads.trans {p q r : LeavePhase} (hpq : p.Leads q) (hqr : q.Leads r) : p.Leads r := by
  cases hpq with
  | refl => exact hqr
  | begins intent =>
    cases hqr with
    | refl => exact .begins intent
    | ends _ created => exact .whole intent created
  | whole intent created =>
    cases hqr with
    | refl => exact .whole intent created
  | ends intent created =>
    cases hqr with
    | refl => exact .ends intent created

end LeavePhase

/-- The identity is the replacement. Its handle has no tombstone. -/
structure LeaveIntentV1.Replaced (intent : LeaveIntentV1) (created : CreatedKey)
    (former : LocalIdentityV1) (w : CustodyView) : Prop where
  issued : created ∈ w.vault.keysOf intent.replacementOperation
  identity : w.store.lookup .localIdentity = some (.localIdentity (intent.replacement created))
  kept : created.handle = former.handle → w.store.lookup (.keyDeleted former.handle) = none

/-- An intent is stored, and the identity is the former one or its replacement. -/
structure LeaveIntentV1.Pending (intent : LeaveIntentV1) (former : LocalIdentityV1)
    (w : CustodyView) : Prop where
  leaves : intent.Leaves former
  stored : w.store.lookup .leaveIntent = some (.leaveIntent intent)
  one : (w.vault.keysOf intent.replacementOperation).length ≤ 1
  identity : w.store.lookup .localIdentity = some (.localIdentity former) ∨
    ∃ created, intent.Replaced created former w

/-- The namespaces of the wipe are empty. -/
def CustodyView.Wiped (w : CustodyView) : Prop :=
  ∀ key : MetadataKey, key.family ∈ wipeNamespaces → w.store.lookup key = none

/-- The leave is complete. -/
structure LeaveIntentV1.Completed (intent : LeaveIntentV1) (created : CreatedKey)
    (former : LocalIdentityV1) (w : CustodyView) : Prop where
  leaves : intent.Leaves former
  gone : w.store.lookup .leaveIntent = none
  one : (w.vault.keysOf intent.replacementOperation).length ≤ 1
  issued : created ∈ w.vault.keysOf intent.replacementOperation
  identity : w.store.lookup .localIdentity = some (.localIdentity (intent.replacement created))
  other : created.handle ≠ former.handle
  wiped : w.Wiped
  tombstone : (w.store.lookup (.keyDeleted former.handle)).isSome

/-- What is stored in a phase of the leave of `former`. -/
def LeavePhase.Shows (former : LocalIdentityV1) (w : CustodyView) : LeavePhase → Prop
  | .member => w.store.lookup .localIdentity = some (.localIdentity former) ∧
      w.store.lookup .leaveIntent = none
  | .leaving intent => intent.Pending former w
  | .left intent created => intent.Completed created former w

section Phase

variable {former : LocalIdentityV1} {w w' : CustodyView} {intent : LeaveIntentV1}
  {created : CreatedKey} {phase : LeavePhase}

theorem LeaveIntentV1.Leaves.unique {intent' : LeaveIntentV1} {created' : CreatedKey}
    (h : intent.Leaves former) (h' : intent'.Leaves former)
    (hreplacement : intent.replacement created = intent'.replacement created') :
    intent = intent' ∧ created = created' := by
  obtain ⟨hnode, hkey, hhandle⟩ := h
  obtain ⟨hnode', hkey', hhandle'⟩ := h'
  cases intent
  cases intent'
  cases created
  cases created'
  cases hreplacement
  simp_all

/-- Only one phase is shown. -/
theorem LeavePhase.Shows.unique {phase' : LeavePhase} (h : phase.Shows former w)
    (h' : phase'.Shows former w) : phase = phase' := by
  cases phase with
  | member =>
    cases phase' with
    | member => rfl
    | leaving intent' =>
      have hintent := h.2.symm.trans h'.stored
      cases hintent
    | left intent' created' =>
      have hidentity := h.1.symm.trans h'.identity
      rw [Option.some.injEq, MetadataRecord.localIdentity.injEq] at hidentity
      exact absurd (congrArg LocalIdentityV1.handle hidentity).symm h'.other
  | leaving intent =>
    cases phase' with
    | member =>
      have hintent := h'.2.symm.trans h.stored
      cases hintent
    | leaving intent' =>
      have hintent := h.stored.symm.trans h'.stored
      cases hintent
      rfl
    | left intent' created' =>
      have hintent := h.stored.symm.trans h'.gone
      cases hintent
  | left intent created =>
    cases phase' with
    | member =>
      have hidentity := h'.1.symm.trans h.identity
      rw [Option.some.injEq, MetadataRecord.localIdentity.injEq] at hidentity
      exact absurd (congrArg LocalIdentityV1.handle hidentity).symm h.other
    | leaving intent' =>
      have hintent := h.gone.symm.trans h'.stored
      cases hintent
    | left intent' created' =>
      have hidentity := h.identity.symm.trans h'.identity
      rw [Option.some.injEq, MetadataRecord.localIdentity.injEq] at hidentity
      obtain ⟨rfl, rfl⟩ := h.leaves.unique h'.leaves hidentity
      rfl

/-- What a step to `w'` leaves of the records of a phase. -/
structure KeepsLeave (former : LocalIdentityV1) (w w' : CustodyView) : Prop where
  vault : w'.vault = w.vault
  identity : w'.store.lookup .localIdentity = w.store.lookup .localIdentity
  intent : w'.store.lookup .leaveIntent = w.store.lookup .leaveIntent
  deleted : w'.store.lookup (.keyDeleted former.handle) = w.store.lookup (.keyDeleted former.handle)
  wiped : ∀ key : MetadataKey, key.family ∈ wipeNamespaces → w.store.lookup key = none →
    w'.store.lookup key = none

theorem LeaveIntentV1.Replaced.keeps (h : intent.Replaced created former w)
    (hkeeps : KeepsLeave former w w') : intent.Replaced created former w' := by
  refine ⟨?_, hkeeps.identity.trans h.identity, fun heq => hkeeps.deleted.trans (h.kept heq)⟩
  rw [hkeeps.vault]
  exact h.issued

theorem LeavePhase.Shows.keeps (h : phase.Shows former w) (hkeeps : KeepsLeave former w w') :
    phase.Shows former w' := by
  cases phase with
  | member => exact ⟨hkeeps.identity.trans h.1, hkeeps.intent.trans h.2⟩
  | leaving intent =>
    refine ⟨h.leaves, hkeeps.intent.trans h.stored, by rw [hkeeps.vault]; exact h.one, ?_⟩
    rcases h.identity with hformer | ⟨created, hreplaced⟩
    · exact Or.inl (hkeeps.identity.trans hformer)
    · exact Or.inr ⟨created, hreplaced.keeps hkeeps⟩
  | left intent created =>
    refine ⟨h.leaves, hkeeps.intent.trans h.gone, by rw [hkeeps.vault]; exact h.one,
      by rw [hkeeps.vault]; exact h.issued, hkeeps.identity.trans h.identity, h.other, ?_,
      by rw [hkeeps.deleted]; exact h.tombstone⟩
    intro key hkey
    exact hkeeps.wiped key hkey (h.wiped key hkey)

/-- The removal of journal records. -/
theorem KeepsLeave.of_lookup (hvault : w'.vault = w.vault)
    (hlookup : ∀ key, (∀ purpose, key ≠ .pendingTransaction purpose) →
      w'.store.lookup key = w.store.lookup key) : KeepsLeave former w w' := by
  refine ⟨hvault, hlookup _ (by simp), hlookup _ (by simp), hlookup _ (by simp), fun key hkey hnone => ?_⟩
  rw [hlookup key, hnone]
  rintro purpose rfl
  revert hkey
  show MetadataFamily.pendingTransaction ∈ wipeNamespaces → False
  decide

end Phase

/-! ## The regime -/

/-- How a leave moves: the phases follow one another, and a replacement stays. -/
structure LeaveGrows (former : LocalIdentityV1) (w w' : CustodyView) : Prop where
  phase : ∀ phase : LeavePhase, phase.Shows former w →
    ∃ phase' : LeavePhase, phase.Leads phase' ∧ phase'.Shows former w'
  identity : ∀ stored, w.store.lookup .localIdentity = some stored →
    stored ≠ .localIdentity former → w'.store.lookup .localIdentity = some stored

variable {former : LocalIdentityV1}

theorem LeaveGrows.keeps {w w' : CustodyView} (h : KeepsLeave former w w') :
    LeaveGrows former w w' := by
  refine ⟨fun phase hshows => ⟨phase, .refl phase, hshows.keeps h⟩, fun stored hstored _ => ?_⟩
  rw [h.identity]
  exact hstored

theorem LeaveGrows.trans {w x y : CustodyView} (hwx : LeaveGrows former w x)
    (hxy : LeaveGrows former x y) : LeaveGrows former w y := by
  refine ⟨fun phase hshows => ?_, fun stored hstored hne => ?_⟩
  · obtain ⟨phase', hleads, hshows'⟩ := hwx.phase phase hshows
    obtain ⟨phase'', hleads', hshows''⟩ := hxy.phase phase' hshows'
    exact ⟨phase'', hleads.trans hleads', hshows''⟩
  · exact hxy.identity stored (hwx.identity stored hstored hne) hne

theorem journalDelete_keeps {w : CustodyView} {transaction : RecordTransaction}
    {purpose : JournalPurpose} {stored : MetadataRecord}
    (hactions : transaction.batch.actions = [.delete (.pendingTransaction purpose) stored]) :
    KeepsLeave former w (w.applied transaction) := by
  refine .of_lookup rfl fun key hkey => Store.lookup_apply_of_notMem ?_
  simp [StoreBatch.keys, hactions, StoreAction.key, hkey]

/-- The leave of `former`, from a phase on. -/
def leaveRegime (former : LocalIdentityV1) (origin : LeavePhase) : Regime where
  inv := fun w => w.Journaled ∧ ∃ phase : LeavePhase, origin.Leads phase ∧ phase.Shows former w
  grows := LeaveGrows former
  tolerates := fun _ => True
  refuses := fun _ _ _ => False
  refl := fun w => .keeps ⟨rfl, rfl, rfl, rfl, fun _ _ h => h⟩
  trans := fun _ _ _ => LeaveGrows.trans
  tolerated := fun _ _ => trivial
  journaled := fun _ h => h.1
  cleanup := by
    rintro w transaction purpose stored ⟨hjournaled, phase, hleads, hshows⟩ hactions haccepts
    have hkeeps : KeepsLeave former w (w.applied transaction) := journalDelete_keeps hactions
    refine ⟨⟨?_, phase, hleads, hshows.keeps hkeeps⟩, .keeps hkeeps⟩
    refine hjournaled.applied haccepts (by simp [StoreBatch.keys, hactions]) ?_
    simp [hactions, StoreAction.result]
  refused := fun _ _ _ _ _ _ _ => trivial

section Programs

variable {former : LocalIdentityV1} {origin : LeavePhase} {w w' : CustodyView}
  {intent : LeaveIntentV1} {created : CreatedKey} {phase phase' : LeavePhase}

/-- A step that keeps the records of the phase. -/
theorem leaveRegime_keeps (hinv : (leaveRegime former origin).inv w)
    (hkeeps : KeepsLeave former w w') (hjournaled : w'.Journaled) :
    (leaveRegime former origin).inv w' ∧ LeaveGrows former w w' := by
  obtain ⟨-, phase, hleads, hshows⟩ := hinv
  exact ⟨⟨hjournaled, phase, hleads, hshows.keeps hkeeps⟩, .keeps hkeeps⟩

/-- A step from one phase to another. -/
theorem leaveRegime_step (phase phase' : LeavePhase) (hinv : (leaveRegime former origin).inv w)
    (hshows : phase.Shows former w)
    (hleads : phase.Leads phase') (hshows' : phase'.Shows former w') (hjournaled : w'.Journaled)
    (hidentity : ∀ stored, w.store.lookup .localIdentity = some stored →
      stored ≠ .localIdentity former → w'.store.lookup .localIdentity = some stored) :
    (leaveRegime former origin).inv w' ∧ LeaveGrows former w w' := by
  obtain ⟨-, phase₀, hleads₀, hshows₀⟩ := hinv
  have heq := hshows₀.unique hshows
  subst heq
  refine ⟨⟨hjournaled, phase', hleads₀.trans hleads, hshows'⟩, fun other hother => ?_, hidentity⟩
  have heq := hother.unique hshows
  subst heq
  exact ⟨phase', hleads, hshows'⟩

/-- The phase is the one of the intent. -/
theorem pending_of_stored (hinv : (leaveRegime former origin).inv w)
    (hstored : w.store.lookup .leaveIntent = some (.leaveIntent intent)) :
    intent.Pending former w := by
  obtain ⟨-, phase, -, hshows⟩ := hinv
  cases phase with
  | member => cases hshows.2.symm.trans hstored
  | leaving other =>
    cases hshows.stored.symm.trans hstored
    exact hshows
  | left other created => cases hshows.gone.symm.trans hstored

/-! ## The wipe -/

variable {family : MetadataFamily}

theorem lookup_wiped {id : TransactionId} (store : RecordStore) {key : MetadataKey}
    (h : store.lookup key = none) :
    Store.updated (wipeActions store family ++ journalAction id none) (store.lookup key) key =
      none := by
  unfold Store.updated
  split
  · rename_i action hfind
    have hmem := List.mem_of_find?_eq_some hfind
    rw [journalAction, List.append_nil, wipeActions, List.mem_map] at hmem
    obtain ⟨entry, -, rfl⟩ := hmem
    rfl
  · exact h

variable {transaction : RecordTransaction}

variable {base : Nat}

theorem wipe_keeps (hfamily : family ∈ wipeNamespaces) (hbatch : transaction.batch =
      ⟨base, wipeActions w.store family ++ journalAction transaction.id none⟩)
    (hkeys : transaction.batch.keys.Nodup) (haccepts : w.store.accepts transaction.batch = true) :
    KeepsLeave former w (w.applied transaction) := by
  have hlookup : ∀ key, (w.applied transaction).store.lookup key =
      Store.updated (wipeActions w.store family ++ journalAction transaction.id none)
        (w.store.lookup key) key := by
    intro key
    refine (Store.lookup_apply_eq haccepts hkeys key).trans ?_
    rw [hbatch]
  have hother : ∀ key : MetadataKey, key.family ∉ wipeNamespaces →
      (w.applied transaction).store.lookup key = w.store.lookup key := by
    intro key hkey
    rw [hlookup, wipe_updated]
    rintro rfl
    exact hkey hfamily
  refine ⟨rfl, hother _ (by decide), hother _ (by decide), hother _ ?_, fun key _ hnone => ?_⟩
  · show MetadataFamily.keyDeleted ∉ wipeNamespaces
    decide
  · rw [hlookup, lookup_wiped _ hnone]

/-- The journal records of a batch without any are as before. -/
theorem wipe_journaled (hjournaled : w.Journaled) (hbatch : transaction.batch =
      ⟨base, wipeActions w.store family ++ journalAction transaction.id none⟩)
    (hkeys : transaction.batch.keys.Nodup) (haccepts : w.store.accepts transaction.batch = true) :
    (w.applied transaction).Journaled := by
  refine hjournaled.applied haccepts hkeys fun action haction purpose value _ hresult => ?_
  rw [hbatch] at haction
  change action ∈ wipeActions w.store family ++ [] at haction
  rw [List.append_nil, wipeActions, List.mem_map] at haction
  obtain ⟨entry, -, rfl⟩ := haction
  cases hresult

theorem KeepsLeave.trans {x : CustodyView} (hwx : KeepsLeave former w x)
    (hxw' : KeepsLeave former x w') : KeepsLeave former w w' :=
  ⟨hxw'.vault.trans hwx.vault, hxw'.identity.trans hwx.identity, hxw'.intent.trans hwx.intent,
    hxw'.deleted.trans hwx.deleted, fun key hkey hnone => hxw'.wiped key hkey (hwx.wiped key hkey hnone)⟩

theorem KeepsLeave.refl (w : CustodyView) : KeepsLeave former w w :=
  ⟨rfl, rfl, rfl, rfl, fun _ _ h => h⟩

/-- The family is empty. -/
def CustodyView.Empties (w : CustodyView) (family : MetadataFamily) : Prop :=
  ∀ key : MetadataKey, key.family = family → w.store.lookup key = none

theorem triple_wipeFamily (hfamily : family ∈ wipeNamespaces) (rounds retries : Nat) :
    (leaveRegime former origin).Triple (At w) (wipeFamily family rounds retries)
      (fun _ s => KeepsLeave former w s.view ∧ s.view.Empties family) := by
  induction rounds generalizing w retries with
  | zero => exact .throw fun _ _ _ => trivial
  | succ rounds ih =>
    refine .snapshot ?_
    by_cases hdone : wipeActions w.store family = []
    · rw [if_pos hdone]
      refine .pure fun s _ hat => ?_
      rw [show s.view = w from hat]
      exact ⟨.refl w, wipe_done hdone⟩
    · rw [if_neg hdone]
      refine .prepare (fun _ _ _ => trivial) fun transaction hinv hkeys hbatch => .commit ?_ ?_ ?_
      · intro haccepts
        exact leaveRegime_keeps hinv (wipe_keeps hfamily hbatch hkeys haccepts)
          (wipe_journaled hinv.1 hbatch hkeys haccepts)
      · intro haccepts
        refine (ih retries).conseq (fun _ _ h => h) fun _ s _ h => ?_
        exact ⟨(wipe_keeps hfamily hbatch hkeys haccepts).trans h.1, h.2⟩
      · dsimp only
        split
        · exact .throw fun _ _ _ => trivial
        · exact ih (retries + 1)

theorem triple_wipeOldMetadata (rounds : Nat) {families : List MetadataFamily}
    (hfamilies : ∀ family ∈ families, family ∈ wipeNamespaces) :
    (leaveRegime former origin).Triple (At w) (wipeOldMetadata rounds families)
      (fun _ s => KeepsLeave former w s.view ∧ ∀ family ∈ families, s.view.Empties family) := by
  induction families generalizing w with
  | nil =>
    refine .pure fun s _ hat => ?_
    rw [show s.view = w from hat]
    exact ⟨.refl w, nofun⟩
  | cons family families ih =>
    have hfamily := hfamilies family List.mem_cons_self
    refine (triple_wipeFamily hfamily rounds 0).bind fun _ => ?_
    refine Triple.ofView (P := fun x => KeepsLeave former w x ∧ x.Empties family) fun x hx => ?_
    refine (ih fun other h => hfamilies other (List.mem_cons_of_mem _ h)).conseq
      (fun _ _ h => h) fun _ s _ h => ?_
    refine ⟨hx.1.trans h.1, fun other hother => ?_⟩
    rcases List.mem_cons.mp hother with rfl | hrest
    · -- The families wiped after this one leave it empty.
      intro key hkey
      exact h.1.wiped key (hkey ▸ hfamily) (hx.2 key hkey)
    · exact h.2 other hrest

/-! ## The deletion of the former key -/

/-- The replacement is stored, the intent is still there and the wipe is done. -/
structure LeaveIntentV1.Cleared (intent : LeaveIntentV1) (created : CreatedKey)
    (former : LocalIdentityV1) (w : CustodyView) : Prop where
  replaced : intent.Replaced created former w
  stored : w.store.lookup .leaveIntent = some (.leaveIntent intent)
  wiped : w.Wiped

theorem LeaveIntentV1.Cleared.keeps (h : intent.Cleared created former w)
    (hkeeps : KeepsLeave former w w') : intent.Cleared created former w' :=
  ⟨h.replaced.keeps hkeeps, hkeeps.intent.trans h.stored,
    fun key hkey => hkeeps.wiped key hkey (h.wiped key hkey)⟩

/-- The leave after its wipe. -/
def clearedRegime (former : LocalIdentityV1) (origin : LeavePhase) (intent : LeaveIntentV1)
    (created : CreatedKey) : Regime :=
  (leaveRegime former origin).restrict (intent.Cleared created former)
    fun _ _ _ _ h hactions => h.keeps (journalDelete_keeps hactions)

/-- The former key has a tombstone, and the replacement has another handle. -/
def KeyRetired (former : LocalIdentityV1) (created : CreatedKey) (w : CustodyView) : Prop :=
  (w.store.lookup (.keyDeleted former.handle)).isSome ∧ created.handle ≠ former.handle

theorem CustodyView.lookup_kept {key : MetadataKey}
    (haccepts : w.store.accepts transaction.batch = true) (hkeys : transaction.batch.keys.Nodup)
    (hkept : ∀ action ∈ transaction.batch.actions, action.key = key →
      action.result = action.expected) :
    (w.applied transaction).store.lookup key = w.store.lookup key := by
  rcases Store.lookup_apply haccepts hkeys key with ⟨action, haction, hkey, hbefore, hafter⟩ | ⟨-, h⟩
  · rw [hbefore, ← hkept action haction hkey]
    exact hafter
  · exact h

variable {deletion : KeyDeletionIntentV1}

theorem deletionIntent_keeps {current : RecordStore} (hbatch : transaction.batch =
      ⟨base, deletionIntentActions current deletion ++ journalAction transaction.id none⟩)
    (hkeys : transaction.batch.keys.Nodup) (haccepts : w.store.accepts transaction.batch = true) :
    KeepsLeave former w (w.applied transaction) := by
  have hkept : ∀ key, key ≠ .keyDeletionIntent deletion.handle →
      (w.applied transaction).store.lookup key = w.store.lookup key := by
    intro key hkey
    refine CustodyView.lookup_kept haccepts hkeys fun action haction heq => ?_
    rw [hbatch] at haction
    rcases List.mem_append.mp (show action ∈ deletionIntentActions current deletion ++ [] from haction)
      with hmem | hnil
    · rcases List.mem_append.mp hmem with hcheck | hput
      · -- The check of the local identity.
        cases hlocal : current.lookup .localIdentity <;> simp [hlocal] at hcheck
        subst hcheck
        rfl
      · cases List.mem_singleton.mp hput
        exact absurd heq.symm hkey
    · cases hnil
  refine ⟨rfl, hkept _ (by simp), hkept _ (by simp), hkept _ (by simp), fun key hkey hnone => ?_⟩
  rw [hkept key, hnone]
  rintro rfl
  revert hkey
  show MetadataFamily.keyDeletionIntent ∈ wipeNamespaces → False
  decide

theorem deletionIntent_journaled {current : RecordStore} (hjournaled : w.Journaled)
    (hbatch : transaction.batch =
      ⟨base, deletionIntentActions current deletion ++ journalAction transaction.id none⟩)
    (hkeys : transaction.batch.keys.Nodup) (haccepts : w.store.accepts transaction.batch = true) :
    (w.applied transaction).Journaled := by
  refine hjournaled.applied haccepts hkeys fun action haction purpose value hkey _ => ?_
  rw [hbatch] at haction
  rcases List.mem_append.mp (show action ∈ deletionIntentActions current deletion ++ [] from haction)
    with hmem | hnil
  · rcases List.mem_append.mp hmem with hcheck | hput
    · cases hlocal : current.lookup .localIdentity <;> simp [hlocal] at hcheck
      subst hcheck
      cases hkey
    · cases List.mem_singleton.mp hput
      cases hkey
  · cases hnil

/-- The tombstone takes the place of the deletion intent. -/
theorem clearedRegime_retires (hinv : (clearedRegime former origin intent created).inv w)
    (hother : created.handle ≠ former.handle) (hhandle : deletion.handle = former.handle)
    {stored : MetadataRecord} (hbatch : transaction.batch = ⟨base,
      [.delete (.keyDeletionIntent deletion.handle) stored,
        .put (.keyDeleted deletion.handle) none
          (.keyDeleted ⟨deletion.operation, deletion.handle⟩)] ++
        journalAction transaction.id (some (.keyDeletion deletion.handle))⟩)
    (hkeys : transaction.batch.keys.Nodup) (haccepts : w.store.accepts transaction.batch = true) :
    ((clearedRegime former origin intent created).inv (w.applied transaction) ∧
      LeaveGrows former w (w.applied transaction)) ∧
      KeyRetired former created (w.applied transaction) := by
  have hpending := pending_of_stored hinv.1 hinv.2.stored
  obtain ⟨hleave, hcleared⟩ := hinv
  have hput : (w.applied transaction).store.lookup (.keyDeleted former.handle) =
      some (.keyDeleted ⟨deletion.operation, deletion.handle⟩) := by
    rw [← hhandle]
    have hmem : (.put (.keyDeleted deletion.handle) none
        (.keyDeleted ⟨deletion.operation, deletion.handle⟩)) ∈ transaction.batch.actions := by
      simp [hbatch]
    exact Store.lookup_apply_of_mem haccepts hkeys hmem
  have hkeep : ∀ key : MetadataKey, key ≠ .keyDeletionIntent deletion.handle →
      key ≠ .keyDeleted deletion.handle → key.family ≠ .pendingTransaction →
      (w.applied transaction).store.lookup key = w.store.lookup key := by
    intro key hintent hdeleted hjournal
    refine Store.lookup_apply_of_notMem ?_
    simp only [StoreBatch.keys, hbatch, journalAction, List.cons_append, List.nil_append,
      List.map_cons, List.map_nil, StoreAction.key, List.mem_cons, List.not_mem_nil, or_false, not_or]
    refine ⟨hintent, hdeleted, ?_⟩
    rintro rfl
    exact hjournal rfl
  have hidentity := hkeep .localIdentity (by simp) (by simp) (by decide)
  have hwiped : (w.applied transaction).Wiped := by
    intro key hkey
    rw [hkeep key ?_ ?_ ?_, hcleared.wiped key hkey]
    all_goals
      intro h
      rw [h] at hkey
      revert hkey
      simp [MetadataKey.family, wipeNamespaces]
  have hreplaced : intent.Replaced created former (w.applied transaction) :=
    ⟨hcleared.replaced.issued, hidentity.trans hcleared.replaced.identity,
      fun heq => absurd heq hother⟩
  have hintent : (w.applied transaction).store.lookup .leaveIntent = some (.leaveIntent intent) :=
    (hkeep .leaveIntent (by simp) (by simp) (by decide)).trans hcleared.stored
  have hshows : (LeavePhase.leaving intent).Shows former (w.applied transaction) :=
    ⟨hpending.leaves, hintent, hpending.one, Or.inr ⟨created, hreplaced⟩⟩
  have hjournaled : (w.applied transaction).Journaled := by
    refine hleave.1.applied haccepts hkeys ?_
    simp [hbatch, journalAction, StoreAction.key, StoreAction.result]
  have hstep := leaveRegime_step (.leaving intent) (.leaving intent) hleave hpending (.refl _)
    hshows hjournaled fun stored hstored _ => hidentity.trans hstored
  refine ⟨⟨⟨hstep.1, hreplaced, hintent, hwiped⟩, hstep.2⟩, ?_, hother⟩
  rw [hput]
  rfl

theorem triple_deleteAtProvider {R : Regime} (deletion : KeyDeletionIntentV1) (resumed : Bool) :
    R.Triple (At w) (deleteAtProvider deletion resumed) (fun _ => At w) := by
  have hdelete : R.Triple (At w) (deleteAtProvider deletion false) (fun _ => At w) := by
    refine (triple_deleteKey durable_at _ _).bind fun state => ?_
    cases state with
    | absent => exact .pure fun _ _ h => h
    | unknown => exact .fail (by decide)
    | present => exact .pure fun _ _ h => h
  cases resumed with
  | false => exact hdelete
  | true =>
    refine (triple_reconcileDelete durable_at _ _).bind fun state => ?_
    cases state with
    | absent => exact .pure fun _ _ h => h
    | unknown => exact .fail (by decide)
    | present =>
      refine (triple_deleteKey durable_at _ _).bind fun state => ?_
      cases state with
      | absent => exact .pure fun _ _ h => h
      | unknown => exact .fail (by decide)
      | present => exact .pure fun _ _ h => h

theorem triple_acceptExactTombstone (hother : created.handle ≠ former.handle)
    {tombstone : KeyDeletedV1} (hhandle : tombstone.handle = former.handle) :
    (clearedRegime former origin intent created).Triple (At w) (acceptExactTombstone tombstone)
      (fun _ s => KeyRetired former created s.view) := by
  refine .snapshot ?_
  rw [hhandle]
  cases hlookup : w.store.lookup (.keyDeleted former.handle) with
  | none => exact .fail nofun
  | some value =>
    dsimp only
    split
    · exact .failBind nofun
    · refine .bindResult (fun stored _ => ?_) fun _ _ _ _ _ => trivial
      refine .ofResult (fun _ _ s _ hat => ⟨?_, hother⟩) fun _ _ _ _ _ => trivial
      rw [show s.view = w from hat, hlookup]
      rfl

theorem triple_deleteProviderStep (hother : created.handle ≠ former.handle)
    (hhandle : deletion.handle = former.handle) (resumed : Bool) :
    (clearedRegime former origin intent created).Triple (At w)
      (deleteProviderStep deletion resumed) (fun _ s => KeyRetired former created s.view) := by
  refine (triple_deleteAtProvider deletion resumed).bind fun absent => ?_
  dsimp only
  split
  · exact .failBind (by decide)
  refine .snapshot (.bindResult (fun stored _ => ?_) fun _ _ _ _ _ => trivial)
  refine .bindResult (fun _ _ => ?_) fun _ _ _ _ _ => trivial
  refine triple_encodeRecord fun _ => .prepare (fun _ _ _ => trivial) fun transaction hinv hkeys hbatch => ?_
  refine .commit ?_ ?_ ?_
  · intro haccepts
    exact (clearedRegime_retires hinv hother hhandle hbatch hkeys haccepts).1
  · intro haccepts
    have hretired := (clearedRegime_retires hinv hother hhandle hbatch hkeys haccepts).2
    refine (triple_cleanupPendingExact _ _).conseq (fun _ _ h => h) fun _ s _ htidied => ?_
    refine ⟨?_, hother⟩
    rw [htidied.lookup (.keyDeleted former.handle) (by simp)]
    exact hretired.1
  · exact triple_acceptExactTombstone hother hhandle

variable {again : Error → NodeM Unit}

theorem triple_deleteStepOr (hother : created.handle ≠ former.handle)
    (hhandle : deletion.handle = former.handle) (resumed : Bool)
    (hagain : ∀ error w', (clearedRegime former origin intent created).Triple (At w') (again error)
      (fun _ s => KeyRetired former created s.view)) :
    (clearedRegime former origin intent created).Triple (At w) (deleteStepOr again deletion resumed)
      (fun _ s => KeyRetired former created s.view) := by
  have hstep : (clearedRegime former origin intent created).Triple (At w)
      (ExceptT.lift (deleteProviderStep deletion resumed).run)
      (fun result s => result = .ok () → KeyRetired former created s.view) := by
    refine (triple_deleteProviderStep hother hhandle resumed).lift ?_ ?_
    · intro _ s _ hretired _
      exact hretired
    · intro _ _ _ _
      exact nofun
  refine hstep.bind fun result => ?_
  cases result with
  | ok value => exact .pure fun _ _ h => h rfl
  | error error =>
    dsimp only
    split
    · exact (Triple.ofView (P := fun _ => True) fun w' _ => hagain error w').weaken
        fun _ _ _ => trivial
    · exact .throw fun _ _ _ => trivial

theorem triple_deleteAttempt
    (hagain : ∀ error w', (clearedRegime former origin intent created).Triple (At w') (again error)
      (fun _ s => KeyRetired former created s.view)) :
    (clearedRegime former origin intent created).Triple (At w) (deleteAttempt former.handle again)
      (fun _ s => KeyRetired former created s.view) := by
  refine .snapshot (.assume (fun s hinv h => (h : At w s) ▸ hinv.inv) fun hinv => ?_)
  have hcleared : intent.Cleared created former w := hinv.2
  have hfound : discoverLocalIdentity w.store = .ok (some (intent.replacement created)) := by
    unfold discoverLocalIdentity
    rw [hcleared.replaced.identity]
    rfl
  dsimp only
  split
  · rename_i hdeleted
    refine .pure fun s _ hat => ?_
    rw [show s.view = w from hat]
    refine ⟨hdeleted, fun heq => ?_⟩
    rw [hcleared.replaced.kept heq] at hdeleted
    cases hdeleted
  rw [hfound]
  refine .bindResult (fun found hvalue => ?_) (by simp)
  cases hvalue
  split
  · exact .failBind (by decide)
  rename_i hreferenced
  have hother : created.handle ≠ former.handle := by
    simpa [LeaveIntentV1.replacement] using hreferenced
  cases hstored : w.store.lookup (.keyDeletionIntent former.handle) with
  | some stored =>
    refine .bindResult (fun deletion hcheck => ?_) fun _ _ _ _ _ => trivial
    have hhandle : deletion.handle = former.handle := by
      unfold checkDeletionIntent at hcheck
      obtain ⟨other, -, hcheck⟩ := Result.bind_eq_ok.mp hcheck
      obtain ⟨_, hreject, heq⟩ := Result.bind_eq_ok.mp hcheck
      cases heq
      have hnot := Except.rejectIf_eq_ok.mp hreject
      simp only [not_or, not_not] at hnot
      exact hnot.1
    exact triple_deleteStepOr hother hhandle true hagain
  | none =>
    refine (triple_generateOperation durable_at).bind fun operation => ?_
    refine Triple.weaken (?_ : (clearedRegime former origin intent created).Triple (At w) _ _)
      fun _ _ h => h.1
    refine .bindResult (fun _ _ => ?_) fun _ _ _ _ _ => trivial
    refine .prepare (fun _ _ _ => trivial) fun transaction hinv hkeys hbatch => triple_encodeRecord fun _ => ?_
    refine .commit ?_ ?_ ?_
    · intro haccepts
      have hkeeps : KeepsLeave former w (w.applied transaction) :=
        deletionIntent_keeps hbatch hkeys haccepts
      have hstep := leaveRegime_keeps hinv.1 hkeeps
        (deletionIntent_journaled hinv.1.1 hbatch hkeys haccepts)
      exact ⟨⟨hstep.1, hinv.2.keeps hkeeps⟩, hstep.2⟩
    · intro haccepts
      exact triple_deleteStepOr hother rfl false hagain
    · exact hagain _ w

theorem triple_deleteUnreferencedKey :
    (clearedRegime former origin intent created).Triple (At w)
      (deleteUnreferencedKey former.handle) (fun _ s => KeyRetired former created s.view) := by
  refine .bindResult (fun _ _ => ?_) fun _ _ _ _ _ => trivial
  refine (triple_recoverJournalPrologue _ _).bind fun _ => .ofView fun w' _ => ?_
  refine (triple_reconcileFrozen durable_at).bind fun _ => ?_
  refine triple_deleteAttempt fun _ w'' => triple_deleteAttempt fun error _ => ?_
  exact .throw fun _ _ _ => trivial

/-! ## From the intent on -/

/-- The leave is complete, and its intent goes. -/
theorem triple_completeLeave (hcleared : intent.Cleared created former w)
    (hretired : KeyRetired former created w) :
    (leaveRegime former origin).Triple (At w) (completeLeave intent)
      (fun _ s => intent.Completed created former s.view) := by
  refine .snapshot (.prepare (fun _ _ _ => trivial) fun transaction hinv hkeys hbatch => ?_)
  have hpending := pending_of_stored hinv hcleared.stored
  have hkeep : ∀ key, key ≠ .leaveIntent →
      (w.applied transaction).store.lookup key = w.store.lookup key := by
    intro key hkey
    refine Store.lookup_apply_of_notMem ?_
    simp [StoreBatch.keys, hbatch, StoreAction.key, journalAction, hkey]
  have hcompleted : w.store.accepts transaction.batch = true →
      intent.Completed created former (w.applied transaction) := by
    intro haccepts
    have hdelete : (w.applied transaction).store.lookup .leaveIntent = none := by
      have hmem : (.delete .leaveIntent (.leaveIntent intent)) ∈ transaction.batch.actions := by
        simp [hbatch]
      exact Store.lookup_apply_of_mem haccepts hkeys hmem
    refine ⟨hpending.leaves, hdelete, hpending.one, hcleared.replaced.issued,
      (hkeep .localIdentity (by simp)).trans hcleared.replaced.identity, hretired.2, fun key hkey => ?_,
      ?_⟩
    · rw [hkeep key, hcleared.wiped key hkey]
      rintro rfl
      revert hkey
      decide
    · rw [hkeep (.keyDeleted former.handle) (by simp)]
      exact hretired.1
  refine .commit ?_ ?_ (.fail (by decide))
  · intro haccepts
    refine leaveRegime_step (.leaving intent) (.left intent created) hinv hpending
      (.ends intent created) (hcompleted haccepts) ?_ fun stored hstored _ => ?_
    · refine hinv.1.applied haccepts hkeys ?_
      simp [hbatch, journalAction, StoreAction.key]
    · exact (hkeep .localIdentity (by simp)).trans hstored
  · intro haccepts
    refine .pure fun s _ hat => ?_
    rw [show s.view = _ from hat]
    exact hcompleted haccepts

/-- The steps after the swap. -/
theorem triple_finishLeave (rounds : Nat) (hpending : intent.Pending former w)
    (hreplaced : intent.Replaced created former w) :
    (leaveRegime former origin).Triple (At w) (do
        wipeOldMetadata rounds wipeNamespaces
        deleteUnreferencedKey intent.formerHandle
        completeLeave intent)
      (fun _ s => intent.Completed created former s.view) := by
  rw [hpending.leaves.2.2]
  refine (triple_wipeOldMetadata rounds fun _ h => h).bind fun _ => ?_
  refine Triple.ofView (P := fun x => KeepsLeave former w x ∧
    ∀ family ∈ wipeNamespaces, x.Empties family) fun x hx => ?_
  have hcleared : intent.Cleared created former x := by
    refine ⟨hreplaced.keeps hx.1, hx.1.intent.trans hpending.stored, fun key hkey => ?_⟩
    exact hx.2 key.family hkey key rfl
  have hdelete : (leaveRegime former origin).Triple (At x) (deleteUnreferencedKey former.handle)
      (fun _ s => KeyRetired former created s.view ∧ intent.Cleared created former s.view) := by
    refine triple_deleteUnreferencedKey.of_restrict.weaken fun s _ hat => ⟨hat, ?_⟩
    rw [show s.view = x from hat]
    exact hcleared
  refine hdelete.bind fun _ => ?_
  refine Triple.ofView (P := fun y => KeyRetired former created y ∧ intent.Cleared created former y)
    fun y hy => ?_
  exact triple_completeLeave hy.2 hy.1

/-- The key of the replacement. -/
theorem triple_replacementKey (hpending : intent.Pending former w) :
    (leaveRegime former origin).Triple (At w) (replacementKey intent) (fun created s =>
      intent.Pending former s.view ∧ created ∈ s.view.vault.keysOf intent.replacementOperation) := by
  have hverify : ∀ (x : CustodyView) (created : CreatedKey), intent.Pending former x →
      created ∈ x.vault.keysOf intent.replacementOperation →
      (leaveRegime former origin).Triple (At x)
        (verifyProviderKey created.handle created.publicKey >>= fun _ => pure created)
        (fun created s => intent.Pending former s.view ∧
          created ∈ s.view.vault.keysOf intent.replacementOperation) := by
    intro x created hx hcreated
    refine (triple_verifyProviderKey _ _).bind fun _ => .pure fun s _ hat => ?_
    rw [show s.view = x from hat]
    exact ⟨hx, hcreated⟩
  refine (triple_reconcileCreate durable_at intent.replacementOperation).bind fun state => ?_
  cases state with
  | present created =>
    refine .assume (p := created ∈ w.vault.keysOf intent.replacementOperation) ?_ fun hcreated => ?_
    · intro s _ h
      rw [← show s.view = w from h.1]
      exact Vault.mem_keysOf.mpr (h.2.1 created rfl)
    · exact (hverify w created hpending hcreated).weaken fun _ _ h => h.1
  | absent =>
    refine .assume (p := ¬ w.vault.Created intent.replacementOperation) ?_ fun hnone => ?_
    · intro s _ h
      rw [← show s.view = w from h.1]
      exact h.2.2 rfl
    have hnil := Vault.keysOf_eq_nil hnone
    -- The call creates the first key of the operation.
    have hnext : ∀ v, CreatesOne w.vault intent.replacementOperation v →
        intent.Pending former { w with vault := v } := by
      intro v hone
      refine ⟨hpending.leaves, hpending.stored, ?_, Or.inl ?_⟩
      · show (v.keysOf intent.replacementOperation).length ≤ 1
        rcases hone.2 with hsame | ⟨created, hcons⟩
        · rw [Vault.keysOf, hsame]
          exact hpending.one
        · rw [Vault.keysOf, hcons, List.filter_cons_of_pos (by simp), List.map_cons, List.length_cons]
          rw [Vault.keysOf] at hnil
          rw [hnil]
          simp
      · rcases hpending.identity with hformer | ⟨created, hreplaced⟩
        · exact hformer
        · have hissued := hreplaced.issued
          rw [hnil] at hissued
          cases hissued
    refine .assume (fun s hinv h => (h.1 : At w s) ▸ hinv.inv) fun hinv => ?_
    refine Triple.weaken (?_ : (leaveRegime former origin).Triple (At w) _ _) fun _ _ h => h.1
    refine (triple_createKey intent.replacementOperation fun v hone => ?_).bind fun state => ?_
    · exact leaveRegime_step (.leaving intent) (.leaving intent) hinv hpending (.refl _)
        (hnext v hone) hinv.1 fun stored hstored _ => hstored
    cases state with
    | present created =>
      rintro s hs ⟨v, hone, hat, hcreated⟩
      exact hverify _ created (hnext v hone) (Vault.mem_keysOf.mpr (hcreated created rfl)) s hs hat
    | absent => exact .fail (by decide)
    | unknown => exact .fail (by decide)
  | unknown => exact .failBind (by decide)

/-- The swap, also of a replacement that is stored already. -/
theorem triple_swapIdentity (hpending : intent.Pending former w)
    (hcreated : created ∈ w.vault.keysOf intent.replacementOperation) :
    (leaveRegime former origin).Triple (At w) (swapIdentity intent created) (fun _ s =>
      intent.Pending former s.view ∧ intent.Replaced created former s.view) := by
  refine .snapshot (.bindResult (fun stored hstored => ?_) fun _ _ _ _ _ => trivial)
  replace hstored := Except.okOr_eq_ok.mp hstored
  refine .bindResult (fun _ _ => .bindResult (fun _ _ => ?_) fun _ _ _ _ _ => trivial)
    fun _ _ _ _ _ => trivial
  dsimp only
  split
  · exact .failBind (by decide)
  rename_i hfresh
  refine triple_encodeRecord fun _ => .prepare (fun _ _ _ => trivial) fun transaction hinv hkeys hbatch => ?_
  have hnone : w.store.lookup (.keyDeleted created.handle) = none := by
    unfold handleRetired at hfresh
    simp only [Bool.or_eq_true, not_or, Option.isSome_iff_ne_none, not_not] at hfresh
    exact hfresh.2
  have hkeep : ∀ key, key ≠ .localIdentity → w.store.accepts transaction.batch = true →
      (w.applied transaction).store.lookup key = w.store.lookup key := by
    intro key hkey haccepts
    refine CustodyView.lookup_kept haccepts hkeys fun action haction heq => ?_
    simp only [hbatch, reuseGuards, journalAction, List.append_nil, List.mem_cons, List.not_mem_nil,
      or_false] at haction
    rcases haction with rfl | rfl | rfl
    · exact absurd heq.symm hkey
    · rfl
    · rfl
  have hreplaced : w.store.accepts transaction.batch = true →
      intent.Replaced created former (w.applied transaction) := by
    intro haccepts
    refine ⟨hcreated, ?_, fun heq => ?_⟩
    · have hmem : (.put .localIdentity (some stored) (.localIdentity (intent.replacement created))) ∈
          transaction.batch.actions := by simp [hbatch]
      exact Store.lookup_apply_of_mem haccepts hkeys hmem
    · rw [hkeep (.keyDeleted former.handle) (by simp) haccepts, ← heq]
      exact hnone
  have hpending' : w.store.accepts transaction.batch = true →
      intent.Pending former (w.applied transaction) := fun haccepts =>
    ⟨hpending.leaves, (hkeep .leaveIntent (by simp) haccepts).trans hpending.stored, hpending.one,
      Or.inr ⟨created, hreplaced haccepts⟩⟩
  refine .commit ?_ ?_ (.fail (by decide))
  · intro haccepts
    refine leaveRegime_step (.leaving intent) (.leaving intent) hinv hpending (.refl _)
      (hpending' haccepts) ?_ fun other hother hne => ?_
    · refine hinv.1.applied haccepts hkeys ?_
      simp [hbatch, journalAction, reuseGuards, StoreAction.key, StoreAction.result]
    · -- What is stored besides the former identity is the replacement.
      rcases hpending.identity with hformer | ⟨created', hold⟩
      · rw [hformer] at hother
        cases hother
        exact absurd rfl hne
      · have heq := List.eq_of_mem_of_length_le_one hpending.one hold.issued hcreated
        subst heq
        rw [← hother, hold.identity]
        exact (hreplaced haccepts).identity
  · intro haccepts
    refine .pure fun s _ hat => ?_
    rw [show s.view = _ from hat]
    exact ⟨hpending' haccepts, hreplaced haccepts⟩

theorem triple_requireLocalIdentity {R : Regime} {identity : LocalIdentityV1}
    (hidentity : w.store.lookup .localIdentity = some (.localIdentity identity)) :
    R.Triple (At w) requireLocalIdentity (fun found s => At w s ∧ found = identity) := by
  refine .snapshot ?_
  unfold discoverLocalIdentity
  rw [hidentity]
  exact .pure fun _ _ hat => ⟨hat, rfl⟩

theorem triple_runLeave (rounds : Nat) (hpending : intent.Pending former w) :
    (leaveRegime former origin).Triple (At w) (runLeave rounds intent)
      (fun _ s => ∃ created, intent.Completed created former s.view) := by
  have hfinish : ∀ x created, intent.Pending former x → intent.Replaced created former x →
      (leaveRegime former origin).Triple (At x) (do
          wipeOldMetadata rounds wipeNamespaces
          deleteUnreferencedKey intent.formerHandle
          completeLeave intent)
        (fun _ s => ∃ created, intent.Completed created former s.view) := by
    intro x created hx hreplaced
    refine (triple_finishLeave rounds hx hreplaced).conseq (fun _ _ h => h) fun _ s _ h => ?_
    exact ⟨created, h⟩
  have hswapped : (leaveRegime former origin).Triple (At w) (do
        let created ← replacementKey intent
        swapIdentity intent created
        wipeOldMetadata rounds wipeNamespaces
        deleteUnreferencedKey intent.formerHandle
        completeLeave intent)
      (fun _ s => ∃ created, intent.Completed created former s.view) := by
    refine (triple_replacementKey hpending).bind fun created => ?_
    refine Triple.ofView (P := fun x => intent.Pending former x ∧
      created ∈ x.vault.keysOf intent.replacementOperation) fun x hx => ?_
    refine (triple_swapIdentity hx.1 hx.2).bind fun _ => ?_
    exact Triple.ofView (P := fun x => intent.Pending former x ∧ intent.Replaced created former x)
      fun y hy => hfinish y created hy.1 hy.2
  have hskip : ∀ created, intent.Replaced created former w →
      (leaveRegime former origin).Triple (At w) (do
          wipeOldMetadata rounds wipeNamespaces
          deleteUnreferencedKey intent.formerHandle
          completeLeave intent)
        (fun _ s => ∃ created, intent.Completed created former s.view) :=
    fun created hreplaced => hfinish w created hpending hreplaced
  rcases hpending.identity with hformer | ⟨created, hreplaced⟩
  · refine (triple_requireLocalIdentity hformer).bind fun identity => ?_
    refine .assume (fun _ _ h => h.2) fun hidentity => ?_
    subst hidentity
    rw [if_pos hpending.leaves.1.symm]
    exact hswapped.weaken fun _ _ h => h.1
  · refine (triple_requireLocalIdentity hreplaced.identity).bind fun identity => ?_
    refine .assume (fun _ _ h => h.2) fun hidentity => ?_
    subst hidentity
    refine Triple.weaken (?_ : (leaveRegime former origin).Triple (At w) _ _) fun _ _ h => h.1
    dsimp only
    split
    · exact hswapped
    · rw [if_neg fun h => h rfl]
      exact hskip created hreplaced

/-! ## The command -/

theorem triple_beginIntent (hshows : LeavePhase.member.Shows former w) :
    (leaveRegime former origin).Triple (At w) (beginIntent former)
      (fun intent s => intent.Pending former s.view) := by
  refine (triple_generateNode durable_at).bind fun node => ?_
  refine (triple_generateOperation durable_at).after (fun _ _ h => h) fun operation => ?_
  refine .assume (p := ¬ w.vault.Created operation) ?_ fun hnone => ?_
  · intro s _ h
    rw [← show s.view = w from h.1]
    exact h.2.2
  refine Triple.weaken (?_ : (leaveRegime former origin).Triple (At w) _ _) fun _ _ h => h.1
  refine triple_encodeRecord fun _ => .snapshot (.prepare (fun _ _ _ => trivial) fun transaction hinv hkeys hbatch => ?_)
  have hpending : w.store.accepts transaction.batch = true →
      LeaveIntentV1.Pending ⟨former.node, former.publicKey, former.handle, node, operation⟩ former
        (w.applied transaction) := by
    intro haccepts
    refine ⟨⟨rfl, rfl, rfl⟩, ?_, ?_, Or.inl ?_⟩
    · have hmem : (.put .leaveIntent none (.leaveIntent
          ⟨former.node, former.publicKey, former.handle, node, operation⟩)) ∈
            transaction.batch.actions := by simp [hbatch]
      exact Store.lookup_apply_of_mem haccepts hkeys hmem
    · show (w.vault.keysOf operation).length ≤ 1
      rw [Vault.keysOf_eq_nil hnone]
      exact Nat.zero_le 1
    · refine (Store.lookup_apply_of_notMem ?_).trans hshows.1
      simp [StoreBatch.keys, hbatch, StoreAction.key, journalAction]
  refine .commit ?_ ?_ (.fail (by decide))
  · intro haccepts
    refine leaveRegime_step .member (.leaving _) hinv hshows (.begins _) (hpending haccepts) ?_ ?_
    · refine hinv.1.applied haccepts hkeys ?_
      simp [hbatch, journalAction, StoreAction.key]
    · intro stored hstored hne
      cases hshows.1.symm.trans hstored
      exact absurd rfl hne
  · intro haccepts
    refine .pure fun s _ hat => ?_
    rw [show s.view = _ from hat]
    exact hpending haccepts

theorem triple_discoverLeaveIntent {R : Regime} :
    R.Triple (At w) discoverLeaveIntent (fun found s => At w s ∧
      w.store.lookup .leaveIntent = found.map .leaveIntent) := by
  refine .snapshot ?_
  cases hlookup : w.store.lookup .leaveIntent with
  | none => exact .pure fun _ _ h => ⟨h, rfl⟩
  | some stored =>
    cases stored with
    | leaveIntent intent => exact .pure fun _ _ h => ⟨h, rfl⟩
    | _ => exact .fail (by decide)

/-- The command, given the identity the node was opened with. -/
theorem triple_executeLeave (rounds : Nat)
    (hidentity : w.store.lookup .localIdentity = some (.localIdentity former)) :
    (leaveRegime former origin).Triple (At w) (executeLeave rounds former)
      (fun _ s => ∃ intent created, LeaveIntentV1.Completed intent created former s.view) := by
  have hrun : ∀ intent : LeaveIntentV1, (leaveRegime former origin).Triple
      (fun s => intent.Pending former s.view)
      (do
        runLeave rounds intent
        return (intent.formerNode, intent.replacementNode))
      (fun _ s => ∃ intent created, LeaveIntentV1.Completed intent created former s.view) := by
    intro intent
    refine Triple.ofView (P := intent.Pending former) fun x hx => ?_
    refine (triple_runLeave rounds hx).bind fun _ => .pure fun _ _ h => ?_
    obtain ⟨created, hcompleted⟩ := h
    exact ⟨intent, created, hcompleted⟩
  refine triple_discoverLeaveIntent.bind fun found => .assume (fun _ _ h => h.2) fun hfound => ?_
  refine Triple.weaken (?_ : (leaveRegime former origin).Triple (At w) _ _) fun _ _ h => h.1
  cases found with
  | none => exact (triple_beginIntent ⟨hidentity, hfound⟩).bind hrun
  | some intent =>
    refine .assume (fun s hinv h => (h : At w s) ▸ hinv.inv) fun hinv => ?_
    refine (hrun intent).weaken fun s _ hat => ?_
    rw [show s.view = w from hat]
    exact pending_of_stored hinv hfound

/-! ## The openings -/

/-- An opening that returned an identity found no leave or completed it. -/
def Finished (former : LocalIdentityV1) (origin : LeavePhase) (identity : LocalIdentityV1)
    (w : CustodyView) : Prop :=
  (origin = .member ∧ LeavePhase.member.Shows former w) ∨
    ∃ intent created, origin.Leads (.left intent created) ∧
      LeaveIntentV1.Completed intent created former w ∧ identity = intent.replacement created

/-- Every phase has an identity. -/
theorem identity_of_leaveRegime (hinv : (leaveRegime former origin).inv w) :
    ∃ identity, w.store.lookup .localIdentity = some (.localIdentity identity) := by
  obtain ⟨-, phase, -, hshows⟩ := hinv
  cases phase with
  | member => exact ⟨former, hshows.1⟩
  | leaving intent =>
    rcases hshows.identity with hformer | ⟨created, hreplaced⟩
    · exact ⟨former, hformer⟩
    · exact ⟨_, hreplaced.identity⟩
  | left intent created => exact ⟨_, hshows.identity⟩

theorem triple_openPhase_leave :
    (leaveRegime former origin).Triple (At w) (openPhase w.store)
      (fun identity s => At w s ∧ w.store.lookup .localIdentity = some (.localIdentity identity)) := by
  refine .assume (fun s hinv h => (h : At w s) ▸ hinv.inv) fun hinv => ?_
  obtain ⟨identity, hidentity⟩ := identity_of_leaveRegime hinv
  have hfound : discoverLocalIdentity w.store = .ok (some identity) := by
    unfold discoverLocalIdentity
    rw [hidentity]
    rfl
  unfold openPhase
  rw [hfound]
  refine .bindResult (fun found hvalue => .bindResult (fun creation _ => ?_) fun _ _ _ _ _ => trivial)
    nofun
  cases hvalue
  cases creation with
  | some intent => exact .throw fun _ _ _ => trivial
  | none =>
    refine (triple_verifyProviderKey _ _).bind fun _ => .pure fun _ _ hat => ⟨hat, hidentity⟩

theorem leads_of_completed (hinv : (leaveRegime former origin).inv w)
    (h : intent.Completed created former w) : origin.Leads (.left intent created) := by
  obtain ⟨-, phase, hleads, hshows⟩ := hinv
  have hleft : (LeavePhase.left intent created).Shows former w := h
  have heq := hshows.unique hleft
  subst heq
  exact hleads

/-- An opening takes up the leave it finds. -/
theorem triple_resumeIfPending_leave (rounds : Nat) :
    (leaveRegime former origin).Triple (At w) (resumeIfPending rounds) (fun found s =>
      match found with
      | none => At w s ∧ w.store.lookup .leaveIntent = none
      | some identity => Finished former origin identity s.view) := by
  refine triple_discoverLeaveIntent.bind fun found => .assume (fun _ _ h => h.2) fun hfound => ?_
  refine Triple.weaken (?_ : (leaveRegime former origin).Triple (At w) _ _) fun _ _ h => h.1
  cases found with
  | none => exact .pure fun _ _ hat => ⟨hat, hfound⟩
  | some intent =>
    refine .assume (fun s hinv h => (h : At w s) ▸ hinv.inv) fun hinv => ?_
    refine (triple_runLeave rounds (pending_of_stored hinv hfound)).bind fun _ => ?_
    refine Triple.ofView (P := fun x => ∃ created, intent.Completed created former x)
      fun x ⟨created, hcompleted⟩ => ?_
    refine (triple_requireLocalIdentity hcompleted.identity).bind fun identity => ?_
    refine .pure fun s hs h => ?_
    rw [h.2, show s.view = x from h.1]
    have hleads := leads_of_completed ((h.1 : At x s) ▸ hs.inv) hcompleted
    exact Or.inr ⟨intent, created, hleads, hcompleted, rfl⟩

theorem triple_openLocalIdentity_leave (capable : Bool) (rounds : Nat) :
    (leaveRegime former origin).Triple (At w) (openLocalIdentity capable rounds)
      (fun identity s => Finished former origin identity s.view) := by
  refine triple_recovered fun w' => ?_
  cases capable with
  | false => exact .failBind (by decide)
  | true =>
    refine .snapshot (triple_openPhase_leave.bind fun identity => ?_)
    refine .assume (fun _ _ h => h.2) fun hidentity => ?_
    refine Triple.weaken (?_ : (leaveRegime former origin).Triple (At w') _ _) fun _ _ h => h.1
    refine (triple_resumeIfPending_leave rounds).bind fun found => ?_
    cases found with
    | some replacement => exact .pure fun _ _ h => h
    | none =>
      refine .pure fun s hs h => ?_
      rw [show s.view = w' from h.1]
      obtain ⟨-, phase, hleads, hshows⟩ := (h.1 : At w' s) ▸ hs.inv
      cases phase with
      | member =>
        cases hleads
        exact Or.inl ⟨rfl, hshows⟩
      | leaving intent => cases hshows.stored.symm.trans h.2
      | left intent created =>
        cases hshows.identity.symm.trans hidentity
        exact Or.inr ⟨intent, created, hleads, hshows, rfl⟩

end Programs

/-! ## Runs -/

/-- The operations of a run: the command of the former identity, and openings after a restart. -/
inductive LeaveRun where
  | execute (rounds : Nat)
  | restart (capable : Bool) (rounds : Nat)

/-- What an operation returned: the two nodes of a leave, or the identity that was opened. -/
inductive LeaveResult where
  | left (former replacement : NodeId)
  | opened (identity : LocalIdentityV1)

def LeaveRun.operation (former : LocalIdentityV1) : LeaveRun → NodeM LeaveResult
  | .execute rounds => do
    let nodes ← executeLeave rounds former
    return .left nodes.1 nodes.2
  | .restart capable rounds => do
    let identity ← openLocalIdentity capable rounds
    return .opened identity

/-- One operation at a time. The command runs under the identity that is stored. -/
def leaveSchedule (former : LocalIdentityV1) :
    Schedule LeaveRun NodeCall NodeCall.Answer (Result LeaveResult) Custody :=
  custodySchedule (LeaveRun.operation former) fun label s running => running = [] ∧
    ∀ rounds, label = .execute rounds →
      s.node.disk.store.lookup .localIdentity = some (.localIdentity former)

/-- A node with an identity that it does not leave. -/
structure Custody.Member (s : Custody) (former : LocalIdentityV1) : Prop where
  ready : s.node.slot = .ready
  sound : s.node.disk.Sound
  journaled : s.view.Journaled
  shows : LeavePhase.member.Shows former s.view

theorem leaveSchedule_within (former : LocalIdentityV1) (origin : LeavePhase) :
    (leaveSchedule former).within (leaveRegime former origin).considers = leaveSchedule former := by
  unfold Schedule.within
  have hanswers : (fun (request : NodeCall) (s : Custody) (answer : request.Answer) t =>
      (leaveRegime former origin).considers request s answer ∧
        (leaveSchedule former).answers request s answer t) = (leaveSchedule former).answers := by
    funext request s answer t
    refine propext ⟨fun h => h.2, fun h => ⟨Regime.considers_of_tolerates fun _ => trivial, h⟩⟩
  rw [hanswers]

/-- Every operation keeps the regime. -/
def leaveContracts (former : LocalIdentityV1) (origin : LeavePhase) :
    ((leaveSchedule former).within (leaveRegime former origin).considers).Contracts := by
  refine (leaveRegime former origin).contracts _ _ (fun _ value w => origin ≠ .member →
    ∃ intent created, origin.Leads (.left intent created) ∧
      LeaveIntentV1.Completed intent created former w ∧
      ∀ identity, value = .opened identity → identity = intent.replacement created) ?_ ?_ ?_
  · intro label s running h
    exact h.1
  · intro label value w w' _ _ hgrows hpost horigin
    obtain ⟨intent, created, hleads, hcompleted, hvalue⟩ := hpost horigin
    obtain ⟨phase, hnext, hshows⟩ := hgrows.phase (.left intent created) hcompleted
    cases hnext
    exact ⟨intent, created, hleads, hshows, hvalue⟩
  · intro label s running hstarts
    cases label with
    | execute rounds =>
      refine (triple_executeLeave rounds (hstarts.2 rounds rfl)).bind fun nodes => ?_
      refine .pure fun t ht h _ => ?_
      obtain ⟨intent, created, hcompleted⟩ := h
      exact ⟨intent, created, leads_of_completed ht.inv hcompleted, hcompleted, nofun⟩
    | restart capable rounds =>
      refine (triple_openLocalIdentity_leave capable rounds).bind fun identity => ?_
      refine .pure fun t ht h horigin => ?_
      rcases h with ⟨hmember, -⟩ | ⟨intent, created, hleads, hcompleted, hidentity⟩
      · exact absurd hmember horigin
      · refine ⟨intent, created, hleads, hcompleted, fun other hother => ?_⟩
        cases hother
        exact hidentity

theorem Custody.Member.inv {s : Custody} (h : s.Member former) :
    (leaveRegime former .member).Inv s := by
  refine ⟨h.sound, ?_, h.journaled, .member, .refl _, h.shows⟩
  intro id active hslot
  rw [h.ready] at hslot
  cases hslot

/-- What is durable in a run moves along the phases. -/
theorem leaveGrows_of_path {origin : LeavePhase} {start : Custody}
    (hstart : (leaveRegime former origin).Inv start)
    {s t : Threads LeaveRun NodeCall NodeCall.Answer (Result LeaveResult) Custody}
    (hs : ((leaveSchedule former).runs start).Reachable s)
    (hpath : ((leaveSchedule former).runs start).Path s t) :
    LeaveGrows former s.state.view t.state.view := by
  rw [← leaveSchedule_within former origin] at hs hpath
  have hholds := (leaveContracts former origin).holds_of_reachable hstart hs
  refine Schedule.Contracts.Holds.path_state
    (R := fun s t => LeaveGrows former s.view t.view) (fun s => .keeps (.refl s.view))
    (fun _ _ _ => LeaveGrows.trans) ?_ ?_ hholds hpath
  · intro label s t hinv hguarantee
    exact (hguarantee hinv).2
  · rintro s t - ⟨hnode, hvault⟩
    have hview : t.view = s.view := by rw [Custody.view, hnode, hvault]; rfl
    rw [hview]
    exact .keeps (.refl s.view)

/-- A leave and the openings that take it up, one after the other and each cut off anywhere, pass
    through the phases in order: the identity is the former one or the replacement of the one
    intent, and no operation after the intent returns before the leave is complete. -/
theorem leave_crash_atomic {former : LocalIdentityV1} {start : Custody} (hstart : start.Member former)
    {s : Threads LeaveRun NodeCall NodeCall.Answer (Result LeaveResult) Custody}
    (hs : ((leaveSchedule former).runs start).Reachable s) :
    (∃ phase : LeavePhase, phase.Shows former s.state.view ∧
      ∀ t, ((leaveSchedule former).runs start).Path s t →
        ∃ phase' : LeavePhase, phase.Leads phase' ∧ phase'.Shows former t.state.view) ∧
    (∀ t, ((leaveSchedule former).runs start).Path s t →
      ∀ stored, s.state.node.disk.store.lookup .localIdentity = some stored →
        stored ≠ .localIdentity former →
        t.state.node.disk.store.lookup .localIdentity = some stored) ∧
    ∀ intent, s.state.node.disk.store.lookup .leaveIntent = some (.leaveIntent intent) →
      ∀ t, ((leaveSchedule former).runs s.state).Reachable t →
        ∀ label value, (⟨label, .done (.ok value)⟩ : Thread _ _ _ _) ∈ t.threads →
          ∃ created, intent.Completed created former t.state.view ∧
            ∀ identity, value = .opened identity → identity = intent.replacement created := by
  have hholds := (leaveContracts former .member).holds_of_reachable hstart.inv
    (by rw [leaveSchedule_within]; exact hs)
  have hinv : (leaveRegime former .member).Inv s.state := hholds.invariant
  refine ⟨?_, ?_, ?_⟩
  · obtain ⟨-, phase, -, hshows⟩ := hinv.inv
    exact ⟨phase, hshows, fun t ht => (leaveGrows_of_path hstart.inv hs ht).phase phase hshows⟩
  · intro t ht stored hstored hne
    exact (leaveGrows_of_path hstart.inv hs ht).identity stored hstored hne
  · intro intent hintent t ht label value hdone
    have hpending := pending_of_stored hinv.inv hintent
    have horigin : (leaveRegime former (.leaving intent)).Inv s.state :=
      ⟨hinv.sound, hinv.proven, hinv.inv.1, .leaving intent, .refl _, hpending⟩
    have hholds' := (leaveContracts former (.leaving intent)).holds_of_reachable horigin
      (by rw [leaveSchedule_within]; exact ht)
    obtain ⟨other, created, hleads, hcompleted, hvalue⟩ := (hholds'.post hdone).2 nofun
    cases hleads
    exact ⟨created, hcompleted, hvalue⟩

/-! ### A sample leave -/

def leavingMember : Custody := (calmOf (identityStore sampleIssuer)).custody

theorem member_leavingMember : leavingMember.Member sampleIssuer := by
  refine ⟨rfl, ⟨?_, ?_, ?_⟩, fun purpose stored hstored => ?_, AList.lookup_insert _, ?_⟩
  · intro transaction hmem
    cases hmem
  · intro transaction hmem
    cases hmem
  · intro transaction hmem
    cases hmem
  · have hnone : leavingMember.view.store.lookup (.pendingTransaction purpose) = none :=
      AList.lookup_insert_ne nofun
    cases hnone.symm.trans hstored
  · exact AList.lookup_insert_ne nofun

/-- A leave without faults reaches a phase from which every run goes on in order. -/
theorem leavingMember_leaves : ∃ s value, ((leaveSchedule sampleIssuer).runs leavingMember).Reachable s ∧
    (⟨.execute 1, .done (.ok value)⟩ : Thread _ _ _ _) ∈ s.threads ∧
    ∃ phase : LeavePhase, phase.Shows sampleIssuer s.state.view ∧
      ∀ t, ((leaveSchedule sampleIssuer).runs leavingMember).Path s t →
        ∃ phase' : LeavePhase, phase.Leads phase' ∧ phase'.Shows sampleIssuer t.state.view := by
  have hencode : ∃ bytes, sampleIssuer.encode = .ok bytes := by
    rw [encode_localIdentity, size_localIdentity]
    decide
  obtain ⟨hrounds, hsize⟩ := wipeSize_calmOf sampleIssuer
  have hlimit : (calmOf (identityStore sampleIssuer)).draws +
      wipeSize (calmOf (identityStore sampleIssuer)).store wipeNamespaces + 9 ≤ 12 := by
    rw [hsize]
    decide
  obtain ⟨t, hleave, -⟩ := calmly_executeLeave (member_calmOf sampleIssuer rfl) hencode
    (live_calmOf _ _) (replaces_calmOf (by decide) (by decide)) (supplied_calmOf _) hrounds hlimit
    (by decide)
  have hoperation : Calmly letterSource (LeaveRun.operation sampleIssuer (.execute 1))
      (calmOf (identityStore sampleIssuer)) (.ok _) t := hleave.bind rfl
  have hruns := Prog.runs_of_run Calm.custody (I := fun _ => True)
    (fun call s _ => ⟨Calm.conforms letterSource call s, trivial⟩)
    (LeaveRun.operation sampleIssuer (.execute 1)).run
    (s := calmOf (identityStore sampleIssuer)) trivial
  rw [hoperation] at hruns
  have hinit : ((leaveSchedule sampleIssuer).runs leavingMember).Reachable ⟨leavingMember, []⟩ :=
    .init rfl
  have hstart : ((leaveSchedule sampleIssuer).runs leavingMember).Reachable
      ⟨leavingMember, [] ++ ⟨.execute 1, (LeaveRun.operation sampleIssuer (.execute 1)).run⟩ :: []⟩ :=
    hinit.step (Schedule.Step.start (LeaveRun.execute 1) ⟨rfl, fun _ _ => AList.lookup_insert _⟩)
  have hdone := hstart.path (Schedule.path_of_runs hruns [] [] (LeaveRun.execute 1))
  exact ⟨_, _, hdone, List.mem_cons_self, (leave_crash_atomic member_leavingMember hdone).1⟩

end Radiata
