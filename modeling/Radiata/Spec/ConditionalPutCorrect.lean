import Radiata.Native.ConditionalPut
import Radiata.Spec.ReceiptKeys

/-!
# Conditional writers act atomically

A conditional put takes effect only if the store is still at the revision of its snapshot.
A store never has two contents at one revision, so the decision of the call is then the
decision on the very entries it changes: every call acts as if it read, decided and wrote at
the moment of its commit.

## Key results

- `PutSystem.Current`: what a transaction under way knows of the store
- `PutSystem.Work.effect`: what a step does to the keys of the calls
- `PutSystem.Rule`: the rule for invariants of the calls
-/

namespace Radiata

variable [DnsName]

/-- The operations of a conditional put. -/
theorem conditionalPut_eq_ok {snapshot : StoreSnapshot} {id : TransactionId} {key : EntryKey}
    {value : StoreValue} {prepared : PreparedTransaction}
    (h : conditionalPut snapshot id key value = .ok prepared) :
    prepared.transaction.id = id ∧ prepared.transaction.baseRevision = snapshot.revision ∧
      ∃ internal, internal.asStr = internalNamespaceText ∧ prepared.transaction.operations =
        [.put key.namespaceTag key.key (snapshotExpectation snapshot key) value,
          .put internal (usedIdKey id) .absent (markerValue activeMarkerValue)] := by
  unfold conditionalPut prepareTransaction at h
  split at h
  · cases h
  obtain ⟨internal, hinternal, h⟩ := Result.bind_eq_ok.mp h
  obtain ⟨transaction, htransaction, h⟩ := Result.bind_eq_ok.mp h
  cases h
  obtain ⟨-, -, rfl⟩ := StoreTransaction.new_eq_ok.mp htransaction
  exact ⟨rfl, rfl, internal, asStr_of_internalNamespace hinternal, rfl⟩

namespace ReferenceState

/-- A commit without effect, which reports a commit only of a transaction with a receipt. -/
def Unmoved (state : ReferenceState) (transaction : StoreTransaction) : Prop :=
  (state.commit transaction).2 = state ∧ (state.receipts.get transaction.id = none →
    ∀ receipt, (state.commit transaction).1 ≠ .ok (.committed receipt))

/-- A commit leaves the store as it is, or applies a transaction of the current revision. -/
theorem commit_cases (state : ReferenceState) (transaction : StoreTransaction) :
    state.Unmoved transaction ∨
      transaction.baseRevision = .ofGeneration state.generation ∧ ∃ generation,
        generation.toNat = state.generation.toNat + 1 ∧
        state.commit transaction = (.ok (.committed (receiptAt transaction generation)),
          state.apply transaction generation) := by
  unfold Unmoved commit
  cases hreceipt : state.receipts.get transaction.id with
  | some receipt =>
    simp only
    split <;> exact Or.inl ⟨rfl, nofun⟩
  | none =>
    simp only
    split
    · exact Or.inl ⟨rfl, nofun⟩
    split
    · exact Or.inl ⟨rfl, nofun⟩
    rename_i hbase
    split
    · exact Or.inl ⟨rfl, nofun⟩
    cases hadd : checkedAdd state.generation 1 with
    | none => exact Or.inl ⟨rfl, nofun⟩
    | some generation =>
      exact Or.inr ⟨not_not.mp hbase, generation, checkedAdd_eq_some.mp hadd, rfl⟩

/-- An operation on another key leaves an entry alone. -/
theorem get_applyOperation_of_ne {entries : Entries} {operation : StoreOperation} {key : EntryKey}
    (h : operation.identity ≠ .key key) : (applyOperation entries operation).get key = entries.get key := by
  cases operation with
  | check namespaceTag other expected => rfl
  | put namespaceTag other expected value =>
    exact entries.get_insert_ne value fun heq => h (by rw [heq]; rfl)
  | delete namespaceTag other expected =>
    exact entries.get_erase_ne fun heq => h (by rw [heq]; rfl)
  | forgetReceipt transaction expected => rfl

variable {transaction : StoreTransaction}

/-- A transaction on other keys leaves an entry alone. -/
theorem get_commit_of_ne {state : ReferenceState} {key : EntryKey}
    (h : ∀ operation ∈ transaction.operations, operation.identity ≠ .key key) :
    (state.commit transaction).2.entries.get key = state.entries.get key := by
  rcases state.commit_cases transaction with ⟨hsame, -⟩ | ⟨-, generation, -, hcommit⟩
  · rw [hsame]
  · rw [hcommit]
    show (transaction.operations.foldl applyOperation state.entries).get key = _
    generalize state.entries = entries
    generalize transaction.operations = operations at h
    induction operations generalizing entries with
    | nil => rfl
    | cons operation rest ih =>
      rw [List.foldl_cons, ih _ fun other hother => h other (List.mem_cons_of_mem _ hother)]
      exact get_applyOperation_of_ne (h operation (List.mem_cons_self ..))

/-- The generation of a store never decreases, and it stays only if the store does. -/
theorem commit_generation (state : ReferenceState) (transaction : StoreTransaction) :
    (state.commit transaction).2 = state ∨
      state.generation.toNat < (state.commit transaction).2.generation.toNat := by
  rcases state.commit_cases transaction with ⟨hsame, -⟩ | ⟨-, generation, hnext, hcommit⟩
  · exact Or.inl hsame
  · rw [hcommit]
    exact Or.inr (by show state.generation.toNat < generation.toNat; omega)

/-- An operation makes no receipt. -/
theorem get_forgetOperation_of_none {receipts : Receipts} {id : TransactionId}
    (operation : StoreOperation) (h : receipts.get id = none) :
    (forgetOperation receipts operation).get id = none := by
  cases operation with
  | check namespaceTag key expected => exact h
  | put namespaceTag key expected value => exact h
  | delete namespaceTag key expected => exact h
  | forgetReceipt transaction expected =>
    simp only [forgetOperation]
    split
    · rw [SortedMap.get_erase]
      split
      · rfl
      · exact h
    · exact h

/-- A transaction of another id makes no receipt. -/
theorem receipts_commit_of_ne {state : ReferenceState} {id : TransactionId}
    (hid : id ≠ transaction.id) (h : state.receipts.get id = none) :
    (state.commit transaction).2.receipts.get id = none := by
  rcases state.commit_cases transaction with ⟨hsame, -⟩ | ⟨-, generation, -, hcommit⟩
  · rw [hsame]
    exact h
  · rw [hcommit]
    show ((transaction.operations.foldl forgetOperation state.receipts).insert _ _).get id = none
    rw [SortedMap.get_insert_ne _ _ hid]
    generalize state.receipts = receipts at h
    induction transaction.operations generalizing receipts with
    | nil => exact h
    | cons operation rest ih => exact ih _ (get_forgetOperation_of_none operation h)

end ReferenceState

namespace PutSystem

variable {γ ω : Type} {protocol : PutProtocol γ ω} {origin : ReferenceState} {s t : PutSystem γ ω}

/-- A transaction under way was decided on the entries of its revision: on the present ones,
    unless the store has moved on. -/
def Current (protocol : PutProtocol γ ω) (store : ReferenceState) (operation : γ)
    (transaction : StoreTransaction) : Prop :=
  ∃ snapshot : ReferenceState, ∃ key value id prepared,
    protocol.decide operation snapshot.entries = .ok (.put key value) ∧
    conditionalPut snapshot.snapshot id key value = .ok prepared ∧
    transaction = prepared.transaction ∧
    (snapshot = store ∨ snapshot.generation.toNat < store.generation.toNat)

variable {operation : γ} {transaction : StoreTransaction}

variable {store : ReferenceState}

theorem Current.of_commit (h : Current protocol store operation transaction)
    (other : StoreTransaction) :
    Current protocol (store.commit other).2 operation transaction := by
  obtain ⟨snapshot, key, value, id, prepared, hdecide, hput, htransaction, hage⟩ := h
  refine ⟨snapshot, key, value, id, prepared, hdecide, hput, htransaction, ?_⟩
  rcases store.commit_generation other with hsame | hless
  · rw [hsame]
    exact hage
  · rcases hage with rfl | hold
    · exact Or.inr hless
    · exact Or.inr (hold.trans hless)

/-- The keys of the calls are the same. -/
def SameOwned (protocol : PutProtocol γ ω) (before after : Entries) : Prop :=
  ∀ key, protocol.owned key → after.get key = before.get key

/-- One key of the calls has a new value and the others are the same. -/
def PutsOwned (protocol : PutProtocol γ ω) (before after : Entries) (key : EntryKey)
    (value : StoreValue) : Prop :=
  ∀ other, protocol.owned other →
    after.get other = if other = key then some value else before.get other

/-- What a commit of a transaction under way does: nothing, or its put, which is then what the
    call decides on the present entries. -/
theorem Current.commit_effect (h : Current protocol store operation transaction) :
    store.Unmoved transaction ∨ ∃ key value,
      protocol.decide operation store.entries = .ok (.put key value) ∧
      PutsOwned protocol store.entries (store.commit transaction).2.entries key value := by
  obtain ⟨snapshot, key, value, id, prepared, hdecide, hput, rfl, hage⟩ := h
  obtain ⟨-, hbase, internal, hinternal, hoperations⟩ := conditionalPut_eq_ok hput
  rcases store.commit_cases prepared.transaction with hsame | ⟨hrevision, generation, -, hcommit⟩
  · exact Or.inl hsame
  · -- The revision of the snapshot is the present one, so the snapshot is the store.
    have hgeneration : snapshot.generation = store.generation :=
      StoreRevision.ofGeneration_inj (hbase.symm.trans hrevision)
    obtain rfl : snapshot = store := by
      rcases hage with heq | hless
      · exact heq
      · rw [hgeneration] at hless
        omega
    refine Or.inr ⟨key, value, hdecide, fun other hother => ?_⟩
    rw [hcommit]
    show (prepared.transaction.operations.foldl applyOperation snapshot.entries).get other = _
    have hmarker : other ≠ ⟨internal, usedIdKey id⟩ := by
      intro heq
      exact protocol.external other hother (by rw [heq]; exact hinternal)
    rw [hoperations]
    simp only [List.foldl_cons, List.foldl_nil, applyOperation]
    rw [SortedMap.get_insert_ne _ _ hmarker]
    by_cases hkey : other = key
    · rw [if_pos hkey, hkey]
      exact SortedMap.get_insert_self ..
    · rw [if_neg hkey]
      exact SortedMap.get_insert_ne _ _ hkey

/-! ## Calls under way -/

/-- What holds of the transactions under way: each is current, and its id is its own. -/
structure Sound (protocol : PutProtocol γ ω) (s : PutSystem γ ω) : Prop where
  current : ∀ (i : Nat) operation transaction,
    s.calls[i]? = some (.prepared operation transaction) →
    Current protocol s.store operation transaction
  unused : ∀ (i : Nat) operation transaction,
    s.calls[i]? = some (.prepared operation transaction) →
    s.store.receipts.get transaction.id = none
  distinct : ∀ (i j : Nat) operation transaction operation' transaction',
    s.calls[i]? = some (.prepared operation transaction) →
    s.calls[j]? = some (.prepared operation' transaction') →
    transaction.id = transaction'.id → i = j

theorem Sound.init (protocol : PutProtocol γ ω) (origin : ReferenceState) :
    Sound protocol ⟨origin, []⟩ where
  current := by simp
  unused := by simp
  distinct := by simp

variable {i : Nat}

/-- The calls after one has moved on. -/
theorem getElem?_setCall {j : Nat} {call new : PutCall γ ω}
    (h : (s.setCall i new).calls[j]? = some call) :
    j = i ∧ call = new ∨ j ≠ i ∧ s.calls[j]? = some call := by
  by_cases hij : j = i
  · subst hij
    have hset := h
    rw [show (s.setCall j new).calls = s.calls.set j new from rfl, List.getElem?_set_self'] at hset
    cases hcall : s.calls[j]? with
    | none => simp [hcall] at hset
    | some old =>
      rw [hcall] at hset
      exact Or.inl ⟨rfl, (Option.some.inj hset).symm⟩
  · rw [show (s.setCall i new).calls = s.calls.set i new from rfl,
      List.getElem?_set_ne (Ne.symm hij)] at h
    exact Or.inr ⟨hij, h⟩

variable {outcome : PutOutcome ω}

/-- A call that is not under way afterwards may end, with the store as it is or after a
    transaction of an id that no other call uses. -/
theorem Sound.of_finish (h : Sound protocol s)
    (hstore : store = s.store ∨ ∃ transaction, store = (s.store.commit transaction).2 ∧
      ∀ (j : Nat) other (under : StoreTransaction), j ≠ i →
        s.calls[j]? = some (.prepared other under) → under.id ≠ transaction.id) :
    Sound protocol { s.setCall i (.finished operation outcome) with store } := by
  have hother : ∀ (j : Nat) other under,
      (s.setCall i (.finished operation outcome)).calls[j]? = some (.prepared other under) →
      j ≠ i ∧ s.calls[j]? = some (.prepared other under) := by
    intro j other under hj
    rcases getElem?_setCall hj with ⟨-, hcall⟩ | hj
    · cases hcall
    · exact hj
  refine ⟨fun j other under hj => ?_, fun j other under hj => ?_, ?_⟩
  · have hcurrent := h.current j other under (hother j other under hj).2
    rcases hstore with rfl | ⟨transaction, rfl, -⟩
    · exact hcurrent
    · exact hcurrent.of_commit transaction
  · obtain ⟨hji, hcall⟩ := hother j other under hj
    have hunused := h.unused j other under hcall
    rcases hstore with rfl | ⟨transaction, rfl, hids⟩
    · exact hunused
    · exact ReferenceState.receipts_commit_of_ne (hids j other under hji hcall) hunused
  · intro j k other under other' under' hj hk
    exact h.distinct j k _ _ _ _ (hother j _ _ hj).2 (hother k _ _ hk).2

/-- What a call goes on with after it has read the store. -/
theorem afterRead_cases (protocol : PutProtocol γ ω) (store : ReferenceState) (operation : γ)
    (id : TransactionId) :
    (∃ error, afterRead protocol store operation id = .finished operation (.failed error)) ∨
      (∃ outcome, protocol.decide operation store.entries = .ok (.answer outcome) ∧
        afterRead protocol store operation id = .finished operation (.answered outcome)) ∨
      ∃ transaction, afterRead protocol store operation id = .prepared operation transaction ∧
        transaction.id = id ∧ Current protocol store operation transaction := by
  unfold afterRead
  cases hdecide : protocol.decide operation store.entries with
  | error error => exact Or.inl ⟨error, rfl⟩
  | ok decision =>
    cases decision with
    | answer outcome => exact Or.inr (Or.inl ⟨outcome, rfl, rfl⟩)
    | put key value =>
      cases hput : conditionalPut store.snapshot id key value with
      | error error => exact Or.inl ⟨error, by simp [hput]⟩
      | ok prepared =>
        refine Or.inr (Or.inr ⟨prepared.transaction, by simp [hput], ?_, ?_⟩)
        · exact (conditionalPut_eq_ok hput).1
        · exact ⟨store, key, value, id, prepared, hdecide, hput, rfl, Or.inl rfl⟩

theorem Sound.of_read (h : Sound protocol s) {id : TransactionId} (hid : s.Unused id) :
    Sound protocol (s.setCall i (afterRead protocol s.store operation id)) := by
  rcases afterRead_cases protocol s.store operation id with
    ⟨error, hcall⟩ | ⟨outcome, -, hcall⟩ | ⟨transaction, hcall, rfl, hcurrent⟩
  · rw [hcall]
    exact h.of_finish (Or.inl rfl)
  · rw [hcall]
    exact h.of_finish (Or.inl rfl)
  · rw [hcall]
    -- Every transaction under way is the new one or an old one, and these differ in their ids.
    have hcases : ∀ (j : Nat) other under,
        (s.setCall i (.prepared operation transaction)).calls[j]? = some (.prepared other under) →
        j = i ∧ other = operation ∧ under = transaction ∨
          s.calls[j]? = some (.prepared other under) := by
      intro j other under hj
      rcases getElem?_setCall hj with ⟨hji, heq⟩ | ⟨-, hj⟩
      · cases heq
        exact Or.inl ⟨hji, rfl, rfl⟩
      · exact Or.inr hj
    have hfresh : ∀ (j : Nat) other under, s.calls[j]? = some (.prepared other under) →
        under.id ≠ transaction.id :=
      fun j other under hj => hid.2 other under (List.mem_of_getElem? hj)
    refine ⟨fun j other under hj => ?_, fun j other under hj => ?_, ?_⟩
    · rcases hcases j other under hj with ⟨-, rfl, rfl⟩ | hj
      · exact hcurrent
      · exact h.current j other under hj
    · rcases hcases j other under hj with ⟨-, rfl, rfl⟩ | hj
      · exact hid.1
      · exact h.unused j other under hj
    · intro j k other under other' under' hj hk heq
      rcases hcases j other under hj with ⟨hji, -, hnew⟩ | hold
      · rcases hcases k other' under' hk with ⟨hki, -, -⟩ | hold'
        · rw [hji, hki]
        · exact absurd (by rw [← heq, hnew]) (hfresh k other' under' hold')
      · rcases hcases k other' under' hk with ⟨-, -, hnew⟩ | hold'
        · exact absurd (by rw [heq, hnew]) (hfresh j other under hold)
        · exact h.distinct j k _ _ _ _ hold hold' heq

theorem Sound.of_start (h : Sound protocol s) (operation : γ) :
    Sound protocol (s.start operation) := by
  have hold : ∀ (j : Nat) other under,
      (s.start operation).calls[j]? = some (.prepared other under) →
      s.calls[j]? = some (.prepared other under) := by
    intro j other under hj
    rw [show (s.start operation).calls = s.calls ++ [.started operation] from rfl,
      List.getElem?_append] at hj
    split at hj
    · exact hj
    · have hmem := List.mem_of_getElem? hj
      simp at hmem
  exact ⟨fun j other under hj => h.current j other under (hold j other under hj),
    fun j other under hj => h.unused j other under (hold j other under hj),
    fun j k other under other' under' hj hk =>
      h.distinct j k _ _ _ _ (hold j _ _ hj) (hold k _ _ hk)⟩

/-- The steps of the calls keep what holds of them. -/
theorem Work.sound (hwork : Work protocol s t) (h : Sound protocol s) : Sound protocol t := by
  cases hwork with
  | read i operation id hcall hid => exact h.of_read hid
  | commit i operation transaction hcall =>
    refine h.of_finish (Or.inr ⟨transaction, rfl, fun j other under hji hj heq => ?_⟩)
    exact hji (h.distinct j i _ _ _ _ hj hcall heq)
  | lost i operation transaction effective hcall =>
    cases effective with
    | false => exact h.of_finish (Or.inl rfl)
    | true =>
      refine h.of_finish (Or.inr ⟨transaction, rfl, fun j other under hji hj heq => ?_⟩)
      exact hji (h.distinct j i _ _ _ _ hj hcall heq)
  | other transaction hkeys hid =>
    refine ⟨fun j op under hj => (h.current j op under hj).of_commit transaction,
      fun j op under hj => ?_, h.distinct⟩
    refine ReferenceState.receipts_commit_of_ne ?_ (h.unused j op under hj)
    exact hid.2 op under (List.mem_of_getElem? hj)

/-! ## The effect of a step -/

/-- A step of the calls leaves their keys alone or performs the put that a call decides on the
    present entries. -/
theorem Work.effect (hwork : Work protocol s t) (h : Sound protocol s) :
    SameOwned protocol s.store.entries t.store.entries ∨ ∃ operation ∈ s.operations, ∃ key value,
      protocol.decide operation s.store.entries = .ok (.put key value) ∧
      PutsOwned protocol s.store.entries t.store.entries key value := by
  have hcommit : ∀ (i : Nat) operation transaction,
      s.calls[i]? = some (.prepared operation transaction) →
      SameOwned protocol s.store.entries (s.store.commit transaction).2.entries ∨
        ∃ operation ∈ s.operations, ∃ key value,
          protocol.decide operation s.store.entries = .ok (.put key value) ∧
          PutsOwned protocol s.store.entries (s.store.commit transaction).2.entries key value := by
    intro i operation transaction hcall
    rcases (h.current i operation transaction hcall).commit_effect with
      ⟨hsame, -⟩ | ⟨key, value, hdecide, hputs⟩
    · rw [hsame]
      exact Or.inl fun key _ => rfl
    · exact Or.inr ⟨operation, List.mem_map.mpr ⟨_, List.mem_of_getElem? hcall, rfl⟩, key, value,
        hdecide, hputs⟩
  cases hwork with
  | read i operation id hcall hid => exact Or.inl fun key _ => rfl
  | commit i operation transaction hcall => exact hcommit i operation transaction hcall
  | lost i operation transaction effective hcall =>
    cases effective with
    | false => exact Or.inl fun key _ => rfl
    | true => exact hcommit i operation transaction hcall
  | other transaction hkeys hid =>
    refine Or.inl fun key howned => ReferenceState.get_commit_of_ne fun operation hmem => ?_
    exact hkeys operation hmem key howned

/-- A commit that succeeds performs its put. -/
theorem Sound.commit_installed (h : Sound protocol s) {receipt : CommitReceipt}
    (hcall : s.calls[i]? = some (.prepared operation transaction))
    (hcommitted : (s.store.commit transaction).1 = .ok (.committed receipt)) :
    ∃ key value, protocol.decide operation s.store.entries = .ok (.put key value) ∧
      PutsOwned protocol s.store.entries (s.store.commit transaction).2.entries key value := by
  rcases (h.current i operation transaction hcall).commit_effect with ⟨-, hfails⟩ | heffect
  · exact absurd hcommitted (hfails (h.unused i operation transaction hcall) receipt)
  · exact heffect

/-- A step settles a call by an answer to the present entries, or by its put. -/
theorem Work.settled_call (hwork : Work protocol s t) (h : Sound protocol s)
    (hi : t.calls[i]? = some (.finished operation outcome)) (hsettled : outcome.isSettled = true) :
    s.calls[i]? = some (.finished operation outcome) ∨
      (∃ answer, protocol.decide operation s.store.entries = .ok (.answer answer) ∧
        outcome = .answered answer ∧ t.store = s.store) ∨
      ∃ key value, protocol.decide operation s.store.entries = .ok (.put key value) ∧
        PutsOwned protocol s.store.entries t.store.entries key value := by
  cases hwork with
  | read j reading id hcall hid =>
    rcases getElem?_setCall hi with ⟨-, hnew⟩ | ⟨-, hold⟩
    · rcases afterRead_cases protocol s.store reading id with
        ⟨error, hafter⟩ | ⟨answer, hdecide, hafter⟩ | ⟨transaction, hafter, -⟩
      · rw [hafter] at hnew
        cases hnew
        cases hsettled
      · rw [hafter] at hnew
        cases hnew
        exact Or.inr (Or.inl ⟨answer, hdecide, rfl, rfl⟩)
      · rw [hafter] at hnew
        cases hnew
    · exact Or.inl hold
  | commit j committing transaction hcall =>
    rcases getElem?_setCall hi with ⟨-, hnew⟩ | ⟨-, hold⟩
    · cases hnew
      -- Of the answers of the store, only a commit settles the call.
      cases hanswer : (s.store.commit transaction).1 with
      | error error => simp [hanswer, commitAnswer, PutOutcome.isSettled] at hsettled
      | ok result =>
        cases result with
        | committed receipt => exact Or.inr (Or.inr (h.commit_installed hcall hanswer))
        | aborted | conflict | unknown id digest =>
          simp [hanswer, commitAnswer, PutOutcome.isSettled] at hsettled
    · exact Or.inl hold
  | lost j committing transaction effective hcall =>
    rcases getElem?_setCall hi with ⟨-, hnew⟩ | ⟨-, hold⟩
    · cases hnew
      cases hsettled
    · exact Or.inl hold
  | other transaction hkeys hid => exact Or.inl hi

theorem Work.settled (hwork : Work protocol s t) (h : Sound protocol s)
    (hdelivered : t.Delivered operation) :
    s.Delivered operation ∨
      (∃ outcome, protocol.decide operation s.store.entries = .ok (.answer outcome) ∧
        t.store = s.store) ∨
      ∃ key value, protocol.decide operation s.store.entries = .ok (.put key value) ∧
        PutsOwned protocol s.store.entries t.store.entries key value := by
  obtain ⟨i, outcome, hi, hsettled⟩ := hdelivered
  rcases hwork.settled_call h hi hsettled with hold | ⟨answer, hdecide, -, hstore⟩ | hput
  · exact Or.inl ⟨i, outcome, hold, hsettled⟩
  · exact Or.inr (Or.inl ⟨answer, hdecide, hstore⟩)
  · exact Or.inr (Or.inr hput)

/-- A call that has finished stays as it is. -/
theorem Work.finished (hwork : Work protocol s t)
    (hi : s.calls[i]? = some (.finished operation outcome)) :
    t.calls[i]? = some (.finished operation outcome) := by
  have hset : ∀ (j : Nat) new, (∀ op result, s.calls[j]? ≠ some (.finished op result)) →
      (s.setCall j new).calls[i]? = some (.finished operation outcome) := by
    intro j new hj
    have hne : j ≠ i := fun heq => hj operation outcome (heq ▸ hi)
    show (s.calls.set j new)[i]? = _
    rw [List.getElem?_set_ne hne, hi]
  cases hwork with
  | read j reading id hcall hid | commit j committing transaction hcall
  | lost j committing transaction effective hcall =>
    refine hset j _ fun op result hfinished => ?_
    rw [hcall] at hfinished
    cases hfinished
  | other transaction hkeys hid => exact hi

/-- The steps of the calls keep the operations. -/
theorem Work.operations_eq (hwork : Work protocol s t) : t.operations = s.operations := by
  have hset : ∀ (i : Nat) call new, s.calls[i]? = some call → new.operation = call.operation →
      (s.setCall i new).operations = s.operations := by
    intro i call new hcall hsame
    obtain ⟨hi, rfl⟩ := List.getElem?_eq_some_iff.mp hcall
    unfold operations setCall
    rw [List.map_set, hsame, ← List.map_set, List.set_getElem_self]
  cases hwork with
  | read i operation id hcall hid =>
    refine hset i _ _ hcall ?_
    rcases afterRead_cases protocol s.store operation id with
      ⟨error, hafter⟩ | ⟨answer, -, hafter⟩ | ⟨transaction, hafter, -⟩ <;> rw [hafter] <;> rfl
  | commit i operation transaction hcall => exact hset i _ _ hcall rfl
  | lost i operation transaction effective hcall => exact hset i _ _ hcall rfl
  | other transaction hkeys hid => rfl

/-- The rule for runs: `P` is to hold of the operations so far and the entries, and `Q` of each
    settled operation and the entries. -/
structure Rule (protocol : PutProtocol γ ω) (P : List γ → Entries → Prop)
    (Q : γ → Entries → Prop) : Prop where
  start : ∀ operations operation entries, P operations entries →
    P (operations ++ [operation]) entries
  same : ∀ operations before after, SameOwned protocol before after → P operations before →
    P operations after ∧ ∀ operation, Q operation before → Q operation after
  put : ∀ operations operation before after key value, operation ∈ operations →
    P operations before → protocol.decide operation before = .ok (.put key value) →
    PutsOwned protocol before after key value →
    P operations after ∧ Q operation after ∧ ∀ other, Q other before → Q other after
  answer : ∀ operations operation entries outcome, P operations entries →
    protocol.decide operation entries = .ok (.answer outcome) → Q operation entries

/-- `P` and `Q` hold of a state. -/
def Holds (P : List γ → Entries → Prop) (Q : γ → Entries → Prop) (s : PutSystem γ ω) : Prop :=
  P s.operations s.store.entries ∧ ∀ operation, s.Delivered operation → Q operation s.store.entries

variable {P : List γ → Entries → Prop} {Q : γ → Entries → Prop}

/-- A step of the calls keeps `P`, and `Q` of any operation. -/
theorem Rule.keeps (hrule : Rule protocol P Q) (hsound : Sound protocol s)
    (hwork : Work protocol s t) (hP : P s.operations s.store.entries) :
    P s.operations t.store.entries ∧ ∀ operation, Q operation s.store.entries →
      Q operation t.store.entries := by
  rcases hwork.effect hsound with hsame | ⟨operation, hmem, key, value, hdecide, hputs⟩
  · exact hrule.same _ _ _ hsame hP
  · obtain ⟨hafter, -, hothers⟩ := hrule.put _ _ _ _ key value hmem hP hdecide hputs
    exact ⟨hafter, hothers⟩

theorem Rule.work (hrule : Rule protocol P Q) (hsound : Sound protocol s)
    (hwork : Work protocol s t) (h : Holds P Q s) : Holds P Q t := by
  obtain ⟨hP, hQ⟩ := h
  have hold := hrule.keeps hsound hwork hP
  refine ⟨hwork.operations_eq ▸ hold.1, fun operation hdelivered => ?_⟩
  rcases hwork.settled hsound hdelivered with hbefore | ⟨outcome, hdecide, hstore⟩ |
    ⟨key, value, hdecide, hputs⟩
  · exact hold.2 operation (hQ operation hbefore)
  · rw [hstore]
    exact hrule.answer _ operation _ outcome hP hdecide
  · obtain ⟨i, outcome, hi, -⟩ := hdelivered
    have hmem : operation ∈ s.operations := by
      rw [← hwork.operations_eq]
      exact List.mem_map.mpr ⟨_, List.mem_of_getElem? hi, rfl⟩
    exact (hrule.put _ _ _ _ key value hmem hP hdecide hputs).2.1

/-- A new call is not settled. -/
theorem Delivered.of_start {other : γ} (h : (s.start operation).Delivered other) :
    s.Delivered other := by
  obtain ⟨i, outcome, hi, hsettled⟩ := h
  refine ⟨i, outcome, ?_, hsettled⟩
  rw [show (s.start operation).calls = s.calls ++ [.started operation] from rfl,
    List.getElem?_append] at hi
  split at hi
  · exact hi
  · have hmem := List.mem_of_getElem? hi
    simp at hmem

theorem operations_start (s : PutSystem γ ω) (operation : γ) :
    (s.start operation).operations = s.operations ++ [operation] := by
  simp [operations, start, PutCall.operation]

theorem Rule.of_start (hrule : Rule protocol P Q) (operation : γ) (h : Holds P Q s) :
    Holds P Q (s.start operation) := by
  refine ⟨?_, fun other hother => h.2 other hother.of_start⟩
  rw [operations_start]
  exact hrule.start _ operation _ h.1

end PutSystem

end Radiata
