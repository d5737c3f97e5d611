import Radiata.Spec.ConditionalPutCorrect

/-!
# Applying pages

A node that applies pages takes no other steps on its store than its calls do, so the rule for
the calls holds for it. An item of a page that has been settled once is never put again.

## Key results

- `PageSystem.holds_of_reachable`: the rule for runs of a node
- `PageSystem.Step.effect`: what a step does to the keys of the calls
- `PageSystem.processed_of_reachable`: what became of the items of a page
- `PageSystem.reapplied_page`: a page applied again puts nothing
- `PageSystem.exists_put` / `PageSystem.reach_answers`: how runs are built
-/

namespace Radiata

variable [DnsName]

namespace PageSystem

variable {γ ω : Type} {protocol : PageProtocol γ ω} {origin : ReferenceState}
  {s t : PageSystem γ ω}

/-- A step of a node starts a call, is a step of its calls, or is none of their business. -/
theorem Step.put_cases (h : Step protocol s t) :
    (∃ operation, t.system = s.system.start operation) ∨
      PutSystem.Work protocol.toPutProtocol s.system t.system ∨ t.system = s.system := by
  cases h with
  | start operation hissued => exact Or.inl ⟨operation, rfl⟩
  | work system hwork => exact Or.inr (Or.inl hwork)
  | receive page => exact Or.inr (Or.inr rfl)
  | skip k task item rest htask hstopped hwaiting hrest hadmits => exact Or.inr (Or.inr rfl)
  | call k task item rest htask hstopped hwaiting hrest hadmits => exact Or.inl ⟨item, rfl⟩
  | resume k task i item rest outcome htask hwaiting hrest hcall => exact Or.inr (Or.inr rfl)

theorem Step.sound (h : Step protocol s t) (hs : PutSystem.Sound protocol.toPutProtocol s.system) :
    PutSystem.Sound protocol.toPutProtocol t.system := by
  rcases h.put_cases with ⟨operation, hstart⟩ | hwork | hsame
  · rw [hstart]
    exact hs.of_start operation
  · exact hwork.sound hs
  · rw [hsame]
    exact hs

theorem sound_of_reachable (h : (runs protocol origin).Reachable s) :
    PutSystem.Sound protocol.toPutProtocol s.system := by
  refine h.invariant (P := fun s => PutSystem.Sound protocol.toPutProtocol s.system) ?_ ?_
  · rintro s rfl
    exact PutSystem.Sound.init _ origin
  · intro s t _ hs hstep
    exact Step.sound hstep hs

variable {P : List γ → Entries → Prop} {Q : γ → Entries → Prop}

theorem Step.holds (hrule : PutSystem.Rule protocol.toPutProtocol P Q) (h : Step protocol s t)
    (hsound : PutSystem.Sound protocol.toPutProtocol s.system)
    (hs : PutSystem.Holds P Q s.system) : PutSystem.Holds P Q t.system := by
  rcases h.put_cases with ⟨operation, hstart⟩ | hwork | hsame
  · rw [hstart]
    exact hrule.of_start operation hs
  · exact hrule.work hsound hwork hs
  · rw [hsame]
    exact hs

/-- The rule for runs of a node that applies pages. -/
theorem holds_of_reachable (hrule : PutSystem.Rule protocol.toPutProtocol P Q)
    (horigin : P [] origin.entries) (h : (runs protocol origin).Reachable s) :
    PutSystem.Holds P Q s.system := by
  refine h.invariant (P := fun s => PutSystem.Holds P Q s.system) ?_ ?_
  · rintro s rfl
    refine ⟨horigin, fun operation hdelivered => ?_⟩
    obtain ⟨i, outcome, hi, -⟩ := hdelivered
    simp at hi
  · intro s t hreachable hs hstep
    exact Step.holds hrule hstep (sound_of_reachable hreachable) hs

/-- A step of a node leaves the keys of the calls alone or performs the put that a call decides
    on the present entries. -/
theorem Step.effect (h : Step protocol s t)
    (hsound : PutSystem.Sound protocol.toPutProtocol s.system) :
    PutSystem.SameOwned protocol.toPutProtocol s.system.store.entries t.system.store.entries ∨
      ∃ operation ∈ s.system.operations, ∃ key value,
        protocol.decide operation s.system.store.entries = .ok (.put key value) ∧
        PutSystem.PutsOwned protocol.toPutProtocol s.system.store.entries t.system.store.entries
          key value := by
  rcases h.put_cases with ⟨operation, hstart⟩ | hwork | hsame
  · rw [hstart]
    exact Or.inl fun key _ => rfl
  · exact hwork.effect hsound
  · rw [hsame]
    exact Or.inl fun key _ => rfl

variable {task : PageTask γ}

/-- A task after a step is a task before it, a new one, or one with an item skipped on the present
    entries or with the call for an item begun or done. -/
theorem Step.skipped_cases (h : Step protocol s t) {item : γ} (htask : task ∈ t.tasks)
    (hitem : item ∈ task.skipped) :
    (∃ old ∈ s.tasks, item ∈ old.skipped) ∨
      protocol.admits item s.system.store.entries = false ∧ t.system = s.system := by
  cases h with
  | start operation hissued => exact Or.inl ⟨task, htask, hitem⟩
  | work system hwork => exact Or.inl ⟨task, htask, hitem⟩
  | receive page =>
    rcases List.mem_append.mp htask with hold | hnew
    · exact Or.inl ⟨task, hold, hitem⟩
    · rw [List.mem_singleton.mp hnew] at hitem
      cases hitem
  | skip k old next rest hold hstopped hwaiting hrest hadmits =>
    rcases List.mem_or_eq_of_mem_set htask with hmem | rfl
    · exact Or.inl ⟨task, hmem, hitem⟩
    · rcases List.mem_append.mp hitem with hbefore | hnow
      · exact Or.inl ⟨old, List.mem_of_getElem? hold, hbefore⟩
      · rw [List.mem_singleton.mp hnow]
        exact Or.inr ⟨hadmits, rfl⟩
  | call k old next rest hold hstopped hwaiting hrest hadmits
  | resume k old i next rest outcome hold hwaiting hrest hcall =>
    rcases List.mem_or_eq_of_mem_set htask with hmem | rfl
    · exact Or.inl ⟨task, hmem, hitem⟩
    · exact Or.inl ⟨old, List.mem_of_getElem? hold, hitem⟩

/-- If the test lets an item go only where `Q` holds of it, `Q` holds of the skipped items. -/
theorem skipped_of_reachable (hrule : PutSystem.Rule protocol.toPutProtocol P Q)
    (horigin : P [] origin.entries)
    (hskip : ∀ operations item entries, P operations entries →
      protocol.admits item entries = false → Q item entries)
    (h : (runs protocol origin).Reachable s) :
    ∀ task ∈ s.tasks, ∀ item ∈ task.skipped, Q item s.system.store.entries := by
  refine h.invariant (P := fun s => ∀ task ∈ s.tasks, ∀ item ∈ task.skipped,
    Q item s.system.store.entries) ?_ ?_
  · rintro s rfl
    exact nofun
  · intro s t hreachable hs hstep task htask item hitem
    have hP := (holds_of_reachable hrule horigin hreachable).1
    rcases Step.skipped_cases hstep htask hitem with ⟨old, hold, hskipped⟩ | ⟨hadmits, hsame⟩
    · have hbefore := hs old hold item hskipped
      rcases Step.put_cases hstep with ⟨operation, hstart⟩ | hwork | hsame
      · rw [hstart]
        exact hbefore
      · exact (hrule.keeps (sound_of_reachable hreachable) hwork hP).2 item hbefore
      · rw [hsame]
        exact hbefore
    · rw [hsame]
      exact hskip _ item _ hP hadmits

/-! ## Pages applied again -/

variable {operation : γ}

/-- A call that has finished stays as it is. -/
theorem Step.finished (h : Step protocol s t) {i : Nat} {outcome : PutOutcome ω}
    (hi : s.system.calls[i]? = some (.finished operation outcome)) :
    t.system.calls[i]? = some (.finished operation outcome) := by
  rcases h.put_cases with ⟨new, hstart⟩ | hwork | hsame
  · have hlt : i < s.system.calls.length := (List.getElem?_eq_some_iff.mp hi).1
    rw [hstart]
    exact (List.getElem?_append_left hlt).trans hi
  · exact hwork.finished hi
  · rw [hsame]
    exact hi

/-- Where `Q` holds of an operation that is then not put, no further call of it is installed. -/
theorem no_reinstall (hrule : PutSystem.Rule protocol.toPutProtocol P Q)
    (horigin : P [] origin.entries) (hs : (runs protocol origin).Reachable s)
    (hpath : (runs protocol origin).Path s t)
    (hdone : ∀ operations entries key value, P operations entries → Q operation entries →
      protocol.decide operation entries ≠ .ok (.put key value))
    (hQ : Q operation s.system.store.entries) :
    Q operation t.system.store.entries ∧ ∀ (i : Nat) receipt,
      t.system.calls[i]? = some (.finished operation (.installed receipt)) →
      s.system.calls[i]? = some (.finished operation (.installed receipt)) := by
  induction hpath with
  | refl => exact ⟨hQ, fun i receipt hi => hi⟩
  | @tail u v hpath hstep ih =>
    obtain ⟨hQu, hold⟩ := ih
    have hu := hs.path hpath
    have hP := (holds_of_reachable hrule horigin hu).1
    rcases Step.put_cases hstep with ⟨new, hstart⟩ | hwork | hsame
    · rw [hstart]
      refine ⟨hQu, fun i receipt hi => hold i receipt ?_⟩
      rw [show (u.system.start new).calls = u.system.calls ++ [.started new] from rfl,
        List.getElem?_append] at hi
      split at hi
      · exact hi
      · have hmem := List.mem_of_getElem? hi
        simp at hmem
    · refine ⟨(hrule.keeps (sound_of_reachable hu) hwork hP).2 operation hQu, fun i receipt hi => ?_⟩
      rcases hwork.settled_call (sound_of_reachable hu) hi rfl with
        hbefore | ⟨answer, -, houtcome, -⟩ | ⟨key, value, hdecide, -⟩
      · exact hold i receipt hbefore
      · cases houtcome
      · exact absurd hdecide (hdone _ _ key value hP hQu)
    · rw [hsame]
      exact ⟨hQu, hold⟩

/-- No step takes a call away. -/
theorem Step.calls_length (h : Step protocol s t) :
    s.system.calls.length ≤ t.system.calls.length := by
  rcases h.put_cases with ⟨new, hstart⟩ | hwork | hsame
  · rw [hstart]
    simp [PutSystem.start]
  · have hsame := congrArg List.length hwork.operations_eq
    simp only [PutSystem.operations, List.length_map] at hsame
    omega
  · rw [hsame]

theorem calls_length_le (h : (runs protocol origin).Path s t) :
    s.system.calls.length ≤ t.system.calls.length := by
  induction h with
  | refl => exact le_rfl
  | tail _ hstep ih => exact ih.trans (Step.calls_length hstep)

/-- An operation of which `Q` holds, and which is then not put. -/
def Done (protocol : PageProtocol γ ω) (P : List γ → Entries → Prop) (Q : γ → Entries → Prop)
    (entries : Entries) (operation : γ) : Prop :=
  Q operation entries ∧ ∀ operations later key value, P operations later → Q operation later →
    protocol.decide operation later ≠ .ok (.put key value)

/-- What holds of the loop over a page that was received after a state. -/
structure Reapplying (s : PageSystem γ ω) (done : γ → Prop) (task : PageTask γ) : Prop where
  within : ∀ item ∈ task.rest, item ∈ task.page
  waiting : ∀ i, task.waiting = some i → s.system.calls.length ≤ i ∧
    ∀ item rest, task.rest = item :: rest → done item
  applied : task.applied = []

/-- A page of settled items is applied again without an effect. -/
theorem reapplied_page (hrule : PutSystem.Rule protocol.toPutProtocol P Q)
    (horigin : P [] origin.entries) (hs : (runs protocol origin).Reachable s) {page : List γ}
    (hcounts : ∀ outcome, protocol.counts outcome = true → ∃ receipt, outcome = .installed receipt)
    (hpage : ∀ item ∈ page, Done protocol P Q s.system.store.entries item ∨
      ∀ u, (runs protocol origin).Path s u → protocol.admits item u.system.store.entries = false)
    (hpath : (runs protocol origin).Path s t) {k : Nat} (hk : s.tasks.length ≤ k)
    (htask : t.tasks[k]? = some task) (hsame : task.page = page) :
    Reapplying s (Done protocol P Q s.system.store.entries) task := by
  induction hpath generalizing task with
  | refl =>
    have hlt := (List.getElem?_eq_some_iff.mp htask).1
    omega
  | @tail u v hpath hstep ih =>
    -- A task that another step leaves alone, or the one that the step replaces.
    have hkept : ∀ (j : Nat) new, (u.tasks.set j new)[k]? = some task → u.tasks[k]? = some task ∨
        j = k ∧ task = new := by
      intro j new hset
      by_cases hjk : j = k
      · subst hjk
        have hlt := (List.getElem?_eq_some_iff.mp hset).1
        rw [List.length_set] at hlt
        rw [List.getElem?_set_self hlt] at hset
        exact Or.inr ⟨rfl, (Option.some.inj hset).symm⟩
      · rw [List.getElem?_set_ne hjk] at hset
        exact Or.inl hset
    cases hstep with
    | start operation hissued => exact ih htask hsame
    | work system hwork => exact ih htask hsame
    | receive fresh =>
      rw [List.getElem?_append] at htask
      split at htask
      · exact ih htask hsame
      · rw [List.mem_singleton.mp (List.mem_of_getElem? htask)]
        exact ⟨fun item hitem => hitem, nofun, rfl⟩
    | skip j old item rest hold hstopped hwaiting hrest hadmits =>
      rcases hkept j _ htask with hbefore | ⟨rfl, rfl⟩
      · exact ih hbefore hsame
      · have hinv := ih hold hsame
        refine ⟨fun other hother => hinv.within other ?_, fun i hi => ?_, hinv.applied⟩
        · rw [hrest]
          exact List.mem_cons_of_mem _ hother
        · replace hi : old.waiting = some i := hi
          rw [hwaiting] at hi
          cases hi
    | call j old item rest hold hstopped hwaiting hrest hadmits =>
      rcases hkept j _ htask with hbefore | ⟨rfl, rfl⟩
      · exact ih hbefore hsame
      · have hinv := ih hold hsame
        have hmem : item ∈ page := hsame ▸ hinv.within item (hrest ▸ List.mem_cons_self ..)
        have hdone : Done protocol P Q s.system.store.entries item := by
          rcases hpage item hmem with hdone | hnever
          · exact hdone
          · rw [hnever u hpath] at hadmits
            cases hadmits
        refine ⟨hinv.within, fun i hi => ?_, hinv.applied⟩
        cases hi
        refine ⟨calls_length_le hpath, fun other tail heq => ?_⟩
        replace heq : old.rest = other :: tail := heq
        rw [hrest] at heq
        cases heq
        exact hdone
    | resume j old i item rest outcome hold hwaiting hrest hcall =>
      rcases hkept j _ htask with hbefore | ⟨rfl, rfl⟩
      · exact ih hbefore hsame
      · have hinv := ih hold hsame
        refine ⟨fun other hother => hinv.within other ?_, nofun, ?_⟩
        · rw [hrest]
          exact List.mem_cons_of_mem _ hother
        · show (if protocol.counts outcome then old.applied ++ [item] else old.applied) = []
          rw [if_neg, hinv.applied]
          intro hcount
          obtain ⟨receipt, rfl⟩ := hcounts outcome hcount
          obtain ⟨hlate, hdone⟩ := hinv.waiting i hwaiting
          obtain ⟨hQ, hnot⟩ := hdone item rest hrest
          have hearlier := (no_reinstall hrule horigin hs hpath hnot hQ).2 i receipt hcall
          have hlt := (List.getElem?_eq_some_iff.mp hearlier).1
          omega

/-- What became of the items of a page: they are still to come, were skipped, or had a call
    that has finished and did not stop the loop, unless it has stopped. -/
structure Processed (protocol : PageProtocol γ ω) (s : PageSystem γ ω) (task : PageTask γ) :
    Prop where
  quiet : task.stopped = true → task.waiting = none
  items : ∀ item ∈ task.page, item ∈ task.rest ∨ item ∈ task.skipped ∨
    ∃ (i : Nat) (outcome : PutOutcome ω), s.system.calls[i]? = some (.finished item outcome) ∧
      (protocol.stops outcome = false ∨ task.stopped = true)

theorem Processed.step (h : Processed protocol s task) (hstep : Step protocol s t) :
    Processed protocol t task := by
  refine ⟨h.quiet, fun item hitem => ?_⟩
  rcases h.items item hitem with hrest | hskipped | ⟨i, outcome, hi, hstops⟩
  · exact Or.inl hrest
  · exact Or.inr (Or.inl hskipped)
  · exact Or.inr (Or.inr ⟨i, outcome, hstep.finished hi, hstops⟩)

theorem processed_of_reachable (h : (runs protocol origin).Reachable s) :
    ∀ task ∈ s.tasks, Processed protocol s task := by
  refine h.invariant (P := fun s => ∀ task ∈ s.tasks, Processed protocol s task) ?_ ?_
  · rintro s rfl
    exact nofun
  · intro s t _ hs hstep task htask
    have hstep' : Step protocol s t := hstep
    cases hstep with
    | start operation hissued => exact (hs task htask).step hstep'
    | work system hwork => exact (hs task htask).step hstep'
    | receive page =>
      rcases List.mem_append.mp htask with hold | hnew
      · exact (hs task hold).step hstep'
      · rw [List.mem_singleton.mp hnew]
        exact ⟨fun _ => rfl, fun item hitem => Or.inl hitem⟩
    | skip k old next rest hold hstopped hwaiting hrest hadmits =>
      rcases List.mem_or_eq_of_mem_set htask with hmem | rfl
      · exact (hs task hmem).step hstep'
      · have hinv := (hs old (List.mem_of_getElem? hold)).step hstep'
        refine ⟨fun _ => hwaiting, fun item hitem => ?_⟩
        rcases hinv.items item hitem with hcoming | hskipped | hcalled
        · rw [hrest] at hcoming
          rcases List.mem_cons.mp hcoming with rfl | hlater
          · exact Or.inr (Or.inl (List.mem_append_right _ (List.mem_singleton_self _)))
          · exact Or.inl hlater
        · exact Or.inr (Or.inl (List.mem_append_left _ hskipped))
        · exact Or.inr (Or.inr hcalled)
    | call k old next rest hold hstopped hwaiting hrest hadmits =>
      rcases List.mem_or_eq_of_mem_set htask with hmem | rfl
      · exact (hs task hmem).step hstep'
      · have hinv := (hs old (List.mem_of_getElem? hold)).step hstep'
        refine ⟨fun htrue => ?_, hinv.items⟩
        replace htrue : old.stopped = true := htrue
        rw [hstopped] at htrue
        cases htrue
    | resume k old i next rest outcome hold hwaiting hrest hcall =>
      rcases List.mem_or_eq_of_mem_set htask with hmem | rfl
      · exact (hs task hmem).step hstep'
      · have hinv := (hs old (List.mem_of_getElem? hold)).step hstep'
        have hrunning : old.stopped = false := by
          cases hflag : old.stopped with
          | false => rfl
          | true =>
            rw [hinv.quiet hflag] at hwaiting
            cases hwaiting
        refine ⟨fun _ => rfl, fun item hitem => ?_⟩
        rcases hinv.items item hitem with hcoming | hskipped | ⟨j, result, hj, hstops⟩
        · rw [hrest] at hcoming
          rcases List.mem_cons.mp hcoming with rfl | hlater
          · refine Or.inr (Or.inr ⟨i, outcome, hcall, ?_⟩)
            show protocol.stops outcome = false ∨ protocol.stops outcome = true
            cases protocol.stops outcome <;> simp
          · exact Or.inl hlater
        · exact Or.inr (Or.inl hskipped)
        · refine Or.inr (Or.inr ⟨j, result, hj, Or.inl (hstops.resolve_right ?_)⟩)
          rw [hrunning]
          exact Bool.false_ne_true

/-! ## Building runs -/

/-- The operations of a conditional put. -/
def putOperations (store : ReferenceState) (internal : StoreNamespace) (id : TransactionId)
    (key : EntryKey) (value : StoreValue) : List StoreOperation :=
  [.put key.namespaceTag key.key (snapshotExpectation store.snapshot key) value,
    .put internal (usedIdKey id) .absent (markerValue activeMarkerValue)]

/-- The transaction of a conditional put. -/
def putTransaction (store : ReferenceState) (internal : StoreNamespace) (id : TransactionId)
    (key : EntryKey) (value : StoreValue) : StoreTransaction :=
  ⟨id, digestStoreOperations (.ofGeneration store.generation)
    (putOperations store internal id key value), .ofGeneration store.generation,
    putOperations store internal id key value⟩

variable {internal : StoreNamespace}

variable {key : EntryKey}

/-- A conditional put commits at once: the id is new and the generation is not the last. -/
theorem exists_commit (store : ReferenceState) (id : TransactionId) (value : StoreValue)
    (hinternal : internalNamespace = .ok internal)
    (hkey : key.namespaceTag.asStr ≠ internalNamespaceText) (hid : store.receipts.get id = none)
    (hmarker : store.entries.get ⟨internal, usedIdKey id⟩ = none)
    (hgeneration : store.generation.toNat + 1 < 2 ^ 64) :
    ∃ prepared receipt after, conditionalPut store.snapshot id key value = .ok prepared ∧
      store.commit prepared.transaction = (.ok (.committed receipt), after) ∧
      after.entries = (store.entries.insert key value).insert ⟨internal, usedIdKey id⟩
        (markerValue activeMarkerValue) ∧
      after.receipts = store.receipts.insert id receipt ∧
      after.generation = store.generation + 1 := by
  have hnamespace : key.namespaceTag ≠ internal := by
    intro heq
    exact hkey (heq ▸ asStr_of_internalNamespace hinternal)
  have hdistinct : ((putOperations store internal id key value).map
      StoreOperation.identity).Nodup := by
    simp [putOperations, StoreOperation.identity, hnamespace]
  have hput : conditionalPut store.snapshot id key value =
      .ok ⟨putTransaction store internal id key value⟩ := by
    have hnew : StoreTransaction.new id store.snapshot.revision
        (putOperations store internal id key value) =
        .ok (putTransaction store internal id key value) :=
      StoreTransaction.new_eq_ok.mpr ⟨by simp [putOperations], hdistinct, rfl⟩
    unfold conditionalPut prepareTransaction prepareInternalTransaction
    rw [if_neg (by simpa [operationUsesReservedNamespace] using hkey), hinternal, Result.ok_bind]
    show (StoreTransaction.new id store.snapshot.revision
      (putOperations store internal id key value) >>= fun transaction => _) = _
    rw [hnew]
    rfl
  have hexpected : expectationMatches (store.entries.get key)
      (snapshotExpectation store.snapshot key) = true := by
    cases hstored : store.entries.get key with
    | none => simp [snapshotExpectation, ReferenceState.snapshot, hstored, expectationMatches]
    | some value => simp [snapshotExpectation, ReferenceState.snapshot, hstored, expectationMatches]
  have hadd : checkedAdd store.generation 1 = some (store.generation + 1) := if_pos hgeneration
  refine ⟨⟨putTransaction store internal id key value⟩,
    ReferenceState.receiptAt (putTransaction store internal id key value) (store.generation + 1),
    store.apply (putTransaction store internal id key value) (store.generation + 1),
    hput, ?_, rfl, rfl, rfl⟩
  unfold ReferenceState.commit
  rw [show (putTransaction store internal id key value).id = id from rfl, hid]
  simp only [hadd]
  rw [if_neg (by simp [StoreTransaction.computedOperationDigest, putTransaction]),
    if_neg (by simp [putTransaction]), if_neg]
  have habsent : expectationMatches none .absent = true := rfl
  simp only [putTransaction, putOperations, conditionMatches, List.all_cons, List.all_nil, hmarker,
    habsent, Bool.and_true]
  exact not_not.mpr hexpected

/-- No transaction is under way. -/
def Idle (s : PageSystem γ ω) : Prop :=
  ∀ operation transaction, .prepared operation transaction ∉ s.system.calls

/-- The state after one more call that has finished. -/
def finish (s : PageSystem γ ω) (store : ReferenceState) (operation : γ)
    (outcome : PutOutcome ω) : PageSystem γ ω :=
  { s with system := ⟨store, s.system.calls ++ [.finished operation outcome]⟩ }

theorem Idle.finish (h : s.Idle) (store : ReferenceState) (operation : γ)
    (outcome : PutOutcome ω) : (s.finish store operation outcome).Idle := by
  intro other transaction hmem
  rcases List.mem_append.mp hmem with hold | hnew
  · exact h other transaction hold
  · cases List.mem_singleton.mp hnew

theorem delivered_finish (s : PageSystem γ ω) (store : ReferenceState) (operation : γ)
    {outcome : PutOutcome ω} (h : outcome.isSettled = true) :
    (s.finish store operation outcome).system.Delivered operation :=
  ⟨s.system.calls.length, outcome, by simp [finish], h⟩

theorem delivered_finish_of (store : ReferenceState) (operation : γ) (outcome : PutOutcome ω)
    {other : γ} (h : s.system.Delivered other) :
    (s.finish store operation outcome).system.Delivered other := by
  obtain ⟨i, result, hi, hsettled⟩ := h
  have hlt : i < s.system.calls.length := (List.getElem?_eq_some_iff.mp hi).1
  exact ⟨i, result, (List.getElem?_append_left hlt).trans hi, hsettled⟩

-- the runs below start every step in a state that meets `ok`
variable {ok : PageSystem γ ω → Prop}

variable {system : PutSystem γ ω} {tasks : List (PageTask γ)} {id : TransactionId}

/-- A started call reads the store. -/
theorem path_read_of_started (hok : ok ⟨system.start operation, tasks⟩)
    (hidle : ∀ other transaction, .prepared other transaction ∉ system.calls)
    (hid : system.store.receipts.get id = none) :
    ((runs protocol origin).restrict fun s _ => ok s).Path ⟨system.start operation, tasks⟩
      ⟨⟨system.store, system.calls ++
        [PutSystem.afterRead protocol.toPutProtocol system.store operation id]⟩, tasks⟩ := by
  have hcall : (system.start operation).calls[system.calls.length]? =
      some (.started operation) := by simp [PutSystem.start]
  have hunused : (system.start operation).Unused id := by
    refine ⟨hid, fun other transaction hmem => absurd ?_ (hidle other transaction)⟩
    simpa [PutSystem.start] using hmem
  have hread : PutSystem.Work protocol.toPutProtocol (system.start operation)
      ⟨system.store, system.calls ++
        [PutSystem.afterRead protocol.toPutProtocol system.store operation id]⟩ := by
    have hwork : PutSystem.Work protocol.toPutProtocol (system.start operation) _ :=
      .read system.calls.length operation id hcall hunused
    simpa [PutSystem.setCall, PutSystem.start] using hwork
  exact .single ⟨Step.work _ hread, hok⟩

/-- A new call reads the store. -/
theorem reach_read_of_started
    (hs : (runs protocol origin).Reachable ⟨system.start operation, tasks⟩)
    (hidle : ∀ other transaction, .prepared other transaction ∉ system.calls)
    (hid : system.store.receipts.get id = none) :
    (runs protocol origin).Reachable ⟨⟨system.store, system.calls ++
      [PutSystem.afterRead protocol.toPutProtocol system.store operation id]⟩, tasks⟩ := by
  have hpath : ((runs protocol origin).restrict fun _ _ => True).Path
      ⟨system.start operation, tasks⟩ ⟨⟨system.store, system.calls ++
        [PutSystem.afterRead protocol.toPutProtocol system.store operation id]⟩, tasks⟩ :=
    path_read_of_started trivial hidle hid
  exact hs.path hpath.of_restrict

/-- A call that is answered on the present entries. -/
theorem reach_answer (hs : (runs protocol origin).Reachable s) (hidle : s.Idle) {outcome : ω}
    (hissued : protocol.issued operation) (hid : s.system.store.receipts.get id = none)
    (hdecide : protocol.decide operation s.system.store.entries = .ok (.answer outcome)) :
    (runs protocol origin).Reachable
      (s.finish s.system.store operation (.answered outcome)) := by
  have hread := reach_read_of_started (hs.step (Step.start operation hissued)) hidle hid
  simp only [PutSystem.afterRead, hdecide] at hread
  exact hread

/-- The id has left nothing in the store. -/
def Lacks (store : ReferenceState) (internal : StoreNamespace)
    (id : TransactionId) : Prop :=
  store.receipts.get id = none ∧ store.entries.get ⟨internal, usedIdKey id⟩ = none

/-- A store after one more put: the value is there, the other keys and ids are as before. -/
structure PutDone (internal : StoreNamespace) (store : ReferenceState) (id : TransactionId)
    (key : EntryKey) (value : StoreValue) (after : ReferenceState) : Prop where
  put : after.entries.get key = some value
  others : ∀ other, other.namespaceTag.asStr ≠ internalNamespaceText → other ≠ key →
    after.entries.get other = store.entries.get other
  ids : ∀ other, other ≠ id → Lacks store internal other → Lacks after internal other
  generation : after.generation = store.generation + 1

variable {value : StoreValue}

variable (system) in
/-- A started call whose put is committed before any other step. -/
theorem exists_path_of_started (hok : ∀ calls, ok ⟨⟨system.store, calls⟩, tasks⟩)
    (hidle : ∀ other transaction, .prepared other transaction ∉ system.calls)
    (hinternal : internalNamespace = .ok internal) (hid : Lacks system.store internal id)
    (hgeneration : system.store.generation.toNat + 1 < 2 ^ 64)
    (hdecide : protocol.decide operation system.store.entries = .ok (.put key value)) :
    ∃ receipt after, ((runs protocol origin).restrict fun s _ => ok s).Path
        ⟨system.start operation, tasks⟩
        ⟨⟨after, system.calls ++ [.finished operation (.installed receipt)]⟩, tasks⟩ ∧
      PutDone internal system.store id key value after := by
  have hexternal := protocol.external key (protocol.puts operation _ key value hdecide)
  obtain ⟨prepared, receipt, after, hput, hcommit, hentries, hreceipts, hafter⟩ :=
    exists_commit system.store id value hinternal hexternal hid.1 hid.2 hgeneration
  have hread : ((runs protocol origin).restrict fun s _ => ok s).Path
      ⟨system.start operation, tasks⟩ ⟨⟨system.store, system.calls ++
        [PutSystem.afterRead protocol.toPutProtocol system.store operation id]⟩, tasks⟩ :=
    path_read_of_started (hok _) hidle hid.1
  simp only [PutSystem.afterRead, hdecide, hput] at hread
  have hcall : (system.calls ++ [PutCall.prepared operation prepared.transaction])[
      system.calls.length]? = some (.prepared operation prepared.transaction) := by simp
  have hwork : PutSystem.Work protocol.toPutProtocol
      ⟨system.store, system.calls ++ [.prepared operation prepared.transaction]⟩
      ⟨after, system.calls ++ [.finished operation (.installed receipt)]⟩ := by
    have hdone : PutSystem.Work protocol.toPutProtocol
        ⟨system.store, system.calls ++ [.prepared operation prepared.transaction]⟩ _ :=
      .commit system.calls.length operation prepared.transaction hcall
    simpa [PutSystem.setCall, hcommit, commitAnswer] using hdone
  have hapart : ∀ entry : EntryKey, entry.namespaceTag.asStr ≠ internalNamespaceText →
      ∀ other, entry ≠ ⟨internal, usedIdKey other⟩ := fun entry hentry other heq =>
    hentry (heq ▸ asStr_of_internalNamespace hinternal)
  refine ⟨receipt, after, hread.tail ⟨Step.work _ hwork, hok _⟩, ?_, ?_, ?_, hafter⟩
  -- only the key and the marker of the id are written
  · rw [hentries, SortedMap.get_insert_ne _ _ (hapart key hexternal id), SortedMap.get_insert_self]
  · intro other hother hne
    rw [hentries, SortedMap.get_insert_ne _ _ (hapart other hother id),
      SortedMap.get_insert_ne _ _ hne]
  · intro other hne hlacks
    have hmarker : (⟨internal, usedIdKey other⟩ : EntryKey) ≠ ⟨internal, usedIdKey id⟩ := by
      intro heq
      exact hne (taggedTransactionKey_inj (EntryKey.mk.inj heq).2)
    rw [Lacks, hreceipts, SortedMap.get_insert_ne _ _ hne, hentries,
      SortedMap.get_insert_ne _ _ hmarker,
      SortedMap.get_insert_ne _ _ (hapart key hexternal other).symm]
    exact hlacks

/-- A call whose put is committed before any other step. -/
theorem exists_put (hs : (runs protocol origin).Reachable s) (hidle : s.Idle)
    (hissued : protocol.issued operation) (hinternal : internalNamespace = .ok internal)
    (hid : Lacks s.system.store internal id)
    (hgeneration : s.system.store.generation.toNat + 1 < 2 ^ 64)
    (hdecide : protocol.decide operation s.system.store.entries = .ok (.put key value)) :
    ∃ receipt after,
      (runs protocol origin).Path s (s.finish after operation (.installed receipt)) ∧
      (runs protocol origin).Reachable (s.finish after operation (.installed receipt)) ∧
      PutDone internal s.system.store id key value after := by
  obtain ⟨receipt, after, hpath, hdone⟩ : ∃ receipt after,
      ((runs protocol origin).restrict fun _ _ => True).Path
        ⟨s.system.start operation, s.tasks⟩ (s.finish after operation (.installed receipt)) ∧
      PutDone internal s.system.store id key value after :=
    exists_path_of_started s.system (fun _ => trivial) hidle hinternal hid hgeneration hdecide
  have hput := Relation.ReflTransGen.head (Step.start operation hissued) hpath.of_restrict
  exact ⟨receipt, after, hput, hs.path hput, hdone⟩

/-- Calls that are answered one after the other. -/
theorem reach_answers (hs : (runs protocol origin).Reachable s) (hidle : s.Idle)
    (hid : s.system.store.receipts.get id = none) (rest : List γ)
    (h : ∀ operation ∈ rest, protocol.issued operation ∧
      ∃ outcome, protocol.decide operation s.system.store.entries = .ok (.answer outcome)) :
    ∃ t, (runs protocol origin).Reachable t ∧ t.system.store = s.system.store ∧
      t.system.operations = s.system.operations ++ rest ∧
      (∀ operation, s.system.Delivered operation → t.system.Delivered operation) ∧
      ∀ operation ∈ rest, t.system.Delivered operation := by
  induction rest generalizing s with
  | nil => exact ⟨s, hs, rfl, by simp, fun _ h => h, nofun⟩
  | cons operation rest ih =>
    obtain ⟨hissued, outcome, hdecide⟩ := h operation (List.mem_cons_self ..)
    have hnext := reach_answer hs hidle hissued hid hdecide
    obtain ⟨t, ht, hstore, hoperations, hkept, hrest⟩ := ih hnext
      (hidle.finish s.system.store operation (.answered outcome)) hid
      fun other hother => h other (List.mem_cons_of_mem _ hother)
    refine ⟨t, ht, hstore, ?_, fun other hother => ?_, fun other hother => ?_⟩
    · rw [hoperations]
      simp [PutSystem.operations, finish, PutCall.operation]
    · exact hkept other (delivered_finish_of _ _ _ hother)
    · rcases List.mem_cons.mp hother with rfl | hother
      · exact hkept other (delivered_finish s s.system.store other rfl)
      · exact hrest other hother

end PageSystem

end Radiata
