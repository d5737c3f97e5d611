import Radiata.Native.MetadataStore

/-!
# The commit slot is exclusive and a frozen store stays on its transaction

Whatever the provider answers and however the callers of one `MetadataStore`
interleave or are cancelled, at most one provider call is in flight, a commit is
submitted only when every earlier submission has a definite outcome, and a
frozen store keeps its pending identity until that identity is resolved.

The argument has two layers. `Step.effect` says once what a step can do to the
shared state, the trace and the caller's guard; `Inv` is the invariant, and its
preservation needs only the effects.

## Key results

- `Metadata.Inv.of_reachable`: the invariant holds in every reachable state
- `Metadata.commits_serialised`: the three properties together
-/

namespace Radiata

/-! ## Definite outcomes -/

/-- A commit answer that settles the submitted identity: committed with exactly
    that identity, aborted, conflict, or an error other than `CommitUnknown`. -/
def CommitDefinite (identity : ReceiptIdentity) : Result CommitOutcome → Prop
  | .ok (.committed receipt) =>
    receipt.transaction = identity.transaction ∧ receipt.operationDigest = identity.operationDigest
  | .ok .aborted => True
  | .ok .conflict => True
  | .ok (.unknown _ _) => False
  | .error e => e.kind ≠ .commitUnknown

/-- A reconcile answer that settles the identity asked about. -/
def ReconcileDefinite (identity : ReceiptIdentity) : Result ReconcileOutcome → Prop
  | .ok (.committed receipt) =>
    receipt.transaction = identity.transaction ∧ receipt.operationDigest = identity.operationDigest
  | .ok .aborted => True
  | _ => False

variable {pending : PendingCommit}

theorem validateReceipt_eq_ok {receipt : CommitReceipt} {context : ProviderErrorContext}
    (h : validateReceipt pending receipt context = .ok ()) :
    receipt.transaction = pending.identity.transaction ∧
      receipt.operationDigest = pending.identity.operationDigest := by
  simp only [validateReceipt] at h
  split at h
  · cases h
  · rename_i hmatch
    rw [not_or, not_not, not_not] at hmatch
    exact hmatch

/-- `commit` returns to `Ready` only on a definite answer. -/
theorem commitDefinite_of_ready {answer result : Result CommitOutcome}
    (h : commitDisposition pending answer = .ready result) :
    CommitDefinite pending.identity answer := by
  rcases answer with e | outcome
  · simp only [commitDisposition] at h
    split at h
    · cases h
    · rename_i hkind
      exact hkind
  · cases outcome with
    | committed receipt =>
      simp only [commitDisposition] at h
      split at h
      · cases h
      · rename_i hvalid
        exact validateReceipt_eq_ok hvalid
    | aborted => trivial
    | conflict => trivial
    | unknown transaction operationDigest =>
      simp only [commitDisposition] at h
      split at h <;> cases h

/-- `reconcile` returns to `Ready` only on a definite answer. -/
theorem reconcileDefinite_of_ready {answer result : Result ReconcileOutcome}
    (h : reconcileDisposition pending answer = .ready result) :
    ReconcileDefinite pending.identity answer := by
  rcases answer with e | outcome
  · cases h
  · cases outcome with
    | committed receipt =>
      simp only [reconcileDisposition] at h
      split at h
      · cases h
      · rename_i hvalid
        exact validateReceipt_eq_ok hvalid
    | aborted => trivial
    | digestConflict => cases h
    | unknown => cases h

/-! ## Traces -/

/-- The event of the store leaving `Ready`. -/
def Event.isFroze : Event → Bool
  | .froze _ => true
  | _ => false

/-- The events since the store last left `Ready`. -/
def sinceFroze (trace : List Event) : List Event := trace.takeWhile (fun e => !e.isFroze)

/-- An event that settles `identity`: a definite answer to a call for exactly it. -/
def Event.Resolves (identity : ReceiptIdentity) : Event → Prop
  | .commitAnswered _ asked answer => asked = identity ∧ CommitDefinite identity answer
  | .reconcileAnswered _ asked answer => asked = identity ∧ ReconcileDefinite identity answer
  | _ => False

/-- The commit call `call` for `identity` has a definite outcome: its own answer was
    definite, or a later reconcile for exactly that identity was answered definitely. -/
def Decided (trace : List Event) (call : Nat) (identity : ReceiptIdentity) : Prop :=
  ∃ newer older, trace = newer ++ .commitCalled call identity :: older ∧
    ((∃ answer, .commitAnswered call identity answer ∈ newer ∧ CommitDefinite identity answer) ∨
      ∃ later answer, .reconcileAnswered later identity answer ∈ newer ∧
        ReconcileDefinite identity answer)

variable {trace : List Event}

theorem Decided.cons {call : Nat} {identity : ReceiptIdentity} (e : Event)
    (h : Decided trace call identity) : Decided (e :: trace) call identity := by
  obtain ⟨newer, older, htrace, hanswer⟩ := h
  refine ⟨e :: newer, older, by rw [htrace, List.cons_append], ?_⟩
  rcases hanswer with ⟨answer, hmem, hdef⟩ | ⟨later, answer, hmem, hdef⟩
  · exact Or.inl ⟨answer, List.mem_cons_of_mem _ hmem, hdef⟩
  · exact Or.inr ⟨later, answer, List.mem_cons_of_mem _ hmem, hdef⟩

/-- An event newer than `older` in a trace. -/
def Newer (trace : List Event) (e older : Event) : Prop :=
  ∃ newer rest, trace = newer ++ older :: rest ∧ e ∈ newer

theorem Newer.cons {e older : Event} (x : Event) (h : Newer trace e older) :
    Newer (x :: trace) e older := by
  obtain ⟨newer, rest, htrace, hmem⟩ := h
  exact ⟨x :: newer, rest, by rw [htrace, List.cons_append], List.mem_cons_of_mem _ hmem⟩

theorem Newer.of_mem {e older : Event} (h : older ∈ trace) :
    Newer (e :: trace) e older := by
  obtain ⟨newer, rest, rfl⟩ := List.append_of_mem h
  exact ⟨e :: newer, rest, rfl, List.mem_cons_self ..⟩

theorem mem_sinceFroze_cons {e x : Event} (hx : x.isFroze = false) (h : e ∈ sinceFroze trace) :
    e ∈ sinceFroze (x :: trace) := by
  simp only [sinceFroze, List.takeWhile_cons, hx, Bool.not_false, ↓reduceIte]
  exact List.mem_cons_of_mem _ h

theorem head_mem_sinceFroze {x : Event} (hx : x.isFroze = false) :
    x ∈ sinceFroze (x :: trace) := by
  simp [sinceFroze, hx]

namespace Metadata

variable {ι : Type}

/-! ## What a step does -/

/-- The effects a step of caller `i` can have. -/
inductive Effect (i : ι) (s t : Metadata ι) : Prop where
  /-- Nothing shared changes and no guard is held before or after. -/
  | quiet (hbefore : (s.callers i).guard = none) (hafter : (t.callers i).guard = none)
      (hstate : t.state = s.state) (htrace : t.trace = s.trace)
  | freeze (identity : ReceiptIdentity) (hbefore : (s.callers i).guard = none)
      (hafter : (t.callers i).guard = none)
      (hstate : freezeJournaled identity s.state = .ok t.state)
      (htrace : t.trace = freezeEvents identity s.state ++ s.trace)
  | beginCommit (pending : PendingCommit) (hbefore : (s.callers i).guard = none)
      (hafter : t.callers i = .commitReady pending) (hready : s.state = .ready)
      (hstate : t.state = .frozen pending true) (hproven : pending.journalProven = false)
      (htrace : t.trace = .froze pending.identity :: s.trace)
  | callCommit (pending : PendingCommit) (hbefore : s.callers i = .commitReady pending)
      (hafter : t.callers i = .committing pending s.trace.length) (hstate : t.state = s.state)
      (htrace : t.trace = .commitCalled s.trace.length pending.identity :: s.trace)
  | answerCommit (pending : PendingCommit) (call : Nat) (answer : Result CommitOutcome)
      (hbefore : s.callers i = .committing pending call)
      (hafter : t.callers i = .committed pending call answer) (hstate : t.state = s.state)
      (htrace : t.trace = .commitAnswered call pending.identity answer :: s.trace)
  | beginReconcile (ifFrozen : Bool) (pending : PendingCommit)
      (hbefore : (s.callers i).guard = none)
      (hafter : t.callers i = .reconcileReady ifFrozen pending)
      (hfrozen : s.state = .frozen pending false) (hstate : t.state = .frozen pending true)
      (htrace : t.trace = s.trace)
  | callReconcile (ifFrozen : Bool) (pending : PendingCommit)
      (hbefore : s.callers i = .reconcileReady ifFrozen pending)
      (hafter : t.callers i = .reconciling ifFrozen pending s.trace.length)
      (hstate : t.state = s.state)
      (htrace : t.trace = .reconcileCalled s.trace.length pending.identity :: s.trace)
  | answerReconcile (ifFrozen : Bool) (pending : PendingCommit) (call : Nat)
      (answer : Result ReconcileOutcome) (hbefore : s.callers i = .reconciling ifFrozen pending call)
      (hafter : t.callers i = .reconciled ifFrozen pending call answer) (hstate : t.state = s.state)
      (htrace : t.trace = .reconcileAnswered call pending.identity answer :: s.trace)
  | finishReadyCommit (pending : PendingCommit) (call : Nat) (answer result : Result CommitOutcome)
      (hbefore : s.callers i = .committed pending call answer)
      (hdisp : commitDisposition pending answer = .ready result)
      (hafter : (t.callers i).guard = none) (hstate : t.state = .ready) (htrace : t.trace = s.trace)
  | finishReadyReconcile (ifFrozen : Bool) (pending : PendingCommit) (call : Nat)
      (answer result : Result ReconcileOutcome)
      (hbefore : s.callers i = .reconciled ifFrozen pending call answer)
      (hdisp : reconcileDisposition pending answer = .ready result)
      (hafter : (t.callers i).guard = none) (hstate : t.state = .ready) (htrace : t.trace = s.trace)
  /-- The guard is given back and the store stays frozen. -/
  | release (pending : PendingCommit) (hbefore : (s.callers i).guard = some pending)
      (hafter : (t.callers i).guard = none) (hstate : t.state = dropProviderCall s.state)
      (htrace : t.trace = s.trace)
  /-- The guard is about to be dropped. -/
  | abandon (pending : PendingCommit) (report : Report)
      (hbefore : (s.callers i).guard = some pending)
      (hafter : t.callers i = .dropping pending report) (hstate : t.state = s.state)
      (htrace : t.trace = s.trace)

/-! ## The guard -/

variable {identity : ReceiptIdentity} {pending : PendingCommit}

theorem freezeJournaled_frozen_eq_ok {active : Bool} {state' : CommitState}
    (h : freezeJournaled identity (.frozen pending active) = .ok state') :
    pending.identity = identity ∧
      state' = .frozen { pending with journalProven := true } active := by
  simp only [freezeJournaled] at h
  split at h
  · rename_i hsame
    cases h
    refine ⟨?_, rfl⟩
    cases identity
    simp_all [PendingCommit.identity]
  · cases h

/-- At most one caller holds the guard, and then the store is frozen with an active
    call on the identity of that caller's copy. -/
structure GuardInv (s : Metadata ι) : Prop where
  exclusive : ∀ i j p q, (s.callers i).guard = some p → (s.callers j).guard = some q → i = j
  held : ∀ i p, (s.callers i).guard = some p →
    ∃ p', s.state = .frozen p' true ∧ p'.identity = p.identity

variable {s t : Metadata ι}

variable {i : ι}

/-- While a caller holds the guard, a step of another caller changes nothing shared
    or is a journal freeze. -/
theorem Effect.frame {j : ι} (h : Effect i s t) (hg : GuardInv s) (hij : j ≠ i)
    {q : PendingCommit} (hj : (s.callers j).guard = some q) :
    (t.callers i).guard = none ∧
      ((t.state = s.state ∧ t.trace = s.trace) ∨
        ∃ identity, freezeJournaled identity s.state = .ok t.state ∧
          t.trace = .frozeJournaled identity :: s.trace) := by
  obtain ⟨p, hp, -⟩ := hg.held j q hj
  have hfree : ∀ r, (s.callers i).guard ≠ some r := by
    intro r hr
    exact hij (hg.exclusive j i q r hj hr)
  cases h with
  | quiet _ hafter hstate htrace => exact ⟨hafter, .inl ⟨hstate, htrace⟩⟩
  | freeze identity _ hafter hstate htrace =>
    rw [hp] at htrace
    exact ⟨hafter, .inr ⟨identity, hstate, htrace⟩⟩
  | beginCommit _ _ _ hready => rw [hp] at hready; cases hready
  | beginReconcile _ _ _ _ hfrozen => rw [hp] at hfrozen; cases hfrozen
  | callCommit _ hbefore | answerCommit _ _ _ hbefore | callReconcile _ _ hbefore
  | answerReconcile _ _ _ _ hbefore | finishReadyCommit _ _ _ _ hbefore
  | finishReadyReconcile _ _ _ _ _ hbefore => exact absurd (by rw [hbefore]; rfl) (hfree _)
  | release _ hbefore => exact absurd hbefore (hfree _)
  | abandon _ _ hbefore => exact absurd hbefore (hfree _)

/-- A caller that holds the guard after its own step finds the store frozen with an
    active call on its identity. -/
theorem Effect.own (h : Effect i s t) (hg : GuardInv s) {p : PendingCommit}
    (hi : (t.callers i).guard = some p) :
    ∃ p', t.state = .frozen p' true ∧ p'.identity = p.identity := by
  -- The steps inside a call keep both the guard and the state.
  have hkept : ∀ q, (s.callers i).guard = some q → q = p → t.state = s.state →
      ∃ p', t.state = .frozen p' true ∧ p'.identity = p.identity := by
    rintro q hq rfl hstate
    obtain ⟨p', hp', hid⟩ := hg.held i q hq
    exact ⟨p', by rw [hstate, hp'], hid⟩
  cases h with
  | quiet _ hafter => rw [hafter] at hi; cases hi
  | freeze _ _ hafter => rw [hafter] at hi; cases hi
  | beginCommit pending _ hafter _ hstate | beginReconcile _ pending _ hafter _ hstate =>
    rw [hafter] at hi
    exact ⟨pending, hstate, congrArg PendingCommit.identity (Option.some.inj hi)⟩
  | callCommit pending hbefore hafter hstate | answerCommit pending _ _ hbefore hafter hstate
  | callReconcile _ pending hbefore hafter hstate
  | answerReconcile _ pending _ _ hbefore hafter hstate =>
    rw [hafter] at hi
    exact hkept pending (by rw [hbefore]; rfl) (Option.some.inj hi) hstate
  | finishReadyCommit _ _ _ _ _ _ hafter | finishReadyReconcile _ _ _ _ _ _ _ hafter
  | release _ _ hafter => rw [hafter] at hi; cases hi
  | abandon pending _ hbefore hafter hstate =>
    rw [hafter] at hi
    exact hkept pending hbefore (Option.some.inj hi) hstate

theorem GuardInv.of_opened (h : Opened s) : GuardInv s := by
  constructor
  · intro i j p q hi
    rw [h.1 i] at hi
    cases hi
  · intro i p hi
    rw [h.1 i] at hi
    cases hi

/-! ## Steps -/

section Steps

variable [DecidableEq ι]

@[simp] theorem setCaller_state (s : Metadata ι) (i : ι) (c : Caller) :
    (s.setCaller i c).state = s.state := rfl

@[simp] theorem setCaller_trace (s : Metadata ι) (i : ι) (c : Caller) :
    (s.setCaller i c).trace = s.trace := rfl

@[simp] theorem setCaller_self (s : Metadata ι) (i : ι) (c : Caller) :
    (s.setCaller i c).callers i = c := by
  simp [setCaller]

theorem setCaller_other (s : Metadata ι) {i j : ι} (c : Caller) (h : j ≠ i) :
    (s.setCaller i c).callers j = s.callers j := by
  simp [setCaller, h]

theorem finishFrozen_eq_ok {state state' : CommitState} (h : finishFrozen state = .ok state') :
    state' = dropProviderCall state := by
  cases state with
  | ready => cases h
  | frozen pending active => cases h; rfl

theorem guard_of_isIdle {c : Caller} (h : c.isIdle = true) : c.guard = none := by
  cases c <;> first | rfl | cases h

variable {s : Metadata ι}

/-- A step leaves every other caller alone. -/
theorem Step.other {i j : ι} {t : Metadata ι} (h : Step i s t) (hij : j ≠ i) :
    t.callers j = s.callers j := by
  cases h <;> first | rfl | exact setCaller_other s _ hij

/-- Every step has one of the effects. -/
theorem Step.effect {i : ι} {t : Metadata ι} (h : Step i s t) : Effect i s t := by
  cases h with
  | startCommit identity hidle =>
    exact .quiet (guard_of_isIdle hidle) (by simp [Caller.guard]) rfl rfl
  | startReconcile hidle => exact .quiet (guard_of_isIdle hidle) (by simp [Caller.guard]) rfl rfl
  | startReconcileIfFrozen hidle =>
    exact .quiet (guard_of_isIdle hidle) (by simp [Caller.guard]) rfl rfl
  | freezeJournaled identity hidle hfreeze =>
    exact .freeze identity (guard_of_isIdle hidle) (by simp [setCaller, Caller.guard]) hfreeze rfl
  | freezeJournaledRefused identity hidle hfreeze =>
    exact .quiet (guard_of_isIdle hidle) (by simp [Caller.guard]) rfl rfl
  | @beginCommit identity state' hpc hbegin =>
    cases hs : s.state with
    | frozen p active => rw [hs] at hbegin; cases hbegin
    | ready =>
      rw [hs] at hbegin
      cases hbegin
      exact .beginCommit ⟨identity.transaction, identity.operationDigest, false⟩
        (by simp [hpc, Caller.guard]) (by simp [setCaller]) hs rfl rfl rfl
  | retryCommit hpc hbegin =>
    exact .quiet (by simp [hpc, Caller.guard]) (by simp [hpc, Caller.guard]) rfl rfl
  | refuseCommit hpc hbegin =>
    exact .quiet (by simp [hpc, Caller.guard]) (by simp [Caller.guard]) rfl rfl
  | callCommit hpc => exact .callCommit _ hpc (by simp [setCaller]) rfl rfl
  | answerCommit answer hpc => exact .answerCommit _ _ answer hpc (by simp [setCaller]) rfl rfl
  | checkReady hpc hstate | checkFrozen hpc hstate =>
    exact .quiet (by simp [hpc, Caller.guard]) (by simp [Caller.guard]) rfl rfl
  | @beginReconcile ifFrozen pending state' hpc hbegin =>
    cases hs : s.state with
    | ready => rw [hs] at hbegin; cases hbegin
    | frozen p active =>
      rw [hs] at hbegin
      simp only [Radiata.beginReconcile] at hbegin
      split at hbegin
      · cases hbegin
      · rename_i hactive
        cases hbegin
        rw [Bool.not_eq_true] at hactive
        exact .beginReconcile ifFrozen pending (by simp [hpc, Caller.guard]) (by simp [setCaller])
          (by rw [hs, hactive]) rfl rfl
  | retryReconcile hpc hbegin =>
    exact .quiet (by simp [hpc, Caller.guard]) (by simp [hpc, Caller.guard]) rfl rfl
  | refuseReconcile hpc hbegin =>
    exact .quiet (by simp [hpc, Caller.guard]) (by simp [Caller.guard]) rfl rfl
  | callReconcile hpc => exact .callReconcile _ _ hpc (by simp [setCaller]) rfl rfl
  | answerReconcile answer hpc =>
    exact .answerReconcile _ _ _ answer hpc (by simp [setCaller]) rfl rfl
  | finishReadyCommit hpc hdisp =>
    exact .finishReadyCommit _ _ _ _ hpc hdisp (by simp [setCaller, Caller.guard]) rfl rfl
  | finishReadyReconcile hpc hdisp =>
    exact .finishReadyReconcile _ _ _ _ _ hpc hdisp (by simp [setCaller, Caller.guard]) rfl rfl
  | finishFrozenCommit hpc hdisp hfinish | finishFrozenReconcile hpc hdisp hfinish =>
    exact .release _ (by simp [hpc, Caller.guard]; rfl) (by simp [setCaller, Caller.guard])
      (finishFrozen_eq_ok hfinish) rfl
  | finishFrozenCommitFailed hpc hdisp hfinish | finishFrozenReconcileFailed hpc hdisp hfinish
  | bailCommit hpc hdisp | bailReconcile hpc hdisp =>
    exact .abandon _ _ (by simp [hpc, Caller.guard]) (setCaller_self ..) rfl rfl
  | cancel hpc => exact .quiet hpc (by simp [Caller.guard]) rfl rfl
  | cancelCall hpc => exact .abandon _ _ hpc (setCaller_self ..) rfl rfl
  | dropGuard hpc =>
    exact .release _ (by simp [hpc, Caller.guard]; rfl) (by simp [setCaller, Caller.guard]) rfl rfl

theorem GuardInv.step {i : ι} {t : Metadata ι} (hg : GuardInv s) (h : Step i s t) :
    GuardInv t := by
  have heffect := h.effect
  constructor
  · intro a b p q ha hb
    by_cases hai : a = i <;> by_cases hbi : b = i
    · rw [hai, hbi]
    · rw [h.other hbi] at hb
      rw [hai, (heffect.frame hg hbi hb).1] at ha
      cases ha
    · rw [h.other hai] at ha
      rw [hbi, (heffect.frame hg hai ha).1] at hb
      cases hb
    · rw [h.other hai] at ha
      rw [h.other hbi] at hb
      exact hg.exclusive a b p q ha hb
  · intro a p ha
    by_cases hai : a = i
    · subst hai
      exact heffect.own hg ha
    · rw [h.other hai] at ha
      obtain ⟨r, hr, hid⟩ := hg.held a p ha
      obtain ⟨-, ⟨hstate, -⟩ | ⟨identity, hfreeze, -⟩⟩ := heffect.frame hg hai ha
      · exact ⟨r, by rw [hstate, hr], hid⟩
      · rw [hr] at hfreeze
        exact ⟨_, (freezeJournaled_frozen_eq_ok hfreeze).2, hid⟩

theorem GuardInv.of_reachable (hs : (system ι).Reachable s) : GuardInv s := by
  refine hs.invariant (P := GuardInv) (fun _ => GuardInv.of_opened) ?_
  rintro s t - hg ⟨i, hstep⟩
  exact hg.step hstep

end Steps

/-! ## The trace -/

/-- Every recorded commit call is decided, except those `pending` allows. -/
def CallsDecided (trace : List Event) (pending : Nat → ReceiptIdentity → Prop) : Prop :=
  ∀ call identity, .commitCalled call identity ∈ trace →
    Decided trace call identity ∨ pending call identity

/-- Every recorded commit call was made with all earlier calls decided. -/
def Serial (trace : List Event) : Prop :=
  ∀ newer call identity older, trace = newer ++ .commitCalled call identity :: older →
    CallsDecided older (fun _ _ => False)

variable {trace : List Event}

theorem CallsDecided.mono {P Q : Nat → ReceiptIdentity → Prop} (h : CallsDecided trace P)
    (hPQ : ∀ call identity, P call identity → Q call identity) :
    CallsDecided trace Q := by
  intro call identity hmem
  exact (h call identity hmem).imp_right (hPQ call identity)

/-- An event that is not a commit call keeps the calls decided. -/
theorem CallsDecided.cons {P : Nat → ReceiptIdentity → Prop} {e : Event}
    (h : CallsDecided trace P) (he : ∀ call identity, e ≠ .commitCalled call identity) :
    CallsDecided (e :: trace) P := by
  intro call identity hmem
  rcases List.mem_cons.mp hmem with heq | hold
  · exact absurd heq.symm (he call identity)
  · exact (h call identity hold).imp_left (Decided.cons e)

/-- A new commit call is the one call that may be undecided. -/
theorem CallsDecided.call {n : Nat} {asked : ReceiptIdentity}
    (h : CallsDecided trace (fun _ _ => False)) :
    CallsDecided (.commitCalled n asked :: trace)
      (fun call identity => call = n ∧ identity = asked) := by
  intro call identity hmem
  rcases List.mem_cons.mp hmem with heq | hold
  · cases heq
    exact Or.inr ⟨rfl, rfl⟩
  · exact Or.inl ((h call identity hold).resolve_right id |>.cons _)

theorem Serial.cons {e : Event} (h : Serial trace)
    (he : ∀ call identity, e = .commitCalled call identity →
      CallsDecided trace (fun _ _ => False)) :
    Serial (e :: trace) := by
  intro newer call identity older htrace
  cases newer with
  | nil =>
    cases htrace
    exact he call identity rfl
  | cons x newer =>
    rw [List.cons_append, List.cons.injEq] at htrace
    exact h newer call identity older htrace.2

/-- What the trace owes the shared state. -/
def StateInv (trace : List Event) : CommitState → Prop
  | .ready => CallsDecided trace (fun _ _ => False)
  | .frozen pending _ => CallsDecided trace (fun _ identity => identity = pending.identity)

/-- What the trace owes a caller inside its provider call. -/
def CallerInv (trace : List Event) : Caller → Prop
  | .commitReady _ => CallsDecided trace (fun _ _ => False)
  | .committing pending call =>
    .commitCalled call pending.identity ∈ trace ∧
      CallsDecided trace (fun c identity => c = call ∧ identity = pending.identity)
  | .committed pending call answer =>
    Newer trace (.commitAnswered call pending.identity answer)
        (.commitCalled call pending.identity) ∧
      .commitAnswered call pending.identity answer ∈ sinceFroze trace ∧
      CallsDecided trace (fun c identity => c = call ∧ identity = pending.identity)
  | .reconciled _ pending call answer =>
    .reconcileAnswered call pending.identity answer ∈ sinceFroze trace ∧
      ∀ n, .commitCalled n pending.identity ∈ trace →
        Newer trace (.reconcileAnswered call pending.identity answer)
          (.commitCalled n pending.identity)
  | _ => True

structure TraceInv (s : Metadata ι) : Prop where
  serial : Serial s.trace
  state : StateInv s.trace s.state
  caller : ∀ i, CallerInv s.trace (s.callers i)

theorem callerInv_of_guard_none {c : Caller} (h : c.guard = none) :
    CallerInv trace c := by
  cases c <;> trivial

theorem CallerInv.cons_frozeJournaled {c : Caller} (identity : ReceiptIdentity)
    (h : CallerInv trace c) :
    CallerInv (.frozeJournaled identity :: trace) c := by
  cases c with
  | commitReady pending => exact CallsDecided.cons h (by simp)
  | committing pending call => exact ⟨List.mem_cons_of_mem _ h.1, h.2.cons (by simp)⟩
  | committed pending call answer =>
    exact ⟨h.1.cons _, mem_sinceFroze_cons rfl h.2.1, h.2.2.cons (by simp)⟩
  | reconciled ifFrozen pending call answer =>
    refine ⟨mem_sinceFroze_cons rfl h.1, ?_⟩
    intro n hn
    rcases List.mem_cons.mp hn with heq | hold
    · cases heq
    · exact (h.2 n hold).cons _
  | _ => trivial

/-- A caller's own step gives it what the trace owes it. -/
theorem Effect.callerInv (h : Effect i s t) (hi : TraceInv s) :
    CallerInv t.trace (t.callers i) := by
  have hown := hi.caller i
  cases h with
  | quiet _ hafter => exact callerInv_of_guard_none hafter
  | freeze _ _ hafter => exact callerInv_of_guard_none hafter
  | beginCommit pending _ hafter hready _ _ htrace =>
    have hstate := hi.state
    rw [hready] at hstate
    rw [hafter, htrace]
    exact CallsDecided.cons hstate (by simp)
  | callCommit pending hbefore hafter _ htrace =>
    rw [hbefore] at hown
    rw [hafter, htrace]
    exact ⟨List.mem_cons_self .., CallsDecided.call hown⟩
  | answerCommit pending call answer hbefore hafter _ htrace =>
    rw [hbefore] at hown
    rw [hafter, htrace]
    exact ⟨Newer.of_mem hown.1, head_mem_sinceFroze rfl, hown.2.cons (by simp)⟩
  | beginReconcile _ _ _ hafter => rw [hafter]; trivial
  | callReconcile _ _ _ hafter => rw [hafter]; trivial
  | answerReconcile _ pending call answer _ hafter _ htrace =>
    rw [hafter, htrace]
    refine ⟨head_mem_sinceFroze rfl, ?_⟩
    intro n hn
    exact Newer.of_mem ((List.mem_cons.mp hn).resolve_left (by simp))
  | finishReadyCommit _ _ _ _ _ _ hafter | finishReadyReconcile _ _ _ _ _ _ _ hafter
  | release _ _ hafter => exact callerInv_of_guard_none hafter
  | abandon _ _ _ hafter => rw [hafter]; trivial

theorem StateInv.frozen_cons {pending' : PendingCommit} {active active' : Bool} {e : Event}
    (h : StateInv trace (.frozen pending active)) (hid : pending'.identity = pending.identity)
    (he : ∀ call identity, e = .commitCalled call identity → identity = pending.identity) :
    StateInv (e :: trace) (.frozen pending' active') := by
  intro call identity hmem
  rw [hid]
  rcases List.mem_cons.mp hmem with heq | hold
  · exact Or.inr (he call identity heq.symm)
  · exact (h call identity hold).imp_left (Decided.cons e)

/-- A definite answer to the pending commit call decides every call. -/
theorem StateInv.ready_of_committed {call : Nat} {answer : Result CommitOutcome}
    (h : CallerInv trace (.committed pending call answer))
    (hdef : CommitDefinite pending.identity answer) : StateInv trace .ready := by
  intro c identity hmem
  rcases h.2.2 c identity hmem with hdec | ⟨rfl, rfl⟩
  · exact Or.inl hdec
  · obtain ⟨newer, older, htrace, hanswer⟩ := h.1
    exact Or.inl ⟨newer, older, htrace, Or.inl ⟨answer, hanswer, hdef⟩⟩

/-- A definite answer to a reconciliation of the pending identity decides every call. -/
theorem StateInv.ready_of_reconciled {active ifFrozen : Bool} {call : Nat}
    {answer : Result ReconcileOutcome} (hstate : StateInv trace (.frozen pending active))
    {copy : PendingCommit} (hid : pending.identity = copy.identity)
    (h : CallerInv trace (.reconciled ifFrozen copy call answer))
    (hdef : ReconcileDefinite copy.identity answer) : StateInv trace .ready := by
  intro c identity hmem
  rcases hstate c identity hmem with hdec | rfl
  · exact Or.inl hdec
  · rw [hid] at hmem ⊢
    obtain ⟨newer, older, htrace, hanswer⟩ := h.2 c hmem
    exact Or.inl ⟨newer, older, htrace, Or.inr ⟨call, answer, hanswer, hdef⟩⟩

theorem StateInv.drop {state : CommitState} (h : StateInv trace state) :
    StateInv trace (dropProviderCall state) := by
  cases state with
  | ready => exact h
  | frozen pending active => exact h

theorem Effect.stateInv (h : Effect i s t) (hg : GuardInv s) (hi : TraceInv s) :
    StateInv t.trace t.state := by
  have hstate := hi.state
  have hown := hi.caller i
  -- A step inside a call finds the store frozen on the identity of the call.
  have hheld : ∀ pending, (s.callers i).guard = some pending →
      ∃ p, s.state = .frozen p true ∧ p.identity = pending.identity := hg.held i
  cases h with
  | quiet _ _ hsame htrace => rw [hsame, htrace]; exact hstate
  | freeze identity _ _ hfreeze htrace =>
    rw [htrace]
    cases hs : s.state with
    | ready =>
      rw [hs] at hstate hfreeze
      rw [← Except.ok.inj hfreeze]
      exact ((CallsDecided.cons hstate (by simp)).cons (by simp)).mono (fun _ _ => False.elim)
    | frozen p active =>
      rw [hs] at hstate hfreeze
      rw [(freezeJournaled_frozen_eq_ok hfreeze).2]
      exact StateInv.frozen_cons hstate rfl (by simp)
  | beginCommit pending _ _ hready hfrozen _ htrace =>
    rw [hready] at hstate
    rw [hfrozen, htrace]
    exact (CallsDecided.cons hstate (by simp)).mono (fun _ _ => False.elim)
  | callCommit pending hbefore _ hsame htrace =>
    obtain ⟨p, hp, hid⟩ := hheld pending (by rw [hbefore]; rfl)
    rw [hp] at hstate
    rw [hsame, htrace, hp]
    refine StateInv.frozen_cons hstate rfl ?_
    rintro call identity heq
    cases heq
    exact hid.symm
  | answerCommit pending call answer hbefore _ hsame htrace =>
    obtain ⟨p, hp, -⟩ := hheld pending (by rw [hbefore]; rfl)
    rw [hp] at hstate
    rw [hsame, htrace, hp]
    exact StateInv.frozen_cons hstate rfl (by simp)
  | beginReconcile _ pending _ _ hfrozen hactive htrace =>
    rw [hfrozen] at hstate
    rw [hactive, htrace]
    exact hstate
  | callReconcile _ pending hbefore _ hsame htrace
  | answerReconcile _ pending call answer hbefore _ hsame htrace =>
    obtain ⟨p, hp, -⟩ := hheld pending (by rw [hbefore]; rfl)
    rw [hp] at hstate
    rw [hsame, htrace, hp]
    exact StateInv.frozen_cons hstate rfl (by simp)
  | finishReadyCommit pending call answer _ hbefore hdisp _ hready htrace =>
    rw [hbefore] at hown
    rw [hready, htrace]
    exact StateInv.ready_of_committed hown (commitDefinite_of_ready hdisp)
  | finishReadyReconcile _ pending call answer _ hbefore hdisp _ hready htrace =>
    obtain ⟨p, hp, hid⟩ := hheld pending (by rw [hbefore]; rfl)
    rw [hp] at hstate
    rw [hbefore] at hown
    rw [hready, htrace]
    exact StateInv.ready_of_reconciled hstate hid hown (reconcileDefinite_of_ready hdisp)
  | release _ _ _ hdrop htrace => rw [hdrop, htrace]; exact hstate.drop
  | abandon _ _ _ _ hsame htrace => rw [hsame, htrace]; exact hstate

theorem Effect.serial (h : Effect i s t) (hi : TraceInv s) :
    Serial t.trace := by
  have hserial := hi.serial
  have hown := hi.caller i
  cases h with
  | freeze identity _ _ _ htrace =>
    rw [htrace]
    cases s.state with
    | ready => exact (hserial.cons (by simp)).cons (by simp)
    | frozen p active => exact hserial.cons (by simp)
  | callCommit pending hbefore _ _ htrace =>
    rw [hbefore] at hown
    rw [htrace]
    exact hserial.cons (fun _ _ _ => hown)
  | beginCommit _ _ _ _ _ _ htrace | answerCommit _ _ _ _ _ _ htrace
  | callReconcile _ _ _ _ _ htrace | answerReconcile _ _ _ _ _ _ _ htrace =>
    rw [htrace]; exact hserial.cons (by simp)
  | quiet _ _ _ htrace | beginReconcile _ _ _ _ _ _ htrace
  | finishReadyCommit _ _ _ _ _ _ _ _ htrace | finishReadyReconcile _ _ _ _ _ _ _ _ _ htrace
  | release _ _ _ _ htrace | abandon _ _ _ _ _ htrace => rw [htrace]; exact hserial

theorem TraceInv.of_opened (h : Opened s) : TraceInv s := by
  obtain ⟨hidle, hstate⟩ := h
  have hnone : CallsDecided s.trace (fun _ _ => False) := by
    intro call identity hmem
    rcases hstate with ⟨-, htrace⟩ | ⟨pending, -, htrace⟩ <;> simp [htrace] at hmem
  refine ⟨?_, ?_, ?_⟩
  · intro newer call identity older htrace
    have hmem : Event.commitCalled call identity ∈ s.trace := by simp [htrace]
    rcases hstate with ⟨-, htrace⟩ | ⟨pending, -, htrace⟩ <;> simp [htrace] at hmem
  · cases hs : s.state with
    | ready => exact hnone
    | frozen p active => exact hnone.mono (fun _ _ => False.elim)
  · intro i
    rw [hidle i]
    trivial

/-! ## Leaving a freeze -/

/-- The store is frozen on `identity`. -/
def FrozenOn (identity : ReceiptIdentity) (s : Metadata ι) : Prop :=
  ∃ pending active, s.state = .frozen pending active ∧ pending.identity = identity

/-- The caller has an answer that takes the store back to `Ready`. -/
def FinishesReady : Caller → Prop
  | .committed pending _ answer => ∃ result, commitDisposition pending answer = .ready result
  | .reconciled _ pending _ answer => ∃ result, reconcileDisposition pending answer = .ready result
  | _ => False

/-- The step from `s` to `t` releases the store on the strength of an answer that
    settles `identity` and arrived during this freeze. -/
def Released (identity : ReceiptIdentity) (s t : Metadata ι) : Prop :=
  t.state = .ready ∧ ∃ e ∈ sinceFroze s.trace, e.Resolves identity

/-- A step from a frozen store keeps its identity, or its caller finishes. -/
theorem Effect.frozenOn_or_finishes (h : Effect i s t) (hs : FrozenOn identity s) :
    FrozenOn identity t ∨ t.state = .ready ∧ FinishesReady (s.callers i) := by
  obtain ⟨p, active, hp, hid⟩ := hs
  have hkept : t.state = s.state → FrozenOn identity t ∨
      t.state = .ready ∧ FinishesReady (s.callers i) := by
    intro hsame
    exact .inl ⟨p, active, by rw [hsame, hp], hid⟩
  cases h with
  | quiet _ _ hsame => exact hkept hsame
  | freeze identity' _ _ hfreeze =>
    rw [hp] at hfreeze
    exact .inl ⟨_, active, (freezeJournaled_frozen_eq_ok hfreeze).2, hid⟩
  | beginCommit _ _ _ hready => rw [hp] at hready; cases hready
  | callCommit _ _ _ hsame => exact hkept hsame
  | answerCommit _ _ _ _ _ hsame => exact hkept hsame
  | beginReconcile _ pending _ _ hfrozen hactive =>
    rw [hp] at hfrozen
    cases hfrozen
    exact .inl ⟨p, true, hactive, hid⟩
  | callReconcile _ _ _ _ hsame => exact hkept hsame
  | answerReconcile _ _ _ _ _ _ hsame => exact hkept hsame
  | finishReadyCommit _ _ _ result hbefore hdisp _ hready
  | finishReadyReconcile _ _ _ _ result hbefore hdisp _ hready =>
    rw [hbefore]
    exact .inr ⟨hready, result, hdisp⟩
  | release _ _ _ hdrop => exact .inl ⟨p, false, by rw [hdrop, hp]; rfl, hid⟩
  | abandon _ _ _ _ hsame => exact hkept hsame

/-- A caller inside its call works for the identity the store is frozen on. -/
theorem GuardInv.identity_eq (hg : GuardInv s) (hs : FrozenOn identity s)
    (hguard : (s.callers i).guard = some pending) : pending.identity = identity := by
  obtain ⟨p, active, hp, hid⟩ := hs
  obtain ⟨p', hp', hid'⟩ := hg.held i pending hguard
  rw [hp] at hp'
  cases hp'
  rw [← hid', hid]

/-- A caller that finishes has a settling answer for the frozen identity. -/
theorem resolves_of_finishesReady (hg : GuardInv s) (hi : TraceInv s) (hs : FrozenOn identity s)
    (h : FinishesReady (s.callers i)) :
    ∃ e ∈ sinceFroze s.trace, e.Resolves identity := by
  have hown := hi.caller i
  cases hc : s.callers i with
  | committed pending call answer =>
    have hasked := hg.identity_eq hs (i := i) (by rw [hc]; rfl)
    rw [hc] at h hown
    obtain ⟨result, hdisp⟩ := h
    refine ⟨_, hown.2.1, hasked, ?_⟩
    rw [← hasked]
    exact commitDefinite_of_ready hdisp
  | reconciled ifFrozen pending call answer =>
    have hasked := hg.identity_eq hs (i := i) (by rw [hc]; rfl)
    rw [hc] at h hown
    obtain ⟨result, hdisp⟩ := h
    refine ⟨_, hown.1, hasked, ?_⟩
    rw [← hasked]
    exact reconcileDefinite_of_ready hdisp
  | _ => rw [hc] at h; cases h

/-! ## The results -/

section Runs

variable [DecidableEq ι]

theorem TraceInv.step {i : ι} {s t : Metadata ι} (hg : GuardInv s) (hi : TraceInv s)
    (h : Step i s t) : TraceInv t := by
  have heffect := h.effect
  refine ⟨heffect.serial hi, heffect.stateInv hg hi, ?_⟩
  intro j
  by_cases hji : j = i
  · subst hji
    exact heffect.callerInv hi
  · rw [h.other hji]
    cases hj : (s.callers j).guard with
    | none => exact callerInv_of_guard_none hj
    | some q =>
      obtain ⟨-, ⟨-, htrace⟩ | ⟨identity, -, htrace⟩⟩ := heffect.frame hg hji hj
      · rw [htrace]; exact hi.caller j
      · rw [htrace]; exact (hi.caller j).cons_frozeJournaled identity

theorem TraceInv.of_reachable {s : Metadata ι} (hs : (system ι).Reachable s) : TraceInv s := by
  refine hs.invariant (P := TraceInv) (fun _ => TraceInv.of_opened) ?_
  rintro s t hs hi ⟨i, hstep⟩
  exact hi.step (.of_reachable hs) hstep

/-- In every reachable state at most one provider call is in flight; every recorded
    commit call was submitted with all earlier submissions decided; and on every
    run from here a frozen store stays frozen on its identity until a step releases
    it on an answer that settles exactly that identity. -/
theorem commits_serialised {s : Metadata ι} (hs : (system ι).Reachable s) :
    (∀ i j, (s.callers i).inFlight = true → (s.callers j).inFlight = true → i = j) ∧
    (∀ newer call identity older, s.trace = newer ++ .commitCalled call identity :: older →
      ∀ earlier identity', .commitCalled earlier identity' ∈ older →
        Decided older earlier identity') ∧
    (∀ identity, FrozenOn identity s → ∀ t, (system ι).Path s t →
      FrozenOn identity t ∨
        ∃ u v, (system ι).Path s u ∧ FrozenOn identity u ∧ (system ι).next u v ∧
          Released identity u v ∧ (system ι).Path v t) := by
  refine ⟨?_, ?_, ?_⟩
  · have hguard : ∀ c : Caller, c.inFlight = true → ∃ p, c.guard = some p := by
      intro c hc
      cases c <;> first | exact ⟨_, rfl⟩ | cases hc
    intro i j hi hj
    obtain ⟨p, hp⟩ := hguard _ hi
    obtain ⟨q, hq⟩ := hguard _ hj
    exact (GuardInv.of_reachable hs).exclusive i j p q hp hq
  · intro newer call identity older htrace earlier identity' hmem
    exact ((TraceInv.of_reachable hs).serial newer call identity older htrace
      earlier identity' hmem).resolve_right id
  · intro identity hfrozen t hpath
    refine hs.until_exit ?_ hfrozen hpath
    rintro s t hs hfrozen ⟨i, hstep⟩
    rcases hstep.effect.frozenOn_or_finishes hfrozen with hkept | ⟨hready, hfinish⟩
    · exact .inl hkept
    · exact .inr ⟨hready,
        resolves_of_finishesReady (.of_reachable hs) (.of_reachable hs) hfrozen hfinish⟩

end Runs

/-- Two callers compete: the first one's commit is answered, and the second one, refused in the
    meantime, submits its own. -/
theorem commits_serialised_submitted :
    let first : ReceiptIdentity := default
    let second : ReceiptIdentity := ⟨default, .fill 1⟩
    let older := [.froze second, .commitAnswered 1 first (.ok .aborted), .commitCalled 1 first,
      .froze first]
    ∃ s : Metadata Bool, (s.callers true).inFlight = true ∧ s.trace = .commitCalled 4 second :: older ∧
      Decided older 1 first ∧
      ∀ t, (system Bool).Path s t → FrozenOn second t ∨
        ∃ u v, (system Bool).Path s u ∧ FrozenOn second u ∧ (system Bool).next u v ∧
          Released second u v ∧ (system Bool).Path v t := by
  intro first second older
  have hopened : (system Bool).Reachable ⟨.ready, fun _ => .idle, []⟩ :=
    .init ⟨fun _ => rfl, .inl ⟨rfl, rfl⟩⟩
  have hfirst := hopened.step ⟨false, .startCommit first rfl⟩
  have hsecond := hfirst.step ⟨true, .startCommit second rfl⟩
  have hbegun := hsecond.step ⟨false, .beginCommit rfl rfl⟩
  have hretried := hbegun.step ⟨true, .retryCommit rfl rfl⟩
  have hcalled := hretried.step ⟨false, .callCommit rfl⟩
  have hanswered := hcalled.step ⟨false, .answerCommit (.ok .aborted) rfl⟩
  have hfinished := hanswered.step ⟨false, .finishReadyCommit rfl rfl⟩
  have hagain := hfinished.step ⟨true, .beginCommit rfl rfl⟩
  have hsubmitted := hagain.step ⟨true, .callCommit rfl⟩
  obtain ⟨-, hserial, hkept⟩ := commits_serialised hsubmitted
  exact ⟨_, rfl, rfl, hserial [] _ _ _ rfl 1 first (.tail _ (.tail _ (.head _))),
    hkept second ⟨_, _, rfl, rfl⟩⟩

end Metadata

end Radiata
