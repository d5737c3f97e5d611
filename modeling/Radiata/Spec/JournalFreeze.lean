import Radiata.Spec.MetadataInvariant

/-!
# Journal-proven freezes resolve to a commit

`freeze_journaled` marks the pending identity as proven by a durable journal, so
that a reconciliation answered `Aborted` fails closed. `reconcile` decides on the
copy of the pending commit that `begin_reconcile` took, and `commit` never looks
at the flag. A journal freeze that raises the flag while such a call is active is
therefore missed by it: `staleRelease_step` is a run in which the store returns
to `Ready` on `Aborted`.

In the runs where no journal freeze raises the flag under an active call, the
copies agree with the state (`FlagInv`) and a journal-proven freeze ends only on
`Committed`.

## Key results

- `Metadata.FlagInv.of_reachable`: copies of the pending commit are exact
- `Metadata.journalFrozen_until_committed`: the freeze ends only on `Committed`
-/

namespace Radiata

/-- A recorded event of this freeze is the newest event or was one before it. -/
theorem mem_sinceFroze_of_cons {trace : List Event} {e x : Event}
    (h : e ∈ sinceFroze (x :: trace)) : e = x ∨ e ∈ sinceFroze trace := by
  simp only [sinceFroze, List.takeWhile_cons] at h
  split at h
  · exact List.mem_cons.mp h
  · cases h

/-- A freeze begins with no events. -/
theorem sinceFroze_froze (trace : List Event) (identity : ReceiptIdentity) :
    sinceFroze (.froze identity :: trace) = [] := rfl

/-- The copy a commit works with. -/
def Caller.commitGuard : Caller → Option PendingCommit
  | commitReady pending => some pending
  | committing pending _ => some pending
  | committed pending _ _ => some pending
  | _ => none

namespace Metadata

variable {ι : Type}

/-- The store is frozen on `identity` and `freeze_journaled(identity)` has returned
    `Ok` during this freeze. -/
def JournalFrozen (identity : ReceiptIdentity) (s : Metadata ι) : Prop :=
  FrozenOn identity s ∧ .frozeJournaled identity ∈ sinceFroze s.trace

/-- The caller has been answered `Committed` with exactly `identity`. -/
def AnsweredCommitted (identity : ReceiptIdentity) : Caller → Prop
  | .committed _ _ (.ok (.committed receipt)) =>
    receipt.transaction = identity.transaction ∧ receipt.operationDigest = identity.operationDigest
  | .reconciled _ _ _ (.ok (.committed receipt)) =>
    receipt.transaction = identity.transaction ∧ receipt.operationDigest = identity.operationDigest
  | _ => False

/-- The caller has been answered `Aborted`. -/
def AnsweredAborted : Caller → Prop
  | .committed _ _ (.ok .aborted) => True
  | .reconciled _ _ _ (.ok .aborted) => True
  | _ => False

variable {identity : ReceiptIdentity}

theorem not_answeredCommitted_of_aborted {c : Caller} (h : AnsweredAborted c) :
    ¬ AnsweredCommitted identity c := by
  intro hcommitted
  unfold AnsweredAborted at h
  split at h
  · exact hcommitted
  · exact hcommitted
  · exact h

/-- The reports of a refused abort. -/
def ReportsCorrupt (c : Caller) : Prop :=
  c = .done (.reconcile (.error (.provider .storageCorrupt .storageReconcile))) ∨
    c = .done (.reconcileIfFrozen (.error (.provider .storageCorrupt .storageReconcile)))

/-- A journal freeze that finds a call active finds the identity proven already. -/
def RaisesIdle (s t : Metadata ι) : Prop :=
  ∀ identity pending, t.trace = .frozeJournaled identity :: s.trace →
    s.state = .frozen pending true → pending.journalProven = true

/-- Copies of the pending commit are exact, the flag is up once a journal freeze is
    recorded, and commits run with the flag down. -/
structure FlagInv (s : Metadata ι) : Prop where
  proven : ∀ pending active identity, s.state = .frozen pending active →
    .frozeJournaled identity ∈ sinceFroze s.trace → pending.journalProven = true
  copy : ∀ i pending, (s.callers i).guard = some pending → s.state = .frozen pending true
  commit : ∀ i pending, (s.callers i).commitGuard = some pending → pending.journalProven = false

variable {pending : PendingCommit}

theorem guard_of_commitGuard {c : Caller} (h : c.commitGuard = some pending) :
    c.guard = some pending := by
  cases c <;> first | exact h | cases h

variable {s : Metadata ι}

theorem FlagInv.of_opened (h : Opened s) : FlagInv s := by
  obtain ⟨hidle, hstate⟩ := h
  refine ⟨?_, ?_, ?_⟩
  · intro pending active identity hfrozen hmem
    rcases hstate with ⟨hready, -⟩ | ⟨p, -, htrace⟩
    · rw [hready] at hfrozen
      cases hfrozen
    · rw [htrace, sinceFroze_froze] at hmem
      cases hmem
  · intro i pending hguard
    rw [hidle i] at hguard
    cases hguard
  · intro i pending hguard
    rw [hidle i] at hguard
    cases hguard

variable {t : Metadata ι}

theorem Effect.proven {i : ι} (h : Effect i s t) (hi : FlagInv s) {active : Bool}
    (hstate : t.state = .frozen pending active)
    (hmem : .frozeJournaled identity ∈ sinceFroze t.trace) : pending.journalProven = true := by
  -- A step that keeps the state and records another event keeps the flag.
  have hkept : ∀ e, t.state = s.state → t.trace = e :: s.trace → e ≠ .frozeJournaled identity →
      pending.journalProven = true := by
    intro e hsame htrace he
    rw [htrace] at hmem
    rw [hsame] at hstate
    exact hi.proven _ _ identity hstate
      ((mem_sinceFroze_of_cons hmem).resolve_left (fun heq => he heq.symm))
  cases h with
  | quiet _ _ hsame htrace =>
    rw [hsame] at hstate
    rw [htrace] at hmem
    exact hi.proven _ _ identity hstate hmem
  | freeze _ _ _ hfreeze htrace =>
    cases hs : s.state with
    | ready =>
      rw [hs, hstate] at hfreeze
      cases hfreeze
      rfl
    | frozen p a =>
      rw [hs, hstate] at hfreeze
      have hraised := (freezeJournaled_frozen_eq_ok hfreeze).2
      cases hraised
      rfl
  | beginCommit _ _ _ _ _ _ htrace =>
    rw [htrace, sinceFroze_froze] at hmem
    cases hmem
  | callCommit _ _ _ hsame htrace => exact hkept _ hsame htrace (by simp)
  | answerCommit _ _ _ _ _ hsame htrace => exact hkept _ hsame htrace (by simp)
  | beginReconcile _ p _ _ hfrozen hactive htrace =>
    rw [hactive] at hstate
    rw [htrace] at hmem
    cases hstate
    exact hi.proven _ _ identity hfrozen hmem
  | callReconcile _ _ _ _ hsame htrace => exact hkept _ hsame htrace (by simp)
  | answerReconcile _ _ _ _ _ _ hsame htrace => exact hkept _ hsame htrace (by simp)
  | finishReadyCommit _ _ _ _ _ _ _ hready => rw [hready] at hstate; cases hstate
  | finishReadyReconcile _ _ _ _ _ _ _ _ hready => rw [hready] at hstate; cases hstate
  | release p hbefore _ hdrop htrace =>
    rw [htrace] at hmem
    rw [hdrop, hi.copy i p hbefore] at hstate
    cases hstate
    exact hi.proven _ _ identity (hi.copy i pending hbefore) hmem
  | abandon _ _ _ _ hsame htrace =>
    rw [hsame] at hstate
    rw [htrace] at hmem
    exact hi.proven _ _ identity hstate hmem

/-- A caller's own step leaves it with an exact copy. -/
theorem Effect.copy {i : ι} (h : Effect i s t) (hi : FlagInv s) {p : PendingCommit}
    (hguard : (t.callers i).guard = some p) : t.state = .frozen p true := by
  have hkept : ∀ q, (s.callers i).guard = some q → q = p → t.state = s.state →
      t.state = .frozen p true := by
    rintro q hq rfl hsame
    rw [hsame, hi.copy i q hq]
  cases h with
  | quiet _ hafter => rw [hafter] at hguard; cases hguard
  | freeze _ _ hafter => rw [hafter] at hguard; cases hguard
  | beginCommit pending _ hafter _ hstate | beginReconcile _ pending _ hafter _ hstate =>
    rw [hafter] at hguard
    rw [hstate, Option.some.inj hguard]
  | callCommit pending hbefore hafter hsame | answerCommit pending _ _ hbefore hafter hsame
  | callReconcile _ pending hbefore hafter hsame
  | answerReconcile _ pending _ _ hbefore hafter hsame =>
    rw [hafter] at hguard
    exact hkept pending (by rw [hbefore]; rfl) (Option.some.inj hguard) hsame
  | finishReadyCommit _ _ _ _ _ _ hafter | finishReadyReconcile _ _ _ _ _ _ _ hafter
  | release _ _ hafter => rw [hafter] at hguard; cases hguard
  | abandon pending _ hbefore hafter hsame =>
    rw [hafter] at hguard
    exact hkept pending hbefore (Option.some.inj hguard) hsame

/-- A caller's own step leaves a commit with the flag down. -/
theorem Effect.commitFlag {i : ι} (h : Effect i s t) (hi : FlagInv s) {p : PendingCommit}
    (hguard : (t.callers i).commitGuard = some p) :
    p.journalProven = false := by
  have hnone : (t.callers i).guard ≠ none := by
    rw [guard_of_commitGuard hguard]
    simp
  cases h with
  | quiet _ hafter => exact absurd hafter hnone
  | freeze _ _ hafter => exact absurd hafter hnone
  | beginCommit pending _ hafter _ _ hproven =>
    rw [hafter] at hguard
    rw [← Option.some.inj hguard, hproven]
  | callCommit pending hbefore hafter | answerCommit pending _ _ hbefore hafter =>
    rw [hafter] at hguard
    exact hi.commit i p (by rw [hbefore]; exact hguard)
  | beginReconcile _ _ _ hafter | callReconcile _ _ _ hafter | answerReconcile _ _ _ _ _ hafter =>
    rw [hafter] at hguard; cases hguard
  | finishReadyCommit _ _ _ _ _ _ hafter | finishReadyReconcile _ _ _ _ _ _ _ hafter
  | release _ _ hafter => exact absurd hafter hnone
  | abandon _ _ _ hafter => rw [hafter] at hguard; cases hguard

/-! ## Leaving a journal-proven freeze -/

/-- With the flag up a reconciliation returns to `Ready` only on `Committed`. -/
theorem committed_of_reconcile_ready {answer result : Result ReconcileOutcome}
    (hproven : pending.journalProven = true)
    (h : reconcileDisposition pending answer = .ready result) :
    ∃ receipt, answer = .ok (.committed receipt) ∧
      receipt.transaction = pending.identity.transaction ∧
      receipt.operationDigest = pending.identity.operationDigest := by
  have hdef := reconcileDefinite_of_ready h
  rcases answer with e | outcome
  · cases hdef
  · cases outcome with
    | committed receipt => exact ⟨receipt, rfl, hdef⟩
    | aborted =>
      simp only [reconcileDisposition, hproven, ↓reduceIte] at h
      cases h
    | digestConflict => cases hdef
    | unknown => cases hdef

/-- A commit is never under way while the store is journal-frozen. -/
theorem JournalFrozen.commitGuard (hi : FlagInv s) (hs : JournalFrozen identity s) (i : ι) :
    (s.callers i).commitGuard = none := by
  cases hguard : (s.callers i).commitGuard with
  | none => rfl
  | some p =>
    have hup := hi.proven p true identity (hi.copy i p (guard_of_commitGuard hguard)) hs.2
    rw [hi.commit i p hguard] at hup
    cases hup

/-- While the store is frozen, recorded events of the freeze stay recorded. -/
theorem Effect.mem_sinceFroze {i : ι} (h : Effect i s t) (hs : FrozenOn identity s) {e : Event}
    (he : e ∈ sinceFroze s.trace) :
    e ∈ sinceFroze t.trace := by
  obtain ⟨p, active, hp, -⟩ := hs
  cases h with
  | freeze _ _ _ _ htrace => rw [htrace, hp]; exact mem_sinceFroze_cons rfl he
  | beginCommit _ _ _ hready => rw [hp] at hready; cases hready
  | callCommit _ _ _ _ htrace | answerCommit _ _ _ _ _ _ htrace | callReconcile _ _ _ _ _ htrace
  | answerReconcile _ _ _ _ _ _ _ htrace => rw [htrace]; exact mem_sinceFroze_cons rfl he
  | quiet _ _ _ htrace | beginReconcile _ _ _ _ _ _ htrace
  | finishReadyCommit _ _ _ _ _ _ _ _ htrace | finishReadyReconcile _ _ _ _ _ _ _ _ _ htrace
  | release _ _ _ _ htrace | abandon _ _ _ _ _ htrace => rw [htrace]; exact he

/-- A caller that finishes a journal-proven freeze was answered `Committed`. -/
theorem JournalFrozen.answeredCommitted (hg : GuardInv s) (hi : FlagInv s)
    (hs : JournalFrozen identity s) {i : ι} (h : FinishesReady (s.callers i)) :
    AnsweredCommitted identity (s.callers i) := by
  have hcommit := hs.commitGuard hi i
  cases hc : s.callers i with
  | committed pending call answer => rw [hc] at hcommit; cases hcommit
  | reconciled ifFrozen pending call answer =>
    have hguard : (s.callers i).guard = some pending := by rw [hc]; rfl
    have hup := hi.proven pending true identity (hi.copy i pending hguard) hs.2
    have hasked := hg.identity_eq hs.1 hguard
    rw [hc] at h
    obtain ⟨result, hdisp⟩ := h
    obtain ⟨receipt, rfl, hreceipt⟩ := committed_of_reconcile_ready hup hdisp
    rw [hasked] at hreceipt
    exact hreceipt
  | _ => rw [hc] at h; cases h

section Runs

variable [DecidableEq ι]

variable {s : Metadata ι}

theorem FlagInv.step {i : ι} {t : Metadata ι} (hg : GuardInv s) (hi : FlagInv s) (h : Step i s t)
    (hok : RaisesIdle s t) : FlagInv t := by
  have heffect := h.effect
  refine ⟨fun _ _ _ hstate hmem => heffect.proven hi hstate hmem, ?_, ?_⟩
  · intro j p hguard
    by_cases hji : j = i
    · subst hji
      exact heffect.copy hi hguard
    · rw [h.other hji] at hguard
      have hcopy := hi.copy j p hguard
      obtain ⟨-, ⟨hstate, -⟩ | ⟨identity, hfreeze, htrace⟩⟩ := heffect.frame hg hji hguard
      · rw [hstate, hcopy]
      · -- the flag is up already, so raising it again leaves the copy exact
        have hup := hok identity p htrace hcopy
        rw [hcopy] at hfreeze
        rw [(freezeJournaled_frozen_eq_ok hfreeze).2, ← hup]
  · intro j p hguard
    by_cases hji : j = i
    · subst hji
      exact heffect.commitFlag hi hguard
    · rw [h.other hji] at hguard
      exact hi.commit j p hguard

theorem FlagInv.of_reachable (hs : ((system ι).restrict RaisesIdle).Reachable s) : FlagInv s := by
  refine hs.invariant (P := FlagInv) (fun _ => FlagInv.of_opened) ?_
  rintro s t hs hi ⟨⟨i, hstep⟩, hok⟩
  exact hi.step (.of_reachable hs.of_restrict) hstep hok

/-- A step from a journal-proven freeze keeps it or ends it on `Committed`. -/
theorem JournalFrozen.step {identity : ReceiptIdentity} {i : ι} {t : Metadata ι} (hg : GuardInv s)
    (hi : FlagInv s) (hs : JournalFrozen identity s) (h : Step i s t) :
    JournalFrozen identity t ∨ AnsweredCommitted identity (s.callers i) ∧ t.state = .ready := by
  have heffect := h.effect
  rcases heffect.frozenOn_or_finishes hs.1 with hkept | ⟨hready, hfinish⟩
  · exact .inl ⟨hkept, heffect.mem_sinceFroze hs.1 hs.2⟩
  · exact .inr ⟨hs.answeredCommitted hg hi hfinish, hready⟩

/-- The only steps of a caller that was answered `Aborted` during a journal-proven
    freeze are its cancellation and the corrupt-storage report. -/
theorem JournalFrozen.aborted_step {identity : ReceiptIdentity} {i : ι} {t : Metadata ι}
    (hi : FlagInv s) (hs : JournalFrozen identity s) (h : Step i s t)
    (habort : AnsweredAborted (s.callers i)) :
    ReportsCorrupt (t.callers i) ∨ ∃ pending, t.callers i = .dropping pending .cancelled := by
  have hcommit := hs.commitGuard hi i
  cases hc : s.callers i with
  | committed pending call answer => rw [hc] at hcommit; cases hcommit
  | reconciled ifFrozen pending call answer =>
    have hguard : (s.callers i).guard = some pending := by rw [hc]; rfl
    have hstate := hi.copy i pending hguard
    have hup := hi.proven pending true identity hstate hs.2
    rw [hc] at habort
    have hanswer : answer = .ok .aborted := by
      rcases answer with e | outcome
      · cases habort
      · cases outcome <;> first | rfl | cases habort
    have hdisp : reconcileDisposition pending answer =
        .frozen (.error (.provider .storageCorrupt .storageReconcile)) := by
      simp [hanswer, reconcileDisposition, hup]
    cases h with
    | finishFrozenReconcile hpc hdisp' hfinish =>
      rw [hc] at hpc
      cases hpc
      rw [hdisp] at hdisp'
      cases hdisp'
      cases ifFrozen with
      | false => exact .inl (.inl (setCaller_self s i _))
      | true => exact .inl (.inr (setCaller_self s i _))
    | cancelCall hguard' => exact .inr ⟨_, setCaller_self s i _⟩
    | finishReadyReconcile hpc hdisp' | bailReconcile hpc hdisp' =>
      rw [hc] at hpc
      cases hpc
      rw [hdisp] at hdisp'
      cases hdisp'
    | finishFrozenReconcileFailed _ _ hfinish => rw [hstate] at hfinish; cases hfinish
    | cancel hnone => rw [hguard] at hnone; cases hnone
    | startCommit _ hidle | startReconcile hidle | startReconcileIfFrozen hidle
    | freezeJournaled _ hidle | freezeJournaledRefused _ hidle => rw [hc] at hidle; cases hidle
    | answerCommit _ hpc | answerReconcile _ hpc | beginCommit hpc | retryCommit hpc
    | refuseCommit hpc | callCommit hpc | checkReady hpc | checkFrozen hpc | beginReconcile hpc
    | retryReconcile hpc | refuseReconcile hpc | callReconcile hpc | finishReadyCommit hpc
    | finishFrozenCommit hpc | finishFrozenCommitFailed hpc | bailCommit hpc | dropGuard hpc =>
      rw [hc] at hpc; cases hpc
  | _ => rw [hc] at habort; cases habort

/-- In a run where no journal freeze raises the flag under an active call: once
    `freeze_journaled` has returned `Ok`, the store stays frozen on the identity
    until a caller ends the freeze on `Committed` for exactly it; and a caller that
    is answered `Aborted` leaves the store frozen and reports corrupt storage, unless
    it is cancelled first. -/
theorem journalFrozen_until_committed {identity : ReceiptIdentity} {s : Metadata ι}
    (hs : ((system ι).restrict RaisesIdle).Reachable s) (hfrozen : JournalFrozen identity s) :
    (∀ t, ((system ι).restrict RaisesIdle).Path s t → JournalFrozen identity t ∨
      ∃ u v, ((system ι).restrict RaisesIdle).Path s u ∧ JournalFrozen identity u ∧
        (∃ i, Step i u v ∧ AnsweredCommitted identity (u.callers i)) ∧ v.state = .ready ∧
        ((system ι).restrict RaisesIdle).Path v t) ∧
    (∀ i t, Step i s t → AnsweredAborted (s.callers i) → JournalFrozen identity t ∧
      (ReportsCorrupt (t.callers i) ∨ ∃ pending, t.callers i = .dropping pending .cancelled)) := by
  constructor
  · intro t hpath
    have hexit : ∀ u v, ((system ι).restrict RaisesIdle).Reachable u → JournalFrozen identity u →
        ((system ι).restrict RaisesIdle).next u v → JournalFrozen identity v ∨
          (∃ i, Step i u v ∧ AnsweredCommitted identity (u.callers i)) ∧ v.state = .ready := by
      rintro u v hu hfrozen ⟨⟨i, hstep⟩, -⟩
      rcases hfrozen.step (.of_reachable hu.of_restrict) (.of_reachable hu) hstep with
        hkept | ⟨hanswer, hready⟩
      · exact .inl hkept
      · exact .inr ⟨⟨i, hstep, hanswer⟩, hready⟩
    rcases hs.until_exit hexit hfrozen hpath with
      hkept | ⟨u, v, hsu, hu, -, ⟨hanswer, hready⟩, hvt⟩
    · exact .inl hkept
    · exact .inr ⟨u, v, hsu, hu, hanswer, hready, hvt⟩
  · intro i t hstep habort
    refine ⟨?_, hfrozen.aborted_step (.of_reachable hs) hstep habort⟩
    rcases hfrozen.step (.of_reachable hs.of_restrict) (.of_reachable hs) hstep with
      hkept | ⟨hanswer, -⟩
    · exact hkept
    · exact absurd hanswer (not_answeredCommitted_of_aborted habort)

end Runs

/-- A store opened on a recovered identity, not proven by a journal. -/
def recovered : Metadata Bool where
  state := .frozen ⟨default, default, false⟩ false
  callers := fun _ => .idle
  trace := [.froze default]

theorem opened_recovered : Opened recovered := ⟨fun _ => rfl, .inr ⟨_, rfl, rfl⟩⟩

/-- A journal freeze of the recovered store, with no call active. -/
theorem journalFrozen_until_committed_recovered :
    ∃ s, ((system Bool).restrict RaisesIdle).Reachable s ∧ JournalFrozen default s ∧
      ∀ i t, Step i s t → AnsweredAborted (s.callers i) → JournalFrozen default t ∧
        (ReportsCorrupt (t.callers i) ∨
          ∃ pending, t.callers i = .dropping pending .cancelled) := by
  have hopened : ((system Bool).restrict RaisesIdle).Reachable recovered := .init opened_recovered
  have hfroze := hopened.step ⟨⟨true, .freezeJournaled default rfl rfl⟩, by
    intro identity pending _ hstate
    cases hstate⟩
  have hfrozen : JournalFrozen default
      { recovered.setCaller true (.done (.freezeJournaled (.ok ()))) with
        state := .frozen ⟨default, default, true⟩ false
        trace := [.frozeJournaled default, .froze default] } :=
    ⟨⟨_, _, rfl, rfl⟩, List.mem_cons_self ..⟩
  exact ⟨_, hfroze, hfrozen, (journalFrozen_until_committed hfroze hfrozen).2⟩

/-- A reconciliation is in flight when the journal freeze returns `Ok`; the provider
    answers `Aborted`, and the store returns to `Ready` reporting the abort. -/
theorem staleRelease_step :
    ∃ s t : Metadata Bool, (system Bool).Reachable s ∧ JournalFrozen default s ∧
      s.callers true = .done (.freezeJournaled (.ok ())) ∧
      AnsweredAborted (s.callers false) ∧ Step false s t ∧
      t.state = .ready ∧ ¬ FrozenOn default t ∧ ¬ AnsweredCommitted default (s.callers false) ∧
      t.callers false = .done (.reconcile (.ok .aborted)) := by
  have hopened : (system Bool).Reachable recovered := .init opened_recovered
  have hstarted := hopened.step ⟨false, .startReconcile rfl⟩
  have hbegun := hstarted.step ⟨false, .beginReconcile rfl rfl⟩
  have hcalled := hbegun.step ⟨false, .callReconcile rfl⟩
  have hraised := hcalled.step ⟨true, .freezeJournaled default rfl rfl⟩
  have hanswered := hraised.step ⟨false, .answerReconcile (.ok .aborted) rfl⟩
  refine ⟨_, _, hanswered, ⟨⟨_, _, rfl, rfl⟩, ?_⟩, rfl, trivial, .finishReadyReconcile rfl rfl, rfl,
    ?_, id, rfl⟩
  · exact List.mem_cons_of_mem _ (List.mem_cons_self ..)
  · rintro ⟨pending, active, hstate, -⟩
    cases hstate

end Metadata

end Radiata
