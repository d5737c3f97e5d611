import Mathlib.Logic.Relation

/-!
# Transition systems

A transition system is a set of initial states and a step relation. Two rules
carry every argument about whole runs: an invariant is shown on initial states
and across one step from a reachable state, and a condition that may only be left
by a certain kind of step is shown step by step and followed along a run.

A system that is a function of its events is followed with `EveryStep`.
-/

/-- Initial states and steps over the states `σ`. -/
structure TransitionSystem (σ : Type) where
  init : σ → Prop
  next : σ → σ → Prop

namespace TransitionSystem

variable {σ : Type} (T : TransitionSystem σ)

/-- `t` is reached from `s` by finitely many steps. -/
def Path (s t : σ) : Prop := Relation.ReflTransGen T.next s t

/-- The states of the runs from an initial state. -/
def Reachable (s : σ) : Prop := ∃ s₀, T.init s₀ ∧ T.Path s₀ s

/-- The system whose steps are the steps of `T` that satisfy `ok`. -/
def restrict (ok : σ → σ → Prop) : TransitionSystem σ where
  init := T.init
  next := fun s t => T.next s t ∧ ok s t

variable {T}

variable {s : σ}

theorem Reachable.init (h : T.init s) : T.Reachable s := ⟨s, h, .refl⟩

theorem Reachable.step {t : σ} (hs : T.Reachable s) (hst : T.next s t) : T.Reachable t := by
  obtain ⟨s₀, h₀, hpath⟩ := hs
  exact ⟨s₀, h₀, hpath.tail hst⟩

theorem Reachable.path {t : σ} (hs : T.Reachable s) (hst : T.Path s t) : T.Reachable t := by
  obtain ⟨s₀, h₀, hpath⟩ := hs
  exact ⟨s₀, h₀, hpath.trans hst⟩

/-- The invariant rule. -/
theorem Reachable.invariant {P : σ → Prop} (hinit : ∀ s, T.init s → P s)
    (hstep : ∀ s t, T.Reachable s → P s → T.next s t → P t) (hs : T.Reachable s) : P s := by
  obtain ⟨s₀, h₀, hpath⟩ := hs
  induction hpath with
  | refl => exact hinit s₀ h₀
  | tail hpath hst ih => exact hstep _ _ ⟨s₀, h₀, hpath⟩ ih hst

/-- The exit rule: if every step from a reachable `P` state stays in `P` or is an
    `exit` step, then a run from a `P` state is in `P` at its end or has taken an
    exit step from a `P` state. -/
theorem Reachable.until_exit {P : σ → Prop} {exit : σ → σ → Prop}
    (hstep : ∀ s t, T.Reachable s → P s → T.next s t → P t ∨ exit s t) {t : σ}
    (hs : T.Reachable s) (hP : P s) (hpath : T.Path s t) :
    P t ∨ ∃ u v, T.Path s u ∧ P u ∧ T.next u v ∧ exit u v ∧ T.Path v t := by
  induction hpath with
  | refl => exact Or.inl hP
  | @tail t t' hpath hst ih =>
    rcases ih with hPt | ⟨u, v, hsu, hPu, huv, hexit, hvt⟩
    · rcases hstep t t' (hs.path hpath) hPt hst with hPt' | hexit
      · exact Or.inl hPt'
      · exact Or.inr ⟨t, t', hpath, hPt, hst, hexit, .refl⟩
    · exact Or.inr ⟨u, v, hsu, hPu, huv, hexit, hvt.tail hst⟩

variable {ok : σ → σ → Prop}

/-- Steps of a restricted system are steps of the system. -/
theorem Path.of_restrict {t : σ} (h : (T.restrict ok).Path s t) :
    T.Path s t := Relation.ReflTransGen.mono (fun _ _ hst => hst.1) _ _ h

/-- A run of a restricted system is a run of the system. -/
theorem Reachable.of_restrict (hs : (T.restrict ok).Reachable s) :
    T.Reachable s := by
  obtain ⟨s₀, h₀, hpath⟩ := hs
  exact ⟨s₀, h₀, hpath.of_restrict⟩

/-- A weaker restriction has more runs. -/
theorem Reachable.restrict_mono {ok' : σ → σ → Prop} (h : ∀ s t, ok s t → ok' s t)
    (hs : (T.restrict ok).Reachable s) : (T.restrict ok').Reachable s := by
  obtain ⟨s₀, h₀, hpath⟩ := hs
  exact ⟨s₀, h₀, Relation.ReflTransGen.mono (fun _ _ hst => ⟨hst.1, h _ _ hst.2⟩) _ _ hpath⟩

end TransitionSystem

/-! ## Runs over given events -/

/-- `P` holds at each event of a run. -/
def EveryStep {σ ε : Type} (step : σ → ε → σ) (P : σ → ε → Prop) : σ → List ε → Prop
  | _, [] => True
  | s, event :: events => P s event ∧ EveryStep step P (step s event) events

/-- Two conditions on steps that agree while an invariant holds, which the first of them keeps,
    agree on whole runs. -/
theorem everyStep_iff {σ ε : Type} {step : σ → ε → σ} {P Q : σ → ε → Prop} {Inv : σ → Prop}
    (hiff : ∀ s event, Inv s → (P s event ↔ Q s event))
    (hkeep : ∀ s event, Inv s → P s event → Inv (step s event)) {s : σ} (hs : Inv s)
    (events : List ε) : EveryStep step P s events ↔ EveryStep step Q s events := by
  induction events generalizing s with
  | nil => exact Iff.rfl
  | cons event events ih =>
    unfold EveryStep
    constructor
    · rintro ⟨hp, hrest⟩
      exact ⟨(hiff s event hs).mp hp, (ih (hkeep s event hs hp)).mp hrest⟩
    · rintro ⟨hq, hrest⟩
      have hp := (hiff s event hs).mpr hq
      exact ⟨hp, (ih (hkeep s event hs hp)).mpr hrest⟩
