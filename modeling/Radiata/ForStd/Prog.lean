/-!
# Programs over calls

A `Prog ι ρ α` makes calls `i : ι`, resumes with answers in `ρ i`, and ends with a
value of `α`. A handler answers each call and changes a state; `run` executes a
program under a handler, and `Cut` says in which states a process that executes it
may be stopped: before a call, inside one, or at the end.

## Key results

- `Prog.run_bind`: a run of a sequence is the run of its parts
- `Prog.All.run_invariant`: what every call preserves, a run preserves
- `Prog.run_exceptT_bind`: a run of a fallible sequence stops at its first error
- `Prog.cut_bind`: a process stopped inside a sequence is stopped in one part
- `Prog.Cut.bind_left` / `Prog.Cut.bind_right`: the converse
- `Prog.All.cut_invariant`: what every call preserves holds wherever a process is stopped
-/

/-- A program that makes calls `ι` with answers `ρ`. -/
inductive Prog (ι : Type) (ρ : ι → Type) (α : Type) where
  | done (value : α)
  | call (request : ι) (resume : ρ request → Prog ι ρ α)

namespace Prog

variable {ι : Type} {ρ : ι → Type} {α β σ : Type}

protected def bind (p : Prog ι ρ α) (f : α → Prog ι ρ β) : Prog ι ρ β :=
  match p with
  | done value => f value
  | call request resume => call request (fun answer => (resume answer).bind f)

instance : Monad (Prog ι ρ) where
  pure := done
  bind := Prog.bind

/-- A single call. -/
def perform (request : ι) : Prog ι ρ (ρ request) := call request done

/-- Executes a program: `handle` answers a call and changes the state. -/
def run (handle : (request : ι) → σ → ρ request × σ) : Prog ι ρ α → σ → α × σ
  | done value, s => (value, s)
  | call request resume, s =>
    run handle (resume (handle request s).1) (handle request s).2

section Run

variable (handle : (request : ι) → σ → ρ request × σ)

@[simp] theorem run_pure (value : α) (s : σ) :
    run handle (pure value : Prog ι ρ α) s = (value, s) := rfl

@[simp] theorem run_perform (request : ι) (s : σ) :
    run handle (perform request : Prog ι ρ (ρ request)) s = handle request s := rfl

@[simp] theorem run_bind (p : Prog ι ρ α) (f : α → Prog ι ρ β) (s : σ) :
    run handle (p >>= f) s = run handle (f (run handle p s).1) (run handle p s).2 := by
  induction p generalizing s with
  | done value => rfl
  | call request resume ih => exact ih (handle request s).1 (handle request s).2

end Run

/-- Every call the program can make satisfies `P`. -/
def All (P : ι → Prop) : Prog ι ρ α → Prop
  | done _ => True
  | call request resume => P request ∧ ∀ answer, All P (resume answer)

variable {P : ι → Prop}

theorem All.pure (value : α) : All P (Pure.pure value : Prog ι ρ α) := trivial

theorem All.perform {request : ι} (h : P request) :
    All P (Prog.perform request : Prog ι ρ (ρ request)) := ⟨h, fun _ => trivial⟩

theorem All.bind {p : Prog ι ρ α} {f : α → Prog ι ρ β} (hp : All P p)
    (hf : ∀ value, All P (f value)) : All P (p >>= f) := by
  induction p with
  | done value => exact hf value
  | call request resume ih => exact ⟨hp.1, fun answer => ih answer (hp.2 answer)⟩

/-- What every call of a program preserves, its run preserves. -/
theorem All.run_invariant {I : σ → Prop} {p : Prog ι ρ α}
    {handle : (request : ι) → σ → ρ request × σ} (hp : All P p)
    (hcall : ∀ request s, P request → I s → I (handle request s).2) {s : σ} (hs : I s) :
    I (run handle p s).2 := by
  induction p generalizing s with
  | done value => exact hs
  | call request resume ih => exact ih _ (hp.2 _) (hcall request s hp.1 hs)

/-! ## Fallible programs -/

section ExceptT

variable {ε : Type}

/-- A run of a fallible sequence: the first error ends it. -/
theorem run_exceptT_bind (handle : (request : ι) → σ → ρ request × σ)
    (p : ExceptT ε (Prog ι ρ) α) (f : α → ExceptT ε (Prog ι ρ) β) (s : σ) :
    run handle (p >>= f).run s = match run handle p.run s with
      | (.ok value, t) => run handle (f value).run t
      | (.error e, t) => (.error e, t) := by
  show run handle ((p.run : Prog ι ρ (Except ε α)) >>= ExceptT.bindCont f) s = _
  rw [run_bind]
  cases hp : run handle p.run s with
  | mk result t =>
    cases result with
    | ok value => rfl
    | error e => rfl

@[simp] theorem run_exceptT_pure (handle : (request : ι) → σ → ρ request × σ) (value : α) (s : σ) :
    run handle (pure value : ExceptT ε (Prog ι ρ) α).run s = (.ok value, s) := rfl

@[simp] theorem run_exceptT_throw (handle : (request : ι) → σ → ρ request × σ) (e : ε) (s : σ) :
    run handle (throw e : ExceptT ε (Prog ι ρ) α).run s = (.error e, s) := rfl

theorem All.exceptT_bind {P : ι → Prop} {p : ExceptT ε (Prog ι ρ) α}
    {f : α → ExceptT ε (Prog ι ρ) β} (hp : All P p.run) (hf : ∀ value, All P (f value).run) :
    All P (p >>= f).run := by
  refine All.bind hp ?_
  intro result
  cases result with
  | ok value => exact hf value
  | error e => exact All.pure _

end ExceptT

/-- The process is stopped in state `t` while it executes the program from `s`.
    `inside` says which states a call passes through. -/
inductive Cut (handle : (request : ι) → σ → ρ request × σ) (inside : ι → σ → σ → Prop) :
    Prog ι ρ α → σ → σ → Prop where
  | here {p : Prog ι ρ α} {s : σ} : Cut handle inside p s s
  | during {request : ι} {resume : ρ request → Prog ι ρ α} {s t : σ}
      (h : inside request s t) : Cut handle inside (call request resume) s t
  | later {request : ι} {resume : ρ request → Prog ι ρ α} {s t : σ}
      (h : Cut handle inside (resume (handle request s).1) (handle request s).2 t) :
      Cut handle inside (call request resume) s t

section Cut

variable {handle : (request : ι) → σ → ρ request × σ} {inside : ι → σ → σ → Prop}

theorem cut_pure {value : α} {s t : σ} (h : Cut handle inside (pure value : Prog ι ρ α) s t) :
    t = s := by
  cases h
  rfl

/-- A process stopped around one call. -/
theorem cut_perform {request : ι} {s t : σ}
    (h : Cut handle inside (perform request : Prog ι ρ (ρ request)) s t) :
    t = s ∨ inside request s t ∨ t = (handle request s).2 := by
  cases h with
  | here => exact .inl rfl
  | during h => exact .inr (.inl h)
  | later h => exact .inr (.inr (cut_pure h))

variable {p : Prog ι ρ α}

/-- A process stopped inside a sequence is stopped in the first part, or in the second
    after the first has run. -/
theorem cut_bind {f : α → Prog ι ρ β} {s t : σ} (h : Cut handle inside (p >>= f) s t) :
    Cut handle inside p s t ∨
      Cut handle inside (f (run handle p s).1) (run handle p s).2 t := by
  induction p generalizing s with
  | done value => exact .inr h
  | call request resume ih =>
    cases h with
    | here => exact .inl .here
    | during h => exact .inl (.during h)
    | later h =>
      rcases ih (handle request s).1 h with hfirst | hsecond
      · exact .inl (.later hfirst)
      · exact .inr hsecond

/-- A program that is not stopped runs to its end. -/
theorem cut_run (p : Prog ι ρ α) (s : σ) : Cut handle inside p s (run handle p s).2 := by
  induction p generalizing s with
  | done value => exact .here
  | call request resume ih => exact .later (ih _ _)

/-- A process that can be stopped in the first part can be stopped in the sequence. -/
theorem Cut.bind_left (f : α → Prog ι ρ β) {s t : σ} (h : Cut handle inside p s t) :
    Cut handle inside (p >>= f) s t := by
  induction h with
  | here => exact .here
  | during h => exact .during h
  | later h ih => exact .later ih

/-- A process that can be stopped in the second part, after the first has run, can be stopped in
    the sequence. -/
theorem Cut.bind_right {f : α → Prog ι ρ β} {s t : σ}
    (h : Cut handle inside (f (run handle p s).1) (run handle p s).2 t) :
    Cut handle inside (p >>= f) s t := by
  induction p generalizing s with
  | done value => exact h
  | call request resume ih => exact .later (ih _ h)

/-- What every call of a program preserves, and keeps inside, holds wherever a process
    that executes it is stopped. -/
theorem All.cut_invariant {P : ι → Prop} {I : σ → Prop} (hp : All P p)
    (hcall : ∀ request s, P request → I s → I (handle request s).2)
    (hinside : ∀ request s t, P request → inside request s t → I s → I t) {s t : σ} (hs : I s)
    (h : Cut handle inside p s t) : I t := by
  induction h with
  | here => exact hs
  | during h => exact hinside _ _ _ hp.1 h hs
  | later h ih => exact ih (hp.2 _) (hcall _ _ hp.1 hs)

end Cut

end Prog
