import Radiata.ForStd.Concurrent

/-!
# Traces of programs

The trace of a program is the list of its calls with their answers. Of the states between two
calls nothing is said, so the traces of a program cover whatever others do meanwhile.

## Key results

- `Prog.traced_bind`, `Prog.traced_exceptT_bind`: the trace of a sequence
-/

/-- A call that was answered, with the states before and after it. -/
structure Exchange (ι : Type) (ρ : ι → Type) (σ : Type) where
  request : ι
  before : σ
  answer : ρ request
  after : σ

namespace Prog

variable {ι : Type} {ρ : ι → Type} {α β ε σ : Type}

/-- The program makes the calls of the trace; then it is `q`. -/
inductive Traced (answers : (request : ι) → σ → ρ request → σ → Prop) :
    Prog ι ρ α → List (Exchange ι ρ σ) → Prog ι ρ α → Prop where
  | nil (p : Prog ι ρ α) : Traced answers p [] p
  | cons {request : ι} {resume : ρ request → Prog ι ρ α} {answer : ρ request} {s t : σ}
      {rest : List (Exchange ι ρ σ)} {q : Prog ι ρ α} : answers request s answer t →
      Traced answers (resume answer) rest q →
      Traced answers (.call request resume) (⟨request, s, answer, t⟩ :: rest) q

variable {answers : (request : ι) → σ → ρ request → σ → Prop} {trace : List (Exchange ι ρ σ)}

/-- A further call at the end of a trace. -/
theorem Traced.concat {p : Prog ι ρ α} {request : ι} {resume : ρ request → Prog ι ρ α}
    {answer : ρ request} {s t : σ} (h : Traced answers p trace (.call request resume))
    (hanswer : answers request s answer t) :
    Traced answers p (trace ++ [⟨request, s, answer, t⟩]) (resume answer) := by
  generalize hq : Prog.call request resume = q at h
  induction h with
  | nil p =>
    subst hq
    exact .cons hanswer (.nil _)
  | cons hfirst _ ih => exact .cons hfirst (ih hq)

/-- Every call of a trace was answered. -/
theorem Traced.answered {p q : Prog ι ρ α} (h : Traced answers p trace q) :
    ∀ exchange ∈ trace,
      answers exchange.request exchange.before exchange.answer exchange.after := by
  induction h with
  | nil p => exact fun _ hmem => absurd hmem List.not_mem_nil
  | cons hanswer _ ih =>
    intro exchange hmem
    rcases List.mem_cons.mp hmem with rfl | hmem
    · exact hanswer
    · exact ih exchange hmem

/-- What every call of a program satisfies, the calls of its trace and of its rest satisfy. -/
theorem All.traced {P : ι → Prop} {p q : Prog ι ρ α} (hp : All P p) (h : Traced answers p trace q) :
    (∀ exchange ∈ trace, P exchange.request) ∧ All P q := by
  induction h with
  | nil p => exact ⟨fun _ hmem => absurd hmem List.not_mem_nil, hp⟩
  | cons _ _ ih =>
    obtain ⟨hrest, hq⟩ := ih (hp.2 _)
    refine ⟨fun exchange hmem => ?_, hq⟩
    rcases List.mem_cons.mp hmem with rfl | hmem
    · exact hp.1
    · exact hrest exchange hmem

/-- A run under a handler whose answers conform has a trace. -/
theorem exists_traced_of_run {handle : (request : ι) → σ → ρ request × σ}
    (hconforms : ∀ request s, answers request s (handle request s).1 (handle request s).2)
    (p : Prog ι ρ α) (s : σ) : ∃ trace, Traced answers p trace (.done (run handle p s).1) := by
  induction p generalizing s with
  | done value => exact ⟨[], .nil _⟩
  | call request resume ih =>
    obtain ⟨trace, htrace⟩ := ih (handle request s).1 (handle request s).2
    exact ⟨_, .cons (hconforms request s) htrace⟩

theorem traced_pure {value result : α} (h : Traced answers (pure value) trace (.done result)) :
    trace = [] ∧ value = result := by
  cases h with
  | nil => exact ⟨rfl, rfl⟩

theorem traced_perform {request : ι} {result : ρ request}
    (h : Traced answers (perform request) trace (.done result)) :
    ∃ s t, trace = [⟨request, s, result, t⟩] ∧ answers request s result t := by
  cases h with
  | cons hanswer hrest =>
    obtain ⟨rfl, rfl⟩ := traced_pure hrest
    exact ⟨_, _, rfl, hanswer⟩

/-- The trace of a sequence is the trace of its first part and then that of its second. -/
theorem traced_bind {p : Prog ι ρ α} {f : α → Prog ι ρ β} {result : β}
    (h : Traced answers (p >>= f) trace (.done result)) :
    ∃ value first second, trace = first ++ second ∧ Traced answers p first (.done value) ∧
      Traced answers (f value) second (.done result) := by
  induction p generalizing trace with
  | done value => exact ⟨value, [], trace, rfl, .nil _, h⟩
  | call request resume ih =>
    cases h with
    | cons hanswer hrest =>
      obtain ⟨value, first, second, rfl, hfirst, hsecond⟩ := ih _ hrest
      exact ⟨value, _ :: first, second, rfl, .cons hanswer hfirst, hsecond⟩

/-- A fallible sequence that succeeds has succeeded in its first part. -/
theorem traced_exceptT_bind {p : ExceptT ε (Prog ι ρ) α} {f : α → ExceptT ε (Prog ι ρ) β}
    {result : β} (h : Traced answers (p >>= f).run trace (.done (.ok result))) :
    ∃ value first second, trace = first ++ second ∧
      Traced answers p.run first (.done (.ok value)) ∧
      Traced answers (f value).run second (.done (.ok result)) := by
  replace h : Traced answers ((p.run : Prog ι ρ (Except ε α)) >>= ExceptT.bindCont f) trace
      (.done (.ok result)) := h
  obtain ⟨value, first, second, htrace, hfirst, hsecond⟩ := traced_bind h
  cases value with
  | ok value => exact ⟨value, first, second, htrace, hfirst, hsecond⟩
  | error e => cases (traced_pure hsecond).2

end Prog
