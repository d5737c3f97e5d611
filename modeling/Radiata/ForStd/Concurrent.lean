import Radiata.ForStd.Prog
import Radiata.ForStd.System

/-!
# Concurrent programs

Any number of programs run on one state. A call of a program is one atomic step: it is answered
and changes the state. A program may be dropped before a call, and the process that runs all
programs may be reset.

What a program does on its own is stated by a contract: the others change the state within
`rely`, the calls of the program change it within `guarantee`, and each of its calls is made in a
state that permits it. If what one program guarantees is what the others rely on, the contracts
of all programs hold in every run.

## Key results

- `Prog.ensures_bind`, `Prog.ensures_exceptT_bind`: a contract of a sequence
- `Prog.ensures_call`: a contract of a call, by an assertion that the others keep
- `Prog.runs_of_run`: a handler that conforms yields a run
- `Schedule.path_of_runs`: a program runs while the others wait
- `Schedule.Contracts.holds_of_reachable`: contracts hold in every run
- `Schedule.Contracts.Holds.path_state`: what a run does to the state
-/

/-- What a program expects of the others and promises to them. -/
structure Contract (ι : Type) (ρ : ι → Type) (σ : Type) where
  /-- The answers a call may get, and the states after it. -/
  answers : (request : ι) → σ → ρ request → σ → Prop
  rely : σ → σ → Prop
  guarantee : σ → σ → Prop
  permits : ι → σ → Prop

namespace Prog

variable {ι : Type} {ρ : ι → Type} {α β σ : Type} {C : Contract ι ρ σ}

/-- The program keeps the contract from `s` on and ends as `post` says. -/
def Ensures (C : Contract ι ρ σ) (post : α → σ → Prop) : Prog ι ρ α → σ → Prop
  | done value, s => post value s
  | call request resume, s => ∀ t, C.rely s t → C.permits request t ∧
      ∀ answer u, C.answers request t answer u →
        C.guarantee t u ∧ Ensures C post (resume answer) u

@[simp] theorem ensures_pure {post : α → σ → Prop} {value : α} {s : σ} :
    Ensures C post (pure value) s ↔ post value s := Iff.rfl

theorem Ensures.mono {post post' : α → σ → Prop} {p : Prog ι ρ α} {s : σ} (h : Ensures C post p s)
    (hpost : ∀ value t, post value t → post' value t) : Ensures C post' p s := by
  induction p generalizing s with
  | done value => exact hpost value s h
  | call request resume ih =>
    intro t hrely
    refine ⟨(h t hrely).1, fun answer u hanswer => ?_⟩
    obtain ⟨hguarantee, hresume⟩ := (h t hrely).2 answer u hanswer
    exact ⟨hguarantee, ih answer hresume⟩

theorem ensures_bind {post : β → σ → Prop} {p : Prog ι ρ α} {f : α → Prog ι ρ β} {s : σ}
    (h : Ensures C (fun value => Ensures C post (f value)) p s) : Ensures C post (p >>= f) s := by
  induction p generalizing s with
  | done value => exact h
  | call request resume ih =>
    intro t hrely
    refine ⟨(h t hrely).1, fun answer u hanswer => ?_⟩
    obtain ⟨hguarantee, hresume⟩ := (h t hrely).2 answer u hanswer
    exact ⟨hguarantee, ih answer hresume⟩

/-- A call made where `P` holds, which the others keep. -/
theorem ensures_call {post : α → σ → Prop} {request : ι} {resume : ρ request → Prog ι ρ α} {s : σ}
    (P : σ → Prop) (hP : P s) (hstable : ∀ s t, P s → C.rely s t → P t)
    (h : ∀ t, P t → C.permits request t ∧ ∀ answer u, C.answers request t answer u →
      C.guarantee t u ∧ Ensures C post (resume answer) u) : Ensures C post (call request resume) s :=
  fun t hrely => h t (hstable s t hP hrely)

theorem ensures_perform {request : ι} {post : ρ request → σ → Prop} {s : σ} (P : σ → Prop)
    (hP : P s) (hstable : ∀ s t, P s → C.rely s t → P t)
    (h : ∀ t, P t → C.permits request t ∧ ∀ answer u, C.answers request t answer u →
      C.guarantee t u ∧ post answer u) : Ensures C post (perform request) s :=
  ensures_call P hP hstable h

section ExceptT

variable {ε : Type}

/-- The end of a fallible program: `value` on success and `failed` on an error. -/
def Outcome (value : α → σ → Prop) (failed : ε → σ → Prop) : Except ε α → σ → Prop
  | .ok a => value a
  | .error e => failed e

theorem ensures_exceptT_bind {post : Except ε β → σ → Prop} {p : ExceptT ε (Prog ι ρ) α}
    {f : α → ExceptT ε (Prog ι ρ) β} {s : σ}
    (h : Ensures C (Outcome (fun value => Ensures C post (f value).run)
      (fun e => post (.error e))) p.run s) :
    Ensures C post (p >>= f).run s := by
  show Ensures C post ((p.run : Prog ι ρ (Except ε α)) >>= ExceptT.bindCont f) s
  refine ensures_bind (h.mono ?_)
  intro result t hresult
  cases result with
  | ok value => exact hresult
  | error e => exact hresult

end ExceptT

/-- The program makes calls of its own from `s` on; then it is `q` and the state `t`. -/
inductive Runs (answers : (request : ι) → σ → ρ request → σ → Prop) :
    Prog ι ρ α → σ → Prog ι ρ α → σ → Prop where
  | refl (p : Prog ι ρ α) (s : σ) : Runs answers p s p s
  | call {request : ι} {resume : ρ request → Prog ι ρ α} {answer : ρ request} {s t u : σ}
      {q : Prog ι ρ α} : answers request s answer t → Runs answers (resume answer) t q u →
      Runs answers (.call request resume) s q u

section Runs

variable {answers : (request : ι) → σ → ρ request → σ → Prop}

variable {p q : Prog ι ρ α}

theorem Runs.trans {r : Prog ι ρ α} {s t u : σ} (hpq : Runs answers p s q t)
    (hqr : Runs answers q t r u) : Runs answers p s r u := by
  induction hpq with
  | refl p s => exact hqr
  | call hanswer _ ih => exact .call hanswer (ih hqr)

theorem Runs.bind {s t : σ} (h : Runs answers p s q t) (f : α → Prog ι ρ β) :
    Runs answers (p >>= f) s (q >>= f) t := by
  induction h with
  | refl p s => exact .refl _ _
  | call hanswer _ ih => exact .call hanswer ih

/-- The run under a handler whose answers conform, as seen in a part of the state of the handler. -/
theorem runs_of_run {τ : Type} {handle : (request : ι) → τ → ρ request × τ} (view : τ → σ)
    {I : τ → Prop} (hconforms : ∀ request s, I s →
      answers request (view s) (handle request s).1 (view (handle request s).2) ∧
        I (handle request s).2) (p : Prog ι ρ α) {s : τ} (hs : I s) :
    Runs answers p (view s) (.done (run handle p s).1) (view (run handle p s).2) := by
  induction p generalizing s with
  | done value => exact .refl _ _
  | call request resume ih =>
    obtain ⟨hanswer, hnext⟩ := hconforms request s hs
    exact .call hanswer (ih _ hnext)

theorem Runs.mono {answers' : (request : ι) → σ → ρ request → σ → Prop}
    (hmono : ∀ request s answer t, answers request s answer t → answers' request s answer t)
    {s t : σ} (h : Runs answers p s q t) : Runs answers' p s q t := by
  induction h with
  | refl p s => exact .refl _ _
  | call hanswer _ ih => exact .call (hmono _ _ _ _ hanswer) ih

end Runs

/-- The program has ended. -/
def isDone : Prog ι ρ α → Bool
  | done _ => true
  | call _ _ => false

end Prog

/-! ## Schedules -/

/-- A program under way, with the operation it was started for. -/
structure Thread (Λ ι : Type) (ρ : ι → Type) (α : Type) where
  label : Λ
  program : Prog ι ρ α

/-- A state with the programs on it. -/
structure Threads (Λ ι : Type) (ρ : ι → Type) (α σ : Type) where
  state : σ
  threads : List (Thread Λ ι ρ α)

/-- How programs are started, answered, dropped and reset. -/
structure Schedule (Λ ι : Type) (ρ : ι → Type) (α σ : Type) where
  program : Λ → Prog ι ρ α
  answers : (request : ι) → σ → ρ request → σ → Prop
  /-- An operation may be started, given the operations under way. -/
  starts : Λ → σ → List Λ → Prop
  /-- A program may be dropped before the call. -/
  interruptible : ι → Prop
  resets : σ → σ → Prop

namespace Threads

variable {Λ ι : Type} {ρ : ι → Type} {α σ : Type}

/-- The operations of the programs that have not ended. -/
def running (s : Threads Λ ι ρ α σ) : List Λ :=
  (s.threads.filter fun thread => !thread.program.isDone).map Thread.label

end Threads

namespace Schedule

variable {Λ ι : Type} {ρ : ι → Type} {α σ : Type}

inductive Step (S : Schedule Λ ι ρ α σ) (s : Threads Λ ι ρ α σ) : Threads Λ ι ρ α σ → Prop where
  | start (label : Λ) : S.starts label s.state s.running →
      Step S s { s with threads := s.threads ++ [⟨label, S.program label⟩] }
  | call (before after : List (Thread Λ ι ρ α)) (label : Λ) (request : ι)
      (resume : ρ request → Prog ι ρ α) (answer : ρ request) (t : σ) :
      s.threads = before ++ ⟨label, .call request resume⟩ :: after →
      S.answers request s.state answer t →
      Step S s ⟨t, before ++ ⟨label, resume answer⟩ :: after⟩
  | drop (before after : List (Thread Λ ι ρ α)) (label : Λ) (request : ι)
      (resume : ρ request → Prog ι ρ α) :
      s.threads = before ++ ⟨label, .call request resume⟩ :: after → S.interruptible request →
      Step S s { s with threads := before ++ after }
  | reset (t : σ) : S.resets s.state t →
      Step S s ⟨t, s.threads.filter fun thread => thread.program.isDone⟩

/-- The schedule with the answers that `considers` admits. -/
def within (S : Schedule Λ ι ρ α σ) (considers : (request : ι) → σ → ρ request → Prop) :
    Schedule Λ ι ρ α σ :=
  { S with answers := fun request s answer t => considers request s answer ∧
      S.answers request s answer t }

/-- The runs from a state. -/
def runs (S : Schedule Λ ι ρ α σ) (origin : σ) : TransitionSystem (Threads Λ ι ρ α σ) where
  init := fun s => s = ⟨origin, []⟩
  next := S.Step

/-- A program runs while the others wait. -/
theorem path_of_runs {S : Schedule Λ ι ρ α σ} {origin : σ} {p q : Prog ι ρ α} {s t : σ}
    (h : p.Runs S.answers s q t) (before after : List (Thread Λ ι ρ α)) (label : Λ) :
    (S.runs origin).Path ⟨s, before ++ ⟨label, p⟩ :: after⟩ ⟨t, before ++ ⟨label, q⟩ :: after⟩ := by
  induction h with
  | refl p s => exact .refl
  | call hanswer _ ih => exact .head (.call before after label _ _ _ _ rfl hanswer) ih

/-- The contracts of the operations of a schedule, and how they fit together. -/
structure Contracts (S : Schedule Λ ι ρ α σ) where
  contract : Λ → Contract ι ρ σ
  post : Λ → α → σ → Prop
  invariant : σ → Prop
  /-- Two operations that may be under way together. -/
  compatible : Λ → Λ → Prop
  answers_eq : ∀ label, (contract label).answers = S.answers
  rely_refl : ∀ label s, (contract label).rely s s
  rely_trans : ∀ label s t u, (contract label).rely s t → (contract label).rely t u →
    (contract label).rely s u
  /-- What one guarantees the other relies on. -/
  fit : ∀ label other, compatible label other → ∀ s t, invariant s →
    (contract other).guarantee s t → (contract label).rely s t
  compatible_symm : ∀ label other, compatible label other → compatible other label
  starts_compatible : ∀ label s running, S.starts label s running →
    ∀ other ∈ running, compatible label other
  starts_ensures : ∀ label s running, invariant s → S.starts label s running →
    (S.program label).Ensures (contract label) (post label) s
  invariant_guarantee : ∀ label s t, invariant s → (contract label).guarantee s t → invariant t
  invariant_reset : ∀ s t, invariant s → S.resets s t → invariant t
  post_guarantee : ∀ label other value s t, invariant s → post label value s →
    (contract other).guarantee s t → post label value t
  post_reset : ∀ label value s t, invariant s → post label value s → S.resets s t →
    post label value t

namespace Contracts

variable {S : Schedule Λ ι ρ α σ}

/-- Two programs that are both under way are of compatible operations. -/
def Fits (K : S.Contracts) (a b : Thread Λ ι ρ α) : Prop :=
  a.program.isDone = false → b.program.isDone = false → K.compatible a.label b.label

/-- Every program keeps its contract. -/
structure Holds (K : S.Contracts) (s : Threads Λ ι ρ α σ) : Prop where
  invariant : K.invariant s.state
  ensures : ∀ thread ∈ s.threads,
    thread.program.Ensures (K.contract thread.label) (K.post thread.label) s.state
  fits : s.threads.Pairwise K.Fits

variable {K : S.Contracts}

/-- A program next to the one that makes a call. -/
theorem ensures_beside {thread other : Thread Λ ι ρ α} {s t : σ} (hinv : K.invariant s)
    (h : thread.program.Ensures (K.contract thread.label) (K.post thread.label) s)
    (hfits : K.Fits thread other) (hother : other.program.isDone = false)
    (hguarantee : (K.contract other.label).guarantee s t) :
    thread.program.Ensures (K.contract thread.label) (K.post thread.label) t := by
  obtain ⟨label, program⟩ := thread
  cases program with
  | done value => exact K.post_guarantee label other.label value s t hinv h hguarantee
  | call request resume =>
    have hrely := K.fit label other.label (hfits rfl hother) s t hinv hguarantee
    exact fun u hu => h u (K.rely_trans label s t u hrely hu)

theorem Fits.symm {a b : Thread Λ ι ρ α} (h : K.Fits a b) : K.Fits b a := fun hb ha =>
  K.compatible_symm _ _ (h ha hb)

variable {s : Threads Λ ι ρ α σ}

theorem Holds.start (h : K.Holds s) {label : Λ} (hstarts : S.starts label s.state s.running) :
    K.Holds { s with threads := s.threads ++ [⟨label, S.program label⟩] } := by
  refine ⟨h.invariant, fun thread hthread => ?_, ?_⟩
  · rcases List.mem_append.mp hthread with hold | hnew
    · exact h.ensures thread hold
    · cases List.mem_singleton.mp hnew
      exact K.starts_ensures label s.state s.running h.invariant hstarts
  · refine List.pairwise_append.mpr ⟨h.fits, List.pairwise_singleton _ _, ?_⟩
    intro thread hthread other hother hrunning hnew
    cases List.mem_singleton.mp hother
    refine K.compatible_symm _ _ (K.starts_compatible label s.state s.running hstarts _ ?_)
    exact List.mem_map_of_mem (List.mem_filter.mpr ⟨hthread, by simp [hrunning]⟩)

theorem Holds.call (h : K.Holds s) {before after : List (Thread Λ ι ρ α)} {label : Λ}
    {request : ι} {resume : ρ request → Prog ι ρ α} {answer : ρ request} {t : σ}
    (hthreads : s.threads = before ++ ⟨label, .call request resume⟩ :: after)
    (hanswer : S.answers request s.state answer t) :
    K.Holds ⟨t, before ++ ⟨label, resume answer⟩ :: after⟩ := by
  have hensures := h.ensures
  have hfits := h.fits
  rw [hthreads] at hensures hfits
  obtain ⟨hbefore, hafter, hcross⟩ := List.pairwise_append.mp hfits
  obtain ⟨hhead, hafter⟩ := List.pairwise_cons.mp hafter
  have hself := hensures ⟨label, .call request resume⟩ (by simp)
  obtain ⟨-, hcall⟩ := hself s.state (K.rely_refl label s.state)
  obtain ⟨hguarantee, hresume⟩ := hcall answer t (by rw [K.answers_eq]; exact hanswer)
  refine ⟨K.invariant_guarantee label _ _ h.invariant hguarantee, fun thread hthread => ?_, ?_⟩
  · rcases List.mem_append.mp hthread with hmem | hmem
    · exact ensures_beside h.invariant (hensures thread (by simp [hmem]))
        (hcross thread hmem _ List.mem_cons_self) rfl hguarantee
    rcases List.mem_cons.mp hmem with rfl | hmem
    · exact hresume
    · exact ensures_beside h.invariant (hensures thread (by simp [hmem])) (hhead thread hmem).symm
        rfl hguarantee
  · -- The program keeps its label, and its next state counts as under way only if it did before.
    refine List.pairwise_append.mpr ⟨hbefore, List.pairwise_cons.mpr ⟨?_, hafter⟩, ?_⟩
    · intro other hother _ hrunning
      exact hhead other hother rfl hrunning
    · intro thread hthread other hother hrunning hother'
      rcases List.mem_cons.mp hother with rfl | hmem
      · have hfit : K.Fits thread ⟨label, .call request resume⟩ :=
          hcross thread hthread _ List.mem_cons_self
        exact hfit hrunning rfl
      · exact hcross thread hthread other (List.mem_cons_of_mem _ hmem) hrunning hother'

variable {t : Threads Λ ι ρ α σ}

theorem Holds.step (h : K.Holds s) (hstep : S.Step s t) : K.Holds t := by
  cases hstep with
  | start label hstarts => exact h.start hstarts
  | call before after label request resume answer t hthreads hanswer => exact h.call hthreads hanswer
  | drop before after label request resume hthreads hinterruptible =>
    have hsub : (before ++ after).Sublist s.threads := by
      rw [hthreads]
      exact List.Sublist.append_left (List.sublist_cons_self _ _) _
    exact ⟨h.invariant, fun thread hthread => h.ensures thread (hsub.subset hthread),
      h.fits.sublist hsub⟩
  | reset t hreset =>
    refine ⟨K.invariant_reset _ _ h.invariant hreset, fun thread hthread => ?_,
      h.fits.sublist List.filter_sublist⟩
    obtain ⟨hmem, hdone⟩ := List.mem_filter.mp hthread
    have hensures := h.ensures thread hmem
    obtain ⟨label, program⟩ := thread
    cases program with
    | done value => exact K.post_reset label value _ _ h.invariant hensures hreset
    | call request resume => cases hdone

/-- Every program keeps its contract in every run. -/
theorem holds_of_reachable (K : S.Contracts) {origin : σ} (hinit : K.invariant origin)
    (hs : (S.runs origin).Reachable s) : K.Holds s := by
  refine TransitionSystem.Reachable.invariant ?_ ?_ hs
  · rintro s rfl
    exact ⟨hinit, nofun, List.Pairwise.nil⟩
  · intro s t _ h hstep
    exact h.step hstep

/-- What the calls of every program do to the state, in one step. -/
theorem Holds.step_state {R : σ → σ → Prop} (hrefl : ∀ s, R s s)
    (hguarantee : ∀ label s t, K.invariant s → (K.contract label).guarantee s t → R s t)
    (hreset : ∀ s t, K.invariant s → S.resets s t → R s t) (h : K.Holds s) (hstep : S.Step s t) :
    R s.state t.state := by
  cases hstep with
  | start label hstarts => exact hrefl _
  | call before after label request resume answer t hthreads hanswer =>
    have hself := h.ensures ⟨label, .call request resume⟩ (by rw [hthreads]; simp)
    obtain ⟨-, hcall⟩ := hself s.state (K.rely_refl label s.state)
    exact hguarantee label _ _ h.invariant (hcall answer t (by rw [K.answers_eq]; exact hanswer)).1
  | drop before after label request resume hthreads hinterruptible => exact hrefl _
  | reset t hresets => exact hreset _ _ h.invariant hresets

/-- What a run does to the state. -/
theorem Holds.path_state {R : σ → σ → Prop} (hrefl : ∀ s, R s s)
    (htrans : ∀ s t u, R s t → R t u → R s u)
    (hguarantee : ∀ label s t, K.invariant s → (K.contract label).guarantee s t → R s t)
    (hreset : ∀ s t, K.invariant s → S.resets s t → R s t) {origin : σ} (h : K.Holds s)
    (hpath : (S.runs origin).Path s t) : R s.state t.state := by
  suffices hboth : K.Holds t ∧ R s.state t.state from hboth.2
  induction hpath with
  | refl => exact ⟨h, hrefl _⟩
  | tail _ hstep ih =>
    exact ⟨ih.1.step hstep, htrans _ _ _ ih.2 (ih.1.step_state hrefl hguarantee hreset hstep)⟩

/-- The end of a program. -/
theorem Holds.post (h : K.Holds s) {label : Λ} {value : α}
    (hthread : ⟨label, .done value⟩ ∈ s.threads) : K.post label value s.state :=
  h.ensures _ hthread

end Contracts

end Schedule
