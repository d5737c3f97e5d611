import Mathlib.Data.List.Forall2

/-!
# Fallible computations

Guards and traversals of `Except`: a sequence of guards succeeds exactly when every
guarded condition holds, and a traversal exactly when every element succeeds.

## Key results

- `Except.bind_eq_ok`: a sequence succeeds exactly when both parts do
- `Except.rejectIf_eq_ok`: what a passed guard says
- `Except.forM_eq_ok` / `Except.mapM_eq_ok` / `Except.option_mapM_eq_ok`: traversals
-/

namespace Except

variable {ε α β : Type}

variable {f : α → Except ε β}

theorem bind_eq_ok {x : Except ε α} {b : β} :
    (x >>= f) = .ok b ↔ ∃ a, x = .ok a ∧ f a = .ok b := by
  cases x with
  | error e => simp [bind, Except.bind]
  | ok a => simp [bind, Except.bind]

/-- A sequence whose first part returns nothing. -/
theorem seq_eq_ok {x : Except ε Unit} {y : Unit → Except ε β} {b : β} :
    (x >>= y) = .ok b ↔ x = .ok () ∧ y () = .ok b := by
  rw [bind_eq_ok]
  exact ⟨fun ⟨_, hx, hy⟩ => ⟨hx, hy⟩, fun ⟨hx, hy⟩ => ⟨(), hx, hy⟩⟩

/-- A sequence avoids an error that neither part makes. -/
theorem bind_ne_error {x : Except ε α} {e : ε} (hx : x ≠ .error e)
    (hf : ∀ a, x = .ok a → f a ≠ .error e) : (x >>= f) ≠ .error e := by
  cases x with
  | error e' =>
    intro h
    exact hx (congrArg Except.error (Except.error.inj h))
  | ok a => exact hf a rfl

theorem pure_eq (a : α) : (pure a : Except ε α) = .ok a := rfl

theorem ok_bind_eq (a : α) (f : α → Except ε β) : (Except.ok a >>= f) = f a := rfl

theorem error_bind_eq (e : ε) (f : α → Except ε β) :
    ((Except.error e : Except ε α) >>= f) = .error e := rfl

/-- The early return of a guard: the error if the condition holds. -/
def rejectIf (p : Prop) [Decidable p] (e : ε) : Except ε Unit := if p then .error e else .ok ()

theorem rejectIf_eq_ok {p : Prop} [Decidable p] {e : ε} {u : Unit} :
    rejectIf p e = .ok u ↔ ¬ p := by
  unfold rejectIf
  split
  · rename_i hp
    exact ⟨fun h => (by cases h), fun h => absurd hp h⟩
  · rename_i hp
    exact ⟨fun _ => hp, fun _ => rfl⟩

theorem rejectIf_of_not {p : Prop} [Decidable p] (e : ε) (h : ¬ p) : rejectIf p e = .ok () :=
  rejectIf_eq_ok.mpr h

/-- The value of an option, or the error. -/
def okOr (e : ε) : Option α → Except ε α
  | some a => .ok a
  | none => .error e

theorem okOr_eq_ok {e : ε} {x : Option α} {a : α} : okOr e x = .ok a ↔ x = some a := by
  cases x with
  | none => exact ⟨fun h => (by cases h), fun h => (by cases h)⟩
  | some b => simp [okOr]

/-- A traversal of an option. -/
theorem option_mapM_eq_ok {x : Option α} {y : Option β} :
    x.mapM f = .ok y ↔ Option.Rel (fun a b => f a = .ok b) x y := by
  cases x with
  | none =>
    constructor
    · intro h
      cases h
      exact .none
    · intro h
      cases h
      rfl
  | some a =>
    rw [Option.mapM_some]
    constructor
    · intro h
      cases hf : f a with
      | error e =>
        rw [hf] at h
        cases h
      | ok b =>
        rw [hf] at h
        cases h
        exact .some hf
    · intro h
      cases h with
      | some hf =>
        rw [hf]
        rfl

@[simp] theorem mapError_eq_ok {ε' : Type} {f : ε → ε'} {x : Except ε α} {a : α} :
    x.mapError f = .ok a ↔ x = .ok a := by
  cases x <;> simp [Except.mapError]

variable {xs : List α}

theorem forM_eq_ok {f : α → Except ε Unit} {u : Unit} :
    xs.forM f = .ok u ↔ ∀ x ∈ xs, f x = .ok () := by
  induction xs with
  | nil => exact ⟨fun _ x hx => (by cases hx), fun _ => rfl⟩
  | cons x xs ih =>
    have hstep : (x :: xs).forM f = (f x >>= fun _ => xs.forM f) := rfl
    rw [hstep, seq_eq_ok, ih, List.forall_mem_cons]

/-- A traversal succeeds exactly when every element does, in order. -/
theorem mapM_eq_ok {ys : List β} :
    xs.mapM f = .ok ys ↔ List.Forall₂ (fun x y => f x = .ok y) xs ys := by
  induction xs generalizing ys with
  | nil =>
    rw [List.mapM_nil, List.forall₂_nil_left_iff]
    exact ⟨fun h => (Except.ok.inj h).symm, fun h => by rw [h]; rfl⟩
  | cons x xs ih =>
    rw [List.mapM_cons, bind_eq_ok]
    constructor
    · rintro ⟨y, hy, hrest⟩
      obtain ⟨ys', hys', hcons⟩ := bind_eq_ok.mp hrest
      cases hcons
      exact .cons hy (ih.mp hys')
    · rintro (_ | ⟨hy, hrest⟩)
      exact ⟨_, hy, bind_eq_ok.mpr ⟨_, ih.mpr hrest, rfl⟩⟩

theorem exists_mapM_eq_ok (h : ∀ x ∈ xs, ∃ y, f x = .ok y) :
    ∃ ys, xs.mapM f = .ok ys := by
  induction xs with
  | nil => exact ⟨[], rfl⟩
  | cons x xs ih =>
    obtain ⟨y, hy⟩ := h x (List.mem_cons_self ..)
    obtain ⟨ys, hys⟩ := ih fun z hz => h z (List.mem_cons_of_mem x hz)
    exact ⟨y :: ys, mapM_eq_ok.mpr (.cons hy (mapM_eq_ok.mp hys))⟩

/-- An invariant of a fallible fold. -/
theorem foldlM_invariant {σ : Type} {f : σ → α → Except ε σ} {P : σ → Prop}
    (hstep : ∀ s x t, x ∈ xs → P s → f s x = .ok t → P t) {s t : σ} (hs : P s)
    (h : xs.foldlM f s = .ok t) : P t := by
  induction xs generalizing s with
  | nil =>
    cases h
    exact hs
  | cons x xs ih =>
    rw [List.foldlM_cons, bind_eq_ok] at h
    obtain ⟨s', hs', hrest⟩ := h
    refine ih (fun s y t hy => hstep s y t (List.mem_cons_of_mem x hy)) ?_ hrest
    exact hstep s x s' (List.mem_cons_self ..) hs hs'

/-- An invariant of a fold and what each of its steps establishes of its element. -/
theorem foldlM_forall {σ : Type} {f : σ → α → Except ε σ} {P : σ → Prop} {Q : α → Prop}
    (hstep : ∀ s, ∀ x ∈ xs, ∀ t, P s → f s x = .ok t → P t ∧ Q x) {s t : σ} (hs : P s)
    (h : xs.foldlM f s = .ok t) : P t ∧ ∀ x ∈ xs, Q x := by
  induction xs generalizing s with
  | nil =>
    cases h
    exact ⟨hs, by simp⟩
  | cons x xs ih =>
    obtain ⟨next, hnext, hrest⟩ := bind_eq_ok.mp h
    obtain ⟨hP, hQ⟩ := hstep s x (List.mem_cons_self ..) next hs hnext
    obtain ⟨hlast, hall⟩ := ih (fun s y hy => hstep s y (List.mem_cons_of_mem x hy)) hP hrest
    exact ⟨hlast, List.forall_mem_cons.mpr ⟨hQ, hall⟩⟩

/-- A fold along an invariant avoids an error that no step of it makes. -/
theorem foldlM_ne_error {σ : Type} {f : σ → α → Except ε σ} {P : σ → Prop} {e : ε}
    (hstep : ∀ s x, x ∈ xs → P s → f s x ≠ .error e ∧ ∀ t, f s x = .ok t → P t) {s : σ} (hs : P s) :
    xs.foldlM f s ≠ .error e := by
  induction xs generalizing s with
  | nil => exact fun h => (by cases h)
  | cons x xs ih =>
    obtain ⟨hne, hnext⟩ := hstep s x (List.mem_cons_self ..) hs
    rw [List.foldlM_cons]
    refine bind_ne_error hne ?_
    intro t ht
    exact ih (fun s y hy => hstep s y (List.mem_cons_of_mem x hy)) (hnext t ht)

/-- A traversal avoids an error that no element makes. -/
theorem mapM_ne_error {f : α → Except ε β} {e : ε} (h : ∀ x ∈ xs, f x ≠ .error e) :
    xs.mapM f ≠ .error e := by
  induction xs with
  | nil => exact fun h => (by cases h)
  | cons x xs ih =>
    rw [List.mapM_cons]
    refine bind_ne_error (h x (List.mem_cons_self ..)) fun _ _ => ?_
    exact bind_ne_error (ih fun y hy => h y (List.mem_cons_of_mem x hy)) fun _ _ => nofun

/-- A fold succeeds along an invariant under which every step does. -/
theorem exists_foldlM_eq_ok {σ : Type} {f : σ → α → Except ε σ} {P : σ → Prop}
    (hstep : ∀ s x, x ∈ xs → P s → ∃ t, f s x = .ok t ∧ P t) {s : σ} (hs : P s) :
    ∃ t, xs.foldlM f s = .ok t ∧ P t := by
  induction xs generalizing s with
  | nil => exact ⟨s, rfl, hs⟩
  | cons x xs ih =>
    obtain ⟨s', hs', hnext⟩ := hstep s x (List.mem_cons_self ..) hs
    obtain ⟨t, ht, hlast⟩ := ih (fun s y hy => hstep s y (List.mem_cons_of_mem x hy)) hnext
    exact ⟨t, by rw [List.foldlM_cons, hs']; exact ht, hlast⟩

end Except
