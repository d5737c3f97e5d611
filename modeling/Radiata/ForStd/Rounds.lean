import Mathlib.Data.List.ReduceOption

/-!
# Rounds over a list

A walker takes the items of a list in rounds, one at each turn. In the middle of a round every
turn takes the next item. Between two rounds a turn starts the next one if it is kicked or after
`patience` turns at rest, and rests otherwise.

## Key results

- `Rounds.taken_prefix`: what is taken is the rest of the round and then whole rounds
- `Rounds.covers` / `Rounds.taken_covers`: every window of some length holds a whole round
-/

namespace Rounds

/-- What is left of the round, and the turns at rest since the last item. -/
structure State (α : Type) where
  rest : List α
  idle : Nat

variable {α : Type}

/-- One turn, and the item it takes. -/
def turn (items : List α) (patience : Nat) (state : State α) (kick : Bool) : Option α × State α :=
  match state.rest with
  | item :: rest => (some item, ⟨rest, 0⟩)
  | [] =>
    if kick || decide (patience ≤ state.idle) then (items.head?, ⟨items.tail, 0⟩)
    else (none, ⟨[], state.idle + 1⟩)

/-- What the turns take. -/
def run (items : List α) (patience : Nat) : State α → List Bool → List (Option α)
  | _, [] => []
  | state, kick :: kicks =>
    (turn items patience state kick).1 ::
      run items patience (turn items patience state kick).2 kicks

variable {items : List α} {patience : Nat}

theorem turn_cons (item : α) (rest : List α) (idle : Nat) (kick : Bool) :
    turn items patience ⟨item :: rest, idle⟩ kick = (some item, ⟨rest, 0⟩) := rfl

theorem turn_start {idle : Nat} {kick : Bool} (h : kick = true ∨ patience ≤ idle) :
    turn items patience ⟨[], idle⟩ kick = (items.head?, ⟨items.tail, 0⟩) := by
  have hdue : (kick || decide (patience ≤ idle)) = true := by simpa using h
  simp [turn, hdue]

theorem turn_rest {idle : Nat} (h : idle < patience) :
    turn items patience ⟨[], idle⟩ false = (none, ⟨[], idle + 1⟩) := by
  simp [turn, Nat.not_le.mpr h]

/-- What is left after a turn was left before, or is of the next round. -/
theorem mem_rest_turn {state : State α} {kick : Bool} {a : α}
    (h : a ∈ (turn items patience state kick).2.rest) : a ∈ state.rest ∨ a ∈ items := by
  obtain ⟨rest, idle⟩ := state
  cases rest with
  | cons item rest => exact Or.inl (List.mem_cons_of_mem item h)
  | nil =>
    by_cases hdue : kick = true ∨ patience ≤ idle
    · rw [turn_start hdue] at h
      exact Or.inr (List.mem_of_mem_tail h)
    · rw [not_or, Bool.not_eq_true, Nat.not_le] at hdue
      rw [hdue.1, turn_rest hdue.2] at h
      cases h

/-- The rest of a round is taken item by item. -/
theorem run_rest_zero (items : List α) (patience : Nat) (rest : List α) (kicks : List Bool)
    (h : rest.length ≤ kicks.length) :
    run items patience ⟨rest, 0⟩ kicks =
      rest.map some ++ run items patience ⟨[], 0⟩ (kicks.drop rest.length) := by
  induction rest generalizing kicks with
  | nil => rfl
  | cons item rest ih =>
    cases kicks with
    | nil => simp at h
    | cons kick kicks =>
      rw [run, turn_cons, ih kicks (by simpa using h)]
      rfl

theorem run_rest (items : List α) (patience : Nat) (rest : List α) (idle : Nat)
    (kicks : List Bool) (h : rest.length ≤ kicks.length) :
    ∃ idle', run items patience ⟨rest, idle⟩ kicks =
      rest.map some ++ run items patience ⟨[], idle'⟩ (kicks.drop rest.length) := by
  cases rest with
  | nil => exact ⟨idle, rfl⟩
  | cons item rest =>
    cases kicks with
    | nil => simp at h
    | cons kick kicks =>
      refine ⟨0, ?_⟩
      rw [run, turn_cons, run_rest_zero items patience rest kicks (by simpa using h)]
      rfl

/-- From rest, a whole round is taken within the patience that is left and its own length. -/
theorem run_start (hitems : items ≠ []) (idle : Nat) (kicks : List Bool)
    (h : (patience - idle) + items.length ≤ kicks.length) :
    ∃ before after, run items patience ⟨[], idle⟩ kicks = before ++ items.map some ++ after := by
  obtain ⟨item, rest, rfl⟩ := List.exists_cons_of_ne_nil hitems
  induction kicks generalizing idle with
  | nil => simp at h
  | cons kick kicks ih =>
    by_cases hdue : kick = true ∨ patience ≤ idle
    · have hlength : rest.length ≤ kicks.length := by
        simp only [List.length_cons] at h
        omega
      obtain ⟨idle', hrun⟩ := run_rest (item :: rest) patience rest 0 kicks hlength
      refine ⟨[], run (item :: rest) patience ⟨[], idle'⟩ (kicks.drop rest.length), ?_⟩
      rw [run, turn_start hdue, List.tail_cons, hrun]
      rfl
    · rw [not_or, Bool.not_eq_true, Nat.not_le] at hdue
      obtain ⟨before, after, hrun⟩ := ih (idle + 1) (by
        simp only [List.length_cons] at h ⊢
        omega)
      refine ⟨none :: before, after, ?_⟩
      rw [run, hdue.1, turn_rest hdue.2, hrun]
      rfl

/-- Every window that is long enough holds a whole round. -/
theorem covers (hitems : items ≠ []) (state : State α) (kicks : List Bool)
    (h : state.rest.length + patience + items.length ≤ kicks.length) :
    ∃ before after, run items patience state kicks = before ++ items.map some ++ after := by
  obtain ⟨rest, idle⟩ := state
  simp only at h
  obtain ⟨idle', hrest⟩ := run_rest items patience rest idle kicks (by omega)
  have hroom : patience - idle' + items.length ≤ (kicks.drop rest.length).length := by
    rw [List.length_drop]
    omega
  obtain ⟨before, after, hstart⟩ := run_start hitems idle' (kicks.drop rest.length) hroom
  refine ⟨rest.map some ++ before, after, ?_⟩
  rw [hrest, hstart, List.append_assoc, List.append_assoc, List.append_assoc]

/-- What is taken in a window that is long enough holds every item in order. -/
theorem taken_covers (hitems : items ≠ []) (state : State α) (kicks : List Bool)
    (h : state.rest.length + patience + items.length ≤ kicks.length) :
    items <:+: (run items patience state kicks).reduceOption := by
  obtain ⟨before, after, hrun⟩ := covers hitems state kicks h
  refine ⟨before.reduceOption, after.reduceOption, ?_⟩
  have hround : (items.map some).reduceOption = items := by
    simp [List.reduceOption]
  rw [hrun, List.reduceOption_append, List.reduceOption_append, hround]

/-- What is taken is the rest of the round and then whole rounds, the last of which may be cut. -/
theorem taken_prefix (state : State α) (kicks : List Bool) :
    ∃ rounds, (run items patience state kicks).reduceOption <+:
      state.rest ++ (List.replicate rounds items).flatten := by
  induction kicks generalizing state with
  | nil => exact ⟨0, List.nil_prefix⟩
  | cons kick kicks ih =>
    obtain ⟨rest, idle⟩ := state
    cases rest with
    | cons item rest =>
      obtain ⟨rounds, hprefix⟩ := ih ⟨rest, 0⟩
      refine ⟨rounds, ?_⟩
      rw [run, turn_cons, List.reduceOption_cons_of_some, List.cons_append, List.cons_prefix_cons]
      exact ⟨rfl, hprefix⟩
    | nil =>
      by_cases hdue : kick = true ∨ patience ≤ idle
      · obtain ⟨rounds, hprefix⟩ := ih ⟨items.tail, 0⟩
        refine ⟨rounds + 1, ?_⟩
        rw [run, turn_start hdue, List.replicate_succ, List.flatten_cons, List.nil_append]
        cases items with
        | nil => exact hprefix
        | cons item rest =>
          rw [List.head?_cons, List.reduceOption_cons_of_some, List.cons_append,
            List.cons_prefix_cons]
          exact ⟨rfl, hprefix⟩
      · rw [not_or, Bool.not_eq_true, Nat.not_le] at hdue
        obtain ⟨rounds, hprefix⟩ := ih ⟨[], idle + 1⟩
        refine ⟨rounds, ?_⟩
        rw [run, hdue.1, turn_rest hdue.2, List.reduceOption_cons_of_none]
        exact hprefix

end Rounds
