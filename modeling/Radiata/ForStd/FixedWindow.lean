import Mathlib.Data.List.Basic

/-!
# Fixed windows

A fixed-window meter counts events in windows of a fixed span, one after the other: a window
opens with the first event after the last one is over and admits a limited number of events.
An admitted event is kept as its time with the start of the window that counted it.

## Key results

- `WindowEntry.Bounded`: each window holds its own events, a limited number of them, and windows
  do not overlap
- `WindowEntry.Tracks`: the open window has counted at least the events admitted in it
- `Tracks.admit` / `Tracks.refuse` / `Bounded.open`: what a meter does keeps them
-/

/-- An event with the start of the window that counted it. -/
structure WindowEntry where
  time : Nat
  start : Nat

namespace WindowEntry

/-- The number of events of the window that starts at `start`. -/
def inWindow (start : Nat) (entries : List WindowEntry) : Nat :=
  entries.countP fun entry => entry.start = start

/-- The events fit in windows of `span` that admit `limit` events each. -/
structure Bounded (span limit : Nat) (entries : List WindowEntry) : Prop where
  inside : ∀ entry ∈ entries, entry.start ≤ entry.time ∧ entry.time < entry.start + span
  apart : ∀ a ∈ entries, ∀ b ∈ entries, a.start < b.start → a.start + span ≤ b.start
  limited : ∀ start, inWindow start entries ≤ limit

/-- The window that starts at `start` is the last one and has counted `count` events. -/
structure Tracks (span limit start count : Nat) (entries : List WindowEntry) : Prop
    extends Bounded span limit entries where
  before : ∀ entry ∈ entries, entry.start = start ∨ entry.start + span ≤ start
  counted : inWindow start entries ≤ count
  room : count ≤ limit

variable {span limit start count : Nat} {entries : List WindowEntry}

theorem Bounded.nil : Bounded span limit [] :=
  ⟨nofun, nofun, fun _ => Nat.zero_le _⟩

theorem inWindow_cons (start : Nat) (entry : WindowEntry) (entries : List WindowEntry) :
    inWindow start (entry :: entries) =
      inWindow start entries + if entry.start = start then 1 else 0 := by
  simp [inWindow, List.countP_cons]

theorem inWindow_eq_zero {start : Nat} (h : ∀ entry ∈ entries, entry.start ≠ start) :
    inWindow start entries = 0 := by
  rw [inWindow, List.countP_eq_zero]
  simpa using h

/-- A window opens when all earlier ones are over. -/
theorem Bounded.open {now : Nat} (h : Bounded span limit entries) (hspan : 0 < span)
    (hover : ∀ entry ∈ entries, entry.start + span ≤ now) : Tracks span limit now 0 entries where
  toBounded := h
  before := fun entry hmem => Or.inr (hover entry hmem)
  counted := by
    have hzero : inWindow now entries = 0 := by
      apply inWindow_eq_zero
      intro entry hmem
      have := hover entry hmem
      omega
    exact Nat.le_of_eq hzero
  room := Nat.zero_le _

/-- The open window is over. -/
theorem Tracks.reopen {now : Nat} (h : Tracks span limit start count entries) (hspan : 0 < span)
    (hover : start + span ≤ now) : Tracks span limit now 0 entries := by
  refine h.toBounded.open hspan fun entry hmem => ?_
  rcases h.before entry hmem with heq | hle <;> omega

/-- An event is counted that is not admitted after all. -/
theorem Tracks.refuse (h : Tracks span limit start count entries) (hroom : count < limit) :
    Tracks span limit start (count + 1) entries :=
  ⟨h.toBounded, h.before, Nat.le_succ_of_le h.counted, hroom⟩

/-- An event is admitted in the open window. -/
theorem Tracks.admit {now : Nat} (h : Tracks span limit start count entries)
    (hroom : count < limit) (hstart : start ≤ now) (hnow : now < start + span) :
    Tracks span limit start (count + 1) (⟨now, start⟩ :: entries) where
  inside := by
    intro entry hmem
    rcases List.mem_cons.mp hmem with rfl | hmem
    · exact ⟨hstart, hnow⟩
    · exact h.inside entry hmem
  apart := by
    intro a ha b hb hlt
    rcases List.mem_cons.mp ha with rfl | ha <;> rcases List.mem_cons.mp hb with rfl | hb
    · exact absurd hlt (Nat.lt_irrefl _)
    · -- nothing is counted in a later window than the open one
      have := h.before b hb
      simp only at hlt
      omega
    · have := h.before a ha
      simp only at hlt ⊢
      omega
    · exact h.apart a ha b hb hlt
  limited := by
    intro other
    rw [inWindow_cons]
    by_cases heq : start = other
    · subst heq
      have := h.counted
      simp only [if_true]
      omega
    · simpa [heq] using h.limited other
  before := by
    intro entry hmem
    rcases List.mem_cons.mp hmem with rfl | hmem
    · exact Or.inl rfl
    · exact h.before entry hmem
  counted := by
    have := h.counted
    rw [inWindow_cons]
    simp only [if_true]
    omega
  room := hroom

end WindowEntry
