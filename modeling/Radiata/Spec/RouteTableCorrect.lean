import Radiata.Native.RouteTable

/-!
# What the table of route records keeps

A table of the configured capacity keeps a record that is not terminal for the packet it was
inserted for, and keeps a failed record failed, unless a step breaks one of two rules: an
insertion may only replace a record of its own packet or one that was delivered, and a rejection
may only add a record where one fits. The code checks neither, so a run keeps its promises
exactly when each of its steps meets them.

## Key results

- `RouteTable.insertRoute_cases`: what `insert_route` does
- `TableRun.Keeps` / `TableRun.Accepts`: what a step keeps, and the two rules
- `TableRun.keeps_iff_accepts`: a step keeps it exactly when it meets the rules
- `route_table_kept_iff`: the same over whole runs
- `rejections_exceed_capacity`: two rejected openings in a table of capacity one
-/

namespace Radiata

namespace RouteTable

/-- The evicted record is in the table and terminal. -/
theorem oldest_eq_some {table : RouteTable} {trace : TraceId} {record : RouteRecord}
    (h : table.oldest = some (trace, record)) :
    table.get trace = some record ∧ record.state.terminal = true := by
  have hmem := List.argmin_mem h
  rw [List.mem_filter, SortedMap.mem_toList_iff] at hmem
  exact hmem

/-- An insertion replaces the record of its trace id, finds a free place, takes the place of a
    terminal record, or fails. -/
theorem insertRoute_cases (table : RouteTable) (capacity : Nat) (record : RouteRecord) :
    (((table.get record.traceId).isSome ∨ table.size < capacity) ∧
      table.insertRoute capacity record = .ok (table.insert record.traceId record)) ∨
    (table.get record.traceId = none ∧ capacity ≤ table.size ∧ ∃ trace old,
      table.get trace = some old ∧ old.state.terminal = true ∧
      table.insertRoute capacity record = .ok ((table.erase trace).insert record.traceId record)) ∨
    (table.get record.traceId = none ∧ capacity ≤ table.size ∧
      ∃ e, table.insertRoute capacity record = .error e) := by
  unfold insertRoute SortedMap.contains
  by_cases hfull : (!(table.get record.traceId).isSome && decide (capacity ≤ table.size)) = true
  · have hnone : table.get record.traceId = none ∧ capacity ≤ table.size := by
      simpa using hfull
    rw [if_pos hfull]
    cases hold : table.oldest with
    | none => exact Or.inr (Or.inr ⟨hnone.1, hnone.2, _, rfl⟩)
    | some entry =>
      obtain ⟨hget, hterminal⟩ := @oldest_eq_some table entry.1 entry.2 hold
      exact Or.inr (Or.inl ⟨hnone.1, hnone.2, entry.1, entry.2, hget, hterminal, rfl⟩)
  · rw [if_neg hfull]
    refine Or.inl ⟨?_, rfl⟩
    by_cases hlt : table.size < capacity
    · exact Or.inr hlt
    · have hle : capacity ≤ table.size := Nat.le_of_not_lt hlt
      simp only [hle, decide_true, Bool.and_true, Bool.not_eq_true', Bool.not_eq_false] at hfull
      exact Or.inl hfull

/-- An update changes the record of its trace id unless it has failed. -/
theorem updateRoute_cases (table : RouteTable) (trace : TraceId)
    (update : RouteRecord → RouteRecord) :
    table.updateRoute trace update = table ∨
    ∃ record, table.get trace = some record ∧ (∀ kind, record.state ≠ .failed kind) ∧
      table.updateRoute trace update = table.insert trace (update record) := by
  unfold updateRoute
  cases hget : table.get trace with
  | none => exact Or.inl rfl
  | some record =>
    cases hstate : record.state with
    | failed kind => exact Or.inl (by simp only [hstate])
    | _ =>
      refine Or.inr ⟨record, rfl, by simp [hstate], ?_⟩
      simp only [hstate]

end RouteTable

namespace TableRun

/-- A record that is not terminal is not evicted and not overwritten for another packet, and the
    state of a failed record stays until it is evicted. -/
structure Keeps (s t : TableRun) : Prop where
  active : ∀ trace record, s.table.get trace = some record → record.state.terminal = false →
    (∃ record', t.table.get trace = some record') ∧ t.owner trace = s.owner trace
  failed : ∀ trace record kind, s.table.get trace = some record → record.state = .failed kind →
    ∀ record', t.table.get trace = some record' → record'.state = .failed kind

/-- What an insertion finds under its trace id: nothing, a record of its own packet, a delivered
    one, or one that failed as the new one does. -/
def Replaces (s : TableRun) (packet : Nat) (record : RouteRecord) : Prop :=
  ∀ old, s.table.get record.traceId = some old →
    (old.state.terminal = false → s.owner record.traceId = some packet) ∧
    ∀ kind, old.state = .failed kind → record.state = .failed kind

/-- The rules for a step at a table of the configured capacity. -/
def Accepts (capacity : Nat) (s : TableRun) : RouteEvent → Prop
  | .insert packet trace selected now => s.Replaces packet (.new trace selected now)
  | .insertFailing packet trace now => s.Replaces packet (.failing trace now)
  | .update _ _ _ => True
  | .reject _ => True
  | .recordRejection i now => ∀ rejection, s.rejecting[i]? = some rejection →
      s.Replaces rejection.packet (rejection.record now) ∧
      (s.table.get rejection.trace = none → s.table.size < capacity ∨ usizeMax ≤ capacity)

theorem Keeps.refl (s : TableRun) : Keeps s s where
  active := fun _ record hget _ => ⟨⟨record, hget⟩, rfl⟩
  failed := by
    intro trace record kind hget hstate record' hget'
    rw [hget] at hget'
    cases hget'
    exact hstate

/-- An insertion under a trace id keeps what the rule says. -/
theorem keeps_insert_iff (s : TableRun) (capacity packet : Nat) (record : RouteRecord) :
    Keeps s (s.insert capacity packet record) ↔ s.Replaces packet record := by
  unfold insert
  rcases RouteTable.insertRoute_cases s.table capacity record with ⟨-, heq⟩ |
    ⟨hnone, -, trace, old, hold, hterminal, heq⟩ | ⟨hnone, -, e, heq⟩ <;> rw [heq]
  · constructor
    · intro hkeeps old hget
      constructor
      · intro hactive
        have howner := (hkeeps.active _ old hget hactive).2
        simpa using howner.symm
      · intro kind hfailed
        exact hkeeps.failed _ old kind hget hfailed record (SortedMap.get_insert_self ..)
    · intro hreplaces
      constructor
      · intro other old hget hactive
        by_cases hother : other = record.traceId
        · subst hother
          exact ⟨⟨record, SortedMap.get_insert_self ..⟩,
            by simp [(hreplaces old hget).1 hactive]⟩
        · exact ⟨⟨old, (SortedMap.get_insert_ne _ _ hother).trans hget⟩,
            Function.update_of_ne hother ..⟩
      · intro other old kind hget hfailed record' hget'
        by_cases hother : other = record.traceId
        · subst hother
          rw [SortedMap.get_insert_self] at hget'
          cases hget'
          exact (hreplaces old hget).2 kind hfailed
        · rw [SortedMap.get_insert_ne _ _ hother, hget] at hget'
          cases hget'
          exact hfailed
  · -- the evicted record is terminal, and nothing was under the trace id
    refine iff_of_true ⟨?_, ?_⟩ fun old hget => by rw [hnone] at hget; cases hget
    · intro other record' hget hactive
      have hother : other ≠ record.traceId := by
        rintro rfl
        rw [hnone] at hget
        cases hget
      have hkept : other ≠ trace := by
        rintro rfl
        rw [hold] at hget
        cases hget
        rw [hterminal] at hactive
        cases hactive
      refine ⟨⟨record', ?_⟩, Function.update_of_ne hother ..⟩
      rw [SortedMap.get_insert_ne _ _ hother, SortedMap.get_erase_ne _ hkept, hget]
    · intro other record' kind hget hfailed record'' hget'
      have hother : other ≠ record.traceId := by
        rintro rfl
        rw [hnone] at hget
        cases hget
      rw [SortedMap.get_insert_ne _ _ hother, SortedMap.get_erase] at hget'
      split at hget'
      · cases hget'
      · rw [hget] at hget'
        cases hget'
        exact hfailed
  · exact iff_of_true (Keeps.refl s) fun old hget => by rw [hnone] at hget; cases hget

/-- An insertion fits a table of `bound` records when it is made with a capacity within the bound
    or finds a place. -/
theorem size_insert_le_iff {s : TableRun} {bound : Nat} (hsize : s.table.size ≤ bound)
    (capacity packet : Nat) (record : RouteRecord) : (s.insert capacity packet record).table.size ≤ bound ↔
      (s.table.get record.traceId = none → s.table.size < bound ∨ capacity ≤ bound) := by
  unfold insert
  rcases RouteTable.insertRoute_cases s.table capacity record with ⟨hroom, heq⟩ |
    ⟨hnone, hfull, trace, old, hold, hterminal, heq⟩ | ⟨hnone, hfull, e, heq⟩ <;> rw [heq]
  · cases hget : s.table.get record.traceId with
    | some old =>
      simp only [SortedMap.size_insert_of_some _ _ hget, reduceCtorEq, false_implies, iff_true]
      exact hsize
    | none =>
      rw [hget] at hroom
      simp only [Option.isSome_none, Bool.false_eq_true, false_or] at hroom
      simp only [SortedMap.size_insert_of_none _ _ hget, true_implies]
      omega
  · have herased : (s.table.erase trace).get record.traceId = none := by
      rw [SortedMap.get_erase]
      split
      · rfl
      · exact hnone
    have hcount := SortedMap.size_erase_of_some _ hold
    simp only [SortedMap.size_insert_of_none _ _ herased]
    omega
  · simp only
    omega

/-- A step keeps the table exactly when it meets the rules. -/
theorem keeps_iff_accepts {s : TableRun} {capacity : Nat} (hsize : s.table.size ≤ capacity)
    (event : RouteEvent) :
    ((s.step capacity event).table.size ≤ capacity ∧ Keeps s (s.step capacity event)) ↔
      s.Accepts capacity event := by
  cases event with
  | insert packet trace selected now =>
    have hfits := (size_insert_le_iff hsize capacity packet (.new trace selected now)).mpr fun _ =>
      Or.inr (Nat.le_refl _)
    exact (and_iff_right hfits).trans (keeps_insert_iff ..)
  | insertFailing packet trace now =>
    have hfits := (size_insert_le_iff hsize capacity packet (.failing trace now)).mpr fun _ =>
      Or.inr (Nat.le_refl _)
    exact (and_iff_right hfits).trans (keeps_insert_iff ..)
  | update trace update now =>
    refine iff_of_true ?_ trivial
    unfold step
    simp only
    rcases RouteTable.updateRoute_cases s.table trace (update.apply now) with heq |
      ⟨record, hget, hopen, heq⟩ <;> rw [heq]
    · exact ⟨hsize, Keeps.refl s⟩
    · refine ⟨(SortedMap.size_insert_of_some _ _ hget).trans_le hsize, ?_, ?_⟩
      · intro other old hold _
        rw [← Option.isSome_iff_exists, SortedMap.get_insert, hold]
        exact ⟨by split <;> rfl, rfl⟩
      · intro other old kind hold hfailed record' hget'
        rw [SortedMap.get_insert] at hget'
        split at hget'
        · rename_i hother
          rw [hother, hget] at hold
          cases hold
          exact absurd hfailed (hopen kind)
        · rw [hold] at hget'
          cases hget'
          exact hfailed
  | reject rejection =>
    refine iff_of_true ?_ trivial
    unfold step
    simp only
    split
    · exact ⟨hsize, Keeps.refl s⟩
    · exact ⟨hsize, (Keeps.refl s).active, (Keeps.refl s).failed⟩
  | recordRejection i now =>
    cases hget : s.rejecting[i]? with
    | none =>
      simp only [step, Accepts, hget, reduceCtorEq, false_implies, implies_true, iff_true]
      exact ⟨hsize, Keeps.refl s⟩
    | some rejection =>
      have hfits := size_insert_le_iff hsize usizeMax rejection.packet (rejection.record now)
      have hkeeps := keeps_insert_iff s usizeMax rejection.packet (rejection.record now)
      simp only [step, Accepts, hget, Option.some.injEq, forall_eq']
      rw [and_comm, ← hkeeps]
      exact and_congr ⟨fun h => ⟨h.active, h.failed⟩, fun h => ⟨h.active, h.failed⟩⟩ hfits

end TableRun

open TableRun in
/-- In every run from an empty table: the table stays within its capacity and each step keeps its
    active and its failed records, exactly when each step meets the rules. -/
theorem route_table_kept_iff (capacity : Nat) (events : List RouteEvent) :
    EveryStep (step capacity) (fun s event => (s.step capacity event).table.size ≤ capacity ∧
      Keeps s (s.step capacity event)) start events ↔
    EveryStep (step capacity) (Accepts capacity) start events := by
  have hstart : (start.table.size ≤ capacity) := Nat.zero_le _
  refine @everyStep_iff _ _ _ _ _ (fun s => s.table.size ≤ capacity) ?_ ?_ start hstart events
  · intro s event hsize
    exact keeps_iff_accepts hsize event
  · intro s event _ hkept
    exact hkept.1

/-- Two openings with protocols that the node does not know. -/
def unknownOpenings : List RouteEvent :=
  let time : SystemTime := .unixEpoch
  let first : Rejection := ⟨1, .ofDigits 0 1, .unsupported⟩
  let second : Rejection := ⟨2, .ofDigits 0 2, .unsupported⟩
  [.reject first, .recordRejection 0 time, .reject second, .recordRejection 0 time]

open TableRun in
/-- Two rejected openings leave two records in a table of capacity one. -/
theorem rejections_exceed_capacity :
    (unknownOpenings.foldl (step 1) start).table.size = 2 ∧
    ¬ EveryStep (step 1) (fun s event => (s.step 1 event).table.size ≤ 1 ∧ Keeps s (s.step 1 event))
      start unknownOpenings := by
  have hsize : (unknownOpenings.foldl (step 1) start).table.size = 2 := by decide +kernel
  refine ⟨hsize, ?_⟩
  rintro ⟨-, -, -, ⟨hlast, -⟩, -⟩
  have hle : (unknownOpenings.foldl (step 1) start).table.size ≤ 1 := hlast
  omega

end Radiata
