import Radiata.Native.TraceSink
import Radiata.Spec.TraceSweep

/-!
# The live-record counter and the records

While the counter is at least the number of records, a count of zero means that there is none.
The counter starts at zero whatever is stored, a record whose outcome is unknown is not counted,
and a sweep may take more off than it has removed. Where none of this happens, and a record is
stored under a count of zero only together with its counting, the count covers the records in
every run.

## Key results

- `TraceCovered`: the invariant, also while a sweep goes on
- `traceCovered_of_step`: what every step keeps
- `trace_counter_sound`
-/

namespace Radiata

open Prog (Traced run)

variable [DnsName]

/-! ## The number of records -/

variable {store : Store EntryKey StoreValue}

theorem traceCount_eq_zero_iff :
    traceCount store = 0 ↔ ∀ key, inTraces key = true → store.lookup key = none := by
  unfold traceCount
  rw [List.length_eq_zero_iff]
  constructor
  · intro hnil key hkey
    cases hlookup : store.lookup key with
    | none => rfl
    | some value =>
      have hmem := Store.mem_scan.mpr ⟨hlookup, hkey⟩
      rw [hnil] at hmem
      cases hmem
  · exact Store.scan_eq_nil

/-- No key gets a record. -/
theorem traceCount_le {before after : Store EntryKey StoreValue}
    (h : ∀ key, inTraces key = true → (after.lookup key).isSome → (before.lookup key).isSome) :
    traceCount after ≤ traceCount before := by
  have hkeys : ((before.scan inTraces).map Prod.fst).length = traceCount before := List.length_map ..
  rw [← hkeys]
  refine Store.length_scan_le_of_keys fun key hkey hsome => ?_
  exact Store.mem_keys_scan.mpr ⟨h key hkey hsome, hkey⟩

theorem isSome_lookup_putTrace {key other : EntryKey} {value : StoreValue}
    (h : ((putTrace store key value).lookup other).isSome = true) :
    other = key ∨ (store.lookup other).isSome = true := by
  by_cases heq : other = key
  · exact .inl heq
  · refine .inr ?_
    have hnot : other ∉ (⟨store.revision, [.put key (store.lookup key) value]⟩ :
        StoreBatch EntryKey StoreValue).keys := by
      simpa [StoreBatch.keys, StoreAction.key] using heq
    rwa [putTrace, Store.lookup_apply_of_notMem hnot] at h

theorem traceCount_putTrace_le (store : Store EntryKey StoreValue) (key : EntryKey)
    (value : StoreValue) : traceCount (putTrace store key value) ≤ traceCount store + 1 := by
  have hkeys : (key :: (store.scan inTraces).map Prod.fst).length = traceCount store + 1 := by
    rw [List.length_cons, List.length_map]
    rfl
  rw [← hkeys]
  refine Store.length_scan_le_of_keys fun other hother hsome => ?_
  rcases isSome_lookup_putTrace hsome with rfl | hold
  · exact List.mem_cons_self
  · exact List.mem_cons_of_mem _ (Store.mem_keys_scan.mpr ⟨hold, hother⟩)

theorem traceCount_putTrace_of_isSome {key : EntryKey} (value : StoreValue)
    (h : (store.lookup key).isSome = true) :
    traceCount (putTrace store key value) ≤ traceCount store := by
  refine traceCount_le fun other _ hsome => ?_
  rcases isSome_lookup_putTrace hsome with rfl | hold
  · exact h
  · exact hold

/-! ## Runs -/

/-- The steps that keep the count at or above the number of records. -/
def Counted (s : TraceNode) : TraceEvent → Prop
  | .start => ∀ key, inTraces key = true → s.store.lookup key = none
  | .stored _ => ∀ process, s.process = some process → process.live ≠ 0
  | .recordLost key => (s.store.lookup key).isSome = true
  | .sweepEnds (.ok _) => ∀ process sweep, s.process = some process → process.sweep = some sweep →
      process.counting = 0 ∧ ∀ exchange ∈ sweep.trace, Granted exchange
  | _ => True

/-- The records that are there and those the running sweep has removed are within the count and
    what is to be counted, of which there is none while the count is zero. -/
def TraceCovered (process : TraceProcess) (store : Store EntryKey StoreValue) : Prop :=
  traceCount store + process.sweep.elim 0 (fun sweep => removedBy sweep.trace) ≤
    process.live + process.counting ∧ (process.live = 0 → process.counting = 0)

/-- A call of a sweep. -/
theorem traceCount_of_sweepCalls {sweep : RunningSweep} {request : PassCall EntryKey StoreValue}
    {resume : request.Answer → Prog (PassCall EntryKey StoreValue) PassCall.Answer (Except Error Nat)}
    {answer : request.Answer} {before after : Store EntryKey StoreValue}
    (hprogram : sweep.program = .call request resume)
    (hanswer : PassAnswers request before answer after) :
    traceCount after + removedBy (sweep.advance hprogram hanswer).trace =
      traceCount before + removedBy sweep.trace := by
  obtain ⟨-, hrest⟩ := (all_sweepTraces sweep.now sweep.terminalCap sweep.retention).traced
    sweep.traced
  rw [hprogram] at hrest
  have hcall := (@traceCount_of_answered _ ⟨request, before, answer, after⟩ hrest.1
    hanswer).1
  change traceCount after + lost ⟨request, before, answer, after⟩ = traceCount before at hcall
  simp only [RunningSweep.advance, removedBy, List.map_append, List.sum_append, List.map_cons,
    List.map_nil, List.sum_cons, List.sum_nil]
  omega

theorem traceCovered_of_step {s t : TraceNode} {event : TraceEvent}
    (h : ∀ process, s.process = some process → TraceCovered process s.store)
    (hcounted : Counted s event) (hstep : s.Step event t) :
    ∀ process, t.process = some process → TraceCovered process t.store := by
  intro process' hprocess'
  cases hstep with
  | start =>
    cases hprocess'
    have hnone := traceCount_eq_zero_iff.mpr hcounted
    simp [TraceCovered, TraceProcess.start, hnone]
  | stop => cases hprocess'
  | others store hkeeps =>
    obtain ⟨hlive, hzero⟩ := h process' hprocess'
    exact ⟨(Nat.add_le_add_right (traceCount_le hkeeps) _).trans hlive, hzero⟩
  | @recorded process key value hprocess hkey =>
    cases hprocess'
    obtain ⟨hlive, hzero⟩ := h process hprocess
    have hle := traceCount_putTrace_le s.store key value
    simp only [TraceCovered, TraceProcess.record]
    omega
  | @stored process key value hprocess hkey =>
    cases hprocess'
    obtain ⟨hlive, hzero⟩ := h process hprocess
    have hle := traceCount_putTrace_le s.store key value
    have hne := hcounted process hprocess
    simp only [TraceCovered]
    omega
  | @counted process counting hprocess hcounting =>
    cases hprocess'
    obtain ⟨hlive, hzero⟩ := h process hprocess
    simp only [TraceCovered, TraceProcess.record]
    omega
  | recordFailed error hprocess =>
    cases hprocess'
    exact h _ hprocess
  | @recordLost process key value hprocess hkey =>
    cases hprocess'
    obtain ⟨hlive, hzero⟩ := h process hprocess
    have hle := traceCount_putTrace_of_isSome value hcounted
    simp only [TraceCovered, TraceProcess.record]
    omega
  | @sweepBegins process now terminalCap retention hprocess hsweep hbegins =>
    cases hprocess'
    obtain ⟨hlive, hzero⟩ := h process hprocess
    rw [hsweep] at hlive
    exact ⟨hlive, hzero⟩
  | @sweepCalls process sweep request resume answer store hprocess hsweep hprogram hanswer =>
    cases hprocess'
    obtain ⟨hlive, hzero⟩ := h process hprocess
    rw [hsweep] at hlive
    exact ⟨(traceCount_of_sweepCalls hprogram hanswer).trans_le hlive, hzero⟩
  | @sweepEnds process sweep result hprocess hsweep hprogram =>
    cases hprocess'
    obtain ⟨hlive, hzero⟩ := h process hprocess
    rw [hsweep] at hlive
    simp only [Option.elim] at hlive
    cases result with
    | ok removed =>
      -- The answer is at most what the sweep has removed.
      obtain ⟨hcounting, hgranted⟩ := hcounted process sweep hprocess hsweep
      have hanswer := (answer_le_removedBy_iff (hprogram ▸ sweep.traced)).mpr hgranted
      simp only [TraceCovered, TraceProcess.finishSweep, Option.elim]
      omega
    | error e =>
      simp only [TraceCovered, TraceProcess.finishSweep, Option.elim]
      omega

/-- In every run in which a process starts on a store without trace records, a record is stored
    under a count of zero only together with its counting, or in the place of one, and every sweep
    that answers had all its commits accepted and all records counted: while the count is zero
    there is no trace record. -/
theorem trace_counter_sound {s : TraceNode} (h : (TraceNode.runs Counted).Reachable s) :
    ∀ process, s.process = some process → process.live = 0 →
      ∀ key, inTraces key = true → s.store.lookup key = none := by
  have hcovered : ∀ process, s.process = some process → TraceCovered process s.store := by
    apply h.invariant (P := fun s => ∀ process, s.process = some process → TraceCovered process s.store)
    · intro origin horigin process hprocess
      rw [show origin.process = none from horigin] at hprocess
      cases hprocess
    · intro s t _ hs hnext
      obtain ⟨event, hallowed, hstep⟩ := hnext
      exact traceCovered_of_step hs hallowed hstep
  intro process hprocess hzero
  obtain ⟨hlive, hcounting⟩ := hcovered process hprocess
  have hnone := hcounting hzero
  exact traceCount_eq_zero_iff.mp (by omega)

/-! ## A sample -/

/-- A node that has just started on a new store. -/
def sampleStarted : @TraceNode .hostNames :=
  letI := DnsName.hostNames
  ⟨⟨0, ∅⟩, some .start⟩

omit [DnsName] in
theorem sampleStarted_reachable (allowed : @TraceNode .hostNames → @TraceEvent .hostNames → Prop) :
    letI := DnsName.hostNames
    allowed ⟨⟨0, ∅⟩, none⟩ .start → (TraceNode.runs allowed).Reachable sampleStarted := by
  let _ := DnsName.hostNames
  intro hallowed
  have hinit : (TraceNode.runs allowed).Reachable ⟨⟨0, ∅⟩, none⟩ := .init rfl
  exact hinit.step ⟨.start, hallowed, .start⟩

/-- Alone on its store a sweep makes its calls and comes to its end. -/
theorem exists_sweep_done {allowed : TraceNode → TraceEvent → Prop}
    (hallowed : ∀ s, allowed s .sweepCalls) (process : TraceProcess) (sweep : RunningSweep)
    (store : Store EntryKey StoreValue) :
    ∃ last : RunningSweep,
      (TraceNode.runs allowed).Path ⟨store, some { process with sweep := some sweep }⟩
        ⟨(run serveAlone sweep.program store).2, some { process with sweep := some last }⟩ ∧
      last.program = .done (run serveAlone sweep.program store).1 ∧
      traceCount (run serveAlone sweep.program store).2 + removedBy last.trace =
        traceCount store + removedBy sweep.trace := by
  -- by induction on what is left of the program
  generalize hprogram : sweep.program = program
  induction program generalizing sweep store with
  | done result => exact ⟨sweep, .refl, hprogram, rfl⟩
  | call request resume ih =>
    have hanswer := passAnswers_serveAlone request store
    obtain ⟨last, hpath, hdone, hcount⟩ := ih (serveAlone request store).1
      (sweep.advance hprogram hanswer) (serveAlone request store).2 rfl
    have hcall := traceCount_of_sweepCalls hprogram hanswer
    let sweeping : TraceNode := ⟨store, some { process with sweep := some sweep }⟩
    have hsweeping : sweeping.process = some { process with sweep := some sweep } := rfl
    have hstep := TraceNode.Step.sweepCalls hsweeping rfl hprogram hanswer
    exact ⟨last, .head ⟨.sweepCalls, hallowed _, hstep⟩ hpath, hdone, hcount.trans hcall⟩

/-- The store of a node that has stored two records. -/
def sampleCountedStore : Store (@EntryKey .hostNames) StoreValue :=
  letI := DnsName.hostNames
  putTrace (putTrace ⟨0, ∅⟩ (sampleTraceKey 1) (sampleTraceValue 8)) (sampleTraceKey 2)
    (sampleTraceValue 0)

omit [DnsName] in
theorem traceCount_sampleCountedStore : @traceCount .hostNames sampleCountedStore = 2 := by
  decide +kernel

omit [DnsName] in
/-- Both records have expired at the time of the sweep. -/
theorem sampleCountedStore_expired :
    letI := DnsName.hostNames
    (traceRemovals (fromMillis 20) 2 sampleRetention sampleCountedStore).map Removal.key =
      [sampleTraceKey 2, sampleTraceKey 1] := by
  decide +kernel

omit [DnsName] in
/-- Two records are stored and counted, and a sweep removes them. -/
theorem sampleSwept_empty :
    letI := DnsName.hostNames
    ∃ before after process, (TraceNode.runs Counted).Reachable before ∧
      traceCount before.store = 2 ∧ (TraceNode.runs Counted).Path before after ∧
      after.process = some process ∧ process.live = 0 ∧
      ∀ key, inTraces key = true → after.store.lookup key = none := by
  let _ := DnsName.hostNames
  have hstarted := sampleStarted_reachable Counted fun _ _ => rfl
  have htraces : ∀ n, inTraces (sampleTraceKey n) = true := by
    intro n
    show (sampleTraceTag.asStr == traceNamespaceText) = true
    decide +kernel
  have hfirst := hstarted.step ⟨.recorded (sampleTraceKey 1), trivial,
    .recorded (sampleTraceValue 8) rfl (htraces 1)⟩
  have hrecorded := hfirst.step ⟨.recorded (sampleTraceKey 2), trivial,
    .recorded (sampleTraceValue 0) rfl (htraces 2)⟩
  have hsecond : (TraceNode.runs Counted).Reachable
      ⟨sampleCountedStore, some ⟨2, 0, none⟩⟩ := hrecorded
  obtain ⟨swept, hrun, hcleared⟩ :=
    run_sweepTraces (fromMillis 20) 2 sampleRetention sampleCountedStore
  have hkeys := sampleCountedStore_expired
  have hlength : (traceRemovals (fromMillis 20) 2 sampleRetention sampleCountedStore).length = 2 := by
    rw [← List.length_map (f := Removal.key), hkeys]
    rfl
  rw [hlength] at hrun
  rw [hkeys] at hcleared
  have hnone : traceCount swept = 0 := by
    refine traceCount_eq_zero_iff.mpr fun key _ => ?_
    rw [hcleared key]
    split
    · rfl
    · rename_i hother
      cases hlookup : sampleCountedStore.lookup key with
      | none => rfl
      | some value =>
        exfalso
        have hsome : (sampleCountedStore.lookup key).isSome = true := by
          rw [hlookup]
          rfl
        rcases isSome_lookup_putTrace hsome with rfl | hsome
        · exact hother List.mem_cons_self
        rcases isSome_lookup_putTrace hsome with rfl | hsome
        · exact hother (List.mem_cons_of_mem _ List.mem_cons_self)
        · cases hsome
  let sweep := RunningSweep.start (fromMillis 20) 2 sampleRetention
  have hcalls : ∀ s, Counted s .sweepCalls := fun _ => trivial
  obtain ⟨last, hpath, hdone, hcount⟩ :=
    exists_sweep_done hcalls ⟨2, 0, none⟩ sweep sampleCountedStore
  have hprogram : run serveAlone sweep.program sampleCountedStore = (.ok 2, swept) := hrun
  rw [hprogram] at hpath hdone hcount
  have hbegun : (TraceNode.runs Counted).Path ⟨sampleCountedStore, some ⟨2, 0, none⟩⟩
      ⟨swept, some ⟨2, 0, some last⟩⟩ :=
    .head ⟨.sweepBegins, trivial, .sweepBegins (fromMillis 20) 2 sampleRetention rfl rfl
      (by decide)⟩ hpath
  have hgranted : ∀ exchange ∈ last.trace, Granted exchange := by
    refine (answer_le_removedBy_iff (hdone ▸ last.traced)).mp ?_
    have hzero : removedBy sweep.trace = 0 := rfl
    have htwo := traceCount_sampleCountedStore
    have hremoved : traceCount swept + removedBy last.trace =
      traceCount sampleCountedStore + removedBy sweep.trace := hcount
    omega
  have hended : (TraceNode.runs Counted).next ⟨swept, some ⟨2, 0, some last⟩⟩
      ⟨swept, some ⟨0, 0, none⟩⟩ := by
    have hswept : (⟨swept, some ⟨2, 0, some last⟩⟩ : TraceNode).process =
        some ⟨2, 0, some last⟩ := rfl
    refine ⟨.sweepEnds (.ok 2), ?_, TraceNode.Step.sweepEnds hswept rfl hdone⟩
    intro process sweep hprocess hsweep
    cases hprocess
    cases hsweep
    exact ⟨rfl, hgranted⟩
  have hpath := hbegun.tail hended
  exact ⟨_, _, _, hsecond, traceCount_sampleCountedStore, hpath, rfl, rfl,
    trace_counter_sound (hsecond.path hpath) ⟨0, 0, none⟩ rfl rfl⟩

omit [DnsName] in
/-- A record is stored and counted, and the process starts again. -/
theorem restarted_uncounted :
    letI := DnsName.hostNames
    ∃ s process, (TraceNode.runs fun _ _ => True).Reachable s ∧ s.process = some process ∧
      process.live = 0 ∧ ∃ key, inTraces key = true ∧ s.store.lookup key ≠ none := by
  let _ := DnsName.hostNames
  have hstarted := sampleStarted_reachable (fun _ _ => True) trivial
  have hrecorded := hstarted.step ⟨.recorded (sampleTraceKey 1), trivial,
    .recorded (sampleTraceValue 0) rfl (by decide +kernel)⟩
  have hrestarted := hrecorded.step ⟨.start, trivial, .start⟩
  exact ⟨_, _, hrestarted, rfl, rfl, sampleTraceKey 1, by decide +kernel, by decide +kernel⟩

end Radiata
