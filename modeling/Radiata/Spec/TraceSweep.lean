import Radiata.ForStd.Trace
import Radiata.Native.Retention

/-!
# The trace sweep

Alone on a store, the sweep deletes the records it has selected and answers their number. It
selects the expired ones and then as many fresh ones as all terminal records together are above
the cap, where only the fresh ones should count. Among other writers it answers the number it has
selected, whatever became of the batches.

## Key results

- `run_applyBatched`: the batches of deletions on a store without other writers
- `run_sweepTraces`: what a sweep leaves
- `answer_le_removedBy_iff`: what a sweep among other writers answers
- `trace_sweep_iff`
-/

namespace Radiata

open Prog (run Traced)

/-! ## Batches on a store without other writers -/

section Batches

variable {κ ν : Type} [DecidableEq κ] [DecidableEq ν]

/-- A store without other writers conforms. -/
theorem passAnswers_serveAlone (call : PassCall κ ν) (store : Store κ ν) :
    PassAnswers call store (serveAlone call store).1 (serveAlone call store).2 := by
  cases call with
  | snapshot => exact .snapshot store
  | commit batch =>
    unfold serveAlone
    by_cases haccepts : store.accepts batch = true
    · simp only [haccepts, if_true]
      exact .committed haccepts
    · simp only [haccepts]
      exact .conflict store batch

/-- The operations delete what is stored under distinct keys. -/
structure Deletable (actions : List (StoreAction κ ν)) (store : Store κ ν) : Prop where
  nodup : (actions.map StoreAction.key).Nodup
  deletes : ∀ action ∈ actions, ∃ key value, action = .delete key value
  stored : ∀ action ∈ actions, store.lookup action.key = action.expected

variable {actions : List (StoreAction κ ν)}

variable {store : Store κ ν}

theorem run_commitBatch (h : Deletable actions store) :
    run serveAlone (commitBatch actions).run store =
      (.ok actions.length, store.apply ⟨store.revision, actions⟩) := by
  have haccepts : store.accepts ⟨store.revision, actions⟩ = true :=
    Store.accepts_iff.mpr ⟨rfl, h.stored⟩
  unfold commitBatch
  rw [Prog.run_exceptT_bind]
  show run serveAlone (PassM.commit ⟨store.revision, actions⟩ >>= _ : PassM κ ν Nat).run store = _
  rw [Prog.run_exceptT_bind]
  have hcommit : run serveAlone (PassM.commit ⟨store.revision, actions⟩ : PassM κ ν _).run store =
      (.ok .committed, store.apply ⟨store.revision, actions⟩) := by
    show serveAlone (.commit ⟨store.revision, actions⟩) store = _
    simp only [serveAlone, haccepts, if_true]
  rw [hcommit]
  rfl

/-- What a store without the values under some keys has under a key. -/
def Cleared (keys : List κ) (before after : Store κ ν) : Prop :=
  ∀ key, after.lookup key = if key ∈ keys then none else before.lookup key

omit [DecidableEq ν] in
theorem Cleared.trans {first second : List κ} {before between after : Store κ ν}
    (h : Cleared first before between) (h' : Cleared second between after) :
    Cleared (first ++ second) before after := by
  intro key
  rw [h', h]
  by_cases hsecond : key ∈ second
  · rw [if_pos hsecond, if_pos (List.mem_append_right _ hsecond)]
  · by_cases hfirst : key ∈ first
    · rw [if_neg hsecond, if_pos hfirst, if_pos (List.mem_append_left _ hfirst)]
    · rw [if_neg hsecond, if_neg hfirst, if_neg (by simp [hfirst, hsecond])]

theorem cleared_apply (h : Deletable actions store) :
    Cleared (actions.map StoreAction.key) store (store.apply ⟨store.revision, actions⟩) := by
  intro key
  have haccepts : store.accepts ⟨store.revision, actions⟩ = true :=
    Store.accepts_iff.mpr ⟨rfl, h.stored⟩
  by_cases hkey : key ∈ actions.map StoreAction.key
  · rw [if_pos hkey]
    obtain ⟨action, haction, rfl⟩ := List.mem_map.mp hkey
    rw [Store.lookup_apply_of_mem haccepts h.nodup haction]
    obtain ⟨other, value, rfl⟩ := h.deletes action haction
    rfl
  · rw [if_neg hkey]
    exact Store.lookup_apply_of_notMem hkey

omit [DecidableEq ν] in
/-- The rest of the operations, after a batch of the first ones. -/
theorem Deletable.drop {before after : Store κ ν} {n : Nat} (h : Deletable actions before)
    (hafter : Cleared ((actions.take n).map StoreAction.key) before after) :
    Deletable (actions.drop n) after where
  nodup := by
    rw [List.map_drop]
    exact h.nodup.sublist (List.drop_sublist ..)
  deletes := fun action haction => h.deletes action (List.mem_of_mem_drop haction)
  stored := by
    intro action haction
    have hnodup := h.nodup
    rw [← List.take_append_drop n actions, List.map_append, List.nodup_append] at hnodup
    rw [hafter, if_neg, h.stored action (List.mem_of_mem_drop haction)]
    intro hkey
    exact hnodup.2.2 _ hkey _ (List.mem_map_of_mem haction) rfl

omit [DecidableEq ν] in
theorem Deletable.take {store : Store κ ν} (h : Deletable actions store) (n : Nat) :
    Deletable (actions.take n) store where
  nodup := by
    rw [List.map_take]
    exact h.nodup.sublist (List.take_sublist ..)
  deletes := fun action haction => h.deletes action (List.mem_of_mem_take haction)
  stored := fun action haction => h.stored action (List.mem_of_mem_take haction)

/-- All batches are applied. -/
theorem run_applyBatched (h : Deletable actions store) :
    ∃ after, run serveAlone (applyBatched actions).run store = (.ok actions.length, after) ∧
      Cleared (actions.map StoreAction.key) store after := by
  fun_induction applyBatched actions generalizing store with
  | case1 => exact ⟨store, rfl, fun key => by simp⟩
  | case2 action rest ih =>
    have hbatch := run_commitBatch (h.take maxBatchOperations)
    have hcleared := cleared_apply (h.take maxBatchOperations)
    obtain ⟨after, hrun, hafter⟩ := ih (h.drop hcleared)
    refine ⟨after, ?_, ?_⟩
    · rw [Prog.run_exceptT_bind, hbatch]
      dsimp only
      rw [Prog.run_exceptT_bind, hrun]
      show (Except.ok _, after) = _
      rw [← List.length_append, List.take_append_drop]
    · have hboth := hcleared.trans hafter
      rwa [← List.map_append, List.take_append_drop] at hboth

end Batches

variable [DnsName]

/-! ## What is selected -/

/-- The terminal records of a store. -/
def terminals (store : Store EntryKey StoreValue) : List Removal :=
  (store.scan inTraces).filterMap terminalTrace

def expiredTerminals (now : SystemTime) (retention : Duration) (store : Store EntryKey StoreValue) :
    List Removal :=
  (terminals store).filter fun removal => isExpired now retention removal.stamped

def freshTerminals (now : SystemTime) (retention : Duration) (store : Store EntryKey StoreValue) :
    List Removal :=
  (terminals store).filter fun removal => !isExpired now retention removal.stamped

variable {removal : Removal}

theorem terminalTrace_eq_some {entry : EntryKey × StoreValue}
    (h : terminalTrace entry = some removal) : removal.key = entry.1 ∧ removal.value = entry.2 := by
  unfold terminalTrace at h
  split at h
  · split at h
    · cases h
      exact ⟨rfl, rfl⟩
    · cases h
  · cases h

variable {store : Store EntryKey StoreValue}

theorem mem_terminals (h : removal ∈ terminals store) :
    store.lookup removal.key = some removal.value := by
  obtain ⟨⟨key, value⟩, hentry, hterminal⟩ := List.mem_filterMap.mp h
  obtain ⟨hkey, hvalue⟩ := terminalTrace_eq_some hterminal
  rw [hkey, hvalue]
  exact (Store.mem_scan.mp hentry).1

theorem inTraces_of_mem_terminals (h : removal ∈ terminals store) :
    inTraces removal.key = true := by
  obtain ⟨⟨key, value⟩, hentry, hterminal⟩ := List.mem_filterMap.mp h
  rw [(terminalTrace_eq_some hterminal).1]
  exact (Store.mem_scan.mp hentry).2

theorem nodup_keys_terminals (store : Store EntryKey StoreValue) :
    ((terminals store).map Removal.key).Nodup :=
  (store.nodup_keys_scan inTraces).sublist
    (List.sublist_map_filterMap (fun _ _ h => (terminalTrace_eq_some h).1) _)

/-- The fresh terminal records the sweep selects. -/
def selectedFresh (now : SystemTime) (terminalCap : Nat) (retention : Duration)
    (store : Store EntryKey StoreValue) : List Removal :=
  (Removal.oldestFirst (freshTerminals now retention store)).take
    ((expiredTerminals now retention store).length + (freshTerminals now retention store).length
      - terminalCap)

theorem traceRemovals_eq (now : SystemTime) (terminalCap : Nat) (retention : Duration)
    (store : Store EntryKey StoreValue) : traceRemovals now terminalCap retention store =
      expiredTerminals now retention store ++ selectedFresh now terminalCap retention store := rfl

theorem lowest_selectedFresh (now : SystemTime) (terminalCap : Nat) (retention : Duration)
    (store : Store EntryKey StoreValue) :
    List.Lowest (fun removal => removal.stamped.nanos) (selectedFresh now terminalCap retention store)
      (freshTerminals now retention store) :=
  List.lowest_take_insertionSort
    ((nodup_keys_terminals store).of_map.filter _) _

variable {retention : Duration}

variable {now : SystemTime} {terminalCap : Nat}

theorem mem_terminals_of_mem_traceRemovals
    (h : removal ∈ traceRemovals now terminalCap retention store) : removal ∈ terminals store := by
  rw [traceRemovals_eq] at h
  rcases List.mem_append.mp h with hexpired | hfresh
  · exact (List.mem_filter.mp hexpired).1
  · exact (List.mem_filter.mp ((lowest_selectedFresh ..).subset hfresh)).1

theorem deletable_traceRemovals (now : SystemTime) (terminalCap : Nat) (retention : Duration)
    (store : Store EntryKey StoreValue) :
    Deletable ((traceRemovals now terminalCap retention store).map Removal.delete) store := by
  have hlowest := lowest_selectedFresh now terminalCap retention store
  have hsubset : ∀ removal ∈ traceRemovals now terminalCap retention store,
      removal ∈ terminals store := fun _ => mem_terminals_of_mem_traceRemovals
  have hnodup : (traceRemovals now terminalCap retention store).Nodup := by
    rw [traceRemovals_eq, List.nodup_append]
    refine ⟨(nodup_keys_terminals store).of_map.filter _, hlowest.nodup, ?_⟩
    rintro removal hexpired other hfresh rfl
    have hexpired' := (List.mem_filter.mp hexpired).2
    have hfresh' := (List.mem_filter.mp (hlowest.subset hfresh)).2
    rw [hexpired'] at hfresh'
    cases hfresh'
  refine ⟨?_, ?_, ?_⟩
  · rw [List.map_map]
    refine List.Nodup.map_on ?_ hnodup
    intro a ha b hb hkey
    exact List.inj_on_of_nodup_map (nodup_keys_terminals store) (hsubset a ha) (hsubset b hb) hkey
  · intro action haction
    obtain ⟨removal, -, rfl⟩ := List.mem_map.mp haction
    exact ⟨_, _, rfl⟩
  · intro action haction
    obtain ⟨removal, hmem, rfl⟩ := List.mem_map.mp haction
    exact mem_terminals (hsubset removal hmem)

/-- What a sweep leaves on a store without other writers. -/
theorem run_sweepTraces (now : SystemTime) (terminalCap : Nat) (retention : Duration)
    (before : Store EntryKey StoreValue) :
    ∃ after, run serveAlone (sweepTraces now terminalCap retention).run before =
        (.ok (traceRemovals now terminalCap retention before).length, after) ∧
      Cleared ((traceRemovals now terminalCap retention before).map Removal.key) before after := by
  obtain ⟨after, hrun, hcleared⟩ :=
    run_applyBatched (deletable_traceRemovals now terminalCap retention before)
  rw [List.map_map] at hcleared
  refine ⟨after, ?_, hcleared⟩
  show run serveAlone (PassM.snapshot >>= _ : PassM EntryKey StoreValue Nat).run before = _
  rw [Prog.run_exceptT_bind]
  show run serveAlone (applyBatched _ >>= _ : PassM EntryKey StoreValue Nat).run before = _
  rw [Prog.run_exceptT_bind, hrun]
  rfl

/-! ## Exactness -/

/-- What the sweep is for: the expired terminal records go, and of the fresh ones the oldest, down
    to the cap; its answer is the number of records that are gone. -/
structure TraceSweepExact (now : SystemTime) (terminalCap : Nat) (retention : Duration)
    (before after : Store EntryKey StoreValue) (result : Result Nat) : Prop where
  expired : ∀ removal ∈ expiredTerminals now retention before, after.lookup removal.key = none
  oldest : ∃ gone, List.Lowest (fun removal => removal.stamped.nanos) gone
      (freshTerminals now retention before) ∧
    gone.length = (freshTerminals now retention before).length - terminalCap ∧
    ∀ removal ∈ freshTerminals now retention before,
      after.lookup removal.key = if removal ∈ gone then none else some removal.value
  others : ∀ key, (∀ removal ∈ terminals before, removal.key ≠ key) →
    after.lookup key = before.lookup key
  counted : result =
    .ok ((terminals before).countP fun removal => (after.lookup removal.key).isNone)

/-- There is nothing to overcount: no expired records, no fresh ones, no cap, or all terminal
    records within it. -/
def OverflowCounted (now : SystemTime) (terminalCap : Nat) (retention : Duration)
    (before : Store EntryKey StoreValue) : Prop :=
  expiredTerminals now retention before = [] ∨ freshTerminals now retention before = [] ∨
    terminalCap = 0 ∨ (terminals before).length ≤ terminalCap

instance (now : SystemTime) (terminalCap : Nat) (retention : Duration)
    (before : Store EntryKey StoreValue) :
    Decidable (OverflowCounted now terminalCap retention before) :=
  inferInstanceAs (Decidable (_ ∨ _ ∨ _ ∨ _))

theorem length_terminals (now : SystemTime) (retention : Duration)
    (store : Store EntryKey StoreValue) : (terminals store).length =
      (expiredTerminals now retention store).length +
        (freshTerminals now retention store).length := by
  have hcount := List.length_eq_countP_add_countP (p := fun removal =>
    isExpired now retention removal.stamped) (l := terminals store)
  simpa [expiredTerminals, freshTerminals, List.countP_eq_length_filter] using hcount

/-- The keys of removed terminals determine them. -/
theorem key_mem_iff (h : removal ∈ terminals store) :
    removal.key ∈ (traceRemovals now terminalCap retention store).map Removal.key ↔
      removal ∈ traceRemovals now terminalCap retention store := by
  constructor
  · intro hkey
    obtain ⟨other, hother, heq⟩ := List.mem_map.mp hkey
    have hterminal := mem_terminals_of_mem_traceRemovals hother
    exact List.inj_on_of_nodup_map (nodup_keys_terminals store) hterminal h heq ▸ hother
  · intro hmem
    exact List.mem_map_of_mem hmem

theorem mem_traceRemovals_of_fresh (h : removal ∈ freshTerminals now retention store) :
    removal ∈ traceRemovals now terminalCap retention store ↔
      removal ∈ selectedFresh now terminalCap retention store := by
  rw [traceRemovals_eq, List.mem_append]
  constructor
  · intro hmem
    rcases hmem with hexpired | hmem
    · have hexpired' := (List.mem_filter.mp hexpired).2
      have hfresh := (List.mem_filter.mp h).2
      rw [hexpired'] at hfresh
      cases hfresh
    · exact hmem
  · exact .inr

/-- The sweep selects as many fresh records as it should where nothing is overcounted. -/
theorem length_selectedFresh_iff (now : SystemTime) (terminalCap : Nat) (retention : Duration)
    (store : Store EntryKey StoreValue) :
    (selectedFresh now terminalCap retention store).length =
        (freshTerminals now retention store).length - terminalCap ↔
      OverflowCounted now terminalCap retention store := by
  have hsorted : (Removal.oldestFirst (freshTerminals now retention store)).length =
      (freshTerminals now retention store).length := List.length_insertionSort ..
  rw [selectedFresh, List.length_take, hsorted, OverflowCounted, length_terminals now retention,
    ← List.length_eq_zero_iff, ← List.length_eq_zero_iff]
  omega

theorem traceSweepExact_iff {before after : Store EntryKey StoreValue}
    (h : Cleared ((traceRemovals now terminalCap retention before).map Removal.key) before after) :
    TraceSweepExact now terminalCap retention before after
        (.ok (traceRemovals now terminalCap retention before).length) ↔
      OverflowCounted now terminalCap retention before := by
  have hgone : ∀ removal ∈ terminals before, after.lookup removal.key =
      if removal ∈ traceRemovals now terminalCap retention before then none
      else some removal.value := by
    intro removal hmem
    rw [h, mem_terminals hmem]
    simp only [key_mem_iff hmem]
  have hfresh : ∀ removal ∈ freshTerminals now retention before, after.lookup removal.key =
      if removal ∈ selectedFresh now terminalCap retention before then none
      else some removal.value := by
    intro removal hmem
    rw [hgone removal (List.mem_filter.mp hmem).1]
    simp only [mem_traceRemovals_of_fresh hmem]
  have hlowest := lowest_selectedFresh now terminalCap retention before
  rw [← length_selectedFresh_iff]
  constructor
  · intro hexact
    obtain ⟨gone, hgoneLowest, hlength, hlookup⟩ := hexact.oldest
    rw [← hlength]
    refine hlowest.length_eq hgoneLowest fun removal hmem => ?_
    have hboth := (hfresh removal hmem).symm.trans (hlookup removal hmem)
    by_cases hselected : removal ∈ selectedFresh now terminalCap retention before
    · by_cases hmemGone : removal ∈ gone <;> simp_all
    · by_cases hmemGone : removal ∈ gone <;> simp_all
  · intro hlength
    refine ⟨?_, ⟨_, hlowest, hlength, hfresh⟩, ?_, ?_⟩
    · intro removal hmem
      rw [hgone removal (List.mem_filter.mp hmem).1, if_pos]
      rw [traceRemovals_eq]
      exact List.mem_append_left _ hmem
    · intro key hother
      rw [h, if_neg]
      intro hkey
      obtain ⟨removal, hremoval, rfl⟩ := List.mem_map.mp hkey
      exact hother removal (mem_terminals_of_mem_traceRemovals hremoval) rfl
    · have hdeletable := deletable_traceRemovals now terminalCap retention before
      have hnodup : (traceRemovals now terminalCap retention before).Nodup := by
        have hkeys := hdeletable.nodup
        rw [List.map_map] at hkeys
        exact hkeys.of_map
      rw [List.countP_eq_length_filter]
      refine congrArg Except.ok (List.Perm.length_eq ?_)
      rw [List.perm_ext_iff_of_nodup hnodup ((nodup_keys_terminals before).of_map.filter _)]
      intro removal
      rw [List.mem_filter]
      constructor
      · intro hremoval
        have hterminal := mem_terminals_of_mem_traceRemovals hremoval
        refine ⟨hterminal, ?_⟩
        rw [hgone removal hterminal, if_pos hremoval]
        rfl
      · intro hremoved
        by_contra hkept
        have hlookup := hremoved.2
        rw [hgone removal hremoved.1, if_neg hkept] at hlookup
        cases hlookup

/-! ## Other writers -/

/-- A call of a sweep with its answer. -/
abbrev SweepExchange := Exchange (PassCall EntryKey StoreValue) PassCall.Answer
  (Store EntryKey StoreValue)

/-- The number of records in the trace namespace. -/
def traceCount (store : Store EntryKey StoreValue) : Nat := (store.scan inTraces).length

/-- The number of operations of the transaction that is committed. -/
def proposed (exchange : SweepExchange) : Nat :=
  match exchange.request with
  | .snapshot => 0
  | .commit batch => batch.actions.length

/-- The number of trace records the store lost. -/
def lost (exchange : SweepExchange) : Nat :=
  traceCount exchange.before - traceCount exchange.after

/-- The number of records a sweep removed. -/
def removedBy (trace : List SweepExchange) : Nat := (trace.map lost).sum

/-- A commit was answered as committed. -/
def Granted : SweepExchange → Prop
  | ⟨.snapshot, _, _, _⟩ => True
  | ⟨.commit _, _, answer, _⟩ => answer = .ok .committed

/-- A commit has had a definite outcome. -/
def Definite : SweepExchange → Prop
  | ⟨.snapshot, _, _, _⟩ => True
  | ⟨.commit _, _, answer, _⟩ => ∃ outcome, answer = .ok outcome ∧ outcome ≠ .unknown

/-- A sweep reads snapshots, and its transactions delete distinct trace records. -/
def Sweeps : PassCall EntryKey StoreValue → Prop
  | .snapshot => True
  | .commit batch => batch.actions ≠ [] ∧ batch.keys.Nodup ∧ ∀ action ∈ batch.actions,
      inTraces action.key = true ∧ ∃ key value, action = .delete key value

/-- A call of a sweep takes away what it deletes, if it is answered as committed, and otherwise
    nothing. -/
theorem traceCount_of_answered {exchange : SweepExchange} (hsweeps : Sweeps exchange.request)
    (hanswer : PassAnswers exchange.request exchange.before exchange.answer exchange.after) :
    traceCount exchange.after + lost exchange = traceCount exchange.before ∧
      (Definite exchange → lost exchange ≤ proposed exchange ∧
        (proposed exchange ≤ lost exchange ↔ Granted exchange)) := by
  obtain ⟨request, before, answer, after⟩ := exchange
  change PassAnswers request before answer after at hanswer
  cases request with
  | snapshot =>
    have hsame : after = before := by
      cases hanswer <;> rfl
    simp [lost, proposed, Granted, hsame]
  | commit batch =>
    obtain ⟨hne, hnodup, hdeletes⟩ := hsweeps
    have hpos : 0 < batch.actions.length := List.length_pos_of_ne_nil hne
    cases hanswer with
    | committed haccepts =>
      have hsize := Store.length_scan_apply_deletes haccepts hnodup hdeletes
      simp only [lost, proposed, Granted, traceCount, iff_true]
      omega
    | unknownApplied haccepts =>
      have hsize := Store.length_scan_apply_deletes haccepts hnodup hdeletes
      refine ⟨by simp only [lost, traceCount]; omega, ?_⟩
      rintro ⟨outcome, houtcome, hdefinite⟩
      cases houtcome
      exact absurd rfl hdefinite
    | unknown =>
      refine ⟨by simp [lost], ?_⟩
      rintro ⟨outcome, houtcome, hdefinite⟩
      cases houtcome
      exact absurd rfl hdefinite
    | commitFailed error =>
      refine ⟨by simp [lost], ?_⟩
      rintro ⟨outcome, houtcome, -⟩
      cases houtcome
    | conflict | aborted =>
      refine ⟨by simp [lost], fun _ => ⟨by simp [lost], ?_⟩⟩
      simp only [lost, proposed, Granted]
      refine ⟨by omega, ?_⟩
      intro h
      cases h

/-- What is proposed was removed if and only if every commit went through. -/
theorem proposed_le_removedBy_iff {trace : List SweepExchange}
    (hsweeps : ∀ exchange ∈ trace, Sweeps exchange.request)
    (hanswered : ∀ exchange ∈ trace,
      PassAnswers exchange.request exchange.before exchange.answer exchange.after)
    (hdefinite : ∀ exchange ∈ trace, Definite exchange) :
    (trace.map proposed).sum ≤ removedBy trace ↔ ∀ exchange ∈ trace, Granted exchange := by
  have heach : ∀ exchange ∈ trace, lost exchange ≤ proposed exchange ∧
      (proposed exchange ≤ lost exchange ↔ Granted exchange) := fun exchange hmem =>
    (traceCount_of_answered (hsweeps exchange hmem) (hanswered exchange hmem)).2
      (hdefinite exchange hmem)
  unfold removedBy
  rw [List.sum_map_le_iff fun exchange hmem => (heach exchange hmem).1]
  exact forall₂_congr fun exchange hmem => (heach exchange hmem).2

/-! ### The calls of a sweep -/

variable {actions : List (StoreAction EntryKey StoreValue)}

theorem all_commitBatch (h : ∀ base, Sweeps (.commit ⟨base, actions⟩)) :
    Prog.All Sweeps (commitBatch actions).run := by
  refine Prog.All.exceptT_bind (Prog.All.perform trivial) fun snapshot => ?_
  refine Prog.All.exceptT_bind (Prog.All.perform (h _)) fun outcome => ?_
  cases outcome <;> exact Prog.All.pure _

theorem all_applyBatched (hnodup : (actions.map StoreAction.key).Nodup)
    (hdeletes : ∀ action ∈ actions,
      inTraces action.key = true ∧ ∃ key value, action = .delete key value) :
    Prog.All Sweeps (applyBatched actions).run := by
  fun_induction applyBatched actions with
  | case1 => exact Prog.All.pure _
  | case2 action rest ih =>
    have hsplit := List.take_append_drop maxBatchOperations (action :: rest)
    rw [← hsplit, List.map_append, List.nodup_append] at hnodup
    refine Prog.All.exceptT_bind (all_commitBatch fun base => ?_) fun applied => ?_
    · exact ⟨by simp [maxBatchOperations], hnodup.1,
        fun other hother => hdeletes other (List.mem_of_mem_take hother)⟩
    · refine Prog.All.exceptT_bind (ih hnodup.2.1 fun other hother =>
        hdeletes other (List.mem_of_mem_drop hother)) fun others => ?_
      exact Prog.All.pure _

/-- The calls of a sweep, whatever it is answered. -/
theorem all_sweepTraces (now : SystemTime) (terminalCap : Nat) (retention : Duration) :
    Prog.All Sweeps (sweepTraces now terminalCap retention).run := by
  refine Prog.All.exceptT_bind (Prog.All.perform trivial) fun snapshot => ?_
  have hdeletable := deletable_traceRemovals now terminalCap retention snapshot
  refine Prog.All.exceptT_bind (all_applyBatched hdeletable.nodup fun action haction => ?_)
    fun applied => Prog.All.pure _
  refine ⟨?_, hdeletable.deletes action haction⟩
  obtain ⟨removal, hmem, rfl⟩ := List.mem_map.mp haction
  exact inTraces_of_mem_terminals (mem_terminals_of_mem_traceRemovals hmem)

/-! ### What a sweep answers -/

section Answered

variable {trace : List SweepExchange} {n : Nat}

/-- A snapshot that was read. -/
theorem traced_snapshot {store : Store EntryKey StoreValue}
    (h : Traced PassAnswers (PassM.snapshot : PassM EntryKey StoreValue _).run trace
      (.done (.ok store))) :
    (∀ exchange ∈ trace, Definite exchange) ∧ (trace.map proposed).sum = 0 := by
  obtain ⟨before, after, rfl, -⟩ := Prog.traced_perform h
  simp [Definite, proposed]

variable {actions : List (StoreAction EntryKey StoreValue)}

/-- A batch that was answered proposed all of its operations. -/
theorem traced_commitBatch
    (h : Traced PassAnswers (commitBatch actions).run trace (.done (.ok n))) :
    (∀ exchange ∈ trace, Definite exchange) ∧ (trace.map proposed).sum = actions.length := by
  obtain ⟨snapshot, first, second, rfl, hfirst, hsecond⟩ := Prog.traced_exceptT_bind h
  obtain ⟨outcome, commit, last, rfl, hcommit, hlast⟩ := Prog.traced_exceptT_bind hsecond
  obtain ⟨hfirstDefinite, hfirstSum⟩ := traced_snapshot hfirst
  obtain ⟨before, after, rfl, -⟩ := Prog.traced_perform hcommit
  have hdefinite : outcome ≠ .unknown ∧ last = [] := by
    cases outcome with
    | committed | aborted | conflict => exact ⟨nofun, (Prog.traced_pure hlast).1⟩
    | unknown => cases (Prog.traced_pure hlast).2
  rw [hdefinite.2, List.append_nil]
  constructor
  · intro exchange hmem
    rcases List.mem_append.mp hmem with hmem | hmem
    · exact hfirstDefinite exchange hmem
    · cases List.mem_singleton.mp hmem
      exact ⟨outcome, rfl, hdefinite.1⟩
  · rw [List.map_append, List.sum_append, hfirstSum]
    simp [proposed]

/-- The batches propose all operations. -/
theorem traced_applyBatched
    (h : Traced PassAnswers (applyBatched actions).run trace (.done (.ok n))) :
    (∀ exchange ∈ trace, Definite exchange) ∧ (trace.map proposed).sum = actions.length := by
  fun_induction applyBatched actions generalizing trace n with
  | case1 =>
    obtain ⟨rfl, -⟩ := Prog.traced_pure h
    exact ⟨fun _ hmem => absurd hmem List.not_mem_nil, rfl⟩
  | case2 action rest ih =>
    obtain ⟨applied, first, second, rfl, hfirst, hsecond⟩ := Prog.traced_exceptT_bind h
    obtain ⟨others, between, last, rfl, hbetween, hlast⟩ := Prog.traced_exceptT_bind hsecond
    obtain ⟨rfl, -⟩ := Prog.traced_pure hlast
    obtain ⟨hfirstDefinite, hfirstSum⟩ := traced_commitBatch hfirst
    obtain ⟨hbetweenDefinite, hbetweenSum⟩ := ih hbetween
    rw [List.append_nil]
    constructor
    · intro exchange hmem
      rcases List.mem_append.mp hmem with hmem | hmem
      · exact hfirstDefinite exchange hmem
      · exact hbetweenDefinite exchange hmem
    · rw [List.map_append, List.sum_append, hfirstSum, hbetweenSum, ← List.length_append,
        List.take_append_drop]

/-- A sweep that answers has proposed as many deletions as it says. -/
theorem proposed_of_sweep {now : SystemTime} {terminalCap : Nat} {retention : Duration}
    (h : Traced PassAnswers (sweepTraces now terminalCap retention).run trace (.done (.ok n))) :
    (∀ exchange ∈ trace, Definite exchange) ∧ (trace.map proposed).sum = n := by
  obtain ⟨snapshot, first, second, rfl, hfirst, hsecond⟩ := Prog.traced_exceptT_bind h
  obtain ⟨applied, between, last, rfl, hbetween, hlast⟩ := Prog.traced_exceptT_bind hsecond
  obtain ⟨rfl, hn⟩ := Prog.traced_pure hlast
  obtain ⟨hfirstDefinite, hfirstSum⟩ := traced_snapshot hfirst
  obtain ⟨hbetweenDefinite, hbetweenSum⟩ := traced_applyBatched hbetween
  rw [List.append_nil]
  constructor
  · intro exchange hmem
    rcases List.mem_append.mp hmem with hmem | hmem
    · exact hfirstDefinite exchange hmem
    · exact hbetweenDefinite exchange hmem
  · rw [List.map_append, List.sum_append, hfirstSum, hbetweenSum, List.length_map, Nat.zero_add]
    exact Except.ok.inj hn

/-- The answer of a sweep is what it removed if every commit went through, and otherwise more. -/
theorem answer_le_removedBy_iff {now : SystemTime} {terminalCap : Nat} {retention : Duration}
    (h : Traced PassAnswers (sweepTraces now terminalCap retention).run trace (.done (.ok n))) :
    n ≤ removedBy trace ↔ ∀ exchange ∈ trace, Granted exchange := by
  obtain ⟨hdefinite, hsum⟩ := proposed_of_sweep h
  rw [← hsum]
  exact proposed_le_removedBy_iff ((all_sweepTraces ..).traced h).1 h.answered hdefinite

end Answered

/-- Alone on a store, the sweep is exact if and only if there is nothing to overcount. Among other
    writers, its answer is at most what it removed if and only if every commit went through. -/
theorem trace_sweep_iff (now : SystemTime) (terminalCap : Nat) (retention : Duration) :
    (∀ before : Store EntryKey StoreValue,
      (let swept := run serveAlone (sweepTraces now terminalCap retention).run before
       TraceSweepExact now terminalCap retention before swept.2 swept.1 ↔
        OverflowCounted now terminalCap retention before)) ∧
    ∀ trace n,
      Traced PassAnswers (sweepTraces now terminalCap retention).run trace (.done (.ok n)) →
        (n ≤ removedBy trace ↔ ∀ exchange ∈ trace, Granted exchange) := by
  constructor
  · intro before
    obtain ⟨after, hrun, hcleared⟩ := run_sweepTraces now terminalCap retention before
    rw [hrun]
    exact traceSweepExact_iff hcleared
  · intro trace n htrace
    exact answer_le_removedBy_iff htrace

/-! ## A sample -/

/-- The namespace of trace records. -/
def sampleTraceTag : @StoreNamespace .hostNames :=
  letI := DnsName.hostNames
  ⟨traceNamespaceText, 18, 27, traceNamespaceText, by decide +kernel⟩

def sampleTraceKey (n : UInt8) : @EntryKey .hostNames :=
  @EntryKey.mk .hostNames sampleTraceTag ⟨[n]⟩

/-- The record of a delivered stream. -/
def sampleTraceValue (millis : UInt64) : StoreValue where
  asBytes := TraceWire.codec.encode
    ⟨traceSchema, 1, Bytes.utf8 "trace_000000000000000000001",
      Bytes.utf8 "node_000000000000000000001", Bytes.utf8 "node_000000000000000000002", 1, 2, none,
      millis⟩

/-- A store with the records of two streams. -/
def sampleTraceStore : Store (@EntryKey .hostNames) StoreValue :=
  letI := DnsName.hostNames
  ⟨0, ((∅ : AList fun _ : EntryKey => StoreValue).insert (sampleTraceKey 1)
    (sampleTraceValue 8)).insert (sampleTraceKey 2) (sampleTraceValue 0)⟩

/-- Five milliseconds. -/
def sampleRetention : Duration := ⟨5000000, by decide⟩

omit [DnsName] in
theorem sampleTraceStore_swept :
    letI := DnsName.hostNames
    (∃ after, TraceSweepExact (fromMillis 10) 2 sampleRetention sampleTraceStore after
      (run serveAlone (sweepTraces (fromMillis 10) 2 sampleRetention).run sampleTraceStore).1) ∧
    ∃ trace n, Traced PassAnswers (sweepTraces (fromMillis 10) 2 sampleRetention).run trace
      (.done (.ok n)) ∧ 0 < n ∧ (n ≤ removedBy trace ↔ ∀ exchange ∈ trace, Granted exchange) := by
  let _ := DnsName.hostNames
  obtain ⟨after, hrun, -⟩ := run_sweepTraces (fromMillis 10) 2 sampleRetention sampleTraceStore
  obtain ⟨trace, htrace⟩ := Prog.exists_traced_of_run passAnswers_serveAlone
    (sweepTraces (fromMillis 10) 2 sampleRetention).run sampleTraceStore
  rw [hrun] at htrace
  exact ⟨⟨_, ((trace_sweep_iff (fromMillis 10) 2 sampleRetention).1 sampleTraceStore).mpr
      (by decide +kernel)⟩,
    trace, _, htrace, by decide +kernel, (trace_sweep_iff _ _ _).2 trace _ htrace⟩

omit [DnsName] in
/-- An expired record and a fresh one, where one terminal record may stay: both go. -/
theorem sampleTraceStore_not_exact :
    letI := DnsName.hostNames
    ¬ TraceSweepExact (fromMillis 10) 1 sampleRetention sampleTraceStore
      (run serveAlone (sweepTraces (fromMillis 10) 1 sampleRetention).run sampleTraceStore).2
      (run serveAlone (sweepTraces (fromMillis 10) 1 sampleRetention).run sampleTraceStore).1 := by
  let _ := DnsName.hostNames
  obtain ⟨after, hrun, hcleared⟩ := run_sweepTraces (fromMillis 10) 1 sampleRetention
    sampleTraceStore
  rw [hrun, traceSweepExact_iff hcleared]
  decide +kernel

end Radiata
