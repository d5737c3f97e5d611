import Radiata.Spec.EngineInvariant

/-!
# Transaction ids are used once

Every prepared transaction puts its used-id marker with the expectation that there
is none, and no operation of the engine deletes a marker. So an id is applied at
most once in a run, whatever happens to its receipt; and after the receipt is
forgotten the marker is what answers the id.

## Key results

- `applied_once`
-/

namespace Radiata

section

variable [DnsName]

/-! ## Markers -/

variable {internal : StoreNamespace} {t : TransactionId}

variable {cleanup : Option Cleanup} {id : TransactionId}

/-- No change takes a marker away. -/
theorem RecordChange.marker_ne_none {m m' : Entries} (h : RecordChange internal m m' cleanup id t)
    (hmarker : m.get (record internal t .marker) ≠ none) :
    m'.get (record internal t .marker) ≠ none := by
  have hactive : MarkerActive internal m' t → m'.get (record internal t .marker) ≠ none := by
    intro hactive
    rw [hactive]
    simp
  cases h with
  | untouched _ hsame _ => rw [hsame .marker]; exact hmarker
  | created _ _ hafter _ _ => exact hactive hafter
  | selfReferenced _ _ _ hafter _ _ _ _ => exact hactive hafter
  | added _ _ _ hafter _ _ _ _ => exact hactive hafter
  | removed _ _ _ hafter _ _ _ _ _ => exact hactive hafter
  | anchored _ _ _ _ _ _ _ hsame _ _ => rw [hsame .marker (by simp)]; exact hmarker
  | forgotten _ _ _ _ _ _ _ hafter _ _ _ _ _ _ _ _ => rw [hafter]; simp

/-- A transaction is applied under a marker of its own that was not there before. -/
theorem RecordChange.marker_self {m m' : Entries} (h : RecordChange internal m m' cleanup id id) :
    m.get (record internal id .marker) = none ∧ m'.get (record internal id .marker) ≠ none := by
  cases h with
  | created _ hfresh hafter _ _ => exact ⟨hfresh, by rw [hafter]; simp⟩
  | selfReferenced _ _ hfresh hafter _ _ _ _ => exact ⟨hfresh, by rw [hafter]; simp⟩
  | untouched hid _ _ => exact absurd rfl hid
  | added _ hid _ _ _ _ _ _ => exact absurd rfl hid
  | removed _ hid _ _ _ _ _ _ _ => exact absurd rfl hid
  | anchored _ _ hid _ _ _ _ _ _ _ => exact absurd rfl hid
  | forgotten _ _ _ _ hid _ _ _ _ _ _ _ _ _ _ _ => exact absurd rfl hid

/-! ## Forgotten receipts -/

variable {planned : List StoreOperation}

/-- An operation that forgets the receipt `t` stands in a forgetting piece. -/
theorem Profile.of_forgetReceipt {m : Entries} {digest : Digest}
    (h : Profile internal m cleanup id t planned) (hop : .forgetReceipt t digest ∈ planned) :
    MarkerActive internal m t ∧ edgeCount internal m t = 0 ∧
      ∃ anchor retention now anchoredAt, m.get (record internal t .anchor) = some anchor ∧
        cleanup = some ⟨t, retention, now⟩ ∧ decodeWallTime anchor.asBytes = .ok anchoredAt ∧
        anchoredAt.nanos + retention.nanos ≤ now.nanos := by
  obtain ⟨front, piece, back, rfl, hpiece, havoids⟩ := h
  have hmem : .forgetReceipt t digest ∈ piece := by
    simp only [List.mem_append] at hop
    rcases hop with (hop | hop) | hop
    · exact absurd rfl (havoids _ (List.mem_append_left back hop)).receipt
    · exact hop
    · exact absurd rfl (havoids _ (List.mem_append_right front hop)).receipt
  rcases hpiece with rfl | hpiece
  · cases hmem
  cases hpiece with
  | forgetting anchor digest' retention now anchoredAt hactive hnone hanchor hclock hanchored hdue =>
    exact ⟨hactive, hnone, anchor, retention, now, anchoredAt, hanchor, hclock, hanchored, hdue⟩
  | selfReference tokens additional _ _ _ =>
    rcases List.mem_cons.mp hmem with heq | hmem
    · cases heq
    · obtain ⟨token, -, heq⟩ := List.mem_map.mp hmem
      cases heq
  | add tokens next expected _ _ _ =>
    rcases List.mem_append.mp hmem with hmem | hmem
    · rcases List.mem_cons.mp hmem with heq | hmem
      · cases heq
      · obtain ⟨token, -, heq⟩ := List.mem_map.mp hmem
        cases heq
    · rw [Option.mem_toList, Option.map_eq_some_iff] at hmem
      obtain ⟨anchor, -, heq⟩ := hmem
      cases heq
  | remove edges head remaining _ _ _ _ =>
    rcases List.mem_append.mp hmem with hmem | hmem
    · obtain ⟨edge, -, heq⟩ := List.mem_map.mp hmem
      cases heq
    · rw [List.mem_singleton] at hmem
      split at hmem <;> cases hmem
  | anchoring retention now _ _ _ => simp at hmem

/-- Forgetting only erases. -/
theorem get_forgetOperations_of_none {receipts : Receipts} (ops : List StoreOperation)
    (h : receipts.get t = none) :
    (ops.foldl forgetOperation receipts).get t = none := by
  induction ops generalizing receipts with
  | nil => exact h
  | cons op ops ih =>
    refine ih ?_
    cases op with
    | forgetReceipt t' digest =>
      simp only [forgetOperation]
      split
      · rw [SortedMap.get_erase, h]
        split <;> rfl
      · exact h
    | _ => exact h

/-- A forgotten receipt is gone. -/
theorem get_forgetOperations_of_mem {receipts : Receipts} {digest : Digest}
    {ops : List StoreOperation} (hmem : .forgetReceipt t digest ∈ ops)
    (h : ∀ receipt, receipts.get t = some receipt → receipt.operationDigest = digest) :
    (ops.foldl forgetOperation receipts).get t = none := by
  induction ops generalizing receipts with
  | nil => cases hmem
  | cons op ops ih =>
    rw [List.foldl_cons]
    rcases List.mem_cons.mp hmem with rfl | hmem
    · refine get_forgetOperations_of_none ops ?_
      simp only [forgetOperation]
      cases hreceipt : receipts.get t with
      | none => simp [hreceipt]
      | some receipt => simp [h receipt hreceipt]
    · refine ih hmem ?_
      intro receipt hreceipt
      refine h receipt ?_
      cases op with
      | forgetReceipt t' digest' =>
        simp only [forgetOperation] at hreceipt
        split at hreceipt
        · rw [SortedMap.get_erase] at hreceipt
          split at hreceipt
          · cases hreceipt
          · exact hreceipt
        · exact hreceipt
      | _ => exact hreceipt

/-- The receipt of a forgotten transaction is gone after the commit. -/
theorem CommitRecord.AppliedAs.receipt_forgotten {r : CommitRecord}
    (h : r.AppliedAs internal planned) {digest : Digest}
    (hforget : .forgetReceipt t digest ∈ r.transaction.operations) (hid : t ≠ r.id) :
    r.after.receipts.get t = none := by
  obtain ⟨receipt, hreceipts⟩ := h.receipts
  rw [hreceipts, SortedMap.get_insert, if_neg hid]
  refine get_forgetOperations_of_mem hforget ?_
  intro old hold
  have hcondition := h.conditions _ hforget
  simp only [conditionMatches, hold, Option.any_some, beq_iff_eq] at hcondition
  exact hcondition

/-! ## Runs -/

/-- Applied ids are marked; forgotten ids are marked and have no receipt. -/
structure UsedInv (internal : StoreNamespace) (s : Engine) : Prop where
  applied : ∀ r ∈ s.log, r.Applied → s.store.entries.get (record internal r.id .marker) ≠ none
  forgotten : ∀ r ∈ s.log, ∀ t, r.Forgets t →
    s.store.entries.get (record internal t .marker) ≠ none ∧ s.store.receipts.get t = none

theorem CommitRecord.AppliedAs.forgets {r : CommitRecord} (h : r.AppliedAs internal planned)
    (hforget : r.Forgets t) :
    r.after.entries.get (record internal t .marker) ≠ none ∧ r.after.receipts.get t = none := by
  obtain ⟨-, digest, hmem⟩ := hforget
  have hplanned : .forgetReceipt t digest ∈ planned := by
    have := hmem
    rw [h.operations] at this
    simpa [putMarker] using this
  have hactive := ((h.profile t).of_forgetReceipt hplanned).1
  have hbefore : r.before.entries.get (record internal t .marker) ≠ none := by
    rw [hactive]
    simp
  have hid : t ≠ r.id := by
    rintro rfl
    exact hbefore (h.change r.id).marker_self.1
  exact ⟨(h.change t).marker_ne_none hbefore, h.receipt_forgotten hmem hid⟩

theorem usedInv_of_reachable (hns : internalNamespace = .ok internal) {s : Engine}
    (h : Engine.system.Reachable s) : UsedInv internal s := by
  refine h.invariant ?_ ?_
  · rintro s ⟨-, -, -, hlog⟩
    exact ⟨by simp [hlog], by simp [hlog]⟩
  · intro s t hs hinv hstep
    rcases Engine.step_cases (Engine.inv_of_reachable hs) hstep with
      ⟨hstore, hlog⟩ | ⟨r, hlog, hbefore, hafter, -, -, hrecord⟩
    · exact ⟨by rw [hstore, hlog]; exact hinv.applied, by rw [hstore, hlog]; exact hinv.forgotten⟩
    rcases (hrecord internal hns).2 with hsame | ⟨-, planned, happlied⟩
    · -- nothing was applied, so nothing was forgotten either
      have hnot : ¬ r.Applied := fun hne => hne hsame
      have hstore : t.store = s.store := by rw [hafter, hsame, hbefore]
      refine ⟨?_, ?_⟩
      · intro r' hr' hr'applied
        rw [hlog] at hr'
        rcases List.mem_cons.mp hr' with rfl | hr'
        · exact absurd hr'applied hnot
        · rw [hstore]
          exact hinv.applied r' hr' hr'applied
      · intro r' hr' u hforget
        rw [hlog] at hr'
        rcases List.mem_cons.mp hr' with rfl | hr'
        · exact absurd hforget.1 hnot
        · rw [hstore]
          exact hinv.forgotten r' hr' u hforget
    · refine ⟨?_, ?_⟩
      · intro r' hr' hr'applied
        rw [hlog] at hr'
        rw [hafter]
        rcases List.mem_cons.mp hr' with rfl | hr'
        · exact (happlied.change r'.id).marker_self.2
        · have hold := hinv.applied r' hr' hr'applied
          rw [← hbefore] at hold
          exact (happlied.change r'.id).marker_ne_none hold
      · intro r' hr' u hforget
        rw [hlog] at hr'
        rw [hafter]
        rcases List.mem_cons.mp hr' with rfl | hr'
        · exact happlied.forgets hforget
        · obtain ⟨hmarker, hreceipt⟩ := hinv.forgotten r' hr' u hforget
          rw [← hbefore] at hmarker hreceipt
          refine ⟨(happlied.change u).marker_ne_none hmarker, ?_⟩
          -- the new receipt is for another id, since `u` is marked
          have hid : u ≠ r.id := by
            rintro rfl
            exact hmarker (happlied.change r.id).marker_self.1
          obtain ⟨receipt, hreceipts⟩ := happlied.receipts
          rw [hreceipts, SortedMap.get_insert, if_neg hid]
          exact get_forgetOperations_of_none _ hreceipt

/-- A marked id without a receipt is refused. -/
theorem outcome_of_marked {r : CommitRecord}
    (hcommit : ConformingCommit r.before r.transaction r.outcome r.after)
    (hops : r.transaction.operations = planned ++ [putMarker internal r.id])
    (hmarker : r.before.entries.get (record internal r.id .marker) ≠ none)
    (hreceipt : r.before.receipts.get r.id = none) : r.outcome = .ok .conflict := by
  have hrefused : r.before.accepts r.transaction = false := by
    rw [Bool.eq_false_iff]
    intro haccepts
    simp only [ReferenceState.accepts, Bool.and_eq_true, List.all_eq_true] at haccepts
    exact hmarker (conditionMatches_put_absent.mp
      (haccepts.2 (putMarker internal r.id) (by simp [hops])))
  generalize houtcome : r.outcome = outcome at hcommit
  generalize hafter : r.after = after at hcommit
  cases hcommit with
  | replayed hknown _ => rw [show r.transaction.id = r.id from rfl, hreceipt] at hknown; cases hknown
  | repeated hknown _ => rfl
  | refused _ => rfl
  | applied _ haccepts _ _ => rw [hrefused] at haccepts; cases haccepts
  | failed _ haccepts _ => rw [hrefused] at haccepts; cases haccepts

/-- In every run the transactions of one id are applied at most once, and once the
    receipt of an id is forgotten every later transaction of that id ends in a
    conflict. -/
theorem applied_once {s : Engine} (h : Engine.system.Reachable s) :
    s.log.Pairwise (fun later earlier => later.Applied → earlier.Applied → later.id ≠ earlier.id) ∧
    s.log.Pairwise (fun later earlier => earlier.Forgets later.id →
      later.outcome = .ok .conflict) := by
  refine h.invariant (P := fun s =>
    s.log.Pairwise (fun later earlier => later.Applied → earlier.Applied → later.id ≠ earlier.id) ∧
    s.log.Pairwise (fun later earlier => earlier.Forgets later.id →
      later.outcome = .ok .conflict)) ?_ ?_
  · rintro s ⟨-, -, -, hlog⟩
    rw [hlog]
    exact ⟨.nil, .nil⟩
  · intro s t hs ⟨honce, hconflict⟩ hstep
    rcases Engine.step_cases (Engine.inv_of_reachable hs) hstep with
      ⟨-, hlog⟩ | ⟨r, hlog, hbefore, -, hcommit, ⟨internal, hns⟩, hrecord⟩
    · rw [hlog]
      exact ⟨honce, hconflict⟩
    have hinv := usedInv_of_reachable hns hs
    rw [hlog, List.pairwise_cons, List.pairwise_cons]
    refine ⟨⟨?_, honce⟩, ⟨?_, hconflict⟩⟩
    · intro earlier hearlier hlater happlied hid
      rcases (hrecord internal hns).2 with hsame | ⟨-, planned, hr⟩
      · exact hlater hsame
      · have hmarked := hinv.applied earlier hearlier happlied
        rw [← hid, ← hbefore] at hmarked
        exact hmarked (hr.change r.id).marker_self.1
    · intro earlier hearlier hforget
      obtain ⟨hmarker, hreceipt⟩ := hinv.forgotten earlier hearlier r.id hforget
      rw [← hbefore] at hmarker hreceipt
      obtain ⟨planned, hops⟩ := (hrecord internal hns).1
      exact outcome_of_marked hcommit hops hmarker hreceipt

end

/-! ## An id that is forgotten -/

def anchoredId : TransactionId := .ofDigits 0 1
def anchoringId : TransactionId := .ofDigits 0 2
def forgettingId : TransactionId := ⟨Bytes.utf8 "txn_000000000000000000003", by decide⟩

/-- The operation digest of the first transaction of the run. -/
def anchoredDigest : Digest :=
  letI := DnsName.hostNames
  match prepareTransaction anchoredId (.ofGeneration 0) [] with
  | .ok prepared => prepared.transaction.operationDigest
  | .error _ => default

/-- An id is submitted twice, its receipt is forgotten, and it is submitted once more. -/
def usedIdsRun : @Engine .hostNames :=
  letI := DnsName.hostNames
  Engine.run [
    .prepareTransaction anchoredId (.ofGeneration 0) [],
    .prepareTransaction anchoredId (.ofGeneration 0) [],
    .cleanupReceipt ⟨4, by decide⟩ .unixEpoch ⟨anchoredId, anchoredDigest⟩ anchoringId,
    .cleanupReceipt ⟨4, by decide⟩ ⟨6, by decide, by decide⟩ ⟨anchoredId, anchoredDigest⟩
      forgettingId,
    .prepareTransaction anchoredId (.ofGeneration 3) []]

theorem applied_once_usedIdsRun :
    letI := DnsName.hostNames
    ∃ last forgetting anchoring again first,
      usedIdsRun.log = [last, forgetting, anchoring, again, first] ∧
      first.id = anchoredId ∧ again.id = anchoredId ∧ ¬ (again.Applied ∧ first.Applied) ∧
      forgetting.Forgets last.id ∧ last.outcome = .ok .conflict := by
  let _ := DnsName.hostNames
  have hreachable : Engine.system.Reachable usedIdsRun := Engine.reachable_run _
  have hlog : usedIdsRun.log.map (fun r => (decide (r.id = anchoredId), decide (r.after ≠ r.before ∧
      .forgetReceipt anchoredId anchoredDigest ∈ r.transaction.operations))) =
    [(true, false), (false, true), (false, false), (true, false), (true, false)] := by decide +kernel
  simp only [List.map_eq_cons_iff, List.map_eq_nil_iff, Prod.mk.injEq, decide_eq_true_eq] at hlog
  obtain ⟨last, _, heq, ⟨hlast, -⟩, forgetting, _, rfl, ⟨-, happlied, hforgets⟩, anchoring, _, rfl, -,
    again, _, rfl, ⟨hagain, -⟩, first, _, rfl, ⟨hfirst, -⟩, rfl⟩ := hlog
  obtain ⟨honce, hconflict⟩ := applied_once hreachable
  rw [heq] at honce hconflict
  have hforgotten : forgetting.Forgets last.id := ⟨happlied, anchoredDigest, hlast ▸ hforgets⟩
  refine ⟨last, forgetting, anchoring, again, first, heq, hfirst, hagain, ?_, hforgotten, ?_⟩
  · rintro ⟨hsecond, honly⟩
    simp only [List.pairwise_cons] at honce
    exact honce.2.2.2.1 first (by simp) hsecond honly (hagain.trans hfirst.symm)
  · exact (List.pairwise_cons.mp hconflict).1 forgetting (by simp) hforgotten

end Radiata
