import Radiata.Spec.ReceiptIndex
import Radiata.Spec.UsedId

/-!
# Retention of receipts

A receipt is forgotten only from an anchor, the anchor carries the clock reading
of the commit that put it there, and every addition of a reference takes the
anchor away. So the commit that forgets a receipt follows an anchoring that is a
full retention interval old, with no reference added in between.

## Key results

- `forgotten_after_retention`
-/

namespace Radiata

section

variable [DnsName]

namespace CommitRecord

/-- The commit anchored the receipt `t` at the clock reading `time`. -/
def Anchors (internal : StoreNamespace) (t : TransactionId) (time : SystemTime)
    (r : CommitRecord) : Prop :=
  r.Applied ∧ (∃ retention, r.submission.call.cleanup = some ⟨t, retention, time⟩) ∧
    r.after.entries.get (record internal t .anchor) = some ⟨encodeWallTime time⟩

/-- The commit added a reference to the receipt `t`. -/
def AddsReference (internal : StoreNamespace) (t : TransactionId) (r : CommitRecord) : Prop :=
  ∃ token, r.before.entries.get (record internal t (.edge token)) = none ∧
    r.after.entries.get (record internal t (.edge token)) ≠ none

end CommitRecord

/-! ## One commit -/

variable {internal : StoreNamespace}

/-- A change that leaves an anchor put it there now, or found it there and added no
    reference. -/
theorem RecordChange.anchor_some {m m' : Entries} {cleanup : Option Cleanup}
    {id t : TransactionId} {anchor : StoreValue} (h : RecordChange internal m m' cleanup id t)
    (hagrees : IndexAgrees internal m t)
    (hanchor : m'.get (record internal t .anchor) = some anchor) :
    (∃ retention now, cleanup = some ⟨t, retention, now⟩ ∧ anchor = ⟨encodeWallTime now⟩) ∨
    (m.get (record internal t .anchor) = some anchor ∧
      ∀ token, m.get (record internal t (.edge token)) = none →
        m'.get (record internal t (.edge token)) = none) := by
  cases h with
  | untouched hid hsame hedges =>
    rw [hsame .anchor] at hanchor
    exact .inr ⟨hanchor, fun token hnone => (hsame _).trans hnone⟩
  | created hid hfresh hmarker hsame hedges =>
    rw [hsame .anchor (by simp)] at hanchor
    exact .inr ⟨hanchor, fun token hnone => (hsame _ (by simp)).trans hnone⟩
  | selfReferenced count hid hfresh hmarker hhead hsame hpositive hedges =>
    -- an anchored receipt has an active marker, and this one had none
    rw [hsame] at hanchor
    have hactive := hagrees.active (.inr (by rw [hanchor]; simp))
    rw [MarkerActive, hfresh] at hactive
    cases hactive
  | added count hid hactive hmarker hhead hnone hpositive hedges =>
    rw [hnone] at hanchor
    cases hanchor
  | removed count hid hactive hmarker hbefore hhead hsame hedges hnone =>
    rw [hsame] at hanchor
    exact .inr ⟨hanchor, hnone⟩
  | anchored retention now hid hclock hactive hnew hhead hsame hbefore hedges =>
    rw [hnew] at hanchor
    cases hanchor
    exact .inl ⟨retention, now, hclock, rfl⟩
  | forgotten _ retention now anchoredAt hid hclock hactive hmarker hhead hbefore hnone =>
    rw [hnone] at hanchor
    cases hanchor

/-- A change that adds a reference leaves no anchor. -/
theorem RecordChange.anchor_none {m m' : Entries} {cleanup : Option Cleanup}
    {id t : TransactionId} {token : ReceiptReferenceToken}
    (h : RecordChange internal m m' cleanup id t) (hagrees : IndexAgrees internal m t)
    (hbefore : m.get (record internal t (.edge token)) = none)
    (hafter : m'.get (record internal t (.edge token)) ≠ none) :
    m'.get (record internal t .anchor) = none := by
  rw [Option.eq_none_iff_forall_ne_some]
  intro anchor hanchor
  cases h with
  | anchored retention now hid hclock hactive hnew hhead hsame hnone hedges =>
    exact hafter ((hsame (.edge token) (by simp)).trans hbefore)
  | untouched hid hsame hedges => exact hafter ((hsame (.edge token)).trans hbefore)
  | created hid hfresh hmarker hsame hedges =>
    exact hafter ((hsame (.edge token) (by simp)).trans hbefore)
  | selfReferenced count hid hfresh hmarker hhead hsame hpositive hedges =>
    rw [hsame] at hanchor
    have hactive := hagrees.active (.inr (by rw [hanchor]; simp))
    rw [MarkerActive, hfresh] at hactive
    cases hactive
  | added count hid hactive hmarker hhead hnone hpositive hedges =>
    rw [hnone] at hanchor
    cases hanchor
  | removed count hid hactive hmarker hcount hhead hsame hedges hnone =>
    exact hafter (hnone token hbefore)
  | forgotten _ retention now anchoredAt hid hclock hactive hmarker hhead hold hnone =>
    rw [hnone] at hanchor
    cases hanchor

/-! ## Runs -/

/-- The log has a commit that anchored `t` at `time`, and no later commit of the log
    added a reference to `t`. -/
def AnchoredSince (internal : StoreNamespace) (log : List CommitRecord) (t : TransactionId)
    (time : SystemTime) : Prop :=
  ∃ between anchoring earlier, log = between ++ anchoring :: earlier ∧
    anchoring.Anchors internal t time ∧ ∀ r ∈ between, ¬ r.AddsReference internal t

theorem AnchoredSince.cons {log : List CommitRecord} {t : TransactionId} {time : SystemTime}
    {r : CommitRecord} (h : AnchoredSince internal log t time) (hr : ¬ r.AddsReference internal t) :
    AnchoredSince internal (r :: log) t time := by
  obtain ⟨between, anchoring, earlier, rfl, hanchors, hnone⟩ := h
  refine ⟨r :: between, anchoring, earlier, rfl, hanchors, ?_⟩
  intro r' hr'
  rcases List.mem_cons.mp hr' with rfl | hr'
  · exact hr
  · exact hnone r' hr'

/-- An anchor in the store is the anchor of some commit of the log. -/
def AnchorsLogged (internal : StoreNamespace) (s : Engine) : Prop :=
  ∀ t anchor, s.store.entries.get (record internal t .anchor) = some anchor →
    ∃ time, anchor = ⟨encodeWallTime time⟩ ∧ AnchoredSince internal s.log t time

theorem anchorsLogged_of_reachable (hns : internalNamespace = .ok internal) {s : Engine}
    (h : Engine.system.Reachable s) :
    AnchorsLogged internal s := by
  refine h.invariant ?_ ?_
  · rintro s ⟨⟨generation, hstore⟩, -⟩ t anchor hanchor
    rw [hstore] at hanchor
    cases hanchor
  · intro s t hs hinv hstep u anchor hanchor
    rcases Engine.step_cases (Engine.inv_of_reachable hs) hstep with
      ⟨hstore, hlog⟩ | ⟨r, hlog, hbefore, hafter, -, -, hrecord⟩
    · rw [hstore] at hanchor
      rw [hlog]
      exact hinv u anchor hanchor
    rw [hlog]
    rw [hafter] at hanchor
    rcases (hrecord internal hns).2 with hsame | ⟨happlied, planned, hr⟩
    · rw [hsame, hbefore] at hanchor
      obtain ⟨time, htime, hsince⟩ := hinv u anchor hanchor
      refine ⟨time, htime, hsince.cons ?_⟩
      rintro ⟨token, hnone, hsome⟩
      rw [hsame] at hsome
      exact hsome hnone
    · have hagrees := (indexInv_of_reachable hns hs).agrees u
      rw [← hbefore] at hagrees
      rcases (hr.change u).anchor_some hagrees hanchor with
        ⟨retention, now, hclock, rfl⟩ | ⟨hold, hedges⟩
      · exact ⟨now, rfl, [], r, s.log, rfl, ⟨happlied, ⟨retention, hclock⟩, hanchor⟩, by simp⟩
      · rw [hbefore] at hold
        obtain ⟨time, htime, hsince⟩ := hinv u anchor hold
        refine ⟨time, htime, hsince.cons ?_⟩
        rintro ⟨token, hnone, hsome⟩
        exact hsome (hedges token hnone)

/-- What a logged commit says about the receipt `t` and the commits before it. -/
structure Retained (internal : StoreNamespace) (t : TransactionId) (r : CommitRecord)
    (older : List CommitRecord) : Prop where
  forgotten : r.Forgets t →
    (∀ token, r.before.entries.get (record internal t (.edge token)) = none) ∧
    ∃ retention now time, r.submission.call.cleanup = some ⟨t, retention, now⟩ ∧
      time.nanos + retention.nanos ≤ now.nanos ∧ AnchoredSince internal older t time
  added : r.AddsReference internal t → r.after.entries.get (record internal t .anchor) = none

theorem CommitRecord.AppliedAs.retained {r : CommitRecord} {planned : List StoreOperation}
    (h : r.AppliedAs internal planned) {t : TransactionId} {older : List CommitRecord}
    (hagrees : IndexAgrees internal r.before.entries t)
    (hanchors : ∀ anchor, r.before.entries.get (record internal t .anchor) = some anchor →
      ∃ time, anchor = ⟨encodeWallTime time⟩ ∧ AnchoredSince internal older t time) :
    Retained internal t r older := by
  refine ⟨?_, ?_⟩
  · rintro ⟨-, digest, hmem⟩
    rw [h.operations] at hmem
    have hplanned : .forgetReceipt t digest ∈ planned := by simpa [putMarker] using hmem
    obtain ⟨-, hnone, anchor, retention, now, anchoredAt, hanchor, hclock, hdecode, hdue⟩ :=
      (h.profile t).of_forgetReceipt hplanned
    obtain ⟨time, rfl, hsince⟩ := hanchors anchor hanchor
    rw [StoreValue.asBytes, decodeWallTime_encodeWallTime] at hdecode
    cases hdecode
    exact ⟨edgeCount_eq_zero_iff.mp hnone, retention, now, anchoredAt, hclock, hdue, hsince⟩
  · rintro ⟨token, hnone, hsome⟩
    exact (h.change t).anchor_none hagrees hnone hsome

/-- A commit that forgets the receipt `t` at the clock reading `now` finds no reference
    to it, and follows an anchoring at least one retention interval older, with no
    reference added in between; and a commit that adds a reference to `t` leaves no
    anchor. -/
theorem forgotten_after_retention {internal : StoreNamespace}
    (hns : internalNamespace = .ok internal) {s : Engine} (h : Engine.system.Reachable s)
    {newer older : List CommitRecord} {r : CommitRecord} (hlog : s.log = newer ++ r :: older)
    (t : TransactionId) :
    (r.Forgets t →
      (∀ token, r.before.entries.get (record internal t (.edge token)) = none) ∧
      ∃ retention now time, r.submission.call.cleanup = some ⟨t, retention, now⟩ ∧
        time.nanos + retention.nanos ≤ now.nanos ∧
        ∃ between anchoring earlier, older = between ++ anchoring :: earlier ∧
          anchoring.Anchors internal t time ∧ ∀ b ∈ between, ¬ b.AddsReference internal t) ∧
    (r.AddsReference internal t → r.after.entries.get (record internal t .anchor) = none) := by
  suffices hretained : Retained internal t r older from ⟨hretained.forgotten, hretained.added⟩
  refine h.invariant (P := fun s => ∀ newer r older, s.log = newer ++ r :: older →
    Retained internal t r older) ?_ ?_ newer r older hlog
  · rintro s ⟨-, -, -, hnil⟩ newer r older hlog
    rw [hnil] at hlog
    simp at hlog
  · intro s u hs hinv hstep newer r older hlog
    rcases Engine.step_cases (Engine.inv_of_reachable hs) hstep with
      ⟨-, hsame⟩ | ⟨r', hcons, hbefore, hafter, -, -, hrecord⟩
    · exact hinv newer r older (hsame ▸ hlog)
    rw [hcons] at hlog
    cases newer with
    | cons newest newer =>
      rw [List.cons_append, List.cons.injEq] at hlog
      exact hinv newer r older hlog.2
    | nil =>
      rw [List.nil_append, List.cons.injEq] at hlog
      obtain ⟨rfl, rfl⟩ := hlog
      rcases (hrecord internal hns).2 with hunchanged | ⟨-, planned, happlied⟩
      · refine ⟨fun hforget => absurd hunchanged hforget.1, ?_⟩
        rintro ⟨token, hnone, hsome⟩
        rw [hunchanged] at hsome
        exact absurd hnone hsome
      · refine happlied.retained ?_ ?_
        · rw [hbefore]
          exact (indexInv_of_reachable hns hs).agrees t
        · rw [hbefore]
          exact anchorsLogged_of_reachable hns hs t

end

/-! ## A receipt that is anchored and forgotten -/

/-- A receipt anchored at 0 and forgotten at 7 nanoseconds past the epoch, under a
    retention interval of 5 nanoseconds. -/
def forgettingRun : @Engine .hostNames :=
  letI := DnsName.hostNames
  Engine.run [
    .prepareTransaction anchoredId (.ofGeneration 0) [],
    .cleanupReceipt ⟨5, by decide⟩ .unixEpoch ⟨anchoredId, anchoredDigest⟩
      anchoringId,
    .cleanupReceipt ⟨5, by decide⟩ ⟨7, by decide, by decide⟩ ⟨anchoredId, anchoredDigest⟩
      forgettingId]

theorem forgotten_after_retention_forgettingRun :
    letI := DnsName.hostNames
    ∃ internal, internalNamespace = .ok internal ∧
      ∃ r older, forgettingRun.log = r :: older ∧ r.Forgets anchoredId ∧
        (∀ token, r.before.entries.get (record internal anchoredId (.edge token)) = none) ∧
        ∃ retention now time, r.submission.call.cleanup = some ⟨anchoredId, retention, now⟩ ∧
          time.nanos + retention.nanos ≤ now.nanos ∧
          ∃ between anchoring earlier, older = between ++ anchoring :: earlier ∧
            anchoring.Anchors internal anchoredId time ∧
            ∀ b ∈ between, ¬ b.AddsReference internal anchoredId := by
  let _ := DnsName.hostNames
  obtain ⟨internal, hns⟩ := exists_internalNamespace_hostNames
  have hhead : forgettingRun.log.head?.any (fun r => decide (r.after ≠ r.before ∧
      StoreOperation.forgetReceipt anchoredId anchoredDigest ∈ r.transaction.operations)) = true := by
    decide +kernel
  obtain ⟨r, hr, hforgets⟩ := Option.any_eq_true _ _ |>.mp hhead
  obtain ⟨older, hlog⟩ := List.head?_eq_some_iff.mp hr
  have hsplit : forgettingRun.log = [] ++ r :: older := hlog
  have hforgets : r.Forgets anchoredId := by
    rw [decide_eq_true_eq] at hforgets
    exact ⟨hforgets.1, anchoredDigest, hforgets.2⟩
  exact ⟨internal, hns, r, older, hlog, hforgets,
    (forgotten_after_retention hns (Engine.reachable_run _) hsplit anchoredId).1 hforgets⟩

end Radiata
