import Radiata.Spec.AdmissionRateCorrect

/-!
# One source against the others

A source that keeps calling `begin` is refused by its own limits, but the node has counted its
call before. So the others, who stay within all limits, are admitted as long as fewer calls were
made in the window of the node than it allows, refused ones included.

## Key results

- `RateWindow.Counts`: how many attempts a window has counted
- `LimiterSystem.begin_eq_ok_iff`: when a `begin` call is admitted
- `others_admitted_iff`
-/

namespace Radiata

/-! ## Attempts in a window -/

namespace RateWindow

variable {window : RateWindow} {now t : Nat}

theorem record_eq_ok_iff :
    (window.record now).2 = .ok () ↔ (window.turn now).count < window.limit := by
  unfold record
  simp only [turn_limit]
  by_cases hfull : window.limit ≤ (window.turn now).count
  · simp [hfull]
  · simp [hfull, Nat.lt_of_not_le hfull]

theorem record_count : (window.record now).1.count =
    if window.limit ≤ (window.turn now).count then (window.turn now).count
    else (window.turn now).count + 1 := by
  unfold record
  simp only [turn_limit]
  split <;> rfl

theorem turn_of_lt (h : t < window.start + windowSeconds) : window.turn t = window := by
  have hspan : 0 < windowSeconds := by decide
  unfold turn
  rw [if_neg (by omega)]

theorem turn_of_le (h : window.start + windowSeconds ≤ t) :
    window.turn t = { window with start := t, count := 0 } := by
  unfold turn
  rw [if_pos (by omega)]

/-- An attempt adds at most one to what a window has counted. -/
theorem turn_record_count_le (window : RateWindow) (now t : Nat) :
    ((window.record now).1.turn t).count ≤ (window.turn now).count + 1 := by
  have hcount : (window.record now).1.count ≤ (window.turn now).count + 1 := by
    rw [record_count]
    split <;> omega
  by_cases hover : (window.record now).1.start + windowSeconds ≤ t
  · rw [turn_of_le hover]
    exact Nat.zero_le _
  · rw [turn_of_lt (Nat.lt_of_not_le hover)]
    exact hcount

/-- Two attempts are on one side of the end of the first window. -/
def sameWindow (ending now time : Nat) : Bool := decide (ending ≤ time ↔ ending ≤ now)

/-- What a window has counted of attempts at `times` in the minute from `opening` on, if at first
    it was to end at `ending`: it starts again once, at the first attempt from then on. -/
structure Counts (ending opening clock : Nat) (times : List Nat) (window : RateWindow) : Prop where
  past : ∀ time ∈ times, time ≤ clock
  count : ∀ t, opening ≤ t → clock ≤ t → t < opening + windowSeconds →
    (window.turn t).count = min window.limit (times.countP (sameWindow ending t))
  first : ∀ t, opening ≤ t → clock ≤ t → t < opening + windowSeconds → t < ending →
    (window.turn t).start + windowSeconds = ending
  second : ∀ t, opening ≤ t → clock ≤ t → t < opening + windowSeconds → ending ≤ t →
    opening ≤ (window.turn t).start

/-- A window without attempts. -/
theorem Counts.start {opening clock : Nat}
    (h : window.count = 0 ∨ window.start + windowSeconds ≤ opening) :
    Counts (window.start + windowSeconds) opening clock [] window where
  past := nofun
  count := by
    intro t hopening _ _
    rw [List.countP_nil, Nat.min_zero]
    by_cases hover : window.start + windowSeconds ≤ t
    · rw [turn_of_le hover]
    · rw [turn_of_lt (Nat.lt_of_not_le hover)]
      rcases h with hzero | hover'
      · exact hzero
      · omega
  first := by
    intro t _ _ _ hfirst
    rw [turn_of_lt hfirst]
  second := by
    intro t hopening _ _ hsecond
    rw [turn_of_le hsecond]
    exact hopening

variable {ending opening clock : Nat} {times : List Nat}

/-- One more attempt. -/
theorem Counts.record (h : Counts ending opening clock times window) (hopening : opening ≤ now)
    (hclock : clock ≤ now) (hnow : now < opening + windowSeconds) :
    Counts ending opening now (times ++ [now]) (window.record now).1 := by
  have hcount := h.count now hopening hclock hnow
  have hfirst := h.first now hopening hclock hnow
  have hsecond := h.second now hopening hclock hnow
  have hstart := record_start window now
  refine ⟨?_, ?_, ?_, ?_⟩
  · intro time hmem
    rcases List.mem_append.mp hmem with hmem | hmem
    · exact (h.past time hmem).trans hclock
    · exact Nat.le_of_eq (List.mem_singleton.mp hmem)
  · intro t _ hnowt ht
    rw [record_limit, List.countP_append, List.countP_singleton]
    by_cases hside : sameWindow ending t now = true
    · -- No window ends between the attempt and `t`.
      have hopen : t < (window.record now).1.start + windowSeconds := by
        rw [hstart]
        by_cases hearly : now < ending
        · have hlate : t < ending := by
            simp only [sameWindow, decide_eq_true_eq] at hside
            omega
          have := hfirst hearly
          omega
        · have := hsecond (Nat.le_of_not_lt hearly)
          omega
      have hcongr : times.countP (sameWindow ending t) = times.countP (sameWindow ending now) := by
        refine List.countP_congr fun time _ => ?_
        simp only [sameWindow, decide_eq_true_eq] at hside ⊢
        omega
      rw [turn_of_lt hopen, record_count, hcount, hcongr, if_pos hside]
      split <;> omega
    · -- The window ends in between, and all attempts were before.
      have hbetween : now < ending ∧ ending ≤ t := by
        simp only [sameWindow, decide_eq_true_eq] at hside
        omega
      have hover : (window.record now).1.start + windowSeconds ≤ t := by
        rw [hstart, hfirst hbetween.1]
        exact hbetween.2
      have hnone : times.countP (sameWindow ending t) = 0 := by
        rw [List.countP_eq_zero]
        intro time hmem
        have hpast := h.past time hmem
        simp only [sameWindow, decide_eq_true_eq]
        omega
      rw [turn_of_le hover, hnone, if_neg hside, Nat.min_zero]
  · intro t _ hnowt ht hlate
    have hearly : now < ending := Nat.lt_of_le_of_lt hnowt hlate
    have hopen : t < (window.record now).1.start + windowSeconds := by
      rw [hstart, hfirst hearly]
      exact hlate
    rw [turn_of_lt hopen, hstart]
    exact hfirst hearly
  · intro t hopeningt hnowt ht hlate
    by_cases hover : (window.record now).1.start + windowSeconds ≤ t
    · rw [turn_of_le hover]
      exact hopeningt
    · rw [turn_of_lt (Nat.lt_of_not_le hover), hstart]
      by_cases hearly : now < ending
      · have := hfirst hearly
        omega
      · exact hsecond (Nat.le_of_not_lt hearly)

end RateWindow

/-! ## Calls -/

namespace LimiterSystem

open AdmissionLimiter

variable {s : LimiterSystem} {source : AdmissionSource} {now : Nat}

theorem makeRoom_of_room {limiter : AdmissionLimiter} (h : limiter.tableFull source = false)
    (now : Nat) : limiter.makeRoom source now = limiter := by
  simp [makeRoom, h]

/-- A `begin` call is admitted if no limit refuses it. -/
theorem begin_eq_ok_iff {limiter : AdmissionLimiter} (hroom : limiter.tableFull source = false)
    (now : Nat) : (limiter.begin source now).2 = .ok () ↔
      (limiter.globalWindow.record now).2 = .ok () ∧ limiter.globalPending < pendingGlobal ∧
      ((limiter.bucketOf source now).window.record now).2 = .ok () ∧
      (limiter.bucketOf source now).pending < pendingPerSource := by
  unfold AdmissionLimiter.begin
  rw [makeRoom_of_room hroom]
  cases hglobal : (limiter.globalWindow.record now).2 with
  | error e => simp [hroom, hglobal]
  | ok u =>
    by_cases hpending : pendingGlobal ≤ limiter.globalPending
    · simp [hroom, hglobal, hpending]
    · have hbucket : ({ limiter with globalWindow := (limiter.globalWindow.record now).1 } :
          AdmissionLimiter).bucketOf source now = limiter.bucketOf source now := rfl
      simp only [hroom, hglobal, hpending, Bool.false_eq_true, if_false, beginSource, hbucket,
        Nat.lt_of_not_le hpending, true_and]
      cases hrecorded : ((limiter.bucketOf source now).window.record now).2 with
      | error e => simp
      | ok u =>
        by_cases hfull : pendingPerSource ≤ (limiter.bucketOf source now).pending
        · simp [hfull]
        · simp [hfull, Nat.lt_of_not_le hfull]

/-- What a `begin` call does to the windows, where there is room for a bucket. -/
theorem attempt_windows (hroom : s.limiter.tableFull source = false) (now : Nat) :
    (s.attempt source now).limiter.globalWindow = (s.limiter.globalWindow.record now).1 ∧
    ∀ other bucket, (s.attempt source now).limiter.sources.get other = some bucket →
      s.limiter.sources.get other = some bucket ∨
      other = source ∧ bucket.window = ((s.limiter.bucketOf source now).window.record now).1 := by
  unfold attempt AdmissionLimiter.begin
  rw [makeRoom_of_room hroom]
  have hreplaced : ∀ (replaced : SourceBucket) (other : AdmissionSource) (bucket : SourceBucket),
      replaced.window = ((s.limiter.bucketOf source now).window.record now).1 →
      (s.limiter.sources.insert source replaced).get other = some bucket →
      s.limiter.sources.get other = some bucket ∨
        other = source ∧ bucket.window = ((s.limiter.bucketOf source now).window.record now).1 := by
    intro replaced other bucket hwindow hget
    rw [SortedMap.get_insert] at hget
    split at hget
    · rename_i hother
      cases hget
      exact .inr ⟨hother, hwindow⟩
    · exact .inl hget
  cases hglobal : (s.limiter.globalWindow.record now).2 with
  | error e =>
    simp only [hroom, hglobal, Bool.false_eq_true, if_false]
    exact ⟨trivial, fun _ _ hget => .inl hget⟩
  | ok u =>
    by_cases hpending : pendingGlobal ≤ s.limiter.globalPending
    · simp only [hroom, hglobal, hpending, Bool.false_eq_true, if_false, if_true]
      exact ⟨trivial, fun _ _ hget => .inl hget⟩
    · simp only [hroom, hglobal, hpending, Bool.false_eq_true, if_false]
      rcases beginSource_cases (s.limiter.counted now) source now with ⟨e, he⟩ | ⟨-, -, hok⟩
      · rw [show AdmissionLimiter.mk s.limiter.sources s.limiter.globalPending
          (s.limiter.globalWindow.record now).1 = s.limiter.counted now from rfl, he]
        exact ⟨rfl, fun other bucket => hreplaced _ other bucket rfl⟩
      · rw [show AdmissionLimiter.mk s.limiter.sources s.limiter.globalPending
          (s.limiter.globalWindow.record now).1 = s.limiter.counted now from rfl, hok]
        exact ⟨rfl, fun other bucket => hreplaced _ other bucket rfl⟩

theorem attempt_clock (s : LimiterSystem) (source : AdmissionSource) (now : Nat) :
    (s.attempt source now).clock = now := by
  unfold attempt
  split <;> rfl

/-- A dropped slot leaves every window as it is. -/
theorem release_windows (s : LimiterSystem) (source : AdmissionSource) :
    (s.release source).limiter.globalWindow = s.limiter.globalWindow ∧
    ∀ other bucket, (s.release source).limiter.sources.get other = some bucket →
      ∃ old, s.limiter.sources.get other = some old ∧ bucket.window = old.window := by
  unfold release AdmissionLimiter.drop
  cases hget : s.limiter.sources.get source with
  | none =>
    simp only [hget]
    exact ⟨trivial, fun other bucket hother => ⟨bucket, hother, rfl⟩⟩
  | some held =>
    simp only [hget]
    refine ⟨trivial, fun other bucket hother => ?_⟩
    rw [SortedMap.get_insert] at hother
    split at hother
    · rename_i heq
      cases hother
      exact ⟨held, heq ▸ hget, rfl⟩
    · exact ⟨bucket, hother, rfl⟩

end LimiterSystem

/-! ## Histories -/

inductive LimiterEvent where
  | begin (source : AdmissionSource) (now : Nat)
  | drop (source : AdmissionSource)
  deriving DecidableEq

namespace LimiterSystem

def step (s : LimiterSystem) : LimiterEvent → LimiterSystem
  | .begin source now => s.attempt source now
  | .drop source => s.release source

/-- The state after some events. -/
def after (start : LimiterSystem) (events : List LimiterEvent) : LimiterSystem :=
  events.foldl step start

theorem after_append (start : LimiterSystem) (events : List LimiterEvent) (event : LimiterEvent) :
    start.after (events ++ [event]) = (start.after events).step event :=
  List.foldl_append ..

end LimiterSystem

namespace LimiterEvent

/-- When a `begin` call was made. -/
def time : LimiterEvent → Option Nat
  | begin _ now => some now
  | drop _ => none

/-- The event is a `begin` call of such a source. -/
def callOf (p : AdmissionSource → Bool) : LimiterEvent → Bool
  | begin source _ => p source
  | drop _ => false

end LimiterEvent

/-- The times of the `begin` calls. -/
def callTimes (events : List LimiterEvent) : List Nat := events.filterMap LimiterEvent.time

/-- The number of `begin` calls of such sources. -/
def attempts (p : AdmissionSource → Bool) (events : List LimiterEvent) : Nat :=
  events.countP (LimiterEvent.callOf p)

open LimiterSystem in
/-- A history within one 60-second window, from `opening` on: no earlier attempt counts in it, and
    all sources but one stay within the limits, which leave room for that source. -/
structure OneWindow (start : LimiterSystem) (source : AdmissionSource) (opening : Nat)
    (events : List LimiterEvent) : Prop where
  reachable : runs.Reachable start
  clock : start.clock ≤ opening
  globalWindow : start.limiter.globalWindow.count = 0 ∨
    start.limiter.globalWindow.start + windowSeconds ≤ opening
  buckets : ∀ other bucket, start.limiter.sources.get other = some bucket →
    bucket.window.count = 0 ∨ bucket.window.start + windowSeconds ≤ opening
  times : ∀ before caller now, before ++ [.begin caller now] <+: events →
    opening ≤ now ∧ (start.after before).clock ≤ now ∧ now < opening + windowSeconds
  drops : ∀ before caller, before ++ [.drop caller] <+: events →
    caller ∈ (start.after before).slots
  table : ∀ before caller now, before ++ [.begin caller now] <+: events →
    (start.after before).limiter.tableFull caller = false
  rate : ∀ other, other ≠ source → attempts (· = other) events < ratePerSource
  pending : ∀ before other now, other ≠ source → before ++ [.begin other now] <+: events →
    (start.after before).slots.count other + 1 < pendingPerSource
  totalRate : attempts (· ≠ source) events ≤ rateGlobal - ratePerSource
  totalPending : ∀ before other now, other ≠ source → before ++ [.begin other now] <+: events →
    (start.after before).slots.countP (· ≠ source) + 1 ≤ pendingGlobal - pendingPerSource

/-! ## What the windows have counted -/

open LimiterSystem

/-- The state after some events of a history: the window of the node has counted every call, and
    the window of a source at most those of the source. -/
structure OnTrack (start : LimiterSystem) (opening : Nat) (before : List LimiterEvent) : Prop where
  reachable : runs.Reachable (start.after before)
  counts : RateWindow.Counts (start.limiter.globalWindow.start + windowSeconds) opening
    (start.after before).clock (callTimes before) (start.after before).limiter.globalWindow
  buckets : ∀ source bucket, (start.after before).limiter.sources.get source = some bucket →
    ∀ t, opening ≤ t → (start.after before).clock ≤ t →
      (bucket.window.turn t).count ≤ attempts (· = source) before

section History

variable {start : LimiterSystem} {source caller : AdmissionSource} {opening now : Nat}
  {events before : List LimiterEvent}

/-- The bucket that a call works on, also when it is new. -/
theorem OnTrack.bucketOf (h : OnTrack start opening before) (hopening : opening ≤ now)
    (hclock : (start.after before).clock ≤ now) (caller : AdmissionSource) :
    (((start.after before).limiter.bucketOf caller now).window.turn now).count ≤
      attempts (· = caller) before := by
  unfold AdmissionLimiter.bucketOf
  cases hget : (start.after before).limiter.sources.get caller with
  | some bucket => exact h.buckets caller bucket hget now hopening hclock
  | none =>
    have hzero : ((RateWindow.new now ratePerSource).turn now).count = 0 :=
      congrArg RateWindow.count (RateWindow.turn_of_lt (Nat.lt_add_of_pos_right (by decide)))
    exact hzero.trans_le (Nat.zero_le _)

theorem attempts_append (p : AdmissionSource → Bool) (before : List LimiterEvent)
    (event : LimiterEvent) :
    attempts p (before ++ [event]) = attempts p before + if event.callOf p = true then 1 else 0 := by
  rw [attempts, List.countP_append, List.countP_singleton]
  rfl

theorem OnTrack.call (h : OnTrack start opening before) (hopening : opening ≤ now)
    (hclock : (start.after before).clock ≤ now) (hnow : now < opening + windowSeconds)
    (hroom : (start.after before).limiter.tableFull caller = false) :
    OnTrack start opening (before ++ [.begin caller now]) := by
  obtain ⟨hglobal, hbuckets⟩ := attempt_windows hroom now
  refine ⟨?_, ?_, ?_⟩
  · rw [after_append]
    exact h.reachable.step (.attempt caller now hclock)
  · rw [after_append]
    show RateWindow.Counts _ _ ((start.after before).attempt caller now).clock _
      ((start.after before).attempt caller now).limiter.globalWindow
    rw [attempt_clock, hglobal, callTimes, List.filterMap_append]
    exact h.counts.record hopening hclock hnow
  · intro other bucket hget t hopeningt hclockt
    rw [after_append] at hget hclockt
    have hnowt : now ≤ t := (attempt_clock _ caller now).symm.trans_le hclockt
    rw [attempts_append]
    rcases hbuckets other bucket hget with hold | ⟨rfl, hwindow⟩
    · have := h.buckets other bucket hold t hopeningt (hclock.trans hnowt)
      omega
    · have hle := RateWindow.turn_record_count_le
        ((start.after before).limiter.bucketOf other now).window now t
      have hbucket := h.bucketOf hopening hclock other
      rw [hwindow, if_pos (by simp [LimiterEvent.callOf])]
      omega

theorem OnTrack.drop (h : OnTrack start opening before)
    (hheld : caller ∈ (start.after before).slots) :
    OnTrack start opening (before ++ [.drop caller]) := by
  obtain ⟨hglobal, hbuckets⟩ := release_windows (start.after before) caller
  refine ⟨?_, ?_, ?_⟩
  · rw [after_append]
    exact h.reachable.step (.release caller hheld)
  · rw [after_append]
    show RateWindow.Counts _ _ (start.after before).clock _
      ((start.after before).release caller).limiter.globalWindow
    rw [hglobal, callTimes, List.filterMap_append,
      show [LimiterEvent.drop caller].filterMap LimiterEvent.time = [] from rfl, List.append_nil]
    exact h.counts
  · intro other bucket hget t hopening hclock
    rw [after_append] at hget
    obtain ⟨old, hold, hwindow⟩ := hbuckets other bucket hget
    rw [hwindow, attempts_append, if_neg (by simp [LimiterEvent.callOf])]
    exact h.buckets other old hold t hopening
      (show (start.after before).clock ≤ t by rw [after_append] at hclock; exact hclock)

/-- Every state of a history is on track. -/
theorem OneWindow.onTrack (h : OneWindow start source opening events) :
    before <+: events → OnTrack start opening before := by
  induction before using List.reverseRecOn with
  | nil =>
    intro _
    refine ⟨h.reachable, .start h.globalWindow, ?_⟩
    intro other bucket hget t hopening _
    refine Nat.le_of_eq ?_
    show (bucket.window.turn t).count = 0
    by_cases hover : bucket.window.start + windowSeconds ≤ t
    · rw [RateWindow.turn_of_le hover]
    · rw [RateWindow.turn_of_lt (Nat.lt_of_not_le hover)]
      rcases h.buckets other bucket hget with hzero | hover'
      · exact hzero
      · omega
  | append_singleton before event ih =>
    intro hinside
    have hbefore := ih ((List.prefix_append before [event]).trans hinside)
    cases event with
    | begin caller now =>
      obtain ⟨hopening, hclock, hnow⟩ := h.times before caller now hinside
      exact hbefore.call hopening hclock hnow (h.table before caller now hinside)
    | drop caller => exact hbefore.drop (h.drops before caller hinside)

/-- A call of another source is admitted if and only if the window of the node is not full. -/
theorem OneWindow.begin_eq_ok_iff (h : OneWindow start source opening events)
    (hcaller : caller ≠ source) (hinside : before ++ [.begin caller now] <+: events) :
    ((start.after before).limiter.begin caller now).2 = .ok () ↔
      (callTimes before).countP
        (RateWindow.sameWindow (start.limiter.globalWindow.start + windowSeconds) now) <
          rateGlobal := by
  have hbefore := h.onTrack ((List.prefix_append before _).trans hinside)
  have hbalanced := balanced_of_reachable hbefore.reachable
  have hmetered := metered_of_reachable hbefore.reachable
  obtain ⟨hopening, hclock, hnow⟩ := h.times before caller now hinside
  obtain ⟨hslots, -⟩ := hbalanced.bucketOf caller now
  have hpending := h.pending before caller now hcaller hinside
  -- The slots of the one source and those of the others.
  have htotal : (start.after before).limiter.globalPending < pendingGlobal := by
    have hothers := h.totalPending before caller now hcaller hinside
    have hown := (hbalanced.bucketOf source now).1 ▸ (hbalanced.bucketOf source now).2
    have hsplit := List.length_eq_countP_add_countP (p := fun other => decide (other ≠ source))
      (l := (start.after before).slots)
    have hcount : (start.after before).slots.countP (fun other => ¬ decide (other ≠ source) = true) =
        (start.after before).slots.count source := by
      refine List.countP_congr fun other _ => ?_
      simp
    have hlimits : pendingGlobal - pendingPerSource + pendingPerSource = pendingGlobal := by decide
    rw [hbalanced.total]
    omega
  -- The attempts of the caller so far, this one excluded.
  have hrate : (((start.after before).limiter.bucketOf caller now).window.record now).2 =
      .ok () := by
    rw [RateWindow.record_eq_ok_iff]
    have hlimit : ((start.after before).limiter.bucketOf caller now).window.limit =
        ratePerSource := by
      unfold AdmissionLimiter.bucketOf
      cases hget : (start.after before).limiter.sources.get caller with
      | some bucket => exact (hmetered.bucket caller bucket hget).limit
      | none => rfl
    have hcount := hbefore.bucketOf hopening hclock caller
    have hattemptsLe : attempts (· = caller) before ≤ attempts (· = caller) events :=
      ((List.prefix_append before _).trans hinside).sublist.countP_le
    have hattempts := h.rate caller hcaller
    omega
  rw [LimiterSystem.begin_eq_ok_iff (h.table before caller now hinside),
    RateWindow.record_eq_ok_iff, hbefore.counts.count now hopening hclock hnow,
    hmetered.globalLimit]
  constructor
  · rintro ⟨hglobal, -⟩
    omega
  · intro hcalls
    exact ⟨by omega, htotal, hrate, by omega⟩

end History

/-- In a history within one window, whatever one source does: every call of the others is admitted
    if and only if before each of them fewer calls were made in the window of the node than it
    allows, those that were refused included. -/
theorem others_admitted_iff {start : LimiterSystem} {source : AdmissionSource} {opening : Nat}
    {events : List LimiterEvent} (h : OneWindow start source opening events) :
    (∀ before other now, other ≠ source → before ++ [.begin other now] <+: events →
      ((start.after before).limiter.begin other now).2 = .ok ()) ↔
    ∀ before other now, other ≠ source → before ++ [.begin other now] <+: events →
      (callTimes before).countP
        (RateWindow.sameWindow (start.limiter.globalWindow.start + windowSeconds) now) <
          rateGlobal := by
  constructor
  · intro hadmitted before other now hother hinside
    exact (h.begin_eq_ok_iff hother hinside).mp (hadmitted before other now hother hinside)
  · intro hcalls before other now hother hinside
    exact (h.begin_eq_ok_iff hother hinside).mpr (hcalls before other now hother hinside)

/-! ## A flood from one source -/

namespace LimiterSystem

theorem attempt_slots_countP_le (s : LimiterSystem) (source : AdmissionSource) (now : Nat)
    (p : AdmissionSource → Bool) : (s.attempt source now).slots.countP p ≤
      s.slots.countP p + if p source = true then 1 else 0 := by
  unfold attempt
  split
  · exact Nat.le_add_right _ _
  · rw [List.countP_cons]

/-- Slots are held by calls. -/
theorem slots_after_countP_le {start : LimiterSystem} (hslots : start.slots = [])
    (events : List LimiterEvent) (p : AdmissionSource → Bool) :
    (start.after events).slots.countP p ≤ attempts p events := by
  induction events using List.reverseRecOn with
  | nil => simp [after, hslots]
  | append_singleton before event ih =>
    rw [after_append, attempts_append]
    cases event with
    | begin source now =>
      exact (attempt_slots_countP_le _ source now p).trans (Nat.add_le_add_right ih _)
    | drop source =>
      have herase : ((start.after before).slots.erase source).countP p ≤
          (start.after before).slots.countP p := List.erase_sublist.countP_le
      exact (herase.trans ih).trans (Nat.le_add_right _ _)

theorem size_withBucket_le_succ (limiter : AdmissionLimiter) (source : AdmissionSource)
    (bucket : SourceBucket) :
    (limiter.withBucket source bucket).sources.size ≤ limiter.sources.size + 1 := by
  show (limiter.sources.insert source bucket).size ≤ _
  cases hget : limiter.sources.get source with
  | some old =>
    rw [SortedMap.size_insert_of_some _ bucket hget]
    omega
  | none => rw [SortedMap.size_insert_of_none _ bucket hget]

/-- A call adds at most one bucket. -/
theorem attempt_size_le (s : LimiterSystem) (source : AdmissionSource) (now : Nat) :
    (s.attempt source now).limiter.sources.size ≤ s.limiter.sources.size + 1 := by
  have hroom : (s.limiter.makeRoom source now).sources.size ≤ s.limiter.sources.size := by
    unfold AdmissionLimiter.makeRoom
    split
    · exact AdmissionLimiter.size_evictIdle_le s.limiter now
    · exact Nat.le_refl _
  rcases attempt_cases s source now rfl with heq | heq | ⟨-, heq⟩ | ⟨-, -, -, -, -, heq⟩ <;> rw [heq]
  · exact hroom.trans (Nat.le_succ _)
  · exact hroom.trans (Nat.le_succ _)
  · exact (size_withBucket_le_succ ..).trans (Nat.succ_le_succ hroom)
  · exact (size_withBucket_le_succ ..).trans (Nat.succ_le_succ hroom)

end LimiterSystem

def sampleFlooder : AdmissionSource := .v4 ⟨10, 0, 0, 1⟩
def sampleVictim : AdmissionSource := .v4 ⟨10, 0, 0, 2⟩

/-- A source calls `n` times, and then another one calls. -/
def sampleFlood (n : Nat) : List LimiterEvent :=
  List.replicate n (.begin sampleFlooder 0) ++ [.begin sampleVictim 0]

def newSystem : LimiterSystem := ⟨.new 0, [], 0, []⟩

theorem eq_begin_of_mem_sampleFlood {n : Nat} {event : LimiterEvent} (h : event ∈ sampleFlood n) :
    ∃ source, event = .begin source 0 := by
  rcases List.mem_append.mp h with hmem | hmem
  · exact ⟨_, List.eq_of_mem_replicate hmem⟩
  · exact ⟨_, List.mem_singleton.mp hmem⟩

/-- The state inside a flood. -/
theorem after_sampleFlood {n : Nat} {before : List LimiterEvent} (h : before <+: sampleFlood n) :
    (newSystem.after before).clock = 0 ∧
      (newSystem.after before).limiter.sources.size ≤ before.length := by
  induction before using List.reverseRecOn with
  | nil => exact ⟨rfl, Nat.le_refl _⟩
  | append_singleton before event ih =>
    obtain ⟨-, hsize⟩ := ih ((List.prefix_append before [event]).trans h)
    obtain ⟨source, rfl⟩ := eq_begin_of_mem_sampleFlood (h.subset (List.mem_append_right _
      (List.mem_singleton_self event)))
    rw [after_append]
    refine ⟨attempt_clock _ source 0, ?_⟩
    rw [List.length_append]
    exact (attempt_size_le _ source 0).trans (Nat.succ_le_succ hsize)

theorem attempts_sampleFlood (n : Nat) {p : AdmissionSource → Bool} (h : p sampleFlooder = false) :
    attempts p (sampleFlood n) ≤ 1 := by
  rw [sampleFlood, attempts, List.countP_append, List.countP_replicate]
  simp only [LimiterEvent.callOf, h, Bool.false_eq_true, if_false, Nat.zero_add]
  exact List.countP_le_length

theorem oneWindow_sampleFlood {n : Nat} (hn : n < 1000) :
    OneWindow newSystem sampleFlooder 0 (sampleFlood n) := by
  have hmem : ∀ {before : List LimiterEvent} {event : LimiterEvent},
      before ++ [event] <+: sampleFlood n → ∃ source, event = .begin source 0 := by
    intro before event hinside
    exact eq_begin_of_mem_sampleFlood (hinside.subset (List.mem_append_right _
      (List.mem_singleton_self event)))
  -- Before the call of the other source there is none of it.
  have hothers : ∀ {before : List LimiterEvent} {other : AdmissionSource} {now : Nat}
      (p : AdmissionSource → Bool), p sampleFlooder = false → p other = true →
      before ++ [.begin other now] <+: sampleFlood n →
        (newSystem.after before).slots.countP p = 0 := by
    intro before other now p hflooder hother hinside
    have hslots : (newSystem.after before).slots.countP p ≤ attempts p before :=
      slots_after_countP_le rfl before p
    have hle : attempts p (before ++ [.begin other now]) ≤ attempts p (sampleFlood n) :=
      hinside.sublist.countP_le
    have hflood := attempts_sampleFlood n hflooder
    rw [attempts_append, if_pos (show LimiterEvent.callOf p (.begin other now) = true from hother)]
      at hle
    omega
  refine ⟨.init ⟨0, rfl⟩, Nat.le_refl _, .inl rfl, nofun, ?_, ?_, ?_, ?_, ?_, ?_, ?_⟩
  · intro before caller now hinside
    obtain ⟨source, heq⟩ := hmem hinside
    obtain ⟨hclock, -⟩ := after_sampleFlood ((List.prefix_append before _).trans hinside)
    cases heq
    rw [hclock]
    decide
  · intro before caller hinside
    obtain ⟨source, heq⟩ := hmem hinside
    cases heq
  · intro before caller now hinside
    obtain ⟨-, hsize⟩ := after_sampleFlood ((List.prefix_append before _).trans hinside)
    have hlength := ((List.prefix_append before _).trans hinside).length_le
    simp only [sampleFlood, List.length_append, List.length_replicate, List.length_cons,
      List.length_nil] at hlength
    refine AdmissionLimiter.not_tableFull_iff.mpr (.inr ?_)
    unfold sourceBucketLimit
    omega
  · intro other hother
    have := attempts_sampleFlood n (p := (· = other)) (by simp [Ne.symm hother])
    exact Nat.lt_of_le_of_lt this (by decide)
  · intro before other now hother hinside
    rw [List.count_eq_countP, hothers (· == other) (by simp [Ne.symm hother]) (by simp) hinside]
    decide
  · exact (attempts_sampleFlood n (by simp)).trans (by decide)
  · intro before other now hother hinside
    rw [hothers (· ≠ sampleFlooder) (by simp) (by simp [hother]) hinside]
    decide

theorem sampleFlood_admitted :
    ((newSystem.after [.begin sampleFlooder 0]).limiter.begin sampleVictim 0).2 = .ok () := by
  have hwindow : OneWindow newSystem sampleFlooder 0 (sampleFlood 1) :=
    oneWindow_sampleFlood (by decide)
  refine (others_admitted_iff hwindow).mpr ?_ [.begin sampleFlooder 0] sampleVictim 0 (by decide)
    (List.prefix_refl _)
  intro before other now _ hinside
  have hlength := ((List.prefix_append before _).trans hinside).length_le
  have htimes : (callTimes before).length ≤ before.length := List.length_filterMap_le ..
  have hcount := List.countP_le_length (l := callTimes before)
    (p := RateWindow.sameWindow (newSystem.limiter.globalWindow.start + windowSeconds) now)
  have htwo : (sampleFlood 1).length = 2 := rfl
  unfold rateGlobal
  omega

/-- A source that calls as often as the node allows keeps another one out. -/
theorem sampleFlood_starves :
    OneWindow newSystem sampleFlooder 0 (sampleFlood 256) ∧
      ((newSystem.after (List.replicate 256 (.begin sampleFlooder 0))).limiter.begin
        sampleVictim 0).2 ≠ .ok () := by
  have hwindow : OneWindow newSystem sampleFlooder 0 (sampleFlood 256) :=
    oneWindow_sampleFlood (by decide)
  refine ⟨hwindow, fun hok => ?_⟩
  have hcalls := (hwindow.begin_eq_ok_iff (by decide) (List.prefix_refl _)).mp hok
  revert hcalls
  decide +kernel

end Radiata
