import Mathlib.Algebra.BigOperators.Group.Finset.Basic
import Radiata.ForStd.FixedWindow
import Radiata.Native.AdmissionRate

/-!
# The books of the admission limiter

The pending counts of the limiter are the slots that are held, bucket by bucket and in total,
and every admitted attempt is counted in a fixed window of its source and of the node. A bucket
that is evicted has no slot, and its windows are over.

## Key results

- `LimiterSystem.attempt_cases`: what a `begin` call does
- `LimiterSystem.Balanced`: the pending counts
- `LimiterSystem.Metered`: the windows
- `admission_books_balance`: both, in every state of every run
-/

namespace Radiata

open WindowEntry (Bounded Tracks)

namespace RateWindow

/-- A window with the admitted attempts that it and the windows before it counted. -/
def Tracks (window : RateWindow) (entries : List WindowEntry) : Prop :=
  WindowEntry.Tracks windowSeconds window.limit window.start window.count entries

@[simp] theorem turn_limit (window : RateWindow) (now : Nat) :
    (window.turn now).limit = window.limit := by
  unfold turn
  split <;> rfl

@[simp] theorem record_limit (window : RateWindow) (now : Nat) :
    (window.record now).1.limit = window.limit := by
  unfold record
  simp only
  split <;> simp

theorem record_start (window : RateWindow) (now : Nat) :
    (window.record now).1.start = (window.turn now).start := by
  unfold record
  simp only
  split <;> rfl

variable {window : RateWindow} {entries : List WindowEntry} {now : Nat}

theorem turn_start_le (h : window.start ≤ now) : (window.turn now).start ≤ now := by
  unfold turn
  split
  · exact Nat.le_refl _
  · exact h

theorem lt_turn_start (window : RateWindow) (now : Nat) :
    now < (window.turn now).start + windowSeconds := by
  have hspan : 0 < windowSeconds := by decide
  unfold turn
  split
  · simp only
    omega
  · omega

theorem Tracks.turn (h : window.Tracks entries) (now : Nat) :
    (window.turn now).Tracks entries := by
  unfold RateWindow.turn
  split
  · have hspan : 0 < windowSeconds := by decide
    exact WindowEntry.Tracks.reopen h hspan (show window.start + windowSeconds ≤ now by omega)
  · exact h

/-- What `record` counts covers an attempt that is refused later. -/
theorem Tracks.record (h : window.Tracks entries) : (window.record now).1.Tracks entries := by
  have hturn := h.turn now
  unfold RateWindow.record
  simp only
  split
  · exact hturn
  · rename_i hfree
    exact WindowEntry.Tracks.refuse hturn (Nat.lt_of_not_le hfree)

/-- An attempt that `record` lets through may be admitted. -/
theorem Tracks.record_ok (h : window.Tracks entries) (hstart : window.start ≤ now)
    (hok : (window.record now).2 = .ok ()) :
    (window.record now).1.Tracks (⟨now, (window.record now).1.start⟩ :: entries) := by
  have hturn := h.turn now
  unfold RateWindow.record at hok ⊢
  simp only at hok ⊢
  split
  · rename_i hfull
    rw [if_pos hfull] at hok
    cases hok
  · rename_i hfree
    exact WindowEntry.Tracks.admit hturn (Nat.lt_of_not_le hfree) (turn_start_le hstart)
      (lt_turn_start window now)

end RateWindow

namespace AdmissionLimiter

@[simp] theorem evictIdle_globalPending (limiter : AdmissionLimiter) (now : Nat) :
    (limiter.evictIdle now).globalPending = limiter.globalPending := rfl

@[simp] theorem evictIdle_globalWindow (limiter : AdmissionLimiter) (now : Nat) :
    (limiter.evictIdle now).globalWindow = limiter.globalWindow := rfl

/-- An eviction forgets exactly the idle buckets. -/
theorem get_evictIdle (limiter : AdmissionLimiter) (now : Nat) (source : AdmissionSource) :
    (limiter.evictIdle now).sources.get source =
      (limiter.sources.get source).filter fun bucket => !idle now bucket := by
  unfold evictIdle
  simp only [SortedMap.get_foldl_erase, List.mem_map, List.mem_filter, Prod.exists, SortedMap.mem_toList_iff,
    exists_and_right, exists_eq_right]
  cases hget : limiter.sources.get source with
  | none => simp
  | some bucket =>
    by_cases hidle : idle now bucket = true
    · simp [hidle, Option.filter_some]
    · simp [hidle, Option.filter_some]

theorem size_evictIdle_le (limiter : AdmissionLimiter) (now : Nat) :
    (limiter.evictIdle now).sources.size ≤ limiter.sources.size :=
  SortedMap.size_foldl_erase_le ..

theorem not_tableFull_iff {limiter : AdmissionLimiter} {source : AdmissionSource} :
    limiter.tableFull source = false ↔
      (∃ bucket, limiter.sources.get source = some bucket) ∨
        limiter.sources.size < sourceBucketLimit := by
  unfold tableFull
  rw [Bool.and_eq_false_iff, Bool.not_eq_false', SortedMap.contains_iff]
  simp

end AdmissionLimiter

namespace AdmissionLimiter

/-- The limiter after the global window has counted an attempt. -/
def counted (limiter : AdmissionLimiter) (now : Nat) : AdmissionLimiter :=
  { limiter with globalWindow := (limiter.globalWindow.record now).1 }

/-- The bucket of `source` after its window has counted an attempt. -/
def seen (limiter : AdmissionLimiter) (source : AdmissionSource) (now : Nat) : SourceBucket :=
  { limiter.bucketOf source now with
    lastSeen := now
    window := ((limiter.bucketOf source now).window.record now).1 }

/-- The limiter after the bucket of `source` was replaced. -/
def withBucket (limiter : AdmissionLimiter) (source : AdmissionSource) (bucket : SourceBucket) :
    AdmissionLimiter :=
  { limiter with sources := limiter.sources.insert source bucket }

/-- The limiter after an attempt of `source` has got a slot. -/
def granted (limiter : AdmissionLimiter) (source : AdmissionSource) (now : Nat) :
    AdmissionLimiter :=
  { limiter.withBucket source
      { limiter.seen source now with pending := (limiter.bucketOf source now).pending + 1 } with
    globalPending := limiter.globalPending + 1 }

theorem beginSource_cases (limiter : AdmissionLimiter) (source : AdmissionSource) (now : Nat) :
    (∃ e, limiter.beginSource source now =
      (limiter.withBucket source (limiter.seen source now), .error e)) ∨
    (((limiter.bucketOf source now).window.record now).2 = .ok () ∧
      (limiter.bucketOf source now).pending < pendingPerSource ∧
      limiter.beginSource source now = (limiter.granted source now, .ok ())) := by
  unfold beginSource
  cases hrecorded : ((limiter.bucketOf source now).window.record now).2 with
  | error e =>
    refine Or.inl ⟨e, ?_⟩
    simp only [hrecorded]
    rfl
  | ok u =>
    simp only [hrecorded]
    split
    · exact Or.inl ⟨_, rfl⟩
    · exact Or.inr ⟨trivial, by omega, rfl⟩

end AdmissionLimiter

namespace LimiterSystem

open AdmissionLimiter

/-- A `begin` call is refused by the table, by a global limit or by a limit of its source, or it
    is admitted by all of them. -/
theorem attempt_cases (s : LimiterSystem) (source : AdmissionSource) (now : Nat)
    {room : AdmissionLimiter} (hroom : s.limiter.makeRoom source now = room) :
    s.attempt source now = ⟨room, s.slots, now, s.admitted⟩ ∨
    s.attempt source now = ⟨room.counted now, s.slots, now, s.admitted⟩ ∨
    (room.tableFull source = false ∧ s.attempt source now =
      ⟨(room.counted now).withBucket source (room.seen source now), s.slots, now, s.admitted⟩) ∨
    (room.tableFull source = false ∧ (room.globalWindow.record now).2 = .ok () ∧
      room.globalPending < pendingGlobal ∧
      ((room.bucketOf source now).window.record now).2 = .ok () ∧
      (room.bucketOf source now).pending < pendingPerSource ∧
      s.attempt source now =
        ⟨(room.counted now).granted source now, source :: s.slots, now,
          ⟨source, now, (room.seen source now).window.start, (room.counted now).globalWindow.start⟩ ::
            s.admitted⟩) := by
  unfold attempt AdmissionLimiter.begin
  rw [hroom]
  by_cases hfull : room.tableFull source = true
  · exact Or.inl (by simp [hfull])
  · rw [Bool.not_eq_true] at hfull
    cases hglobal : (room.globalWindow.record now).2 with
    | error e => exact Or.inr (Or.inl (by simp [hfull, hglobal, counted]))
    | ok u =>
      by_cases hpending : pendingGlobal ≤ room.globalPending
      · exact Or.inr (Or.inl (by simp [hfull, hglobal, hpending, counted]))
      · refine Or.inr (Or.inr ?_)
        simp only [hfull, hglobal, hpending, Bool.false_eq_true, if_false]
        rcases beginSource_cases (room.counted now) source now with ⟨e, he⟩ | ⟨hrecorded, hbucket, hok⟩
        · refine Or.inl ⟨trivial, ?_⟩
          rw [show AdmissionLimiter.mk room.sources room.globalPending (room.globalWindow.record now).1 =
            room.counted now from rfl, he]
          rfl
        · refine Or.inr ⟨trivial, trivial, by omega, hrecorded, hbucket, ?_⟩
          rw [show AdmissionLimiter.mk room.sources room.globalPending (room.globalWindow.record now).1 =
            room.counted now from rfl, hok]
          simp only [attemptOf, granted, withBucket, bucketOf, SortedMap.get_insert_self, Option.getD_some]
          rfl

/-! ## Pending attempts -/

/-- The pending counts are the slots that are held. -/
structure Balanced (s : LimiterSystem) : Prop where
  total : s.limiter.globalPending = s.slots.length
  bound : s.slots.length ≤ pendingGlobal
  bucket : ∀ source bucket, s.limiter.sources.get source = some bucket →
    bucket.pending = s.slots.count source ∧ bucket.pending ≤ pendingPerSource
  held : ∀ source ∈ s.slots, ∃ bucket, s.limiter.sources.get source = some bucket
  table : s.limiter.sources.size ≤ sourceBucketLimit

variable {s : LimiterSystem} {source : AdmissionSource} {bucket : SourceBucket}

/-- A bucket with a slot is not idle. -/
theorem Balanced.not_idle (h : s.Balanced) (hmem : source ∈ s.slots)
    (hget : s.limiter.sources.get source = some bucket) (now : Nat) : idle now bucket = false := by
  have hpending := (h.bucket source bucket hget).1
  have hcount : 0 < s.slots.count source := List.count_pos_iff.mpr hmem
  have hne : bucket.pending ≠ 0 := by omega
  simp [idle, hne]

/-- An eviction leaves every bucket with a slot where it is. -/
theorem Balanced.get_evictIdle (h : s.Balanced) (hmem : source ∈ s.slots) (now : Nat) :
    (s.limiter.evictIdle now).sources.get source = s.limiter.sources.get source := by
  obtain ⟨bucket, hget⟩ := h.held source hmem
  rw [AdmissionLimiter.get_evictIdle, hget, Option.filter_some, h.not_idle hmem hget now]
  rfl

theorem Balanced.evictIdle (h : s.Balanced) (now clock : Nat) :
    Balanced ⟨s.limiter.evictIdle now, s.slots, clock, s.admitted⟩ where
  total := h.total
  bound := h.bound
  bucket := by
    intro source bucket hget
    rw [AdmissionLimiter.get_evictIdle, Option.filter_eq_some_iff] at hget
    exact h.bucket source bucket hget.1
  held := by
    intro source hmem
    obtain ⟨bucket, hget⟩ := h.held source hmem
    exact ⟨bucket, (h.get_evictIdle hmem now).trans hget⟩
  table := (size_evictIdle_le s.limiter now).trans h.table

theorem Balanced.makeRoom (h : s.Balanced) (source : AdmissionSource) (now clock : Nat) :
    Balanced ⟨s.limiter.makeRoom source now, s.slots, clock, s.admitted⟩ := by
  unfold AdmissionLimiter.makeRoom
  split
  · exact h.evictIdle now clock
  · exact ⟨h.total, h.bound, h.bucket, h.held, h.table⟩

/-- The bucket that `begin` works on counts the slots of its source, also when it is new. -/
theorem Balanced.bucketOf (h : s.Balanced) (source : AdmissionSource) (now : Nat) :
    (s.limiter.bucketOf source now).pending = s.slots.count source ∧
      (s.limiter.bucketOf source now).pending ≤ pendingPerSource := by
  unfold AdmissionLimiter.bucketOf
  cases hget : s.limiter.sources.get source with
  | some bucket => exact h.bucket source bucket hget
  | none =>
    have hnot : source ∉ s.slots := by
      intro hmem
      obtain ⟨bucket, hsome⟩ := h.held source hmem
      rw [hget] at hsome
      cases hsome
    exact ⟨(List.count_eq_zero_of_not_mem hnot).symm, Nat.zero_le _⟩

theorem size_withBucket_le {limiter : AdmissionLimiter} (hroom : limiter.tableFull source = false)
    (hsize : limiter.sources.size ≤ sourceBucketLimit) (bucket : SourceBucket) :
    (limiter.sources.insert source bucket).size ≤ sourceBucketLimit := by
  cases hget : limiter.sources.get source with
  | some old => rwa [SortedMap.size_insert_of_some _ bucket hget]
  | none =>
    rw [SortedMap.size_insert_of_none _ bucket hget]
    rcases not_tableFull_iff.mp hroom with ⟨old, hsome⟩ | hlt
    · rw [hget] at hsome
      cases hsome
    · exact hlt

theorem Balanced.attempt (h : s.Balanced) (source : AdmissionSource) (now : Nat) :
    (s.attempt source now).Balanced := by
  have hroom := h.makeRoom source now now
  obtain ⟨hcount, hbound⟩ := hroom.bucketOf source now
  rcases attempt_cases s source now rfl with heq | heq | ⟨hfree, heq⟩ |
    ⟨hfree, -, hglobal, -, hpending, heq⟩ <;> rw [heq]
  · exact hroom
  · exact ⟨hroom.total, hroom.bound, hroom.bucket, hroom.held, hroom.table⟩
  · refine ⟨hroom.total, hroom.bound, ?_, ?_, size_withBucket_le hfree hroom.table _⟩
    · intro other bucket hget
      rw [withBucket, SortedMap.get_insert] at hget
      split at hget
      · rename_i hother
        cases hget
        rw [hother]
        exact ⟨hcount, hbound⟩
      · exact hroom.bucket other bucket hget
    · intro other hmem
      rw [withBucket, ← Option.isSome_iff_exists, SortedMap.get_insert]
      split
      · rfl
      · exact Option.isSome_iff_exists.mpr (hroom.held other hmem)
  · refine ⟨?_, ?_, ?_, ?_, size_withBucket_le hfree hroom.table _⟩
    · exact congrArg (· + 1) hroom.total
    · have := hroom.total
      simp only [List.length_cons] at this ⊢
      omega
    · intro other bucket hget
      rw [granted, withBucket, SortedMap.get_insert] at hget
      split at hget
      · rename_i hother
        cases hget
        subst hother
        refine ⟨?_, hpending⟩
        rw [List.count_cons_self]
        exact congrArg (· + 1) hcount
      · rename_i hother
        rw [List.count_cons_of_ne (Ne.symm hother)]
        exact hroom.bucket other bucket hget
    · intro other hmem
      rw [granted, withBucket, ← Option.isSome_iff_exists, SortedMap.get_insert]
      split
      · rfl
      · rename_i hother
        rcases List.mem_cons.mp hmem with heq | hmem
        · exact absurd heq hother
        · exact Option.isSome_iff_exists.mpr (hroom.held other hmem)

theorem Balanced.release (h : s.Balanced) (hmem : source ∈ s.slots) :
    (s.release source).Balanced := by
  obtain ⟨bucket, hget⟩ := h.held source hmem
  obtain ⟨hcount, hbound⟩ := h.bucket source bucket hget
  have hlength := List.length_erase_of_mem hmem
  have hdrop : s.limiter.drop source = { s.limiter with
      globalPending := s.limiter.globalPending - 1
      sources := s.limiter.sources.insert source { bucket with pending := bucket.pending - 1 } } := by
    unfold AdmissionLimiter.drop
    simp only [hget]
  unfold LimiterSystem.release
  rw [hdrop]
  refine ⟨?_, ?_, ?_, ?_, ?_⟩
  · have := h.total
    simp only
    omega
  · have := h.bound
    simp only
    omega
  · intro other bucket' hget'
    rw [SortedMap.get_insert] at hget'
    split at hget'
    · rename_i hother
      cases hget'
      subst hother
      rw [List.count_erase_self]
      simp only
      omega
    · rename_i hother
      rw [List.count_erase_of_ne hother]
      exact h.bucket other bucket' hget'
  · intro other hother
    rw [← Option.isSome_iff_exists, SortedMap.get_insert]
    split
    · rfl
    · exact Option.isSome_iff_exists.mpr (h.held other (List.mem_of_mem_erase hother))
  · rw [SortedMap.size_insert_of_some _ _ hget]
    exact h.table

theorem balanced_of_reachable (h : runs.Reachable s) : s.Balanced := by
  refine h.invariant ?_ ?_
  · rintro s ⟨now, rfl⟩
    exact ⟨rfl, Nat.zero_le _, (fun _ _ hget => nomatch hget), nofun, Nat.zero_le _⟩
  · intro s t _ hbalanced hstep
    cases hstep with
    | attempt source now _ => exact hbalanced.attempt source now
    | release source hmem => exact hbalanced.release hmem

/-- The pending counts of all buckets together are the slots. -/
theorem Balanced.sum_pending (h : s.Balanced) :
    (s.limiter.sources.toList.map fun entry => entry.2.pending).sum = s.slots.length := by
  have hcount : (s.limiter.sources.toList.map fun entry => entry.2.pending) =
      (s.limiter.sources.toList.map Prod.fst).map (s.slots.count ·) := by
    rw [List.map_map]
    apply List.map_congr_left
    intro ⟨source, bucket⟩ hmem
    exact (h.bucket source bucket ((SortedMap.mem_toList_iff ..).mp hmem)).1
  rw [hcount, ← List.sum_toFinset _ s.limiter.sources.nodup_keys]
  have hheld : ∀ source ∈ (s.slots : Multiset AdmissionSource),
      source ∈ (s.limiter.sources.toList.map Prod.fst).toFinset := by
    intro source hmem
    rw [List.mem_toFinset, SortedMap.mem_keys, Option.isSome_iff_exists]
    exact h.held source hmem
  simpa using Multiset.sum_count_eq_card hheld

/-! ## Fixed windows -/

/-- The admitted attempts with the windows of the node. -/
def globalEntries (s : LimiterSystem) : List WindowEntry :=
  s.admitted.map fun attempt => ⟨attempt.time, attempt.globalStart⟩

/-- The admitted attempts of a source with its windows. -/
def sourceEntries (s : LimiterSystem) (source : AdmissionSource) : List WindowEntry :=
  (s.admitted.filter fun attempt => attempt.source = source).map fun attempt =>
    ⟨attempt.time, attempt.sourceStart⟩

/-- A bucket with the attempts of its source. -/
structure MeteredBucket (clock : Nat) (entries : List WindowEntry) (bucket : SourceBucket) : Prop where
  limit : bucket.window.limit = ratePerSource
  start : bucket.window.start ≤ bucket.lastSeen
  seen : bucket.lastSeen ≤ clock
  tracks : bucket.window.Tracks entries

/-- The attempts of a source without a bucket. -/
structure MeteredForgotten (clock : Nat) (entries : List WindowEntry) : Prop where
  bounded : Bounded windowSeconds ratePerSource entries
  ended : ∀ entry ∈ entries, entry.start + windowSeconds ≤ clock

/-- Every admitted attempt is counted in a window of its source and of the node. -/
structure Metered (s : LimiterSystem) : Prop where
  globalLimit : s.limiter.globalWindow.limit = rateGlobal
  globalStart : s.limiter.globalWindow.start ≤ s.clock
  global : s.limiter.globalWindow.Tracks s.globalEntries
  bucket : ∀ source bucket, s.limiter.sources.get source = some bucket →
    MeteredBucket s.clock (s.sourceEntries source) bucket
  forgotten : ∀ source, s.limiter.sources.get source = none →
    MeteredForgotten s.clock (s.sourceEntries source)

variable {now : Nat} {entries : List WindowEntry}

theorem MeteredBucket.tick {clock : Nat} (h : MeteredBucket clock entries bucket)
    (hnow : clock ≤ now) :
    MeteredBucket now entries bucket :=
  ⟨h.limit, h.start, h.seen.trans hnow, h.tracks⟩

theorem MeteredForgotten.tick {clock : Nat} (h : MeteredForgotten clock entries)
    (hnow : clock ≤ now) : MeteredForgotten now entries :=
  ⟨h.bounded, fun entry hmem => (h.ended entry hmem).trans hnow⟩

/-- The windows of a bucket are over when it has been idle for its lifetime. -/
theorem MeteredBucket.forget {clock : Nat} (h : MeteredBucket clock entries bucket)
    (hidle : idle now bucket = true) :
    MeteredForgotten now entries := by
  have hlong : windowSeconds ≤ sourceIdleLifetime := by decide
  have hspan : 0 < windowSeconds := by decide
  have hbounded := h.tracks.toBounded
  rw [h.limit] at hbounded
  refine ⟨hbounded, fun entry hmem => ?_⟩
  have hstart := h.start
  simp only [idle, Bool.and_eq_true, decide_eq_true_eq] at hidle
  rcases h.tracks.before entry hmem with heq | hle <;> omega

theorem Metered.tick (h : s.Metered) (hnow : s.clock ≤ now) :
    Metered ⟨s.limiter, s.slots, now, s.admitted⟩ :=
  ⟨h.globalLimit, h.globalStart.trans hnow, h.global,
    fun source bucket hget => (h.bucket source bucket hget).tick hnow,
    fun source hget => (h.forgotten source hget).tick hnow⟩

theorem Metered.evictIdle (h : s.Metered) (hnow : s.clock ≤ now) :
    Metered ⟨s.limiter.evictIdle now, s.slots, now, s.admitted⟩ where
  globalLimit := h.globalLimit
  globalStart := h.globalStart.trans hnow
  global := h.global
  bucket := by
    intro source bucket hget
    rw [AdmissionLimiter.get_evictIdle, Option.filter_eq_some_iff] at hget
    exact (h.bucket source bucket hget.1).tick hnow
  forgotten := by
    intro source hget
    rw [AdmissionLimiter.get_evictIdle] at hget
    cases hbucket : s.limiter.sources.get source with
    | none => exact (h.forgotten source hbucket).tick hnow
    | some bucket =>
      rw [hbucket, Option.filter_some] at hget
      by_cases hidle : idle now bucket = true
      · exact (h.bucket source bucket hbucket).forget hidle
      · simp [hidle] at hget

theorem Metered.makeRoom (h : s.Metered) (source : AdmissionSource) (hnow : s.clock ≤ now) :
    Metered ⟨s.limiter.makeRoom source now, s.slots, now, s.admitted⟩ := by
  unfold AdmissionLimiter.makeRoom
  split
  · exact h.evictIdle hnow
  · exact h.tick hnow

/-- The bucket that `begin` works on, also when it is new. -/
theorem Metered.bucketOf (h : s.Metered) (source : AdmissionSource) :
    (s.limiter.bucketOf source s.clock).window.limit = ratePerSource ∧
    (s.limiter.bucketOf source s.clock).window.start ≤ s.clock ∧
    (s.limiter.bucketOf source s.clock).window.Tracks (s.sourceEntries source) := by
  unfold AdmissionLimiter.bucketOf
  cases hget : s.limiter.sources.get source with
  | some bucket =>
    have hbucket := h.bucket source bucket hget
    exact ⟨hbucket.limit, hbucket.start.trans hbucket.seen, hbucket.tracks⟩
  | none =>
    have hforgotten := h.forgotten source hget
    exact ⟨rfl, Nat.le_refl _, hforgotten.bounded.open (by decide) hforgotten.ended⟩

theorem Metered.counted (h : s.Metered) :
    Metered ⟨s.limiter.counted s.clock, s.slots, s.clock, s.admitted⟩ where
  globalLimit := (RateWindow.record_limit ..).trans h.globalLimit
  globalStart := (RateWindow.record_start ..).trans_le (RateWindow.turn_start_le h.globalStart)
  global := h.global.record
  bucket := h.bucket
  forgotten := h.forgotten

/-- The bucket of a source is replaced by one that tracks its attempts. -/
theorem Metered.withBucket (h : s.Metered)
    (hbucket : MeteredBucket s.clock (s.sourceEntries source) bucket) :
    Metered ⟨s.limiter.withBucket source bucket, s.slots, s.clock, s.admitted⟩ where
  globalLimit := h.globalLimit
  globalStart := h.globalStart
  global := h.global
  bucket := by
    intro other bucket' hget
    rw [AdmissionLimiter.withBucket, SortedMap.get_insert] at hget
    split at hget
    · rename_i hother
      cases hget
      rw [hother]
      exact hbucket
    · exact h.bucket other bucket' hget
  forgotten := by
    intro other hget
    rw [AdmissionLimiter.withBucket, SortedMap.get_insert] at hget
    split at hget
    · cases hget
    · exact h.forgotten other hget

/-- The bucket of a refused attempt. -/
theorem Metered.seen (h : s.Metered) (source : AdmissionSource) :
    MeteredBucket s.clock (s.sourceEntries source) (s.limiter.seen source s.clock) := by
  obtain ⟨hlimit, hstart, htracks⟩ := h.bucketOf source
  refine ⟨(RateWindow.record_limit ..).trans hlimit, ?_, Nat.le_refl _, htracks.record⟩
  exact (RateWindow.record_start ..).trans_le (RateWindow.turn_start_le hstart)

/-- An admitted attempt is in the windows that counted it. -/
theorem Metered.granted (h : s.Metered) (source : AdmissionSource)
    (hglobal : (s.limiter.globalWindow.record s.clock).2 = .ok ())
    (hsource : ((s.limiter.bucketOf source s.clock).window.record s.clock).2 = .ok ()) :
    Metered ⟨(s.limiter.counted s.clock).granted source s.clock, source :: s.slots, s.clock,
      ⟨source, s.clock, (s.limiter.seen source s.clock).window.start,
        (s.limiter.counted s.clock).globalWindow.start⟩ :: s.admitted⟩ := by
  obtain ⟨hlimit, hstart, htracks⟩ := h.bucketOf source
  have hseen := h.seen source
  refine ⟨h.counted.globalLimit, h.counted.globalStart,
    h.global.record_ok h.globalStart hglobal, ?_, ?_⟩
  · intro other bucket hget
    rw [AdmissionLimiter.granted, AdmissionLimiter.withBucket, SortedMap.get_insert] at hget
    split at hget
    · rename_i hother
      cases hget
      subst hother
      refine ⟨hseen.limit, hseen.start, Nat.le_refl _, ?_⟩
      have hentries : ∀ attempt : AdmittedAttempt, attempt.source = other →
          sourceEntries ⟨s.limiter, s.slots, s.clock, attempt :: s.admitted⟩ other =
            ⟨attempt.time, attempt.sourceStart⟩ :: s.sourceEntries other := by
        intro attempt hattempt
        simp [sourceEntries, hattempt]
      exact (congrArg _ (hentries ⟨other, _, _, _⟩ rfl)).mpr (htracks.record_ok hstart hsource)
    · rename_i hother
      have hbucket := h.bucket other bucket hget
      simpa [sourceEntries, Ne.symm hother] using hbucket
  · intro other hget
    rw [AdmissionLimiter.granted, AdmissionLimiter.withBucket, SortedMap.get_insert] at hget
    split at hget
    · cases hget
    · rename_i hother
      have hforgotten := h.forgotten other hget
      simpa [sourceEntries, Ne.symm hother] using hforgotten

theorem Metered.attempt (h : s.Metered) (source : AdmissionSource) (hnow : s.clock ≤ now) :
    (s.attempt source now).Metered := by
  have hroom := h.makeRoom source hnow
  rcases attempt_cases s source now rfl with heq | heq | ⟨-, heq⟩ |
    ⟨-, hglobal, -, hsource, -, heq⟩ <;> rw [heq]
  · exact hroom
  · exact hroom.counted
  · exact hroom.counted.withBucket (hroom.seen source)
  · exact hroom.granted source hglobal hsource

/-- A dropped slot leaves the windows alone. -/
theorem Metered.release (h : s.Metered) (source : AdmissionSource) :
    (s.release source).Metered := by
  unfold LimiterSystem.release AdmissionLimiter.drop
  cases hget : s.limiter.sources.get source with
  | none =>
    simp only [hget]
    exact ⟨h.globalLimit, h.globalStart, h.global, h.bucket, h.forgotten⟩
  | some bucket =>
    simp only [hget]
    have hbucket := h.bucket source bucket hget
    have hreplaced : MeteredBucket s.clock (s.sourceEntries source)
        { bucket with pending := bucket.pending - 1 } :=
      ⟨hbucket.limit, hbucket.start, hbucket.seen, hbucket.tracks⟩
    have hwith := h.withBucket hreplaced
    exact ⟨hwith.globalLimit, hwith.globalStart, hwith.global, hwith.bucket, hwith.forgotten⟩

theorem metered_of_reachable (h : runs.Reachable s) : s.Metered := by
  refine h.invariant ?_ ?_
  · rintro s ⟨now, rfl⟩
    exact ⟨rfl, Nat.le_refl _, Bounded.nil.open (by decide) nofun, (fun _ _ hget => nomatch hget),
      fun _ _ => ⟨Bounded.nil, nofun⟩⟩
  · intro s t _ hmetered hstep
    cases hstep with
    | attempt source now hnow => exact hmetered.attempt source hnow
    | release source _ => exact hmetered.release source

/-- The attempts of a source fit in its windows, whether or not it has a bucket. -/
theorem Metered.bounded (h : s.Metered) (source : AdmissionSource) :
    Bounded windowSeconds ratePerSource (s.sourceEntries source) := by
  obtain ⟨hlimit, -, htracks⟩ := h.bucketOf source
  have hbounded := htracks.toBounded
  rwa [hlimit] at hbounded

end LimiterSystem

open LimiterSystem in
/-- In every state of every run of a limiter: the global pending count is the number of slots
    that are held and the sum of the pending counts of the buckets, and is within its limit; the
    pending count of a bucket is the number of slots of its source and is within its limit; the
    table is within its limit; a source with slots has a bucket, which no eviction removes; and
    the admitted attempts, of one source and of all, fit in fixed windows within their rates. -/
theorem admission_books_balance {s : LimiterSystem} (h : runs.Reachable s) :
    (s.limiter.globalPending = s.slots.length ∧
      (s.limiter.sources.toList.map fun entry => entry.2.pending).sum = s.slots.length ∧
      s.limiter.globalPending ≤ pendingGlobal) ∧
    (∀ source bucket, s.limiter.sources.get source = some bucket →
      bucket.pending = s.slots.count source ∧ bucket.pending ≤ pendingPerSource) ∧
    s.limiter.sources.size ≤ sourceBucketLimit ∧
    (∀ source ∈ s.slots, ∃ bucket, s.limiter.sources.get source = some bucket ∧
      ∀ now, (s.limiter.evictIdle now).sources.get source = some bucket) ∧
    (∀ source, Bounded windowSeconds ratePerSource (s.sourceEntries source)) ∧
    Bounded windowSeconds rateGlobal s.globalEntries := by
  have hbalanced := balanced_of_reachable h
  have hmetered := metered_of_reachable h
  refine ⟨⟨hbalanced.total, hbalanced.sum_pending, ?_⟩, hbalanced.bucket, hbalanced.table, ?_,
    hmetered.bounded, ?_⟩
  · exact hbalanced.total.trans_le hbalanced.bound
  · intro source hmem
    obtain ⟨bucket, hget⟩ := hbalanced.held source hmem
    exact ⟨bucket, hget, fun now => (hbalanced.get_evictIdle hmem now).trans hget⟩
  · have hbounded := hmetered.global.toBounded
    rwa [hmetered.globalLimit] at hbounded

/-- Two attempts from the loopback address, a second apart. -/
theorem admission_books_balance_sample :
    ∃ s : LimiterSystem, LimiterSystem.runs.Reachable s ∧
      s.slots = [.v4 ⟨127, 0, 0, 1⟩, .v4 ⟨127, 0, 0, 1⟩] ∧ s.limiter.globalPending = 2 ∧
      Bounded windowSeconds rateGlobal s.globalEntries := by
  have hstart : LimiterSystem.runs.Reachable ⟨.new 0, [], 0, []⟩ := .init ⟨0, rfl⟩
  have hfirst := hstart.step (.attempt (.v4 ⟨127, 0, 0, 1⟩) 0 (Nat.le_refl _))
  have hsecond := hfirst.step (.attempt (.v4 ⟨127, 0, 0, 1⟩) (seconds 1) (by decide))
  obtain ⟨⟨htotal, -, -⟩, -, -, -, -, hglobal⟩ := admission_books_balance hsecond
  have hslots : (((⟨.new 0, [], 0, []⟩ : LimiterSystem).attempt (.v4 ⟨127, 0, 0, 1⟩) 0).attempt
      (.v4 ⟨127, 0, 0, 1⟩) (seconds 1)).slots = [.v4 ⟨127, 0, 0, 1⟩, .v4 ⟨127, 0, 0, 1⟩] := by
    decide +kernel
  exact ⟨_, hsecond, hslots, htotal.trans (congrArg List.length hslots), hglobal⟩

end Radiata
