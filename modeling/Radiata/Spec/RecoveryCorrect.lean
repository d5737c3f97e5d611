import Radiata.Native.Recovery

/-!
# When recovery runs and whom it dials

The immediate command rewrites the time of the last attempt and keeps the number of
attempts, so the backoff that has built up still counts from a second ago: the command
makes a cycle due only for a controller whose backoff is one second. A cycle takes the
first candidates in the order of their ids and keeps nothing of whom it took, so cycles
over more candidates than the fan-out dial the same ones again.

## Key results

- `due_immediate_iff`: when the immediate command makes a cycle due
- `immediate_due_iff`: the same in every run of a controller
- `nextSteps_reach_iff`: when consecutive cycles reach every candidate
-/

namespace Radiata

namespace RecoveryController

/-! ## The immediate command -/

/-- The backoff is at most a second for a controller that has not backed off. -/
theorem cappedBackoff_le_one_iff (self : RecoveryController)
    (hinitial : 1 ≤ self.policy.initialBackoff.toNat) :
    self.cappedBackoff.toNat ≤ 1 ↔ self.policy.maximumBackoff.toNat ≤ 1 ∨
      self.policy.initialBackoff.toNat = 1 ∧ self.attempts = 0 := by
  have hexponent : (self.attempts.atMost 16).toNat = min self.attempts.toNat 16 :=
    UInt64.toNat_atMost _ _
  have hshift := UInt64.toNat_one_shiftLeft (e := self.attempts.atMost 16) (by omega)
  have hzero : self.attempts = 0 ↔ self.attempts.toNat = 0 := by
    rw [← UInt64.toNat_inj]
    rfl
  have hsixteen : (16 : UInt64).toNat = 16 := rfl
  unfold cappedBackoff
  simp only [UInt64.toNat_atMost, UInt64.toNat_saturatingMul, hshift, hsixteen]
  rw [hzero]
  by_cases hattempts : self.attempts.toNat = 0
  · rw [hattempts, Nat.zero_min, Nat.pow_zero, Nat.mul_one]
    have := self.policy.initialBackoff.toNat_lt
    omega
  · -- after an attempt the backoff has doubled at least once
    have hpow : 2 ≤ 2 ^ min self.attempts.toNat 16 := by
      calc 2 = 2 ^ 1 := rfl
        _ ≤ 2 ^ min self.attempts.toNat 16 := Nat.pow_le_pow_right (by omega) (by omega)
    have hdoubled : 2 ≤ self.policy.initialBackoff.toNat * 2 ^ min self.attempts.toNat 16 := by
      calc 2 = 1 * 2 := rfl
        _ ≤ _ := Nat.mul_le_mul hinitial hpow
    omega

/-- The immediate command with pending members makes a cycle due exactly when the backoff
    is at most a second, or the clock has reached its end. -/
theorem due_immediate_iff (self : RecoveryController) (now : UInt64) (hnow : 1 ≤ now.toNat)
    (hpending : self.pending ≠ ∅) :
    ((self.immediate now).state = .recovering ∧ (self.immediate now).due now = true) ↔
      self.cappedBackoff.toNat ≤ 1 ∨ now = .maxValue := by
  have himmediate : self.immediate now =
      { self with state := .recovering, lastAttemptAt := now.saturatingSub 1 } := by
    rw [immediate, if_neg (fun h => hpending h.1)]
  have hcapped : (self.immediate now).cappedBackoff = self.cappedBackoff := by
    rw [himmediate]
    rfl
  have hlast : (self.immediate now).lastAttemptAt.toNat = now.toNat - 1 := by
    rw [himmediate]
    exact UInt64.toNat_saturatingSub now 1
  have hstate : (self.immediate now).state = .recovering := by rw [himmediate]
  have hmax : now = .maxValue ↔ now.toNat = 2 ^ 64 - 1 := by
    rw [← UInt64.toNat_inj, UInt64.toNat_maxValue]
  have hbound := now.toNat_lt
  have hdeadline : ((self.immediate now).lastAttemptAt.saturatingAdd self.cappedBackoff).toNat ≤
      now.toNat ↔ self.cappedBackoff.toNat ≤ 1 ∨ now = .maxValue := by
    rw [hmax, UInt64.toNat_saturatingAdd, hlast]
    omega
  unfold due backoffSeconds
  rw [hcapped, if_neg (not_not.mpr hstate), decide_eq_true_eq, ← hdeadline]
  by_cases hdue : ((self.immediate now).lastAttemptAt.saturatingAdd self.cappedBackoff).toNat ≤
      now.toNat
  · rw [if_pos hdue]
    refine iff_of_true ⟨hstate, ?_⟩ hdue
    rw [UInt64.toNat_saturatingAdd, hlast]
    have hzero : (0 : UInt64).toNat = 0 := rfl
    omega
  · rw [if_neg hdue]
    exact iff_of_false (fun h => hdue h.2) hdue

end RecoveryController

/-- A call of a recovery controller. -/
inductive RecoveryCall where
  | observe (online reachable : Finset NodeId)
  | nextStep (now : UInt64) (candidates : Finset NodeId)
  | immediate (now : UInt64)

namespace RecoveryCall

def apply (self : RecoveryController) : RecoveryCall → RecoveryController
  | .observe online reachable => self.observe online reachable
  | .nextStep now candidates => (self.nextStep now candidates).2
  | .immediate now => self.immediate now

/-- The controller of a policy after some calls. -/
def run (policy : RecoveryPolicy) (calls : List RecoveryCall) : RecoveryController :=
  calls.foldl apply (.new policy)

theorem policy_apply (self : RecoveryController) (call : RecoveryCall) :
    (call.apply self).policy = self.policy := by
  cases call with
  | observe online reachable =>
    simp only [apply, RecoveryController.observe]
    split
    · rfl
    · split <;> rfl
  | nextStep now candidates => rfl
  | immediate now =>
    simp only [apply, RecoveryController.immediate]
    split <;> rfl

theorem policy_run (policy : RecoveryPolicy) (calls : List RecoveryCall) :
    (run policy calls).policy = policy := by
  have hfold : ∀ (calls : List RecoveryCall) (self : RecoveryController),
      (calls.foldl apply self).policy = self.policy := by
    intro calls
    induction calls with
    | nil => exact fun _ => rfl
    | cons call calls ih =>
      intro self
      rw [List.foldl_cons, ih, policy_apply]
  exact hfold calls _

end RecoveryCall

/-- In every run with pending members the immediate command makes a cycle due exactly when
    the policy never waits more than a second, no attempt has been made since the
    activation and the initial backoff is a second, or the clock has reached its end. -/
theorem immediate_due_iff (policy : RecoveryPolicy) (hinitial : 1 ≤ policy.initialBackoff.toNat)
    (calls : List RecoveryCall) (now : UInt64) (hnow : 1 ≤ now.toNat)
    (hpending : (RecoveryCall.run policy calls).pending ≠ ∅) :
    (((RecoveryCall.run policy calls).immediate now).state = .recovering ∧
        ((RecoveryCall.run policy calls).immediate now).due now = true) ↔
      policy.maximumBackoff.toNat ≤ 1 ∨
        (policy.initialBackoff.toNat = 1 ∧ (RecoveryCall.run policy calls).attempts = 0) ∨
          now = .maxValue := by
  have hpolicy := RecoveryCall.policy_run policy calls
  rw [RecoveryController.due_immediate_iff _ now hnow hpending,
    RecoveryController.cappedBackoff_le_one_iff _ (by rw [hpolicy]; exact hinitial), hpolicy, or_assoc]

/-- A policy with the default backoff. -/
def samplePolicy (fanOut : Nat) : RecoveryPolicy := ⟨4, fanOut, 1, 300⟩

def samplePeer : NodeId := .ofDigits 0 2
def secondPeer : NodeId := .ofDigits 0 3

theorem samplePending (calls : List RecoveryCall)
    (h : calls = [.observe {samplePeer} ∅] ∨
      calls = [.observe {samplePeer} ∅, .nextStep 100 {samplePeer}]) :
    (RecoveryCall.run (samplePolicy 64) calls).pending = {samplePeer} := by
  rcases h with rfl | rfl <;>
    simp [RecoveryCall.run, RecoveryCall.apply, RecoveryController.observe, RecoveryController.new,
      RecoveryController.nextStep]

/-- The immediate command right after the activation. -/
theorem immediate_due_fresh :
    ((RecoveryCall.run (samplePolicy 64) [.observe {samplePeer} ∅]).immediate 50).due 50 = true :=
  ((immediate_due_iff (samplePolicy 64) (by decide) [.observe {samplePeer} ∅] 50 (by decide)
    (by rw [samplePending _ (Or.inl rfl)]; exact Finset.singleton_ne_empty _)).mpr
      (Or.inr (Or.inl ⟨rfl, by simp [RecoveryCall.run, RecoveryCall.apply,
        RecoveryController.observe, RecoveryController.new]⟩))).2

/-- After one attempt the immediate command makes no cycle due. -/
theorem immediate_not_due_after_attempt :
    (RecoveryCall.run (samplePolicy 64)
        [.observe {samplePeer} ∅, .nextStep 100 {samplePeer}]).pending ≠ ∅ ∧
      ¬ (((RecoveryCall.run (samplePolicy 64)
            [.observe {samplePeer} ∅, .nextStep 100 {samplePeer}]).immediate 101).state = .recovering ∧
        ((RecoveryCall.run (samplePolicy 64)
            [.observe {samplePeer} ∅, .nextStep 100 {samplePeer}]).immediate 101).due 101 = true) := by
  have hpending : (RecoveryCall.run (samplePolicy 64)
      [.observe {samplePeer} ∅, .nextStep 100 {samplePeer}]).pending ≠ ∅ := by
    rw [samplePending _ (Or.inr rfl)]
    exact Finset.singleton_ne_empty _
  have hpolicy := RecoveryCall.policy_run (samplePolicy 64)
    [.observe {samplePeer} ∅, .nextStep 100 {samplePeer}]
  have hattempts : (RecoveryCall.run (samplePolicy 64)
      [.observe {samplePeer} ∅, .nextStep 100 {samplePeer}]).attempts = 1 := by
    simp only [RecoveryCall.run, RecoveryCall.apply, List.foldl_cons, List.foldl_nil,
      RecoveryController.observe, RecoveryController.new, RecoveryController.nextStep,
      Finset.sdiff_empty, Finset.singleton_ne_empty, if_false, true_or, if_true]
    decide
  refine ⟨hpending, ?_⟩
  rw [RecoveryController.due_immediate_iff _ 101 (by decide) hpending,
    RecoveryController.cappedBackoff_le_one_iff _ (by rw [hpolicy]; decide), hpolicy, hattempts]
  decide

/-! ## Consecutive cycles -/

namespace RecoveryController

/-- Consecutive cycles over one set of candidates. -/
def nextSteps (self : RecoveryController) (candidates : Finset NodeId) : List UInt64 → List RecoveryStep
  | [] => []
  | now :: nows =>
    let (step, next) := self.nextStep now candidates
    step :: next.nextSteps candidates nows

/-- The targets of every cycle are the first candidates in the order of their ids. -/
theorem targets_of_mem_nextSteps {self : RecoveryController} {candidates : Finset NodeId}
    {nows : List UInt64} {step : RecoveryStep} (h : step ∈ self.nextSteps candidates nows) :
    step.targets = (candidates.sort (· ≤ ·)).take (max self.policy.fanOut 1) := by
  induction nows generalizing self with
  | nil => cases h
  | cons now nows ih =>
    rcases List.mem_cons.mp h with rfl | h
    · rfl
    · -- a cycle changes the clock and the count of attempts only
      have hnext : step ∈ (self.nextStep now candidates).2.nextSteps candidates nows := h
      have htargets := ih hnext
      exact htargets

theorem length_nextSteps (self : RecoveryController) (candidates : Finset NodeId) (nows : List UInt64) :
    (self.nextSteps candidates nows).length = nows.length := by
  induction nows generalizing self with
  | nil => rfl
  | cons now nows ih => exact congrArg (· + 1) (ih _)

/-- The first elements of a finite set are all of it exactly when it has no more. -/
theorem forall_mem_take_sort_iff (candidates : Finset NodeId) (count : Nat) :
    (∀ candidate ∈ candidates, candidate ∈ (candidates.sort (· ≤ ·)).take count) ↔
      candidates.card ≤ count := by
  constructor
  · intro hall
    have hsub : candidates ⊆ ((candidates.sort (· ≤ ·)).take count).toFinset := by
      intro candidate hmem
      exact List.mem_toFinset.mpr (hall candidate hmem)
    calc candidates.card ≤ ((candidates.sort (· ≤ ·)).take count).toFinset.card :=
          Finset.card_le_card hsub
      _ ≤ ((candidates.sort (· ≤ ·)).take count).length := List.toFinset_card_le _
      _ ≤ count := List.length_take_le _ _
  · intro hle candidate hmem
    rw [List.take_of_length_le (by rw [Finset.length_sort]; exact hle), Finset.mem_sort]
    exact hmem

end RecoveryController

/-- Enough consecutive cycles to go once through the candidates: each dials a bounded number
    of distinct candidates, and together they reach all of them exactly when one cycle
    already does. -/
theorem nextSteps_reach_iff (self : RecoveryController) (candidates : Finset NodeId)
    (nows : List UInt64)
    (hcount : nows.length = (candidates.card + max self.policy.fanOut 1 - 1) / max self.policy.fanOut 1) :
    (∀ step ∈ self.nextSteps candidates nows, step.targets.Nodup ∧
      step.targets.length ≤ max self.policy.fanOut 1 ∧ ∀ target ∈ step.targets, target ∈ candidates) ∧
    ((∀ candidate ∈ candidates, ∃ step ∈ self.nextSteps candidates nows, candidate ∈ step.targets) ↔
      candidates.card ≤ max self.policy.fanOut 1) := by
  have hpos : 0 < max self.policy.fanOut 1 := by omega
  refine ⟨?_, ?_⟩
  · intro step hstep
    rw [RecoveryController.targets_of_mem_nextSteps hstep]
    refine ⟨(Finset.sort_nodup _ _).sublist (List.take_sublist _ _), List.length_take_le _ _, ?_⟩
    intro target htarget
    exact (Finset.mem_sort _).mp (List.mem_of_mem_take htarget)
  · rw [← RecoveryController.forall_mem_take_sort_iff]
    refine forall₂_congr fun candidate hmem => ?_
    constructor
    · rintro ⟨step, hstep, htarget⟩
      rwa [RecoveryController.targets_of_mem_nextSteps hstep] at htarget
    · intro htarget
      -- there is at least one cycle, since there is a candidate
      have hcard : 0 < candidates.card := Finset.card_pos.mpr ⟨candidate, hmem⟩
      have hcycle : 0 < (self.nextSteps candidates nows).length := by
        rw [RecoveryController.length_nextSteps, hcount]
        exact Nat.div_pos (by omega) hpos
      obtain ⟨step, hstep⟩ := List.exists_mem_of_length_pos hcycle
      refine ⟨step, hstep, ?_⟩
      rwa [RecoveryController.targets_of_mem_nextSteps hstep]

/-- Two candidates are reached by one cycle of two targets. -/
theorem nextSteps_reach_two :
    (∃ step ∈ (RecoveryController.new (samplePolicy 2)).nextSteps {samplePeer, secondPeer} [0],
      samplePeer ∈ step.targets) ∧
    ∃ step ∈ (RecoveryController.new (samplePolicy 2)).nextSteps {samplePeer, secondPeer} [0],
      secondPeer ∈ step.targets := by
  have hcard : ({samplePeer, secondPeer} : Finset NodeId).card = 2 := Finset.card_pair (by decide)
  have hreach := (nextSteps_reach_iff (.new (samplePolicy 2)) {samplePeer, secondPeer} [0]
    (by rw [hcard]; rfl)).2.mpr (by rw [hcard]; decide)
  exact ⟨hreach samplePeer (by simp), hreach secondPeer (by simp)⟩

/-- Two cycles of one target each dial the first of two candidates twice. -/
theorem nextSteps_starve :
    ¬ ∀ candidate ∈ ({samplePeer, secondPeer} : Finset NodeId),
      ∃ step ∈ (RecoveryController.new (samplePolicy 1)).nextSteps {samplePeer, secondPeer} [0, 10],
        candidate ∈ step.targets := by
  intro hreach
  have hcard : ({samplePeer, secondPeer} : Finset NodeId).card = 2 :=
    Finset.card_pair (by decide)
  have hall : ∀ candidate ∈ ({samplePeer, secondPeer} : Finset NodeId),
      candidate ∈ (({samplePeer, secondPeer} : Finset NodeId).sort (· ≤ ·)).take 1 := by
    intro candidate hmem
    obtain ⟨step, hstep, htarget⟩ := hreach candidate hmem
    rwa [RecoveryController.targets_of_mem_nextSteps hstep] at htarget
  have hle := (RecoveryController.forall_mem_take_sort_iff _ 1).mp hall
  omega

end Radiata
