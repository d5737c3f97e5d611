import Mathlib.Data.List.Induction
import Mathlib.Order.Monotone.Basic
import Radiata.Native.Liveness

/-!
# The keepalive deadline

A ping that is not answered should end the session once the keepalive timeout has passed, and
the keepalive branch should leave a session alone whose peer was active within that time.

Both hold over all runs of the observer exactly for the policies whose timeout is a whole
number of seconds and no longer than the interval: the deadline is measured from the last
ping, which a shorter interval moves on before it is reached, and the branch compares whole
seconds only.

A pong does not count as activity until a message lets the read loop turn. On a session
without messages the mark stays at its start, so the observer closes it as if no pong had
come.

## Key results

- `keepalive_kept_iff`: the policies whose observer keeps both halves in every run
- `Unmarked.step` / `unmarked_run`: the mark of a session without messages
- `silent_session_kept_iff`: the silent sessions that are kept as long as pongs come
-/

namespace Radiata

namespace LivenessObserver

variable {policy : LivenessPolicy}

/-- The observer has returned. -/
def Returned (observer : LivenessObserver) : Prop := ∃ cause, observer = returned cause

variable {observer : LivenessObserver}

theorem Returned.turn (h : observer.Returned) (reading : LivenessReading) :
    (observer.turn policy reading).Returned := by
  obtain ⟨cause, rfl⟩ := h
  exact ⟨cause, rfl⟩

variable {reading : LivenessReading}

/-- A running observer after a turn: neither close was due. -/
theorem turn_running {lastPing : Nat} (h : ¬((running lastPing).turn policy reading).Returned) :
    policy.idleDue reading = false ∧ policy.keepaliveDue lastPing reading = false ∧
      (running lastPing).turn policy reading =
        running (if policy.pingDue lastPing reading then reading.now else lastPing) := by
  unfold LivenessObserver.turn at h ⊢
  by_cases hidle : policy.idleDue reading
  · simp [hidle, Returned] at h
  · by_cases hkeep : policy.keepaliveDue lastPing reading
    · simp [hidle, hkeep, Returned] at h
    · simp only [hidle, hkeep, Bool.false_eq_true, if_false, true_and]
      split <;> rfl

/-- A keepalive close of a turn: the test of its branch succeeded. -/
theorem keepaliveDue_of_turn {lastPing : Nat}
    (h : (running lastPing).turn policy reading = returned .keepalive) :
    policy.keepaliveDue lastPing reading = true := by
  unfold LivenessObserver.turn at h
  by_cases hidle : policy.idleDue reading
  · simp [hidle] at h
  · by_cases hkeep : policy.keepaliveDue lastPing reading
    · exact hkeep
    · simp only [hidle, hkeep, Bool.false_eq_true, if_false] at h
      split at h <;> simp at h

/-- A turn that sends a ping keeps its time. -/
theorem turn_of_pings (h : observer.pings policy reading) :
    observer.turn policy reading = running reading.now := by
  cases observer with
  | returned cause => simp [pings] at h
  | running lastPing =>
    simp only [pings, Bool.and_eq_true, Bool.not_eq_true'] at h
    obtain ⟨⟨hidle, hkeep⟩, hping⟩ := h
    simp [LivenessObserver.turn, hidle, hkeep, hping]

end LivenessObserver

open LivenessObserver

/-! ## Runs of the observer -/

/-- The readings of the turns of an observer: the clock does not run backwards, and the mark of
    the last activity is one of its earlier readings. -/
structure Ticks where
  reading : Nat → LivenessReading
  now_mono : Monotone fun n => (reading n).now
  last_mono : Monotone fun n => (reading n).last
  last_le : ∀ n, (reading n).last ≤ (reading n).now

/-- A peer that is silent from a ping until the keepalive timeout has passed loses its
    session. -/
def ClosesSilentPeer (policy : LivenessPolicy) (ticks : Ticks) : Prop :=
  ∀ i j, i < j → (after policy ticks.reading i).pings policy (ticks.reading i) = true →
    (∀ k, i < k → k ≤ j → (ticks.reading k).last ≤ (ticks.reading i).now) →
    (ticks.reading i).now * nanosPerSecond + policy.keepaliveTimeout.nanos ≤
      (ticks.reading j).now * nanosPerSecond →
    (after policy ticks.reading (j + 1)).Returned

/-- The keepalive branch is taken only when the last activity is the keepalive timeout ago. -/
def SparesActivePeer (policy : LivenessPolicy) (ticks : Ticks) : Prop :=
  ∀ j lastPing, after policy ticks.reading j = .running lastPing →
    after policy ticks.reading (j + 1) = .returned .keepalive →
    (ticks.reading j).last * nanosPerSecond + policy.keepaliveTimeout.nanos ≤
      (ticks.reading j).now * nanosPerSecond

section Enough

variable {policy : LivenessPolicy}

/-- The timeout in nanoseconds, when it is a whole number of seconds. -/
theorem LivenessPolicy.timeout_nanos
    (hwhole : policy.keepaliveTimeout.nanos % nanosPerSecond = 0) :
    policy.keepaliveTimeout.nanos = policy.keepaliveTimeout.asSecs * nanosPerSecond := by
  unfold Duration.asSecs nanosPerSecond at *
  omega

theorem Duration.asSecs_mono {a b : Duration} (h : a.nanos ≤ b.nanos) : a.asSecs ≤ b.asSecs :=
  Nat.div_le_div_right h

/-- From a ping on and until its deadline the observer has returned or still waits for it. -/
theorem returned_or_waiting (hle : policy.keepaliveTimeout.asSecs ≤ policy.keepaliveInterval.asSecs)
    (hpos : 0 < policy.keepaliveTimeout.asSecs) (readings : Nat → LivenessReading) {i : Nat}
    (hping : (after policy readings i).pings policy (readings i) = true) (n : Nat)
    (hsilent : ∀ k, i < k → k ≤ i + n → (readings k).last ≤ (readings i).now) :
    (after policy readings (i + n + 1)).Returned ∨
      after policy readings (i + n + 1) = .running (readings i).now ∧
        (n = 0 ∨ (readings (i + n)).now < (readings i).now + policy.keepaliveTimeout.asSecs) := by
  -- A ping is only sent at a nonzero time, so that its time is told from no ping at all.
  have hduePing : ∃ lastPing, policy.pingDue lastPing (readings i) = true := by
    cases hobs : after policy readings i with
    | returned cause => simp [hobs, pings] at hping
    | running lastPing =>
      simp only [hobs, pings, Bool.and_eq_true] at hping
      exact ⟨lastPing, hping.2⟩
  obtain ⟨lastPing, hdue⟩ := hduePing
  simp only [LivenessPolicy.pingDue, Bool.and_eq_true, Bool.not_eq_true', decide_eq_true_eq] at hdue
  obtain ⟨hinterval, hdue⟩ := hdue
  have hne : (readings i).now ≠ 0 := by omega
  induction n with
  | zero =>
    right
    exact ⟨turn_of_pings hping, Or.inl rfl⟩
  | succ n ih =>
    have hlast := hsilent (i + (n + 1)) (by omega) le_rfl
    rcases ih (fun k hik hk => hsilent k hik (by omega)) with hret | ⟨hrun, _⟩
    · exact Or.inl (hret.turn _)
    · by_cases hret : (after policy readings (i + (n + 1) + 1)).Returned
      · exact Or.inl hret
      · right
        have hturn : after policy readings (i + (n + 1) + 1) =
            (LivenessObserver.running (readings i).now).turn policy (readings (i + (n + 1))) := by
          rw [← hrun]; rfl
        rw [hturn] at hret ⊢
        obtain ⟨_, hkeep, hnext⟩ := turn_running hret
        -- The keepalive branch was not taken, so the deadline is still ahead, and so is the
        -- time of the next ping.
        have hbefore : (readings (i + (n + 1))).now <
            (readings i).now + policy.keepaliveTimeout.asSecs := by
          simp [LivenessPolicy.keepaliveDue, hinterval, hne] at hkeep
          by_contra hge
          have := hkeep (by omega)
          omega
        have hno : policy.pingDue (readings i).now (readings (i + (n + 1))) = false := by
          simp [LivenessPolicy.pingDue, hinterval]
          omega
        rw [hnext, hno]
        exact ⟨rfl, Or.inr hbefore⟩

theorem closesSilentPeer (hwhole : policy.keepaliveTimeout.nanos % nanosPerSecond = 0)
    (htimeout : policy.keepaliveTimeout.nanos ≠ 0)
    (hle : policy.keepaliveTimeout.nanos ≤ policy.keepaliveInterval.nanos) (ticks : Ticks) :
    ClosesSilentPeer policy ticks := by
  intro i j hij hping hsilent hdeadline
  have hnanos := LivenessPolicy.timeout_nanos hwhole
  have hpos : 0 < policy.keepaliveTimeout.asSecs := by
    apply Nat.pos_of_ne_zero
    intro hzero
    rw [hzero] at hnanos
    omega
  rw [hnanos, ← Nat.add_mul] at hdeadline
  have hpassed := Nat.le_of_mul_le_mul_right hdeadline (by decide)
  obtain ⟨n, rfl⟩ := Nat.exists_eq_add_of_lt hij
  rcases returned_or_waiting (Duration.asSecs_mono hle) hpos ticks.reading hping (n + 1)
    hsilent with hret | ⟨_, hbefore⟩
  · exact hret
  · have := hbefore.resolve_left (by omega)
    exact absurd hpassed (Nat.not_le.mpr this)

theorem sparesActivePeer (hwhole : policy.keepaliveTimeout.nanos % nanosPerSecond = 0)
    (htimeout : policy.keepaliveTimeout.nanos ≠ 0) (ticks : Ticks) :
    SparesActivePeer policy ticks := by
  intro j lastPing hrun hclose
  have hnanos := LivenessPolicy.timeout_nanos hwhole
  have hdue : policy.keepaliveDue lastPing (ticks.reading j) = true := by
    apply keepaliveDue_of_turn
    rw [← hrun]
    exact hclose
  simp only [LivenessPolicy.keepaliveDue, Bool.and_eq_true, decide_eq_true_eq] at hdue
  have hlast := hdue.2
  rw [hnanos, ← Nat.add_mul]
  apply Nat.mul_le_mul_right
  have hzero : policy.keepaliveTimeout.asSecs ≠ 0 := by
    intro hzero
    rw [hzero] at hnanos
    omega
  omega

end Enough

/-! ## The policies that fail -/

section Fails

/-- Ticks at the given times of a session whose last activity is its start at the first of them.
    A forwarded hop is pending throughout, so the idle deadline does not close it. -/
def Ticks.relaying (start : Nat) (now : Nat → Nat) (hmono : Monotone now)
    (hstart : ∀ n, start ≤ now n) : Ticks where
  reading := fun n => ⟨now n, start, [.relay]⟩
  now_mono := hmono
  last_mono := fun _ _ _ => le_rfl
  last_le := hstart

variable {policy : LivenessPolicy}

theorem idleDue_relaying (now last : Nat) : policy.idleDue ⟨now, last, [.relay]⟩ = false := by
  have hholds : policy.holdsSession ⟨now, last, [.relay]⟩ = true := rfl
  simp [LivenessPolicy.idleDue, hholds]

/-- A timeout with a fraction of a second is taken for its whole seconds. -/
theorem whole_of_spares (hinterval : policy.keepaliveInterval.nanos ≠ 0)
    (h : ∀ ticks, SparesActivePeer policy ticks) :
    policy.keepaliveTimeout.nanos % nanosPerSecond = 0 := by
  -- A ping at `b`, and the next reading exactly the whole seconds of the timeout later.
  let b := policy.keepaliveInterval.asSecs + 1
  let now : Nat → Nat := fun n => if n = 0 then b else b + policy.keepaliveTimeout.asSecs
  have hmono : Monotone now := by
    intro m n hmn
    simp only [now]
    split <;> split <;> omega
  let ticks := Ticks.relaying b now hmono (fun n => by simp only [now]; split <;> omega)
  have hnz : policy.keepaliveInterval.isZero = false := by simp [Duration.isZero, hinterval]
  have hfirst : after policy ticks.reading 1 = .running b := by
    have hdue : policy.pingDue 0 ⟨b, b, [.relay]⟩ = true := by
      simp [LivenessPolicy.pingDue, hnz, b]
    have hkeep : policy.keepaliveDue 0 ⟨b, b, [.relay]⟩ = false := by
      simp [LivenessPolicy.keepaliveDue]
    simp [after, LivenessObserver.turn, ticks, Ticks.relaying, now, idleDue_relaying, hkeep, hdue]
  have hsecond : after policy ticks.reading 2 = .returned .keepalive := by
    have hkeep : policy.keepaliveDue b ⟨b + policy.keepaliveTimeout.asSecs, b, [.relay]⟩ =
        true := by
      simp [LivenessPolicy.keepaliveDue, hnz, b]
    rw [after, hfirst]
    simp [LivenessObserver.turn, ticks, Ticks.relaying, now, idleDue_relaying, hkeep]
  have hlate := h ticks 1 b hfirst hsecond
  simp only [ticks, Ticks.relaying, now, Nat.one_ne_zero, if_false] at hlate
  unfold Duration.asSecs nanosPerSecond at *
  omega

/-- Pings that are sent a second apart at most an interval after one another: an observer whose
    timeout is longer never reaches the deadline of the last one. -/
theorem repinging_runs (hinterval : policy.keepaliveInterval.isZero = false)
    (hpos : 0 < policy.keepaliveInterval.asSecs)
    (hlt : policy.keepaliveInterval.asSecs < policy.keepaliveTimeout.asSecs)
    (readings : Nat → LivenessReading)
    (hreadings : ∀ n, readings n = ⟨policy.keepaliveInterval.asSecs + n,
      policy.keepaliveInterval.asSecs, [.relay]⟩) (n : Nat) :
    ∃ lastPing, after policy readings (n + 1) = .running lastPing ∧
      policy.keepaliveInterval.asSecs + n < lastPing + policy.keepaliveInterval.asSecs := by
  induction n with
  | zero =>
    refine ⟨policy.keepaliveInterval.asSecs, ?_, by omega⟩
    simp [after, LivenessObserver.turn, hreadings, idleDue_relaying, LivenessPolicy.keepaliveDue,
      LivenessPolicy.pingDue, hinterval]
  | succ n ih =>
    obtain ⟨lastPing, hrun, hnear⟩ := ih
    have hkeep : policy.keepaliveDue lastPing ⟨policy.keepaliveInterval.asSecs + (n + 1),
        policy.keepaliveInterval.asSecs, [.relay]⟩ = false := by
      simp [LivenessPolicy.keepaliveDue, hinterval]
      omega
    rw [after, hrun]
    simp only [LivenessObserver.turn, hreadings, hkeep, idleDue_relaying, Bool.false_eq_true,
      if_false]
    by_cases hdue : policy.pingDue lastPing ⟨policy.keepaliveInterval.asSecs + (n + 1),
        policy.keepaliveInterval.asSecs, [.relay]⟩
    · exact ⟨policy.keepaliveInterval.asSecs + (n + 1), by simp [hdue], by omega⟩
    · refine ⟨lastPing, by simp [hdue], ?_⟩
      simp [LivenessPolicy.pingDue, hinterval] at hdue
      omega

/-- A timeout longer than the interval is not kept, since every ping moves the deadline on. -/
theorem timeout_le_of_closes (hinterval : policy.keepaliveInterval.nanos ≠ 0)
    (hwhole : policy.keepaliveTimeout.nanos % nanosPerSecond = 0)
    (h : ∀ ticks, ClosesSilentPeer policy ticks) :
    policy.keepaliveTimeout.asSecs ≤ policy.keepaliveInterval.asSecs := by
  have hnz : policy.keepaliveInterval.isZero = false := by simp [Duration.isZero, hinterval]
  have hnanos := LivenessPolicy.timeout_nanos hwhole
  by_contra hgt
  by_cases hpos : 0 < policy.keepaliveInterval.asSecs
  · -- One reading a second from the first ping on.
    let ticks := Ticks.relaying policy.keepaliveInterval.asSecs
      (fun n => policy.keepaliveInterval.asSecs + n) (fun m n hmn => by dsimp only; omega)
      (fun n => by omega)
    have hruns := repinging_runs hnz hpos (by omega) ticks.reading (fun n => rfl)
    obtain ⟨lastPing, hrun, _⟩ := hruns policy.keepaliveTimeout.asSecs
    have hret := h ticks 0 policy.keepaliveTimeout.asSecs (by omega)
      (by simp [after, pings, ticks, Ticks.relaying, idleDue_relaying,
        LivenessPolicy.keepaliveDue, LivenessPolicy.pingDue, hnz])
      (fun k _ _ => le_rfl)
      (by simp only [ticks, Ticks.relaying]; rw [hnanos, Nat.add_zero, ← Nat.add_mul])
    obtain ⟨cause, hcause⟩ := hret
    rw [hrun] at hcause
    simp at hcause
  · -- A ping at the epoch is not remembered.
    have hzero : policy.keepaliveInterval.asSecs = 0 := by omega
    let ticks := Ticks.relaying 0
      (fun n => if n = 0 then 0 else policy.keepaliveTimeout.asSecs)
      (fun m n hmn => by dsimp only; split <;> split <;> omega) (fun n => Nat.zero_le _)
    have hret := h ticks 0 1 (by omega)
      (by simp [after, pings, ticks, Ticks.relaying, idleDue_relaying,
        LivenessPolicy.keepaliveDue, LivenessPolicy.pingDue, hnz, hzero])
      (fun k _ _ => le_rfl)
      (by simp only [ticks, Ticks.relaying, if_true, Nat.one_ne_zero, if_false]; omega)
    obtain ⟨cause, hcause⟩ := hret
    simp [after, LivenessObserver.turn, ticks, Ticks.relaying, idleDue_relaying,
      LivenessPolicy.keepaliveDue, LivenessPolicy.pingDue, hnz, hzero] at hcause

end Fails

/-- The keepalive deadline is kept in all runs exactly under the policies whose timeout is a
    whole number of seconds and no longer than the interval. -/
theorem keepalive_kept_iff (policy : LivenessPolicy)
    (hinterval : policy.keepaliveInterval.nanos ≠ 0)
    (htimeout : policy.keepaliveTimeout.nanos ≠ 0) :
    (∀ ticks, ClosesSilentPeer policy ticks ∧ SparesActivePeer policy ticks) ↔
      policy.keepaliveTimeout.nanos % nanosPerSecond = 0 ∧
        policy.keepaliveTimeout.nanos ≤ policy.keepaliveInterval.nanos := by
  constructor
  · intro h
    have hwhole := whole_of_spares hinterval (fun ticks => (h ticks).2)
    have hle := timeout_le_of_closes hinterval hwhole (fun ticks => (h ticks).1)
    refine ⟨hwhole, ?_⟩
    unfold Duration.asSecs nanosPerSecond at *
    omega
  · intro ⟨hwhole, hle⟩ ticks
    exact ⟨closesSilentPeer hwhole htimeout hle ticks, sparesActivePeer hwhole htimeout ticks⟩

/-- The policy of a keepalive every ten seconds with a deadline of ten seconds. -/
def evenPolicy : LivenessPolicy :=
  ⟨⟨0, by decide⟩, ⟨10 * nanosPerSecond, by decide⟩, ⟨10 * nanosPerSecond, by decide⟩⟩

/-- A keepalive every five seconds with a deadline of ten. -/
def renewingPolicy : LivenessPolicy :=
  ⟨⟨0, by decide⟩, ⟨5 * nanosPerSecond, by decide⟩, ⟨10 * nanosPerSecond, by decide⟩⟩

/-- Turns five seconds apart on a session that hears nothing after its start at 1000. -/
def mutedTicks : Ticks where
  reading := fun n => ⟨1005 + 5 * n, 1000, []⟩
  now_mono := fun m n hmn => by dsimp only; omega
  last_mono := fun _ _ _ => le_rfl
  last_le := fun n => by dsimp only; omega

theorem evenPolicy_keeps :
    ClosesSilentPeer evenPolicy mutedTicks ∧ SparesActivePeer evenPolicy mutedTicks :=
  (keepalive_kept_iff evenPolicy (by decide) (by decide)).mpr ⟨by decide, by decide⟩ mutedTicks

/-- The ping of 1005 has no answer at 1015, and the session goes on: the ping of 1010 has taken
    its place. -/
theorem renewed_deadline_missed : ¬ClosesSilentPeer renewingPolicy mutedTicks := by
  intro h
  have hret := h 0 2 (by decide) (by decide) (fun k _ _ => by
    show (1000 : Nat) ≤ 1005
    decide) (by decide)
  obtain ⟨cause, hcause⟩ := hret
  have hrun : after renewingPolicy mutedTicks.reading 3 = .running 1015 := by decide
  rw [hrun] at hcause
  exact nomatch hcause

/-! ## Pongs on a session without messages -/

/-- The peer sends no wire message. -/
def Silent (events : List LiveEvent) : Prop :=
  ∀ serves, LiveEvent.item (.message serves) ∉ events

namespace LiveSession

variable {policy : LivenessPolicy} {now pongLastSeen : Nat}

/-- The session before the event at place `i`. -/
def before (policy : LivenessPolicy) (now pongLastSeen : Nat) (events : List LiveEvent) (i : Nat) :
    LiveSession :=
  run policy now pongLastSeen (events.take i)

/-- The event at place `i` is a turn of the observer that sends a ping. -/
def sendsPing (policy : LivenessPolicy) (now pongLastSeen : Nat) (events : List LiveEvent)
    (i : Nat) : Bool :=
  let session := before policy now pongLastSeen events i
  match events[i]? with
  | some (.wake pending) =>
    session.live && session.observer.pings policy (session.reading pending)
  | _ => false

/-- The event at place `i` is a pong that `next_message` sees. -/
def seesPong (policy : LivenessPolicy) (now pongLastSeen : Nat) (events : List LiveEvent)
    (i : Nat) : Bool :=
  let session := before policy now pongLastSeen events i
  match events[i]? with
  | some (.item (.pong _)) => session.live && session.reader = .receiving
  | _ => false

/-- The nanoseconds the clock shows before the event at place `i`. -/
def nanosBefore (policy : LivenessPolicy) (now pongLastSeen : Nat) (events : List LiveEvent)
    (i : Nat) : Nat :=
  (before policy now pongLastSeen events i).clock * nanosPerSecond

/-- Every ping is answered by a pong before the keepalive timeout has passed. -/
def AnswersInTime (policy : LivenessPolicy) (now pongLastSeen : Nat) (events : List LiveEvent) :
    Prop :=
  ∀ j < events.length + 1, ∀ i < j,
    (sendsPing policy now pongLastSeen events i ∧
      nanosBefore policy now pongLastSeen events i + policy.keepaliveTimeout.nanos ≤
        nanosBefore policy now pongLastSeen events j) →
    ∃ k < j, i < k ∧ seesPong policy now pongLastSeen events k ∧
      nanosBefore policy now pongLastSeen events k <
        nanosBefore policy now pongLastSeen events i + policy.keepaliveTimeout.nanos

theorem run_concat (events : List LiveEvent) (event : LiveEvent) :
    run policy now pongLastSeen (events ++ [event]) =
      (run policy now pongLastSeen events).step policy event := by
  simp [run]

variable {session : LiveSession}

theorem observer_step_of_returned {cause : LivenessClose} (h : session.observer = .returned cause)
    (event : LiveEvent) :
    session.step policy event = session := by
  simp [step, live, h]

/-- What a session without messages keeps: its mark is still the start, and a pong that the read
    loop has not seen finds it waiting for a message. -/
structure Unmarked (now : Nat) (session : LiveSession) : Prop where
  lastActivity : session.lastActivity = now
  seen : session.reader = .reflecting → session.pongLastSeen = session.lastPongSeen

theorem Unmarked.step (h : Unmarked now session) {event : LiveEvent}
    (hsilent : ∀ serves, event ≠ .item (.message serves)) :
    Unmarked now (session.step policy event) := by
  unfold LiveSession.step
  by_cases hlive : session.live
  · simp only [hlive, Bool.not_true, Bool.false_eq_true, if_false]
    cases event with
    | clock now' => exact ⟨h.lastActivity, h.seen⟩
    | reflect =>
      dsimp only
      by_cases htop : session.reader = .reflecting
      · -- No pong has come in since the loop looked last.
        simp only [htop, if_true, reflect, h.seen htop, ne_eq, not_true_eq_false, if_false]
        exact ⟨h.lastActivity, fun hreader => nomatch hreader⟩
      · simpa [htop] using h
    | item item =>
      dsimp only
      by_cases hreceiving : session.reader = .receiving
      · simp only [hreceiving, if_true]
        cases item with
        | message serves => exact absurd rfl (hsilent serves)
        | ping => exact h
        | pong stamp =>
          refine ⟨h.lastActivity, fun hreader => ?_⟩
          simp [receive, hreceiving] at hreader
        | ended => exact ⟨h.lastActivity, fun hreader => nomatch hreader⟩
      · simpa [hreceiving] using h
    | wake pending => exact ⟨h.lastActivity, h.seen⟩
  · simpa [hlive] using h

theorem unmarked_run {events : List LiveEvent} (hsilent : Silent events) :
    Unmarked now (run policy now pongLastSeen events) := by
  induction events using List.reverseRecOn with
  | nil => exact ⟨rfl, fun _ => rfl⟩
  | append_singleton events event ih =>
    rw [run_concat]
    apply (ih fun serves hmem => hsilent serves (List.mem_append_left _ hmem)).step
    intro serves heq
    exact hsilent serves (by simp [heq])

/-- A turn on a session that still runs: the clock is the keepalive timeout past the start of the
    session and past the last ping, and the idle deadline does not close it first. -/
def dueSinceStart (policy : LivenessPolicy) (now : Nat) (session : LiveSession)
    (pending : List PendingAck) : Bool :=
  session.live && !policy.idleDue ⟨session.clock, now, pending⟩ &&
    match session.observer with
    | .running lastPing => policy.keepaliveDue lastPing ⟨session.clock, now, pending⟩
    | .returned _ => false

/-- The event at place `i` is such a turn. -/
def dueAt (policy : LivenessPolicy) (now pongLastSeen : Nat) (events : List LiveEvent) (i : Nat) :
    Bool :=
  match events[i]? with
  | some (.wake pending) =>
    dueSinceStart policy now (before policy now pongLastSeen events i) pending
  | _ => false

/-- On an unmarked session the turns that close it on the keepalive branch are the due ones. -/
theorem Unmarked.closes_iff (h : Unmarked now session)
    (hopen : session.observer ≠ .returned .keepalive) (pending : List PendingAck) :
    (session.step policy (.wake pending)).observer = .returned .keepalive ↔
      dueSinceStart policy now session pending = true := by
  unfold dueSinceStart LiveSession.step
  have hreading : session.reading pending = ⟨session.clock, now, pending⟩ := by
    rw [reading, h.lastActivity]
  by_cases hlive : session.live
  · simp only [hlive, Bool.not_true, Bool.false_eq_true, if_false, Bool.true_and, hreading]
    cases hobs : session.observer with
    | returned cause => simp [LiveSession.live, hobs] at hlive
    | running lastPing =>
      simp only [LivenessObserver.turn]
      by_cases hidle : policy.idleDue ⟨session.clock, now, pending⟩
      · simp [hidle]
      · by_cases hkeep : policy.keepaliveDue lastPing ⟨session.clock, now, pending⟩
        · simp [hidle, hkeep]
        · simp only [hidle, hkeep, Bool.false_eq_true, if_false, Bool.and_false, iff_false]
          split <;> simp
  · simp [hlive, hopen]

/-- Only a turn of the observer moves it. -/
theorem observer_step (session : LiveSession) {event : LiveEvent}
    (h : ∀ pending, event ≠ .wake pending) :
    (session.step policy event).observer = session.observer := by
  unfold LiveSession.step
  split
  · rfl
  · cases event with
    | clock now => rfl
    | reflect =>
      dsimp only [reflect]
      split <;> [split; skip] <;> rfl
    | item item =>
      dsimp only
      split
      · cases item <;> rfl
      · rfl
    | wake pending => exact absurd rfl (h pending)

end LiveSession

namespace LiveSession

variable {policy : LivenessPolicy} {now pongLastSeen : Nat}

theorem dueAt_concat_of_lt {events : List LiveEvent} (event : LiveEvent) {i : Nat}
    (hi : i < events.length) :
    dueAt policy now pongLastSeen (events ++ [event]) i =
      dueAt policy now pongLastSeen events i := by
  unfold dueAt before
  rw [List.getElem?_append_left hi, List.take_append_of_le_length (by omega)]

theorem dueAt_concat_length (events : List LiveEvent) (event : LiveEvent) :
    dueAt policy now pongLastSeen (events ++ [event]) events.length =
      match event with
      | .wake pending => dueSinceStart policy now (run policy now pongLastSeen events) pending
      | _ => false := by
  unfold dueAt before
  rw [List.getElem?_concat_length, List.take_left]
  cases event <;> rfl

end LiveSession

open LiveSession in
/-- A session without messages is kept exactly as long as no turn is due since its start: the
    pongs it receives make no difference. -/
theorem silent_session_kept_iff (policy : LivenessPolicy) (now pongLastSeen : Nat)
    (events : List LiveEvent) (hsilent : Silent events) :
    (run policy now pongLastSeen events).observer ≠ .returned .keepalive ↔
      ∀ i < events.length, dueAt policy now pongLastSeen events i = false := by
  induction events using List.reverseRecOn with
  | nil => simp [run, start]
  | append_singleton events event ih =>
    have hpre : Silent events := fun serves hmem => hsilent serves (by simp [hmem])
    have ih := ih hpre
    -- The last event apart, the turns are those of the session before it.
    have hsplit : (∀ i < (events ++ [event]).length,
          dueAt policy now pongLastSeen (events ++ [event]) i = false) ↔
        (∀ i < events.length, dueAt policy now pongLastSeen events i = false) ∧
          dueAt policy now pongLastSeen (events ++ [event]) events.length = false := by
      rw [List.length_append, List.length_singleton, Nat.forall_lt_succ_right]
      exact and_congr_left' (forall₂_congr fun i hi => by rw [dueAt_concat_of_lt event hi])
    rw [hsplit, ← ih, run_concat, dueAt_concat_length]
    by_cases hkept : (run policy now pongLastSeen events).observer = .returned .keepalive
    · rw [observer_step_of_returned hkept]
      simp [hkept]
    · by_cases hwake : ∃ pending, event = .wake pending
      · obtain ⟨pending, rfl⟩ := hwake
        rw [ne_eq, (unmarked_run hpre).closes_iff hkept]
        simp [hkept]
      · rw [observer_step _ (fun pending heq => hwake ⟨pending, heq⟩)]
        cases event with
        | wake pending => exact absurd ⟨pending, rfl⟩ hwake
        | clock now => simp
        | reflect => simp
        | item item => simp

/-- A ping at 1005, its pong at 1006, and a turn of the observer when the clock shows `turn`. -/
def answeredEvents (turn : Nat) : List LiveEvent :=
  [.reflect, .clock 1005, .wake [], .clock 1006, .item (.pong 1006), .clock turn, .wake []]

theorem answeredEvents_silent (turn : Nat) : Silent (answeredEvents turn) := by
  simp [Silent, answeredEvents]

/-- A turn before the deadline keeps the session. -/
theorem answered_session_kept :
    (LiveSession.run renewingPolicy 1000 0 (answeredEvents 1014)).observer ≠
      .returned .keepalive :=
  (silent_session_kept_iff renewingPolicy 1000 0 (answeredEvents 1014)
    (answeredEvents_silent 1014)).mpr (by decide)

/-- The pong came nine seconds before the deadline, and the session is closed at it. -/
theorem answered_session_closed :
    Silent (answeredEvents 1015) ∧
      LiveSession.AnswersInTime renewingPolicy 1000 0 (answeredEvents 1015) ∧
      (LiveSession.run renewingPolicy 1000 0 (answeredEvents 1015)).observer =
        .returned .keepalive := by
  refine ⟨answeredEvents_silent 1015, ?_, by decide⟩
  unfold LiveSession.AnswersInTime
  decide

end Radiata
