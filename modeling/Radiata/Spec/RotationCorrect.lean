import Radiata.Spec.CredentialCorrect

/-!
# Rotation and durable admissions

The credential generation lives in memory and the admission is durable. They agree as long as
no credential is issued or rotated between the reservation of an attempt and its commit, and
`commit_and_deliver` neither fails nor is dropped once its transaction may have been committed.

## Key results

- `JoinSystem.Guarded`: a pending attempt holds the current generation
- `rotation_invalidates`: in such runs no admission follows the rotation of its generation, and a
  used generation is never active again
- `rotated_generation_used`: a rotation under a running attempt, and a failed delivery
-/

namespace Radiata

/-- The reservation of an attempt whose admission may still be committed. -/
def JoinAttempt.pending : JoinAttempt → Option HeldCredential
  | .reserved held => some held
  | .committing held => some held
  | .orphaned held => some held
  | _ => none

namespace JoinSystem

open JoinCredentialIssuer

variable {s t : JoinSystem} {action : JoinAction}

/-- No credential is issued or rotated while an attempt is between its reservation and its commit, no
    attempt reserves while another is about to drop a guard after a refused `consume`, and
    `commit_and_deliver` neither fails nor is dropped while its transaction is under way or after it
    has been committed. -/
def Timely (s : JoinSystem) : JoinAction → Prop
  | .issue => ∀ (k : Nat) attempt, s.attempts[k]? = some attempt → attempt.pending = none
  | .rotate => ∀ (k : Nat) attempt, s.attempts[k]? = some attempt → attempt.pending = none
  | .reserve _ => ∀ (k : Nat) held, s.attempts[k]? ≠ some (.dropping held)
  | .release k => ∀ held, s.attempts[k]? ≠ some (.committing held) ∧
      s.attempts[k]? ≠ some (.committed held)
  | _ => True

/-- The runs whose steps are all timely. -/
def timelyRuns : TransitionSystem JoinSystem where
  init := runs.init
  next := fun s t => ∃ action, Step s action t ∧ Timely s action

/-- What the log says about the generations. -/
structure Recorded (s : JoinSystem) : Prop where
  current : ∀ generation, s.issuer.generation = some generation → generation.serial < s.issuer.issued
  replaced : ∀ serial, .replaced serial ∈ s.log → serial < s.issuer.issued ∧
    s.issuer.stateOf serial = none
  committed : ∀ serial, .committed serial ∈ s.log → serial < s.issuer.issued ∧
    s.issuer.stateOf serial ≠ some .active
  ordered : ∀ before after serial, s.log = before ++ .committed serial :: after →
    .replaced serial ∉ before

theorem recorded_init : Recorded init := by
  refine ⟨fun generation hgeneration => ?_, fun serial hmem => ?_, fun serial hmem => ?_,
    fun before after serial hlog => ?_⟩
  · cases hgeneration
  · cases hmem
  · cases hmem
  · simp [init] at hlog

/-- A log is split at an entry of its front, or at its last entry. -/
theorem split_append_singleton {log before after : List JoinEvent} {event last : JoinEvent}
    (h : log ++ [last] = before ++ event :: after) :
    (∃ rest, log = before ++ event :: rest) ∨ log = before ∧ last = event := by
  rcases List.eq_nil_or_concat after with rfl | ⟨rest, final, rfl⟩
  · obtain ⟨hlog, hlast⟩ := List.append_inj' h rfl
    exact Or.inr ⟨hlog, List.head_eq_of_cons_eq hlast⟩
  · refine Or.inl ⟨rest, ?_⟩
    have hassoc : log ++ [last] = (before ++ event :: rest) ++ [final] := by simpa using h
    exact (List.append_inj' hassoc rfl).1

/-- A step that leaves the log and every serial alone, and makes no generation active. -/
theorem Recorded.of_same_log (h : Recorded s) (hlog : t.log = s.log)
    (hissued : t.issuer.issued = s.issuer.issued)
    (hstate : ∀ serial, t.issuer.stateOf serial = none ↔ s.issuer.stateOf serial = none)
    (hserial : ∀ generation, t.issuer.generation = some generation → ∃ old,
      s.issuer.generation = some old ∧ old.serial = generation.serial)
    (hactive : ∀ serial, .committed serial ∈ s.log → s.issuer.stateOf serial ≠ some .active →
      t.issuer.stateOf serial ≠ some .active) : Recorded t := by
  refine ⟨fun generation hgeneration => ?_, fun serial hmem => ?_, fun serial hmem => ?_, ?_⟩
  · obtain ⟨old, hold, hsame⟩ := hserial generation hgeneration
    rw [hissued, ← hsame]
    exact h.current old hold
  · rw [hlog] at hmem
    rw [hissued, hstate]
    exact h.replaced serial hmem
  · rw [hlog] at hmem
    obtain ⟨hlt, hinactive⟩ := h.committed serial hmem
    rw [hissued]
    exact ⟨hlt, hactive serial hmem hinactive⟩
  · rw [hlog]
    exact h.ordered

variable {generation : ActiveGeneration}

/-- The current generation moves to another state. -/
theorem Recorded.of_move (h : Recorded s) {new : ActiveGeneration}
    (hgeneration : s.issuer.generation = some generation)
    (ht : t.issuer = { s.issuer with generation := some new })
    (hserial : new.serial = generation.serial) (hlog : t.log = s.log)
    (hactive : new.state = .active → .committed generation.serial ∉ s.log) : Recorded t := by
  refine h.of_same_log hlog (by rw [ht]) (fun serial => ?_) (fun current hcurrent => ?_)
    fun serial hmem hbefore hafter => ?_
  · rw [ht]
    simp only [stateOf, hgeneration, hserial]
    by_cases hsame : generation.serial = serial
    · simp [hsame]
    · simp [hsame]
  · rw [ht] at hcurrent
    cases hcurrent
    exact ⟨generation, hgeneration, hserial.symm⟩
  · rw [ht] at hafter
    obtain ⟨current, hcurrent, hsame, hstate⟩ := stateOf_eq_some.mp hafter
    cases hcurrent
    rw [← hsame, hserial] at hmem
    exact hactive hstate hmem

/-- An admission becomes durable under the current generation. -/
theorem Recorded.of_durable (h : Recorded s) {serial : Nat} (hissuer : t.issuer = s.issuer)
    (hlog : t.log = s.log ++ [.committed serial])
    (hgeneration : s.issuer.generation = some generation) (hserial : generation.serial = serial)
    (hinactive : generation.state ≠ .active) : Recorded t := by
  obtain rfl := hserial
  have hstate : s.issuer.stateOf generation.serial = some generation.state :=
    stateOf_eq_some.mpr ⟨generation, hgeneration, rfl, rfl⟩
  have hunreplaced : .replaced generation.serial ∉ s.log := by
    intro hmem
    rw [(h.replaced _ hmem).2] at hstate
    cases hstate
  refine ⟨?_, fun other hmem => ?_, fun other hmem => ?_, fun before after other hsplit => ?_⟩
  · rw [hissuer]
    exact h.current
  · rw [hlog] at hmem
    rw [hissuer]
    exact h.replaced other (by simpa using hmem)
  · rw [hlog] at hmem
    rw [hissuer]
    rcases List.mem_append.mp hmem with hbefore | hnow
    · exact h.committed other hbefore
    · cases List.mem_singleton.mp hnow
      refine ⟨h.current generation hgeneration, ?_⟩
      rw [hstate]
      exact fun heq => hinactive (Option.some.inj heq)
  · rw [hlog] at hsplit
    rcases split_append_singleton hsplit with ⟨rest, hfront⟩ | ⟨rfl, hlast⟩
    · exact h.ordered before rest other hfront
    · cases hlast
      exact hunreplaced

variable {issuer : JoinCredentialIssuer}

theorem Recorded.replaceWith (h : Recorded s) {secret generationId : Bytes} {now : SystemTime}
    (hreplace : s.issuer.replace secret generationId now = .ok issuer) :
    Recorded (s.replaceWith issuer) := by
  obtain ⟨expiresAt, rfl⟩ := replace_eq_ok hreplace
  -- Every generation on record is older than the new one.
  have hold : ∀ serial, serial < s.issuer.issued → stateOf
      ⟨some ⟨s.issuer.issued, some secret, generationId, expiresAt, .active⟩, s.issuer.issued + 1⟩
      serial = none := by
    intro serial hlt
    have hne : s.issuer.issued ≠ serial := by omega
    exact if_neg hne
  have hnew : ∀ event ∈ (s.issuer.generation.map fun generation =>
      JoinEvent.replaced generation.serial).toList, ∃ generation,
      s.issuer.generation = some generation ∧ event = .replaced generation.serial := by
    intro event hmem
    cases hgeneration : s.issuer.generation with
    | none => simp [hgeneration] at hmem
    | some generation =>
      simp only [hgeneration, Option.map_some, Option.toList_some, List.mem_singleton] at hmem
      exact ⟨generation, rfl, hmem⟩
  refine ⟨fun generation hgeneration => ?_, fun serial hmem => ?_, fun serial hmem => ?_,
    fun before after serial hsplit => ?_⟩
  · cases hgeneration
    exact Nat.lt_succ_self _
  · have hlt : serial < s.issuer.issued := by
      rcases List.mem_append.mp hmem with hbefore | hnow
      · exact (h.replaced serial hbefore).1
      · obtain ⟨generation, hgeneration, heq⟩ := hnew _ hnow
        cases heq
        exact h.current generation hgeneration
    exact ⟨Nat.lt_succ_of_lt hlt, hold serial hlt⟩
  · rcases List.mem_append.mp hmem with hbefore | hnow
    · obtain ⟨hlt, -⟩ := h.committed serial hbefore
      refine ⟨Nat.lt_succ_of_lt hlt, fun hactive => ?_⟩
      cases (hold serial hlt).symm.trans hactive
    · obtain ⟨generation, -, heq⟩ := hnew _ hnow
      cases heq
  · replace hsplit : s.log ++ _ = _ := hsplit
    cases hgeneration : s.issuer.generation with
    | none =>
      simp only [hgeneration, Option.map_none, Option.toList_none, List.append_nil] at hsplit
      exact h.ordered before after serial hsplit
    | some generation =>
      simp only [hgeneration, Option.map_some, Option.toList_some] at hsplit
      rcases split_append_singleton hsplit with ⟨rest, hfront⟩ | ⟨-, hlast⟩
      · exact h.ordered before rest serial hfront
      · cases hlast

/-! ## Pending attempts -/

/-- A pending attempt holds the current generation, which is not active and has no admission. -/
def Standing (s : JoinSystem) (held : HeldCredential) : Prop :=
  ∃ generation, s.issuer.generation = some generation ∧ generation.serial = held.serial ∧
    generation.state ≠ .active ∧ .committed held.serial ∉ s.log

/-- What holds of the attempts as long as the steps are timely. -/
structure Guarded (s : JoinSystem) : Prop where
  standing : ∀ (k : Nat) attempt held, s.attempts[k]? = some attempt →
    attempt.pending = some held → s.Standing held
  single : ∀ (j k : Nat) first second, s.attempts[j]? = some first → s.attempts[k]? = some second →
    first.pending.isSome = true → second.pending.isSome = true → j = k
  /-- No guard goes while a transaction is under way. -/
  guarded : ∀ (k : Nat) held, s.attempts[k]? ≠ some (.orphaned held)
  dropping : ∀ (k : Nat) held, s.attempts[k]? = some (.dropping held) →
    ∀ generation, s.issuer.generation = some generation → generation.state ≠ .reserved

theorem guarded_init : Guarded init := by
  refine ⟨fun k attempt held hk => ?_, fun j k first second hj => ?_, fun k held hk => ?_,
    fun k held hk => ?_⟩
  · simp [init] at hk
  · simp [init] at hj
  · simp [init] at hk
  · simp [init] at hk

variable {old new : JoinAttempt}

/-- An attempt moves on, and is pending only if it was. -/
theorem Guarded.set (h : Guarded s) {k : Nat} (hold : s.attempts[k]? = some old)
    (ht : t.attempts = (s.setAttempt k new).attempts)
    (hpending : ∀ held, new.pending = some held → old.pending = some held)
    (horphaned : ∀ held, new ≠ .orphaned held)
    (hstanding : ∀ (j : Nat) attempt held, (s.setAttempt k new).attempts[j]? = some attempt →
      attempt.pending = some held → s.Standing held → t.Standing held)
    (hdropping : (∃ (j : Nat) (held : HeldCredential),
        (s.setAttempt k new).attempts[j]? = some (.dropping held)) →
      ∀ generation, t.issuer.generation = some generation → generation.state ≠ .reserved) :
    Guarded t := by
  have hbefore : ∀ (j : Nat) attempt held, (s.setAttempt k new).attempts[j]? = some attempt →
      attempt.pending = some held → ∃ before, s.attempts[j]? = some before ∧
        before.pending = some held := by
    intro j attempt held hj hholds
    rcases getElem?_setAttempt hj with ⟨rfl, rfl⟩ | ⟨-, hsame⟩
    · exact ⟨old, hold, hpending held hholds⟩
    · exact ⟨attempt, hsame, hholds⟩
  refine ⟨fun j attempt held hj hholds => ?_, fun i j first second hi hj hfirst hsecond => ?_,
    fun j held hj => ?_, fun j held hj => ?_⟩
  · rw [ht] at hj
    obtain ⟨before, hsame, hheld⟩ := hbefore j attempt held hj hholds
    exact hstanding j attempt held hj hholds (h.standing j before held hsame hheld)
  · rw [ht] at hi hj
    obtain ⟨a, ha⟩ := Option.isSome_iff_exists.mp hfirst
    obtain ⟨b, hb⟩ := Option.isSome_iff_exists.mp hsecond
    obtain ⟨one, hone, honeHeld⟩ := hbefore i first a hi ha
    obtain ⟨two, htwo, htwoHeld⟩ := hbefore j second b hj hb
    exact h.single i j one two hone htwo (by rw [honeHeld]; rfl) (by rw [htwoHeld]; rfl)
  · rw [ht] at hj
    rcases getElem?_setAttempt hj with ⟨-, heq⟩ | ⟨-, hsame⟩
    · exact horphaned held heq.symm
    · exact h.guarded j held hsame
  · rw [ht] at hj
    exact hdropping ⟨j, held, hj⟩

/-- An attempt moves on and the issuer and the log stay. -/
theorem Guarded.set_same (h : Guarded s) {k : Nat} (hold : s.attempts[k]? = some old)
    (ht : t.attempts = (s.setAttempt k new).attempts) (hissuer : t.issuer = s.issuer)
    (hlog : t.log = s.log) (hpending : ∀ held, new.pending = some held → old.pending = some held)
    (horphaned : ∀ held, new ≠ .orphaned held) (hdropping : ∀ held, new = .dropping held →
      ∀ generation, s.issuer.generation = some generation → generation.state ≠ .reserved) :
    Guarded t := by
  refine h.set hold ht hpending horphaned (fun j attempt held _ _ hstanding => ?_)
    fun hexists => ?_
  · unfold Standing
    rw [hissuer, hlog]
    exact hstanding
  · obtain ⟨j, held, hj⟩ := hexists
    rw [hissuer]
    rcases getElem?_setAttempt hj with ⟨-, heq⟩ | ⟨-, hsame⟩
    · exact hdropping held heq.symm
    · exact h.dropping j held hsame

/-- Where no other attempt is pending, none is after this one has settled. -/
theorem Guarded.none_pending (h : Guarded s) {k : Nat} (hold : s.attempts[k]? = some old)
    (hpending : old.pending.isSome = true) (hsettled : new.pending = none) {j : Nat}
    {attempt : JoinAttempt} {held : HeldCredential}
    (hj : (s.setAttempt k new).attempts[j]? = some attempt) : attempt.pending ≠ some held := by
  intro hholds
  rcases getElem?_setAttempt hj with ⟨-, rfl⟩ | ⟨hne, hsame⟩
  · cases hsettled.symm.trans hholds
  · exact hne (h.single j k attempt old hsame hold (by rw [hholds]; rfl) hpending)

theorem Guarded.replaceWith (h : Guarded s) {secret generationId : Bytes} {now : SystemTime}
    (hreplace : s.issuer.replace secret generationId now = .ok issuer)
    (hnone : ∀ (k : Nat) attempt, s.attempts[k]? = some attempt → attempt.pending = none) :
    Guarded (s.replaceWith issuer) := by
  obtain ⟨expiresAt, rfl⟩ := replace_eq_ok hreplace
  refine ⟨fun k attempt held hk hholds => ?_, h.single, h.guarded, fun k held hk => ?_⟩
  · cases (hnone k attempt hk).symm.trans hholds
  · intro generation hgeneration
    cases hgeneration
    nofun

/-- An attempt begins where no other is under way. -/
theorem Guarded.afterBegin (h : Guarded s) (hcustody : Custody s) (hrecorded : Recorded s) {k : Nat}
    {hint : Option Bytes} {now : SystemTime} (hk : s.attempts[k]? = some (.arriving hint))
    (hdropping : ∀ (k : Nat) held, s.attempts[k]? ≠ some (.dropping held)) :
    Guarded (s.afterBegin k hint now) := by
  unfold JoinSystem.afterBegin
  rcases s.issuer.beginAttempt_cases hint now hcustody.secret with
    ⟨error, hbegin⟩ | ⟨generation, held, hgeneration, hactive, hserial, hbegin⟩
  · rw [hbegin]
    exact h.set_same hk rfl rfl rfl nofun nofun nofun
  · rw [hbegin]
    -- the generation was active, so that no attempt was pending, and none is logged for it
    have hnone : ∀ (j : Nat) attempt other, s.attempts[j]? = some attempt →
        attempt.pending ≠ some other := by
      intro j attempt other hj hholds
      obtain ⟨found, hfound, -, hinactive, -⟩ := h.standing j attempt other hj hholds
      obtain rfl : generation = found := Option.some.inj (hgeneration.symm.trans hfound)
      exact hinactive hactive
    have hfresh : .committed generation.serial ∉ s.log := by
      intro hmem
      refine (hrecorded.committed _ hmem).2 ?_
      exact stateOf_eq_some.mpr ⟨generation, hgeneration, rfl, hactive⟩
    have hself : ∀ (j : Nat) attempt other,
        (s.setAttempt k (.reserved held)).attempts[j]? = some attempt →
        attempt.pending = some other → j = k ∧ other = held := by
      intro j attempt other hj hholds
      rcases getElem?_setAttempt hj with ⟨rfl, rfl⟩ | ⟨-, hsame⟩
      · cases hholds
        exact ⟨rfl, rfl⟩
      · exact absurd hholds (hnone j attempt other hsame)
    refine ⟨fun j attempt other hj hholds => ?_, fun i j first second hi hj hfirst hsecond => ?_,
      fun j other hj => ?_, fun j other hj => ?_⟩
    · obtain ⟨-, rfl⟩ := hself j attempt other hj hholds
      exact ⟨_, rfl, hserial.symm, nofun, hserial ▸ hfresh⟩
    · obtain ⟨a, ha⟩ := Option.isSome_iff_exists.mp hfirst
      obtain ⟨b, hb⟩ := Option.isSome_iff_exists.mp hsecond
      exact (hself i first a hi ha).1.trans (hself j second b hj hb).1.symm
    · rcases getElem?_setAttempt hj with ⟨-, heq⟩ | ⟨-, hsame⟩
      · cases heq
      · exact h.guarded j other hsame
    · rcases getElem?_setAttempt hj with ⟨-, heq⟩ | ⟨-, hsame⟩
      · cases heq
      · exact absurd hsame (hdropping j other)

/-- Every timely step keeps the guards. -/
theorem Guarded.step (h : Guarded s) (hcustody : Custody s) (hrecorded : Recorded s)
    (hstep : Step s action t) (htimely : s.Timely action) : Guarded t := by
  cases hstep with
  | issue secret generationId now issuer hissue => exact h.replaceWith (issue_eq_ok hissue) htimely
  | rotate secret generationId now issuer hrotate => exact h.replaceWith hrotate htimely
  | arrive hint =>
    have hold : ∀ (k : Nat) attempt, (s.attempts ++ [.arriving hint])[k]? = some attempt →
        s.attempts[k]? = some attempt ∨ attempt = .arriving hint := by
      intro k attempt hk
      rw [List.getElem?_append] at hk
      split at hk
      · exact Or.inl hk
      · exact Or.inr (List.mem_singleton.mp (List.mem_of_getElem? hk))
    refine ⟨fun k attempt held hk hholds => ?_, fun j k first second hj hk hfirst hsecond => ?_,
      fun k held hk => ?_, fun k held hk => ?_⟩
    · obtain hk | rfl := hold k attempt hk
      · exact h.standing k attempt held hk hholds
      · cases hholds
    · obtain hj | rfl := hold j first hj
      · obtain hk | rfl := hold k second hk
        · exact h.single j k first second hj hk hfirst hsecond
        · cases hsecond
      · cases hfirst
    · obtain hk | heq := hold k _ hk
      · exact h.guarded k held hk
      · cases heq
    · obtain hk | heq := hold k _ hk
      · exact h.dropping k held hk
      · cases heq
  | reserve k hint now hk => exact h.afterBegin hcustody hrecorded hk htimely
  | submit k held hk => exact h.set_same hk rfl rfl rfl (fun _ hholds => hholds) nofun nofun
  | durable k held hk =>
    refine h.set hk rfl nofun nofun (fun j attempt other hj hholds => ?_) fun hexists => ?_
    · exact absurd hholds (h.none_pending hk rfl rfl hj)
    · obtain ⟨j, other, hj⟩ := hexists
      rcases getElem?_setAttempt hj with ⟨-, heq⟩ | ⟨-, hsame⟩
      · cases heq
      · exact h.dropping j other hsame
  | durableOrphan k held hk => exact absurd hk (h.guarded k held)
  | refuse k held hk => exact h.set_same hk rfl rfl rfl (fun _ hholds => hholds) nofun nofun
  | refuseOrphan k held hk => exact absurd hk (h.guarded k held)
  | consume k held issuer hk hconsume =>
    obtain ⟨generation, hgeneration, -, rfl⟩ := consume_eq_ok hconsume
    refine h.set hk rfl nofun nofun (fun j attempt other _ _ hstanding => ?_)
      fun _ current hcurrent => ?_
    · obtain ⟨found, hfound, hserial, -, hunlogged⟩ := hstanding
      obtain rfl : generation = found := Option.some.inj (hgeneration.symm.trans hfound)
      exact ⟨_, rfl, hserial, nofun, hunlogged⟩
    · cases hcurrent
      exact fun hreserved => by cases hreserved
  | consumeRefused k held error hk hconsume =>
    refine h.set_same hk rfl rfl rfl nofun nofun fun _ _ generation hgeneration hreserved => ?_
    simp [JoinCredentialIssuer.consume, hgeneration, hreserved] at hconsume
  | release k attempt after hk hreleased =>
    -- the guard of an attempt before its transaction, or one after a refused `consume`
    have hended : after = .ended ∧ ((∃ held, attempt = .reserved held) ∨
        ∃ held, attempt = .dropping held) := by
      cases attempt with
      | reserved held => exact ⟨(Option.some.inj hreleased).symm, Or.inl ⟨held, rfl⟩⟩
      | dropping held => exact ⟨(Option.some.inj hreleased).symm, Or.inr ⟨held, rfl⟩⟩
      | committing held => exact absurd hk (htimely held).1
      | committed held => exact absurd hk (htimely held).2
      | _ => cases hreleased
    obtain ⟨rfl, hguard⟩ := hended
    cases hrelease : s.issuer.release with
    | error error => exact h.set_same hk rfl rfl rfl nofun nofun fun _ heq => by cases heq
    | ok issuer =>
      obtain ⟨generation, hgeneration, hreserved, rfl⟩ := release_eq_ok hrelease
      obtain ⟨held, rfl⟩ | ⟨held, rfl⟩ := hguard
      · refine h.set hk rfl nofun nofun (fun j other held hj hholds => ?_) fun _ current hcurrent => ?_
        · exact absurd hholds (h.none_pending hk rfl rfl hj)
        · cases hcurrent
          exact fun hreserved => by cases hreserved
      · exact absurd hreserved (h.dropping k held hk generation hgeneration)

/-- Every timely step keeps the record of the serials. -/
theorem Recorded.step (h : Recorded s) (hcustody : Custody s) (hguarded : Guarded s)
    (hstep : Step s action t) (htimely : s.Timely action) : Recorded t := by
  cases hstep with
  | issue secret generationId now issuer hissue => exact h.replaceWith (issue_eq_ok hissue)
  | rotate secret generationId now issuer hrotate => exact h.replaceWith hrotate
  | arrive hint => exact ⟨h.current, h.replaced, h.committed, h.ordered⟩
  | reserve k hint now hk =>
    unfold JoinSystem.afterBegin
    rcases s.issuer.beginAttempt_cases hint now hcustody.secret with
      ⟨error, hbegin⟩ | ⟨generation, held, hgeneration, -, -, hbegin⟩
    · rw [hbegin]
      exact ⟨h.current, h.replaced, h.committed, h.ordered⟩
    · rw [hbegin]
      exact h.of_move hgeneration rfl rfl rfl nofun
  | submit k held hk => exact ⟨h.current, h.replaced, h.committed, h.ordered⟩
  | durable k held hk =>
    obtain ⟨generation, hgeneration, hserial, hinactive, -⟩ := hguarded.standing k _ held hk rfl
    exact h.of_durable rfl rfl hgeneration hserial hinactive
  | durableOrphan k held hk => exact absurd hk (hguarded.guarded k held)
  | refuse k held hk => exact ⟨h.current, h.replaced, h.committed, h.ordered⟩
  | refuseOrphan k held hk => exact ⟨h.current, h.replaced, h.committed, h.ordered⟩
  | consume k held issuer hk hconsume =>
    obtain ⟨generation, hgeneration, -, rfl⟩ := consume_eq_ok hconsume
    exact h.of_move hgeneration rfl rfl rfl nofun
  | consumeRefused k held error hk hconsume => exact ⟨h.current, h.replaced, h.committed, h.ordered⟩
  | release k attempt after hk hreleased =>
    cases hrelease : s.issuer.release with
    | error error => exact ⟨h.current, h.replaced, h.committed, h.ordered⟩
    | ok issuer =>
      obtain ⟨generation, hgeneration, hreserved, rfl⟩ := release_eq_ok hrelease
      refine h.of_move hgeneration rfl rfl rfl fun _ => ?_
      -- the guard is the one of the current generation
      cases attempt with
      | reserved held =>
        obtain ⟨found, hfound, hserial, -, hunlogged⟩ := hguarded.standing k _ held hk rfl
        obtain rfl : generation = found := Option.some.inj (hgeneration.symm.trans hfound)
        rwa [hserial]
      | dropping held => exact absurd hreserved (hguarded.dropping k held hk generation hgeneration)
      | committing held => exact absurd hk (htimely held).1
      | committed held => exact absurd hk (htimely held).2
      | _ => cases hreleased

theorem recorded_of_reachable (h : timelyRuns.Reachable s) :
    Custody s ∧ Recorded s ∧ Guarded s := by
  refine h.invariant (P := fun s => Custody s ∧ Recorded s ∧ Guarded s) ?_ ?_
  · rintro s rfl
    exact ⟨custody_init, recorded_init, guarded_init⟩
  · intro s t _ hs hnext
    obtain ⟨hcustody, hrecorded, hguarded⟩ := hs
    obtain ⟨action, hstep, htimely⟩ := hnext
    exact ⟨hcustody.step hstep, hrecorded.step hcustody hguarded hstep htimely,
      hguarded.step hcustody hrecorded hstep htimely⟩

end JoinSystem

/-- In a run in which no credential is issued or rotated between the reservation of an attempt and its
    commit, no attempt reserves while another drops a guard after a refused `consume`, and
    `commit_and_deliver` neither fails nor is dropped once its transaction may have been committed:
    no admission under a generation is committed after the generation was replaced, and a generation
    with an admission is never active again. -/
theorem rotation_invalidates (s : JoinSystem) (h : JoinSystem.timelyRuns.Reachable s) :
    (∀ before after serial, s.log = before ++ .committed serial :: after →
      .replaced serial ∉ before) ∧
    ∀ serial, .committed serial ∈ s.log → s.issuer.stateOf serial ≠ some .active := by
  obtain ⟨-, hrecorded, -⟩ := JoinSystem.recorded_of_reachable h
  exact ⟨hrecorded.ordered, fun serial hmem => (hrecorded.committed serial hmem).2⟩

/-- An attempt reserves a credential, its admission becomes durable and the grant is delivered; the
    credential is consumed, and rotated. -/
theorem used_generation_inactive :
    ∃ s, JoinSystem.timelyRuns.Reachable s ∧ s.log = [.committed 0, .replaced 0] ∧
      (∀ before after serial, s.log = before ++ .committed serial :: after →
        .replaced serial ∉ before) ∧ s.issuer.stateOf 0 ≠ some .active := by
  have hissued := (TransitionSystem.Reachable.init (T := JoinSystem.timelyRuns) rfl).step
    ⟨_, issuedOnce_step, fun k attempt hk => by simp [JoinSystem.init] at hk⟩
  have harrived := hissued.step ⟨_, .arrive (some (sampleSecret 2)), trivial⟩
  have hreserved := harrived.step ⟨_, .reserve 0 (some (sampleSecret 2)) epoch rfl,
    fun k held hk => by cases k <;> simp [issuedOnce] at hk⟩
  have hsubmitted := hreserved.step ⟨_, .submit 0 ⟨0, sampleSecret 2, sampleSecret 1⟩ rfl, trivial⟩
  have hdurable := hsubmitted.step ⟨_, .durable 0 ⟨0, sampleSecret 2, sampleSecret 1⟩ rfl, trivial⟩
  have hconsumed := hdurable.step ⟨_, .consume 0 ⟨0, sampleSecret 2, sampleSecret 1⟩ _ rfl rfl, trivial⟩
  have hrotated := hconsumed.step ⟨_, .rotate (sampleSecret 3) (sampleSecret 4) epoch _ rfl,
    fun k attempt hk => by
      cases k with
      | zero =>
        cases hk
        rfl
      | succ k => cases hk⟩
  obtain ⟨hordered, hinactive⟩ := rotation_invalidates _ hrotated
  exact ⟨_, hrotated, rfl, hordered, hinactive 0 (by decide)⟩

/-- A rotation while an attempt runs: the admission of the replaced generation is committed all the
    same. A delivery that fails after the commit: the used generation is active again. -/
theorem rotated_generation_used :
    (∃ s, JoinSystem.runs.Reachable s ∧ s.log = [.replaced 0, .committed 0]) ∧
    ∃ s, JoinSystem.runs.Reachable s ∧ s.log = [.committed 0] ∧
      s.issuer.stateOf 0 = some .active := by
  have hsubmitted := reservedOnce_reachable.step
    ⟨_, .submit 0 ⟨0, sampleSecret 2, sampleSecret 1⟩ rfl⟩
  refine ⟨?_, ?_⟩
  · have hrotated := hsubmitted.step ⟨_, .rotate (sampleSecret 3) (sampleSecret 4) epoch _ rfl⟩
    have hdurable := hrotated.step ⟨_, .durable 0 ⟨0, sampleSecret 2, sampleSecret 1⟩ rfl⟩
    exact ⟨_, hdurable, rfl⟩
  · have hdurable := hsubmitted.step ⟨_, .durable 0 ⟨0, sampleSecret 2, sampleSecret 1⟩ rfl⟩
    have hreleased := hdurable.step ⟨_, .release 0 _ _ rfl rfl⟩
    exact ⟨_, hreleased, rfl, rfl⟩

end Radiata
