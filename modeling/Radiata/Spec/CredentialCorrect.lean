import Radiata.Native.Credential

/-!
# Whose reservation it is

`release` and `consume` act on whatever generation is current. They act on the reservation of
the attempt that calls them exactly if no other attempt has reserved the generation that is
current by then. `issue` replaces a generation that has expired, also one that is reserved.

## Key results

- `JoinCredentialIssuer.beginAttempt_cases`: what a new attempt does to the issuer
- `JoinSystem.Custody`: what holds of the attempts and the current generation
- `reservation_owned_iff`: when a step respects the owner of a reservation
- `released_by_stranger`: a rotation between two attempts
-/

namespace Radiata

namespace JoinCredentialIssuer

variable {issuer after : JoinCredentialIssuer}

theorem replace_eq_ok {secret generationId : Bytes} {now : SystemTime}
    (h : issuer.replace secret generationId now = .ok after) :
    ∃ expiresAt, after = ⟨some ⟨issuer.issued, some secret, generationId, expiresAt, .active⟩,
      issuer.issued + 1⟩ := by
  unfold replace at h
  split at h
  · cases h
  · cases h
    exact ⟨_, rfl⟩

theorem issue_eq_ok {secret generationId : Bytes} {now : SystemTime}
    (h : issuer.issue secret generationId now = .ok after) :
    issuer.replace secret generationId now = .ok after := by
  unfold issue at h
  split at h
  · split at h
    · cases h
    · exact h
  · exact h

/-- `release` finds a reserved generation and makes it active. -/
theorem release_eq_ok (h : issuer.release = .ok after) :
    ∃ generation, issuer.generation = some generation ∧ generation.state = .reserved ∧
      after = { issuer with generation := some { generation with state := .active } } := by
  unfold release at h
  split at h
  · cases h
  · rename_i generation hgeneration
    split at h
    · rename_i hreserved
      cases h
      exact ⟨generation, hgeneration, hreserved, rfl⟩
    · cases h

/-- `consume` finds a reserved generation and makes it consumed. -/
theorem consume_eq_ok (h : issuer.consume = .ok after) :
    ∃ generation, issuer.generation = some generation ∧ generation.state = .reserved ∧
      after = { issuer with
        generation := some { generation with credential := none, state := .consumed } } := by
  unfold consume at h
  split at h
  · cases h
  · rename_i generation hgeneration
    split at h
    · rename_i hreserved
      cases h
      exact ⟨generation, hgeneration, hreserved, rfl⟩
    · cases h

/-- `reserve` finds an active generation and makes it reserved. -/
theorem reserve_eq_ok {now : SystemTime} (h : issuer.reserve now = .ok after) :
    ∃ generation, issuer.generation = some generation ∧ generation.live now = .ok () ∧
      generation.state = .active ∧
      after = { issuer with generation := some { generation with state := .reserved } } := by
  unfold reserve at h
  split at h
  · cases h
  · rename_i generation hgeneration
    obtain ⟨⟨⟩, hlive, h⟩ := Result.bind_eq_ok.mp h
    split at h
    · rename_i hactive
      cases h
      exact ⟨generation, hgeneration, hlive, hactive, rfl⟩
    · cases h
    · cases h

/-- A new attempt leaves the issuer as it is, or reserves an active generation. -/
theorem beginAttempt_cases (issuer : JoinCredentialIssuer) (hint : Option Bytes) (now : SystemTime)
    (hsecret : ∀ generation, issuer.generation = some generation → generation.state ≠ .consumed →
      generation.credential.isSome = true) :
    (∃ error, issuer.beginAttempt hint now = (issuer, .error error)) ∨
      ∃ generation held, issuer.generation = some generation ∧ generation.state = .active ∧
        held.serial = generation.serial ∧ issuer.beginAttempt hint now =
          ({ issuer with generation := some { generation with state := .reserved } }, .ok held) := by
  unfold beginAttempt
  cases hgeneration : issuer.generation with
  | none => exact Or.inl ⟨_, rfl⟩
  | some generation =>
    simp only
    by_cases hhint : hint ≠ some generation.generationId
    · rw [if_pos hhint]
      exact Or.inl ⟨_, rfl⟩
    rw [if_neg hhint]
    cases hreserve : issuer.reserve now with
    | error error => exact Or.inl ⟨_, rfl⟩
    | ok reserved =>
      obtain ⟨found, hfound, hlive, hactive, rfl⟩ := reserve_eq_ok hreserve
      obtain rfl : generation = found := Option.some.inj (hgeneration.symm.trans hfound)
      have hsome := hsecret generation hgeneration (by rw [hactive]; decide)
      obtain ⟨secret, hcredential⟩ := Option.isSome_iff_exists.mp hsome
      -- The generation has not expired in between: the time is the same.
      have hcopied : activeCredential
          { issuer with generation := some { generation with state := .reserved } } now =
          .ok secret := by
        have hunexpired : ¬ generation.expiresAt.nanos ≤ now.nanos := by
          intro hexpired
          rw [ActiveGeneration.live, if_neg (by rw [hactive]; decide), if_pos hexpired] at hlive
          cases hlive
        simp [activeCredential, ActiveGeneration.live, hunexpired, hcredential, Bind.bind,
          Except.bind, Pure.pure, Except.pure]
      refine Or.inr ⟨generation, ⟨generation.serial, generation.generationId, secret⟩, rfl, hactive,
        rfl, ?_⟩
      simp only [hcopied]

/-- The state of the other generations is never known. -/
theorem stateOf_eq_some {issuer : JoinCredentialIssuer} {serial : Nat} {state : GenerationState} :
    issuer.stateOf serial = some state ↔ ∃ generation, issuer.generation = some generation ∧
      generation.serial = serial ∧ generation.state = state := by
  unfold stateOf
  cases issuer.generation with
  | none => simp
  | some generation =>
    by_cases hserial : generation.serial = serial
    · simp [hserial]
    · simp [hserial]

end JoinCredentialIssuer

namespace JoinSystem

open JoinCredentialIssuer

variable {s t : JoinSystem} {action : JoinAction}

/-! ## The attempts and the current generation -/

/-- What holds in every reachable state. -/
structure Custody (s : JoinSystem) : Prop where
  /-- A generation keeps its secret until it is consumed. -/
  secret : ∀ generation, s.issuer.generation = some generation → generation.state ≠ .consumed →
    generation.credential.isSome = true
  /-- The owner of the current reservation holds the current generation. -/
  owned : ∀ generation, s.issuer.generation = some generation → generation.state = .reserved →
    ∃ k, s.owner = some k ∧ k < s.attempts.length ∧ ∀ attempt held, s.attempts[k]? = some attempt →
      attempt.held = some held → held.serial = generation.serial
  /-- An attempt past its commit has an admission under its generation. -/
  logged : ∀ (k : Nat) held, s.attempts[k]? = some (.committed held) →
    .committed held.serial ∈ s.log

theorem custody_init : Custody init := by
  refine ⟨fun generation hgeneration => ?_, fun generation hgeneration => ?_, fun k held hk => ?_⟩
  · cases hgeneration
  · cases hgeneration
  · simp [init] at hk

variable {k : Nat} {attempt new : JoinAttempt}

/-- The attempts after one has moved on. -/
theorem getElem?_setAttempt {j : Nat} (h : (s.setAttempt k new).attempts[j]? = some attempt) :
    j = k ∧ attempt = new ∨ j ≠ k ∧ s.attempts[j]? = some attempt := by
  have hset : (s.attempts.set k new)[j]? = some attempt := h
  by_cases hjk : j = k
  · subst hjk
    have hlt := (List.getElem?_eq_some_iff.mp hset).1
    rw [List.length_set] at hlt
    rw [List.getElem?_set_self hlt] at hset
    exact Or.inl ⟨rfl, (Option.some.inj hset).symm⟩
  · rw [List.getElem?_set_ne (Ne.symm hjk)] at hset
    exact Or.inr ⟨hjk, hset⟩

/-- The owner of the current reservation is not affected by an attempt that keeps or loses what it
    holds. -/
theorem Custody.owned_set (h : Custody s) {old : JoinAttempt} (hold : s.attempts[k]? = some old)
    (hheld : ∀ held, new.held = some held → old.held = some held) :
    ∀ generation, s.issuer.generation = some generation → generation.state = .reserved →
      ∃ j, s.owner = some j ∧ j < (s.setAttempt k new).attempts.length ∧ ∀ attempt held,
        (s.setAttempt k new).attempts[j]? = some attempt → attempt.held = some held →
        held.serial = generation.serial := by
  intro generation hgeneration hreserved
  obtain ⟨j, howner, hlt, hserial⟩ := h.owned generation hgeneration hreserved
  refine ⟨j, howner, by simpa [setAttempt] using hlt, fun attempt held hattempt hholds => ?_⟩
  rcases getElem?_setAttempt hattempt with ⟨rfl, rfl⟩ | ⟨-, hbefore⟩
  · exact hserial old held hold (hheld held hholds)
  · exact hserial attempt held hbefore hholds

theorem Custody.logged_set (h : Custody s) {log : List JoinEvent} (hlog : s.log ⊆ log)
    (hnew : ∀ held, new = .committed held → .committed held.serial ∈ log) :
    ∀ (j : Nat) held, (s.setAttempt k new).attempts[j]? = some (.committed held) →
      .committed held.serial ∈ log := by
  intro j held hj
  rcases getElem?_setAttempt hj with ⟨-, hcommitted⟩ | ⟨-, hbefore⟩
  · exact hnew held hcommitted.symm
  · exact hlog (h.logged j held hbefore)

variable {issuer : JoinCredentialIssuer}

theorem Custody.replaceWith (h : Custody s) {secret generationId : Bytes} {now : SystemTime}
    (hreplace : s.issuer.replace secret generationId now = .ok issuer) :
    Custody (s.replaceWith issuer) := by
  obtain ⟨expiresAt, rfl⟩ := replace_eq_ok hreplace
  refine ⟨fun generation hgeneration _ => ?_, fun generation hgeneration hreserved => ?_,
    fun k held hk => ?_⟩
  · cases hgeneration
    rfl
  · cases hgeneration
    cases hreserved
  · exact List.mem_append_left _ (h.logged k held hk)

theorem Custody.afterBegin (h : Custody s) {hint : Option Bytes} {now : SystemTime}
    (hk : s.attempts[k]? = some (.arriving hint)) : Custody (s.afterBegin k hint now) := by
  unfold JoinSystem.afterBegin
  have hlt : k < s.attempts.length := (List.getElem?_eq_some_iff.mp hk).1
  rcases s.issuer.beginAttempt_cases hint now h.secret with
    ⟨error, hbegin⟩ | ⟨generation, held, hgeneration, hactive, hserial, hbegin⟩
  · rw [hbegin]
    refine ⟨h.secret, h.owned_set hk nofun, h.logged_set (List.Subset.refl _) nofun⟩
  · rw [hbegin]
    refine ⟨fun current hcurrent _ => ?_, fun current hcurrent _ => ?_,
      h.logged_set (List.Subset.refl _) nofun⟩
    · cases hcurrent
      exact h.secret generation hgeneration (by rw [hactive]; decide)
    · cases hcurrent
      refine ⟨k, rfl, by simpa [setAttempt] using hlt, fun attempt other hattempt hholds => ?_⟩
      rcases getElem?_setAttempt hattempt with ⟨-, rfl⟩ | ⟨hne, -⟩
      · cases hholds
        exact hserial
      · exact absurd rfl hne

theorem Custody.step (h : Custody s) (hstep : Step s action t) : Custody t := by
  cases hstep with
  | issue secret generationId now issuer hissue => exact h.replaceWith (issue_eq_ok hissue)
  | rotate secret generationId now issuer hrotate => exact h.replaceWith hrotate
  | arrive hint =>
    refine ⟨h.secret, fun generation hgeneration hreserved => ?_, fun k held hk => ?_⟩
    · obtain ⟨k, howner, hlt, hserial⟩ := h.owned generation hgeneration hreserved
      refine ⟨k, howner, by simp; omega, fun attempt held hattempt hholds => ?_⟩
      rw [List.getElem?_append_left hlt] at hattempt
      exact hserial attempt held hattempt hholds
    · rw [List.getElem?_append] at hk
      split at hk
      · exact h.logged k held hk
      · cases List.mem_singleton.mp (List.mem_of_getElem? hk)
  | reserve k hint now hk => exact h.afterBegin hk
  | submit k held hk =>
    exact ⟨h.secret, h.owned_set hk fun _ hheld => hheld, h.logged_set (List.Subset.refl _) nofun⟩
  | durable k held hk =>
    refine ⟨h.secret, h.owned_set hk fun _ hheld => hheld,
      h.logged_set (List.subset_append_left _ _) fun other hother => ?_⟩
    cases hother
    exact List.mem_append_right _ (List.mem_singleton_self _)
  | durableOrphan k held hk =>
    exact ⟨h.secret, h.owned_set hk nofun, h.logged_set (List.subset_append_left _ _) nofun⟩
  | refuse k held hk =>
    exact ⟨h.secret, h.owned_set hk fun _ hheld => hheld, h.logged_set (List.Subset.refl _) nofun⟩
  | refuseOrphan k held hk =>
    exact ⟨h.secret, h.owned_set hk nofun, h.logged_set (List.Subset.refl _) nofun⟩
  | consume k held issuer hk hconsume =>
    obtain ⟨generation, -, -, rfl⟩ := consume_eq_ok hconsume
    refine ⟨fun current hcurrent hstate => ?_, fun current hcurrent hreserved => ?_,
      h.logged_set (List.Subset.refl _) nofun⟩
    · cases hcurrent
      exact absurd rfl hstate
    · cases hcurrent
      cases hreserved
  | consumeRefused k held error hk hconsume =>
    exact ⟨h.secret, h.owned_set hk fun _ hheld => hheld, h.logged_set (List.Subset.refl _) nofun⟩
  | release k attempt after hk hreleased =>
    have hheld : ∀ held, after.held = some held → attempt.held = some held := by
      intro held hholds
      cases attempt <;> simp [JoinAttempt.released] at hreleased <;> subst hreleased <;>
        first | exact hholds | cases hholds
    have hcommitted : ∀ held, after ≠ .committed held := by
      intro held heq
      cases attempt <;> simp [JoinAttempt.released] at hreleased <;> subst hreleased <;> cases heq
    have hlogged : ∀ (j : Nat) held, (s.setAttempt k after).attempts[j]? = some (.committed held) →
        .committed held.serial ∈ s.log :=
      h.logged_set (List.Subset.refl _) fun held heq => absurd heq (hcommitted held)
    cases hrelease : s.issuer.release with
    | error error =>
      exact ⟨h.secret, h.owned_set hk hheld, hlogged⟩
    | ok issuer =>
      obtain ⟨generation, hgeneration, hreserved, rfl⟩ := release_eq_ok hrelease
      refine ⟨fun current hcurrent _ => ?_, fun current hcurrent hstate => ?_, hlogged⟩
      · cases hcurrent
        exact h.secret generation hgeneration (by rw [hreserved]; decide)
      · cases hcurrent
        cases hstate

theorem custody_of_reachable (h : runs.Reachable s) : Custody s := by
  refine h.invariant (P := Custody) ?_ ?_
  · rintro s rfl
    exact custody_init
  · rintro s t - hs ⟨action, hstep⟩
    exact hs.step hstep

/-! ## Ownership -/

/-- A step that consumes or releases a reservation finds its own, or none, and the operator issues a
    credential when none is reserved. -/
def OwnReservation (s : JoinSystem) : JoinAction → Prop
  | .issue => ∀ generation, s.issuer.generation = some generation → generation.state ≠ .reserved
  | .consume k => ∀ generation, s.issuer.generation = some generation →
      generation.state = .reserved → s.owner = some k
  | .release k => ∀ generation, s.issuer.generation = some generation →
      generation.state = .reserved → s.owner = some k
  | _ => True

/-- What a step may do to the generations. -/
structure RespectsOwner (s : JoinSystem) (action : JoinAction) (t : JoinSystem) : Prop where
  /-- A reserved generation is rotated away, or the attempt that reserved it moves it on. -/
  leaves : ∀ serial, s.issuer.stateOf serial = some .reserved →
    t.issuer.stateOf serial ≠ some .reserved →
    action = .rotate ∨ ∃ k, action.attempt = some k ∧ s.owner = some k
  /-- A generation is consumed by the attempt that reserved it and has an admission under it. -/
  consumes : ∀ serial, t.issuer.stateOf serial = some .consumed →
    s.issuer.stateOf serial ≠ some .consumed →
    ∃ k held, action = .consume k ∧ s.owner = some k ∧ s.attempts[k]? = some (.committed held) ∧
      held.serial = serial ∧ .committed serial ∈ s.log
  /-- An attempt does nothing to a generation issued after its own. -/
  later : ∀ (k : Nat) attempt held serial, action.attempt = some k → s.attempts[k]? = some attempt →
    attempt.held = some held → held.serial < serial →
    t.issuer.stateOf serial = s.issuer.stateOf serial

theorem RespectsOwner.of_same (h : t.issuer = s.issuer) : RespectsOwner s action t := by
  refine ⟨fun serial hreserved hleft => ?_, fun serial hconsumed hbefore => ?_, ?_⟩
  · rw [h] at hleft
    exact absurd hreserved hleft
  · rw [h] at hconsumed
    exact absurd hconsumed hbefore
  · intro k attempt held serial _ _ _ _
    rw [h]

variable {generation : ActiveGeneration}

/-- Only the state of the current generation changes. -/
theorem stateOf_set {new : ActiveGeneration} (hgeneration : issuer.generation = some generation)
    (hserial : new.serial = generation.serial) {serial : Nat} (hne : serial ≠ generation.serial) :
    stateOf { issuer with generation := some new } serial = issuer.stateOf serial := by
  simp only [stateOf, hgeneration, hserial]
  rw [if_neg (Ne.symm hne), if_neg (Ne.symm hne)]

/-- A reservation is taken. -/
theorem RespectsOwner.of_reserve {hint : Option Bytes}
    (hk : s.attempts[k]? = some (.arriving hint))
    (hgeneration : s.issuer.generation = some generation) (hactive : generation.state = .active)
    (ht : t.issuer = { s.issuer with generation := some { generation with state := .reserved } }) :
    RespectsOwner s (.reserve k) t := by
  refine ⟨fun serial hreserved _ => ?_, fun serial hconsumed hbefore => ?_, ?_⟩
  · obtain ⟨current, hcurrent, -, hstate⟩ := stateOf_eq_some.mp hreserved
    obtain rfl : generation = current := Option.some.inj (hgeneration.symm.trans hcurrent)
    rw [hactive] at hstate
    cases hstate
  · rw [ht] at hconsumed
    obtain ⟨current, hcurrent, -, hstate⟩ := stateOf_eq_some.mp hconsumed
    cases hcurrent
    cases hstate
  · intro j attempt held serial hj hattempt hholds _
    cases hj
    rw [hk] at hattempt
    cases hattempt
    cases hholds

/-- A step by an attempt that holds the current reservation. -/
theorem RespectsOwner.of_owner (hcustody : Custody s) {held : HeldCredential}
    (haction : action.attempt = some k) (hk : s.attempts[k]? = some attempt)
    (hholds : attempt.held = some held) {new : ActiveGeneration}
    (hgeneration : s.issuer.generation = some generation)
    (hreserved : generation.state = .reserved) (howner : s.owner = some k)
    (ht : t.issuer = { s.issuer with generation := some new })
    (hserial : new.serial = generation.serial)
    (hconsumes : new.state = .consumed → action = .consume k ∧ attempt = .committed held) :
    RespectsOwner s action t := by
  obtain ⟨j, hj, -, hown⟩ := hcustody.owned generation hgeneration hreserved
  obtain rfl : k = j := Option.some.inj (howner.symm.trans hj)
  have hheld := hown attempt held hk hholds
  refine ⟨fun serial _ _ => Or.inr ⟨k, haction, howner⟩, fun serial hconsumed _ => ?_, ?_⟩
  · rw [ht] at hconsumed
    obtain ⟨current, hcurrent, hcurrentSerial, hstate⟩ := stateOf_eq_some.mp hconsumed
    cases hcurrent
    obtain ⟨hconsume, rfl⟩ := hconsumes hstate
    have hsame : held.serial = serial := by rw [hheld, ← hserial, hcurrentSerial]
    exact ⟨k, held, hconsume, howner, hk, hsame, hsame ▸ hcustody.logged k held hk⟩
  · intro i other otherHeld serial hi hother hotherHolds hlt
    obtain rfl : k = i := Option.some.inj (haction.symm.trans hi)
    obtain rfl : attempt = other := Option.some.inj (hk.symm.trans hother)
    obtain rfl : held = otherHeld := Option.some.inj (hholds.symm.trans hotherHolds)
    rw [ht]
    exact stateOf_set hgeneration hserial (by omega)

/-- A generation is replaced: by a rotation, or while it is not reserved. -/
theorem RespectsOwner.of_replace {secret generationId : Bytes} {now : SystemTime}
    (hreplace : s.issuer.replace secret generationId now = .ok issuer)
    (hoperator : action.attempt = none) (hfree : action = .rotate ∨
      ∀ generation, s.issuer.generation = some generation → generation.state ≠ .reserved) :
    RespectsOwner s action (s.replaceWith issuer) := by
  obtain ⟨expiresAt, rfl⟩ := replace_eq_ok hreplace
  refine ⟨fun serial hreserved _ => ?_, fun serial hconsumed _ => ?_, fun k attempt held serial hk => ?_⟩
  · obtain ⟨current, hcurrent, -, hstate⟩ := stateOf_eq_some.mp hreserved
    exact Or.inl (hfree.resolve_right fun hnone => hnone current hcurrent hstate)
  · obtain ⟨current, hcurrent, -, hstate⟩ := stateOf_eq_some.mp hconsumed
    cases hcurrent
    cases hstate
  · cases hoperator.symm.trans hk

/-- An attempt that still has its guard holds a generation. -/
theorem held_of_released {after : JoinAttempt} (h : attempt.released = some after) :
    ∃ held, attempt.held = some held := by
  cases attempt with
  | arriving hint => cases h
  | orphaned held => cases h
  | ended => cases h
  | reserved held => exact ⟨held, rfl⟩
  | committing held => exact ⟨held, rfl⟩
  | committed held => exact ⟨held, rfl⟩
  | dropping held => exact ⟨held, rfl⟩

theorem respectsOwner_of_own (hcustody : Custody s) (hstep : Step s action t)
    (hown : s.OwnReservation action) : RespectsOwner s action t := by
  cases hstep with
  | issue secret generationId now issuer hissue =>
    exact .of_replace (issue_eq_ok hissue) rfl (Or.inr hown)
  | rotate secret generationId now issuer hrotate => exact .of_replace hrotate rfl (Or.inl rfl)
  | arrive hint => exact .of_same rfl
  | reserve k hint now hk =>
    unfold JoinSystem.afterBegin
    rcases s.issuer.beginAttempt_cases hint now hcustody.secret with
      ⟨error, hbegin⟩ | ⟨generation, held, hgeneration, hactive, -, hbegin⟩
    · rw [hbegin]
      exact .of_same rfl
    · rw [hbegin]
      exact .of_reserve hk hgeneration hactive rfl
  | submit k held hk => exact .of_same rfl
  | durable k held hk => exact .of_same rfl
  | durableOrphan k held hk => exact .of_same rfl
  | refuse k held hk => exact .of_same rfl
  | refuseOrphan k held hk => exact .of_same rfl
  | consume k held issuer hk hconsume =>
    obtain ⟨generation, hgeneration, hreserved, rfl⟩ := consume_eq_ok hconsume
    exact .of_owner hcustody rfl hk rfl hgeneration hreserved (hown generation hgeneration hreserved)
      rfl rfl fun _ => ⟨rfl, rfl⟩
  | consumeRefused k held error hk hconsume => exact .of_same rfl
  | release k attempt after hk hreleased =>
    cases hrelease : s.issuer.release with
    | error error => exact .of_same (by simp [Except.toOption])
    | ok issuer =>
      obtain ⟨generation, hgeneration, hreserved, rfl⟩ := release_eq_ok hrelease
      obtain ⟨held, hholds⟩ := held_of_released hreleased
      exact .of_owner hcustody rfl hk hholds hgeneration hreserved
        (hown generation hgeneration hreserved) rfl rfl (by simp)

/-- A step that takes over the reservation of another attempt shows. -/
theorem own_of_respectsOwner (hstep : Step s action t) (h : RespectsOwner s action t) :
    s.OwnReservation action := by
  -- A generation that is reserved before the step and not after it.
  have hleft : ∀ k generation new, action.attempt = some k → action ≠ .rotate →
      s.issuer.generation = some generation → generation.state = .reserved →
      t.issuer.generation = some new → new.serial = generation.serial → new.state ≠ .reserved →
      s.owner = some k := by
    intro k generation new haction hrotate hgeneration hreserved hnew hserial hstate
    have hbefore : s.issuer.stateOf generation.serial = some .reserved :=
      stateOf_eq_some.mpr ⟨generation, hgeneration, rfl, hreserved⟩
    have hafter : t.issuer.stateOf generation.serial ≠ some .reserved := by
      intro heq
      obtain ⟨current, hcurrent, -, hcurrentState⟩ := stateOf_eq_some.mp heq
      obtain rfl : new = current := Option.some.inj (hnew.symm.trans hcurrent)
      exact hstate hcurrentState
    rcases h.leaves _ hbefore hafter with heq | ⟨j, hj, howner⟩
    · exact absurd heq hrotate
    · obtain rfl : k = j := Option.some.inj (haction.symm.trans hj)
      exact howner
  cases hstep with
  | issue secret generationId now issuer hissue =>
    intro generation hgeneration hreserved
    obtain ⟨expiresAt, rfl⟩ := replace_eq_ok (issue_eq_ok hissue)
    have hbefore : s.issuer.stateOf generation.serial = some .reserved :=
      stateOf_eq_some.mpr ⟨generation, hgeneration, rfl, hreserved⟩
    obtain heq | ⟨k, hk, -⟩ := h.leaves _ hbefore fun heq => by
      -- the new generation is active
      obtain ⟨current, hcurrent, -, hstate⟩ := stateOf_eq_some.mp heq
      cases hcurrent
      cases hstate
    · cases heq
    · cases hk
  | consume k held issuer hk hconsume =>
    intro generation hgeneration hreserved
    obtain ⟨found, hfound, -, rfl⟩ := consume_eq_ok hconsume
    obtain rfl : generation = found := Option.some.inj (hgeneration.symm.trans hfound)
    exact hleft k generation _ rfl nofun hgeneration hreserved rfl rfl nofun
  | consumeRefused k held error hk hconsume =>
    intro generation hgeneration hreserved
    simp [JoinCredentialIssuer.consume, hgeneration, hreserved] at hconsume
  | release k attempt after hk hreleased =>
    intro generation hgeneration hreserved
    have hrelease : s.issuer.release =
        .ok { s.issuer with generation := some { generation with state := .active } } := by
      simp [JoinCredentialIssuer.release, hgeneration, hreserved]
    refine hleft k generation { generation with state := .active } rfl nofun hgeneration hreserved
      ?_ rfl nofun
    simp [hrelease, Except.toOption]
  | _ => trivial

end JoinSystem

open JoinSystem in
/-- A step of a join attempt, of issue or of rotation respects the owner of the current reservation
    exactly if an attempt that consumes or releases finds its own reservation or none, and `issue`
    finds no reserved generation. -/
theorem reservation_owned_iff (s t : JoinSystem) (action : JoinAction) (hs : runs.Reachable s)
    (hstep : Step s action t) : RespectsOwner s action t ↔ OwnReservation s action :=
  ⟨own_of_respectsOwner hstep, respectsOwner_of_own (custody_of_reachable hs) hstep⟩

/-! ## Two attempts and a rotation -/

def epoch : SystemTime := .unixEpoch

/-- A secret or id of one byte. -/
def sampleSecret (n : UInt8) : Bytes := [n]

/-- The first credential is issued. -/
def issuedOnce : JoinSystem :=
  ⟨⟨some ⟨0, some (sampleSecret 1), sampleSecret 2, ⟨600 * nanosPerSecond, by decide, by decide⟩,
    .active⟩, 1⟩, [], [], none⟩

theorem issuedOnce_step : JoinSystem.Step .init .issue issuedOnce :=
  .issue (sampleSecret 1) (sampleSecret 2) epoch _ rfl

/-- An attempt has reserved the first generation. -/
def reservedOnce : JoinSystem :=
  ⟨⟨some ⟨0, some (sampleSecret 1), sampleSecret 2, ⟨600 * nanosPerSecond, by decide, by decide⟩,
    .reserved⟩, 1⟩, [.reserved ⟨0, sampleSecret 2, sampleSecret 1⟩], [], some 0⟩

theorem reservedOnce_reachable : JoinSystem.runs.Reachable reservedOnce := by
  have hissued := (TransitionSystem.Reachable.init (T := JoinSystem.runs) rfl).step
    ⟨_, issuedOnce_step⟩
  have harrived := hissued.step ⟨_, .arrive (some (sampleSecret 2))⟩
  have hreserved := harrived.step ⟨_, .reserve 0 (some (sampleSecret 2)) epoch rfl⟩
  exact hreserved

/-- An attempt that fails releases its own reservation. -/
theorem own_release_respected :
    ∃ s t, JoinSystem.runs.Reachable s ∧ JoinSystem.Step s (.release 0) t ∧
      s.issuer.stateOf 0 = some .reserved ∧ t.issuer.stateOf 0 = some .active ∧
      JoinSystem.RespectsOwner s (.release 0) t := by
  have hstep : JoinSystem.Step reservedOnce (.release 0) _ := .release 0 _ _ rfl rfl
  refine ⟨reservedOnce, _, reservedOnce_reachable, hstep, rfl, rfl, ?_⟩
  refine (reservation_owned_iff _ _ _ reservedOnce_reachable hstep).mpr ?_
  intro generation hgeneration hreserved
  rfl

/-- Two attempts with a rotation between them: the failure of the first one releases the
    reservation of the second one. -/
theorem released_by_stranger :
    ∃ s t, JoinSystem.runs.Reachable s ∧ JoinSystem.Step s (.release 0) t ∧
      s.issuer.stateOf 1 = some .reserved ∧ s.owner = some 1 ∧
      t.issuer.stateOf 1 = some .active ∧ ¬ JoinSystem.RespectsOwner s (.release 0) t := by
  have hrotated := reservedOnce_reachable.step
    ⟨_, .rotate (sampleSecret 3) (sampleSecret 4) epoch _ rfl⟩
  have harrived := hrotated.step ⟨_, .arrive (some (sampleSecret 4))⟩
  have hreserved := harrived.step ⟨_, .reserve 1 _ epoch rfl⟩
  refine ⟨_, _, hreserved, .release 0 _ _ rfl rfl, rfl, rfl, rfl, fun hrespects => ?_⟩
  rcases hrespects.leaves 1 rfl (by decide) with heq | ⟨k, hk, howner⟩
  · cases heq
  · cases hk
    cases howner

end Radiata
