import Radiata.Native.Revocation

/-!
# Sessions of a revoked node

A revocation is enforced by a check at the start of a handshake and by retiring the session when
the revocation is recorded. Between its last check and its registration a handshake is not seen by
either, and a session survives if the call that records the revocation fails.

## Key results

- `Screened.step`: after the revocation no handshake passes
- `Cleared.step`: the table holds no live session once the call has retired it
- `revoked_has_no_session`: runs without a handshake or a failed call in between
- `straddling_session_registered`: a handshake that straddles the revocation
-/

namespace Radiata

namespace SessionEnd

theorem not_live_retireSession (node : SessionEnd) : ¬ node.retireSession.Live := by
  rintro ⟨entry, hentry, -⟩
  cases hentry

theorem not_live_empty : ¬ empty.Live := by
  rintro ⟨entry, hentry, -⟩
  cases hentry

theorem Live.of_teardown {node : SessionEnd} {connection : Connection}
    (h : (node.teardown connection).Live) : node.Live := by
  obtain ⟨entry, hentry, hmem⟩ := h
  unfold teardown at hentry hmem
  obtain ⟨hentry, -⟩ := Option.filter_eq_some_iff.mp hentry
  exact ⟨entry, hentry, (List.mem_filter.mp hmem).1⟩

end SessionEnd

namespace RevokeStage

/-- No session is about to be retired. -/
def Resting (stage : RevokeStage) : Prop := ∀ subject key, stage ≠ .retiring subject key

variable {subject : NodeId} {key : PublicKey}

theorem resting_idle : idle.Resting := fun _ _ h => by cases h

theorem resting_reading : (reading subject key).Resting := fun _ _ h => by cases h

theorem resting_committing : (committing subject key).Resting := fun _ _ h => by cases h

theorem resting_rereading : (rereading subject key).Resting := fun _ _ h => by cases h

end RevokeStage

namespace RevocationNode

open RevokeStage

variable {localId : NodeId} {bindings : NodeId → Option PublicKey} {s t : RevocationNode}

/-! ## Steps -/

/-- The step records a revocation of `subject`. -/
structure Records (s t : RevocationNode) (subject : NodeId) (key : PublicKey) : Prop where
  accepts : s.Accepts subject key
  bindings : t.bindings = s.bindings
  revocations : t.revocations = Function.update s.revocations subject (some key)
  table : t.table = s.table
  attempts : t.attempts = s.attempts
  answered : t.answered = s.answered
  revoke : t.revoke = .idle ∨ t.revoke = .retiring subject key
  before : s.revoke = .committing subject key

@[simp] theorem decide_frame (subject : NodeId) (key : PublicKey) :
    (s.decide subject key).bindings = s.bindings ∧
      (s.decide subject key).revocations = s.revocations ∧
      (s.decide subject key).table = s.table ∧ (s.decide subject key).attempts = s.attempts := by
  unfold decide
  split
  · simp
  · split
    · simp
    · split
      · split <;> simp [answer]
      · simp

@[simp] theorem reread_frame (subject : NodeId) (key : PublicKey) :
    (s.reread subject key).bindings = s.bindings ∧
      (s.reread subject key).revocations = s.revocations ∧
      (s.reread subject key).table = s.table ∧ (s.reread subject key).attempts = s.attempts := by
  unfold reread
  split <;> simp [answer]

variable {attempt next : HandshakeAttempt}

theorem Advances.frame (h : s.Advances attempt next t) :
    t.revocations = s.revocations ∧ t.table = s.table ∧ t.revoke = s.revoke ∧
      t.answered = s.answered ∧ next.peer = attempt.peer := by
  cases h <;> simp [RevocationNode.bind]

variable {key : PublicKey}

variable {other : NodeId}

theorem bindings_bind {node : NodeId} {bound : PublicKey} (hnone : s.bindings node = none)
    (h : s.bindings other = some bound) : (s.bind node key).bindings other = some bound := by
  by_cases heq : other = node
  · rw [heq, hnone] at h
    cases h
  · simp [RevocationNode.bind, heq, h]

theorem Advances.bindings_keep (h : s.Advances attempt next t) {node : NodeId}
    (hbound : s.bindings node = some key) :
    t.bindings node = some key := by
  cases h with
  | admitted hjoin hstage hnone => exact bindings_bind hnone hbound
  | _ => exact hbound

variable {subject : NodeId}

theorem records_committed (haccepts : s.Accepts subject key)
    (hrevoke : s.revoke = .committing subject key) :
    Records s { s.record subject key with revoke := .retiring subject key } subject key :=
  ⟨haccepts, rfl, rfl, rfl, rfl, rfl, Or.inr rfl, hrevoke⟩

theorem records_lost (freezes : Bool) (haccepts : s.Accepts subject key)
    (hrevoke : s.revoke = .committing subject key) :
    Records s { s.record subject key with revoke := .idle, frozen := freezes } subject key :=
  ⟨haccepts, rfl, rfl, rfl, rfl, rfl, Or.inl rfl, hrevoke⟩

variable {revoked : PublicKey}

/-- What is recorded after the step was recorded before, or is recorded by it. -/
theorem Records.cases (h : Records s t subject key)
    (hrevoked : t.revocations other = some revoked) :
    s.revocations other = some revoked ∨ (other = subject ∧ revoked = key) := by
  rw [h.revocations] at hrevoked
  by_cases heq : other = subject
  · rw [heq, Function.update_self] at hrevoked
    exact Or.inr ⟨heq, (Option.some.inj hrevoked).symm⟩
  · rw [Function.update_of_ne heq] at hrevoked
    exact Or.inl hrevoked

/-! ## Handshakes -/

/-- The condition on a step: while a revocation is recorded, no handshake with the subject is
    between its last check and its registration, and if the call does not go on to retire the
    session there is none. -/
def Unstraddled (s t : RevocationNode) : Prop :=
  ∀ subject key, s.revocations subject = none → t.revocations subject = some key →
    (∀ attempt ∈ s.attempts, attempt.peer = subject → ¬ attempt.Passed) ∧
      (t.revoke ≠ .retiring subject key → ¬ (s.table subject).Live)

/-- A handshake with a revoked subject is stuck at an admission under another key. -/
def StuckAt (s : RevocationNode) (attempt : HandshakeAttempt) : Prop :=
  ∀ key, s.revocations attempt.peer = some key → attempt.Passed →
    attempt.stage = .checked ∧ attempt.route.isJoin = true ∧ attempt.key ≠ key

/-- After the revocation no handshake passes. -/
structure Screened (s : RevocationNode) : Prop where
  bound : ∀ subject key, s.revocations subject = some key → s.bindings subject = some key
  read : ∀ attempt ∈ s.attempts, attempt.stage = .bound →
    s.bindings attempt.peer = some attempt.key
  stuck : ∀ attempt ∈ s.attempts, s.StuckAt attempt

theorem screened_start : Screened (start bindings) :=
  ⟨fun _ _ h => (by cases h), fun _ h => (by cases h), fun _ h => (by cases h)⟩

/-- A handshake that goes on while its subject is revoked stays stuck. -/
theorem Advances.stuck (h : s.Advances attempt next t)
    (hbound : ∀ subject key, s.revocations subject = some key → s.bindings subject = some key)
    (hread : attempt.stage = .bound → s.bindings attempt.peer = some attempt.key)
    (hstuck : s.StuckAt attempt) : t.StuckAt next := by
  intro key hrevoked hpassed
  rw [h.frame.1, h.frame.2.2.2.2] at hrevoked
  have hkey := hbound _ _ hrevoked
  cases h with
  | screenMember hroute hstage hcheck => simp [HandshakeAttempt.Passed] at hpassed
  | screenJoin hroute hstage hcheck | checkIssuer hroute hstage hcheck =>
    refine ⟨rfl, by simp [hroute, HandshakeRoute.isJoin], fun heq => hcheck ?_⟩
    rw [isRevoked, hrevoked, heq]
  | bindResponder hroute hstage hbinding => simp [HandshakeAttempt.Passed] at hpassed
  | bindInitiator bound hroute hstage hbinding => simp [HandshakeAttempt.Passed] at hpassed
  | checkBinding hstage hcheck =>
    -- the binding that was read is the revoked one
    have hsame := hread hstage
    rw [hkey] at hsame
    rw [isRevoked, hrevoked, hsame] at hcheck
    exact absurd rfl hcheck
  | decideAdmission hjoin hstage hbinding =>
    obtain ⟨-, -, hne⟩ := hstuck key hrevoked (Or.inl hstage)
    rw [hkey] at hbinding
    rcases hbinding with hnone | hsame
    · cases hnone
    · exact absurd (Option.some.inj hsame).symm hne
  | admitted hjoin hstage hnone | believed hjoin hstage =>
    obtain ⟨hchecked, -⟩ := hstuck key hrevoked (Or.inr (Or.inl hstage))
    rw [hstage] at hchecked
    cases hchecked
  | proved hjoin hstage =>
    obtain ⟨-, hisJoin, -⟩ := hstuck key hrevoked (Or.inl hstage)
    rw [hjoin] at hisJoin
    cases hisJoin

theorem Advances.read (h : s.Advances attempt next t) (hstage : next.stage = .bound) :
    s.bindings next.peer = some next.key := by
  cases h with
  | bindResponder hroute hstage hbinding => exact hbinding
  | bindInitiator bound hroute hstage hbinding => exact hbinding
  | _ => cases hstage

variable {before after : List HandshakeAttempt}

theorem subset_of_split (h : s.attempts = before ++ attempt :: after) :
    before ++ after ⊆ s.attempts := by
  rw [h]
  exact (List.Sublist.append_left (List.sublist_cons_self _ _) _).subset

/-- Fewer handshakes, the same records. -/
theorem Screened.of_subset (h : Screened s) (hbindings : t.bindings = s.bindings)
    (hrevocations : t.revocations = s.revocations) (hattempts : t.attempts ⊆ s.attempts) :
    Screened t := by
  refine ⟨fun subject key hrevoked => ?_, fun attempt hmem hstage => ?_, fun attempt hmem => ?_⟩
  · rw [hrevocations] at hrevoked
    rw [hbindings, h.bound subject key hrevoked]
  · rw [hbindings, h.read attempt (hattempts hmem) hstage]
  · intro key hrevoked hpassed
    rw [hrevocations] at hrevoked
    exact h.stuck attempt (hattempts hmem) key hrevoked hpassed

theorem Screened.records (h : Screened s) (hrecords : Records s t subject key)
    (hclear : Unstraddled s t) : Screened t := by
  have hrevoked : t.revocations subject = some key := by
    rw [hrecords.revocations, Function.update_self]
  obtain ⟨hnone, -⟩ := hclear subject key hrecords.accepts.2 hrevoked
  refine ⟨fun other revoked hother => ?_, fun attempt hmem hstage => ?_, fun attempt hmem => ?_⟩
  · rw [hrecords.bindings]
    rcases hrecords.cases hother with hbefore | ⟨rfl, rfl⟩
    · exact h.bound other revoked hbefore
    · exact hrecords.accepts.1
  · rw [hrecords.attempts] at hmem
    rw [hrecords.bindings, h.read attempt hmem hstage]
  · rw [hrecords.attempts] at hmem
    intro revoked hother hpassed
    rcases hrecords.cases hother with hbefore | ⟨hpeer, -⟩
    · exact h.stuck attempt hmem revoked hbefore hpassed
    · exact absurd hpassed (hnone attempt hmem hpeer)

theorem Screened.advance (h : Screened s) (hattempts : s.attempts = before ++ attempt :: after)
    (hadvances : s.Advances attempt next t) :
    Screened { t with attempts := before ++ next :: after } := by
  have hmem : attempt ∈ s.attempts := by simp [hattempts]
  have hothers : ∀ other ∈ before ++ next :: after, other = next ∨ other ∈ s.attempts := by
    intro other hother
    rw [hattempts]
    simp only [List.mem_append, List.mem_cons] at hother ⊢
    tauto
  refine ⟨fun subject key hrevoked => ?_, fun other hother hstage => ?_, fun other hother => ?_⟩
  · rw [hadvances.frame.1] at hrevoked
    exact hadvances.bindings_keep (h.bound subject key hrevoked)
  · rcases hothers other hother with rfl | hold
    · exact hadvances.bindings_keep (hadvances.read hstage)
    · exact hadvances.bindings_keep (h.read other hold hstage)
  · rcases hothers other hother with rfl | hold
    · exact hadvances.stuck h.bound (h.read attempt hmem) (h.stuck attempt hmem)
    · intro key hrevoked hpassed
      change t.revocations other.peer = some key at hrevoked
      rw [hadvances.frame.1] at hrevoked
      exact h.stuck other hold key hrevoked hpassed

/-- One step keeps the handshakes stuck. -/
theorem Screened.step (h : Screened s) (hstep : Step localId s t) (hclear : Unstraddled s t) :
    Screened t := by
  cases hstep with
  | greet attempt hfrozen hstage =>
    refine ⟨h.bound, fun other hother hbound => ?_, fun other hother => ?_⟩
    · rcases List.mem_cons.mp hother with rfl | hold
      · rw [hstage] at hbound
        cases hbound
      · exact h.read other hold hbound
    · rcases List.mem_cons.mp hother with rfl | hold
      · intro key _ hpassed
        simp [HandshakeAttempt.Passed, hstage] at hpassed
      · exact h.stuck other hold
  | advance before after attempt next u hattempts hadvances => exact h.advance hattempts hadvances
  | fail before after attempt hattempts => exact h.of_subset rfl rfl (subset_of_split hattempts)
  | register before after attempt hattempts hstage =>
    exact h.of_subset rfl rfl (subset_of_split hattempts)
  | revokeRead subject key hrevoke =>
    have hframe := @decide_frame s subject key
    exact h.of_subset hframe.1 hframe.2.1 (by rw [hframe.2.2.2]; exact List.Subset.refl _)
  | revokeReread subject key hrevoke =>
    have hframe := @reread_frame s subject key
    exact h.of_subset hframe.1 hframe.2.1 (by rw [hframe.2.2.2]; exact List.Subset.refl _)
  | bind node key hnone =>
    exact ⟨fun subject revoked hrevoked => bindings_bind hnone (h.bound subject revoked hrevoked),
      fun attempt hmem hstage => bindings_bind hnone (h.read attempt hmem hstage), h.stuck⟩
  | revokeCommitted subject key hrevoke hfrozen haccepts =>
    exact h.records (records_committed haccepts hrevoke) hclear
  | revokeLost subject key freezes hrevoke hfrozen haccepts =>
    exact h.records (records_lost freezes haccepts hrevoke) hclear
  | restart => exact h.of_subset rfl rfl (List.nil_subset _)
  | _ => exact h.of_subset rfl rfl (List.Subset.refl _)

/-! ## The table -/

/-- The table holds no live session of a revoked subject, unless the call that recorded the
    revocation is about to retire it. -/
structure Cleared (s : RevocationNode) : Prop where
  table : ∀ subject key, s.revocations subject = some key → s.revoke ≠ .retiring subject key →
    ¬ (s.table subject).Live
  retiring : ∀ subject key, s.revoke = .retiring subject key → s.revocations subject = some key
  answered : ∀ subject key, (subject, key) ∈ s.answered → s.revocations subject = some key ∧
    s.revoke ≠ .retiring subject key

theorem cleared_start : Cleared (start bindings) :=
  ⟨fun _ _ h => (by cases h), fun _ _ h => (by cases h), fun _ _ h => (by cases h)⟩

/-- No new session of a revoked subject, the same call or one that retires nothing. -/
theorem Cleared.of_frame (h : Cleared s) (hrevocations : t.revocations = s.revocations)
    (hlive : ∀ subject key, s.revocations subject = some key → (t.table subject).Live →
      (s.table subject).Live)
    (hcall : (t.revoke = s.revoke ∧ t.answered = s.answered) ∨
      (t.revoke.Resting ∧ s.revoke.Resting ∧ ∀ subject key, (subject, key) ∈ t.answered →
        (subject, key) ∈ s.answered ∨ s.revocations subject = some key)) : Cleared t := by
  rcases hcall with ⟨hrevoke, hanswered⟩ | ⟨hrest, hrest', hanswered⟩
  · refine ⟨fun subject key hrevoked hcall htable => ?_, ?_, ?_⟩
    · rw [hrevocations] at hrevoked
      rw [hrevoke] at hcall
      exact h.table subject key hrevoked hcall (hlive subject key hrevoked htable)
    · rw [hrevoke, hrevocations]
      exact h.retiring
    · rw [hanswered, hrevocations, hrevoke]
      exact h.answered
  · refine ⟨fun subject key hrevoked _ htable => ?_, ?_, fun subject key hmem => ?_⟩
    · rw [hrevocations] at hrevoked
      exact h.table subject key hrevoked (hrest' subject key) (hlive subject key hrevoked htable)
    · intro subject key hretiring
      exact absurd hretiring (hrest subject key)
    · refine ⟨?_, hrest subject key⟩
      rw [hrevocations]
      rcases hanswered subject key hmem with hold | hrevoked
      · exact (h.answered subject key hold).1
      · exact hrevoked

theorem Cleared.records (h : Cleared s) (hrecords : Records s t subject key)
    (hclear : Unstraddled s t) : Cleared t := by
  have hrevoked : t.revocations subject = some key := by
    rw [hrecords.revocations, Function.update_self]
  obtain ⟨-, htable⟩ := hclear subject key hrecords.accepts.2 hrevoked
  have hresting : s.revoke.Resting := by
    rw [hrecords.before]
    exact resting_committing
  refine ⟨fun other revoked hother hcall => ?_, fun other revoked hretiring => ?_,
    fun other revoked hmem => ?_⟩
  · rw [hrecords.table]
    rcases hrecords.cases hother with hbefore | ⟨rfl, rfl⟩
    · exact h.table other revoked hbefore (hresting other revoked)
    · exact htable hcall
  · rcases hrecords.revoke with hidle | hsame
    · rw [hidle] at hretiring
      cases hretiring
    · rw [hsame] at hretiring
      cases hretiring
      exact hrevoked
  · rw [hrecords.answered] at hmem
    have hold := (h.answered other revoked hmem).1
    have hne : other ≠ subject := by
      rintro rfl
      rw [hrecords.accepts.2] at hold
      cases hold
    refine ⟨by rw [hrecords.revocations, Function.update_of_ne hne, hold], ?_⟩
    intro hretiring
    rcases hrecords.revoke with hidle | hsame
    · rw [hidle] at hretiring
      cases hretiring
    · rw [hsame] at hretiring
      cases hretiring
      exact hne rfl

theorem live_withEnd {peer : NodeId} {node : SessionEnd} (hnode : node.Live → (s.table peer).Live)
    (h : ((s.withEnd peer node).table subject).Live) : (s.table subject).Live := by
  by_cases heq : subject = peer
  · subst heq
    simp only [withEnd, Function.update_self] at h
    exact hnode h
  · simpa only [withEnd, Function.update_of_ne heq] using h

/-- A session that is registered is not one of a revoked subject. -/
theorem Screened.not_revoked (h : Screened s) (hmem : attempt ∈ s.attempts)
    (hstage : attempt.stage = .established) :
    s.revocations attempt.peer = none := by
  cases hrevoked : s.revocations attempt.peer with
  | none => rfl
  | some key =>
    obtain ⟨hchecked, -⟩ := h.stuck attempt hmem key hrevoked (Or.inr (Or.inr hstage))
    rw [hstage] at hchecked
    cases hchecked

theorem resting_decide :
    (s.decide subject key).revoke.Resting := by
  intro other revoked
  unfold decide
  split
  · simp
  · split
    · simp
    · split
      · split <;> simp [answer]
      · simp

theorem answered_decide (h : (other, revoked) ∈ (s.decide subject key).answered) :
    (other, revoked) ∈ s.answered ∨ s.revocations other = some revoked := by
  unfold decide at h
  split at h
  · exact Or.inl h
  · split at h
    · exact Or.inl h
    · split at h
      · rename_i hrevoked
        split at h
        · rename_i hsame
          rcases List.mem_cons.mp h with heq | hold
          · cases heq
            exact Or.inr (by rw [hrevoked, hsame])
          · exact Or.inl hold
        · exact Or.inl h
      · exact Or.inl h

theorem resting_reread :
    (s.reread subject key).revoke.Resting := by
  intro other revoked
  unfold reread
  split <;> simp [answer]

theorem answered_reread (h : (other, revoked) ∈ (s.reread subject key).answered) :
    (other, revoked) ∈ s.answered ∨ s.revocations other = some revoked := by
  unfold reread at h
  split at h
  · rename_i hrevoked
    rcases List.mem_cons.mp h with heq | hold
    · cases heq
      exact Or.inr hrevoked
    · exact Or.inl hold
  · exact Or.inl h

theorem Cleared.retire (h : Cleared s) (hrevoke : s.revoke = .retiring subject key) :
    Cleared ((s.withEnd subject (s.table subject).retireSession).answer subject key) := by
  have hrevoked := h.retiring subject key hrevoke
  refine ⟨fun other revoked hother _ hlive => ?_, fun other revoked hretiring => ?_,
    fun other revoked hmem => ?_⟩
  · by_cases heq : other = subject
    · subst heq
      simp only [answer, withEnd, Function.update_self] at hlive
      exact SessionEnd.not_live_retireSession _ hlive
    · simp only [answer, withEnd, Function.update_of_ne heq] at hlive
      refine h.table other revoked hother ?_ hlive
      rw [hrevoke]
      intro hsame
      cases hsame
      exact heq rfl
  · cases hretiring
  · refine ⟨?_, by simp [answer]⟩
    rcases List.mem_cons.mp hmem with hnew | hold
    · cases hnew
      exact hrevoked
    · exact (h.answered other revoked hold).1

/-- One step keeps the table clear. -/
theorem Cleared.step (h : Cleared s) (hscreened : Screened s) (hstep : Step localId s t)
    (hclear : Unstraddled s t) : Cleared t := by
  cases hstep with
  | advance before after attempt next u hattempts hadvances =>
    obtain ⟨hrevocations, htable, hrevoke, hanswered, -⟩ := hadvances.frame
    exact h.of_frame hrevocations (fun subject key _ hlive => by rwa [← htable])
      (Or.inl ⟨hrevoke, hanswered⟩)
  | register before after attempt hattempts hstage =>
    have hnone := hscreened.not_revoked (by simp [hattempts]) hstage
    refine h.of_frame rfl (fun subject key hrevoked hlive => ?_) (Or.inl ⟨rfl, rfl⟩)
    have hne : subject ≠ attempt.peer := by
      rintro rfl
      rw [hnone] at hrevoked
      cases hrevoked
    simpa only [withEnd, Function.update_of_ne hne] using hlive
  | teardown peer connection hserving =>
    exact h.of_frame rfl (fun subject key _ hlive => live_withEnd SessionEnd.Live.of_teardown hlive)
      (Or.inl ⟨rfl, rfl⟩)
  | disconnect peer hidle =>
    exact h.of_frame rfl (fun subject key _ hlive =>
      live_withEnd (fun hretired => absurd hretired (SessionEnd.not_live_retireSession _)) hlive)
      (Or.inl ⟨rfl, rfl⟩)
  | revokeStart subject key hidle hfrozen hlocal =>
    exact h.of_frame rfl (fun _ _ _ hlive => hlive) (Or.inr ⟨resting_reading, by rw [hidle]; exact resting_idle,
      fun _ _ hmem => Or.inl hmem⟩)
  | revokeRead subject key hrevoke =>
    have hframe := @decide_frame s subject key
    exact h.of_frame hframe.2.1 (fun _ _ _ hlive => by rwa [hframe.2.2.1] at hlive)
      (Or.inr ⟨resting_decide, by rw [hrevoke]; exact resting_reading,
        fun _ _ hmem => answered_decide hmem⟩)
  | revokeCommitted subject key hrevoke hfrozen haccepts =>
    exact h.records (records_committed haccepts hrevoke) hclear
  | revokeRefused subject key hrevoke hfrozen =>
    exact h.of_frame rfl (fun _ _ _ hlive => hlive) (Or.inr ⟨resting_rereading,
      by rw [hrevoke]; exact resting_committing, fun _ _ hmem => Or.inl hmem⟩)
  | revokeLost subject key freezes hrevoke hfrozen haccepts =>
    exact h.records (records_lost freezes haccepts hrevoke) hclear
  | revokeFailed subject key freezes hrevoke =>
    exact h.of_frame rfl (fun _ _ _ hlive => hlive) (Or.inr ⟨resting_idle,
      by rw [hrevoke]; exact resting_committing, fun _ _ hmem => Or.inl hmem⟩)
  | revokeReread subject key hrevoke =>
    have hframe := @reread_frame s subject key
    exact h.of_frame hframe.2.1 (fun _ _ _ hlive => by rwa [hframe.2.2.1] at hlive)
      (Or.inr ⟨resting_reread, by rw [hrevoke]; exact resting_rereading,
        fun _ _ hmem => answered_reread hmem⟩)
  | revokeRetire subject key hrevoke => exact h.retire hrevoke
  | restart =>
    exact ⟨fun subject key _ _ => SessionEnd.not_live_empty, fun _ _ hne => (by cases hne),
      fun subject key hmem => ⟨(h.answered subject key hmem).1, resting_idle subject key⟩⟩
  | _ => exact h.of_frame rfl (fun _ _ _ hlive => hlive) (Or.inl ⟨rfl, rfl⟩)

/-! ## Runs -/

/-- In the runs in which no handshake straddles a recorded revocation, and in which a call that
    records one without retiring finds no session, a node whose revocation was answered has no
    live session. -/
theorem revoked_has_no_session (localId : NodeId) (bindings : NodeId → Option PublicKey)
    (s : RevocationNode) (hs : ((runs localId bindings).restrict Unstraddled).Reachable s)
    (subject : NodeId) (key : PublicKey) (hanswered : (subject, key) ∈ s.answered) :
    s.revocations subject = some key ∧ ¬ (s.table subject).Live := by
  have hinv : Screened s ∧ Cleared s := by
    refine TransitionSystem.Reachable.invariant (P := fun s => Screened s ∧ Cleared s) ?_ ?_ hs
    · rintro s rfl
      exact ⟨screened_start, cleared_start⟩
    · rintro s t - ⟨hscreened, hcleared⟩ ⟨hstep, hclear⟩
      exact ⟨hscreened.step hstep hclear, hcleared.step hscreened hstep hclear⟩
  obtain ⟨hrevoked, hcall⟩ := hinv.2.answered subject key hanswered
  exact ⟨hrevoked, hinv.2.table subject key hrevoked hcall⟩

/-! ## Sample runs -/

def sampleLocal : NodeId := .ofDigits 0 1

def sampleRevoked : NodeId := .ofDigits 0 2

def sampleRevokedKey : PublicKey := .fill 7

def sampleBindings : NodeId → Option PublicKey := fun _ => some sampleRevokedKey

/-- A dial of the subject at some stage. -/
def sampleDial (stage : HandshakeStage) : HandshakeAttempt :=
  ⟨.dialMember, sampleRevoked, sampleRevokedKey, ⟨0, .left⟩, stage⟩

/-- The sample node with one handshake at most, before a revocation. -/
def sampleDialing (attempts : List HandshakeAttempt) (revoke : RevokeStage) : RevocationNode :=
  { start sampleBindings with attempts := attempts, revoke := revoke }

/-- The table with the session of the sample dial. -/
def sampleRegistered : RevocationNode :=
  (start sampleBindings).withEnd sampleRevoked
    (SessionEnd.empty.register sampleLocal sampleRevoked ⟨0, .left⟩ .outgoing)

variable {ok : RevocationNode → RevocationNode → Prop}

theorem unstraddled_of_eq (h : t.revocations = s.revocations) : Unstraddled s t := by
  intro subject key hnone hsome
  rw [h, hnone] at hsome
  cases hsome

/-- The sample dial passes its checks. -/
theorem sample_dial_checked (hok : ∀ s t : RevocationNode, t.revocations = s.revocations → ok s t) :
    ((runs sampleLocal sampleBindings).restrict ok).Reachable
      (sampleDialing [sampleDial .checked] .idle) := by
  have hgreet : Step sampleLocal (start sampleBindings) (sampleDialing [sampleDial .hello] .idle) :=
    .greet (sampleDial .hello) rfl rfl
  have hbind : Step sampleLocal (sampleDialing [sampleDial .hello] .idle)
      (sampleDialing [sampleDial .bound] .idle) :=
    .advance [] [] _ _ (sampleDialing [sampleDial .hello] .idle) rfl
      (.bindInitiator sampleRevokedKey rfl rfl rfl)
  have hcheck : Step sampleLocal (sampleDialing [sampleDial .bound] .idle)
      (sampleDialing [sampleDial .checked] .idle) :=
    .advance [] [] _ _ (sampleDialing [sampleDial .bound] .idle) rfl
      (.checkBinding rfl (by simp [isRevoked, sampleDialing, start]))
  have hinit : ((runs sampleLocal sampleBindings).restrict ok).Reachable (start sampleBindings) :=
    .init rfl
  exact ((hinit.step ⟨hgreet, hok _ _ rfl⟩).step ⟨hbind, hok _ _ rfl⟩).step ⟨hcheck, hok _ _ rfl⟩

/-- The sample node after `revoke_node` has recorded the revocation and retired the session. -/
def afterRevoke (s : RevocationNode) : RevocationNode where
  bindings := s.bindings
  revocations := Function.update s.revocations sampleRevoked (some sampleRevokedKey)
  frozen := s.frozen
  table := Function.update s.table sampleRevoked (s.table sampleRevoked).retireSession
  attempts := s.attempts
  revoke := .idle
  answered := (sampleRevoked, sampleRevokedKey) :: s.answered

/-- A call of `revoke_node` in a node without a revocation runs to its end. -/
theorem reachable_revoked (hok : ∀ s t : RevocationNode, t.revocations = s.revocations → ok s t)
    {s : RevocationNode} (hs : ((runs sampleLocal sampleBindings).restrict ok).Reachable s)
    (hidle : s.revoke = .idle) (hfrozen : s.frozen = false)
    (haccepts : s.Accepts sampleRevoked sampleRevokedKey)
    (hcommit : ok { s with revoke := .committing sampleRevoked sampleRevokedKey }
      { s.record sampleRevoked sampleRevokedKey with
        revoke := .retiring sampleRevoked sampleRevokedKey }) :
    ((runs sampleLocal sampleBindings).restrict ok).Reachable s.afterRevoke := by
  have hdecide : { s with revoke := .reading sampleRevoked sampleRevokedKey }.decide sampleRevoked
      sampleRevokedKey = { s with revoke := .committing sampleRevoked sampleRevokedKey } := by
    simp [decide, haccepts.1, haccepts.2]
  have hstart : Step sampleLocal s { s with revoke := .reading sampleRevoked sampleRevokedKey } :=
    .revokeStart _ _ hidle hfrozen (by decide)
  have hread : Step sampleLocal { s with revoke := .reading sampleRevoked sampleRevokedKey }
      { s with revoke := .committing sampleRevoked sampleRevokedKey } := by
    rw [← hdecide]
    exact .revokeRead _ _ rfl
  have hrecord : Step sampleLocal { s with revoke := .committing sampleRevoked sampleRevokedKey }
      { s.record sampleRevoked sampleRevokedKey with
        revoke := .retiring sampleRevoked sampleRevokedKey } :=
    .revokeCommitted _ _ rfl hfrozen haccepts
  have hretire : Step sampleLocal { s.record sampleRevoked sampleRevokedKey with
      revoke := .retiring sampleRevoked sampleRevokedKey } s.afterRevoke :=
    .revokeRetire sampleRevoked sampleRevokedKey rfl
  exact (((hs.step ⟨hstart, hok _ _ rfl⟩).step ⟨hread, hok _ _ rfl⟩).step
    ⟨hrecord, hcommit⟩).step ⟨hretire, hok _ _ rfl⟩

/-- The session of the sample dial is live. -/
theorem live_sampleSession :
    (SessionEnd.empty.register sampleLocal sampleRevoked ⟨0, .left⟩ .outgoing).Live :=
  ⟨⟨⟨0, .left⟩, .outgoing, 1⟩, rfl, List.mem_cons_self⟩

/-- The sample dial registers its session before the revocation, which retires it. -/
theorem sample_session_retired :
    (sampleRegistered.table sampleRevoked).Live ∧
      ((runs sampleLocal sampleBindings).restrict Unstraddled).Reachable
        sampleRegistered.afterRevoke ∧
      sampleRegistered.afterRevoke.revocations sampleRevoked = some sampleRevokedKey ∧
      ¬ (sampleRegistered.afterRevoke.table sampleRevoked).Live := by
  have hchecked := @sample_dial_checked Unstraddled fun _ _ => unstraddled_of_eq
  have hproved : Step sampleLocal (sampleDialing [sampleDial .checked] .idle)
      (sampleDialing [sampleDial .established] .idle) :=
    .advance [] [] _ _ (sampleDialing [sampleDial .checked] .idle) rfl (.proved rfl rfl)
  have hregister : Step sampleLocal (sampleDialing [sampleDial .established] .idle)
      sampleRegistered := .register [] [] (sampleDial .established) rfl rfl
  have hregistered := (hchecked.step ⟨hproved, unstraddled_of_eq rfl⟩).step
    ⟨hregister, unstraddled_of_eq rfl⟩
  have hcommit : Unstraddled
      { sampleRegistered with revoke := .committing sampleRevoked sampleRevokedKey }
      { sampleRegistered.record sampleRevoked sampleRevokedKey with
        revoke := .retiring sampleRevoked sampleRevokedKey } := by
    intro subject key hnone hsome
    refine ⟨fun attempt hmem => (by cases hmem), fun hne => absurd ?_ hne⟩
    by_cases heq : subject = sampleRevoked
    · subst heq
      simp only [record, Function.update_self, Option.some.injEq] at hsome
      rw [hsome]
    · simp only [record, Function.update_of_ne heq] at hsome
      cases hsome
  have hrevoked := reachable_revoked (fun _ _ => unstraddled_of_eq) hregistered rfl rfl ⟨rfl, rfl⟩
    hcommit
  refine ⟨?_, hrevoked, revoked_has_no_session sampleLocal sampleBindings _ hrevoked sampleRevoked
    sampleRevokedKey List.mem_cons_self⟩
  simpa only [sampleRegistered, withEnd, Function.update_self] using live_sampleSession

/-- A handshake whose last check is before the revocation registers its session after the call
    has returned. -/
theorem straddling_session_registered :
    ∃ s, (runs sampleLocal sampleBindings).Reachable s ∧
      (sampleRevoked, sampleRevokedKey) ∈ s.answered ∧
      s.revocations sampleRevoked = some sampleRevokedKey ∧ (s.table sampleRevoked).Live := by
  have hchecked := @sample_dial_checked (fun _ _ => True) fun _ _ _ => trivial
  have hrevoked := reachable_revoked (fun _ _ _ => trivial) hchecked rfl rfl ⟨rfl, rfl⟩ trivial
  have hproved : Step sampleLocal (sampleDialing [sampleDial .checked] .idle).afterRevoke
      (sampleDialing [sampleDial .established] .idle).afterRevoke :=
    .advance [] [] _ _ (sampleDialing [sampleDial .checked] .idle).afterRevoke rfl (.proved rfl rfl)
  have hregister := @Step.register sampleLocal
    (sampleDialing [sampleDial .established] .idle).afterRevoke [] [] (sampleDial .established) rfl rfl
  refine ⟨_, ((hrevoked.step ⟨hproved, trivial⟩).step ⟨hregister, trivial⟩).of_restrict,
    List.mem_cons_self, ?_, ?_⟩
  · simp [withEnd, afterRevoke]
  · simp only [withEnd, sampleDial, afterRevoke, Function.update_self]
    exact live_sampleSession

end RevocationNode

end Radiata
