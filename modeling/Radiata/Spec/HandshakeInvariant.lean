import Radiata.Spec.HandshakeCalls

/-!
# The invariant of a handshake endpoint

What holds of one endpoint after any calls: legal ones, illegal ones and deliveries of
arbitrary bytes. The five positions are completed one by one and in order, the hello of
the peer settles the selection and the transcript for good, and the grant comes after
the last position, once.

## Key results

- `Handshake.Settled.moves`: every call keeps the invariant
- `Handshake.Later`: what no later call takes back
- `endpointLaw_after`: the laws of an endpoint after any run
-/

namespace Radiata

section Invariant

variable [DnsName]

namespace Handshake

/-- What an endpoint holds at its position. -/
structure Settled (endpoint : Handshake) : Prop where
  bounded : endpoint.completed ≤ protocolPositions
  hellos : endpoint.config.role.helloPosition ≤ endpoint.completed → ∃ view selection transcript,
    endpoint.peerHello = some view ∧ endpoint.selection = some selection ∧
      endpoint.transcript = some transcript ∧
      select endpoint.registry endpoint.localView.offer view.offer endpoint.localView.offer.required
        view.offer.required = .ok selection ∧
      endpoint.Assembles view selection transcript
  grantHeld : endpoint.grant ≠ none → endpoint.config.role = .initiator ∧ endpoint.config.mode = .join ∧
    endpoint.completed = protocolPositions
  grantGiven : endpoint.grantSent = true → endpoint.config.role = .responder ∧ endpoint.config.mode = .join ∧
    endpoint.completed = protocolPositions

/-- What no later call changes. -/
structure Later (endpoint next : Handshake) : Prop where
  config : next.config = endpoint.config
  registry : next.registry = endpoint.registry
  localView : next.localView = endpoint.localView
  completed : endpoint.completed ≤ next.completed
  hellos : endpoint.config.role.helloPosition ≤ endpoint.completed →
    next.peerHello = endpoint.peerHello ∧ next.selection = endpoint.selection ∧
      next.transcript = endpoint.transcript
  grant : ∀ grant, endpoint.grant = some grant → next.grant = some grant
  grantSent : endpoint.grantSent = true → next.grantSent = true

theorem Later.refl (self : Handshake) : Later self self :=
  ⟨rfl, rfl, rfl, Nat.le_refl _, fun _ => ⟨rfl, rfl, rfl⟩, fun _ h => h, id⟩

theorem Later.trans {a b c : Handshake} (hab : Later a b) (hbc : Later b c) : Later a c where
  config := hbc.config.trans hab.config
  registry := hbc.registry.trans hab.registry
  localView := hbc.localView.trans hab.localView
  completed := Nat.le_trans hab.completed hbc.completed
  hellos hposition := by
    obtain ⟨hpeer, hselection, htranscript⟩ := hab.hellos hposition
    have hlater : b.config.role.helloPosition ≤ b.completed := by
      rw [hab.config]
      exact Nat.le_trans hposition hab.completed
    obtain ⟨hpeer', hselection', htranscript'⟩ := hbc.hellos hlater
    exact ⟨hpeer'.trans hpeer, hselection'.trans hselection, htranscript'.trans htranscript⟩
  grant grant hgrant := hbc.grant grant (hab.grant grant hgrant)
  grantSent hsent := hbc.grantSent (hab.grantSent hsent)

theorem settled_initial (config : HandshakeConfig) (registry : FeatureRegistry) :
    (initial config registry).Settled where
  bounded := Nat.zero_le _
  hellos hposition := by
    exfalso
    revert hposition
    show ¬ config.role.helloPosition ≤ 0
    cases config.role <;> decide
  grantHeld hgrant := absurd rfl hgrant
  grantGiven hsent := by cases hsent

end Handshake

namespace HandshakeCall

open Handshake

variable {self : Handshake} {call : HandshakeCall}

theorem Completes.position_le {position : Nat} (h : call.Completes self position) :
    position ≤ protocolPositions := by
  obtain ⟨kind, hgrant, rfl, -⟩ := h
  cases kind <;> first | exact absurd rfl hgrant | decide

/-- Every call keeps the invariant. -/
theorem settled_moves {outcome : Outcome} (h : self.Settled) (hmoves : Moves self call outcome) :
    outcome.2.Settled := by
  cases hmoves with
  | refused e => exact h
  | late e bytes view hcall hlate =>
    -- the hello of the peer is still to come, so nothing is settled yet
    have hhello := hlate.1.position
    refine ⟨h.bounded, fun hle => ?_, h.grantHeld, h.grantGiven⟩
    have hle : self.config.role.helloPosition ≤ self.completed := hle
    omega
  | hello view selection transcript hcompletes hhello hselect hassembles =>
    have hlt := hcompletes.position_le
    refine ⟨hlt, fun _ => ?_, fun hgrant => ?_, fun hsent => ?_⟩
    · exact ⟨view, selection, transcript, rfl, rfl, rfl, hselect, hassembles⟩
    · have hdone := (h.grantHeld hgrant).2.2
      omega
    · have hdone := (h.grantGiven hsent).2.2
      omega
  | position hcompletes hhello =>
    have hlt := hcompletes.position_le
    refine ⟨hlt, fun hle => ?_, fun hgrant => ?_, fun hsent => ?_⟩
    · have hle : self.config.role.helloPosition ≤ self.completed + 1 := hle
      exact h.hellos (by omega)
    · have hdone := (h.grantHeld hgrant).2.2
      omega
    · have hdone := (h.grantGiven hsent).2.2
      omega
  | grantReceived bytes grant hcall hadmit hmode hdone hnone =>
    have hrole : self.config.role = .initiator := by
      have hsender := sender_of_admit hadmit
      cases hrole : self.config.role with
      | initiator => rfl
      | responder =>
        rw [hrole] at hsender
        cases hsender
    exact ⟨h.bounded, h.hellos, fun _ => ⟨hrole, hmode, hdone⟩, h.grantGiven⟩
  | grantSent grant hcall hrole hmode hdone hsent =>
    exact ⟨h.bounded, h.hellos, h.grantHeld, fun _ => ⟨hrole, hmode, hdone⟩⟩

/-- Every call only adds to the endpoint. -/
theorem later_moves {outcome : Outcome} (hmoves : Moves self call outcome) :
    Later self outcome.2 := by
  cases hmoves with
  | refused e => exact .refl self
  | late e bytes view hcall hlate =>
    have hhello := hlate.1.position
    exact ⟨rfl, rfl, rfl, Nat.le_refl _, fun hle => absurd hhello (by omega), fun _ hgrant => hgrant, id⟩
  | hello view selection transcript hcompletes hhello hselect hassembles =>
    exact ⟨rfl, rfl, rfl, Nat.le_succ _, fun hle => absurd hhello (by omega),
      fun _ hgrant => hgrant, id⟩
  | position hcompletes hhello =>
    exact ⟨rfl, rfl, rfl, Nat.le_succ _, fun _ => ⟨rfl, rfl, rfl⟩, fun _ hgrant => hgrant, id⟩
  | grantReceived bytes grant hcall hadmit hmode hdone hnone =>
    refine ⟨rfl, rfl, rfl, Nat.le_refl _, fun _ => ⟨rfl, rfl, rfl⟩, fun held hheld => ?_, id⟩
    rw [hnone] at hheld
    cases hheld
  | grantSent grant hcall hrole hmode hdone hsent =>
    exact ⟨rfl, rfl, rfl, Nat.le_refl _, fun _ => ⟨rfl, rfl, rfl⟩, fun _ hgrant => hgrant, fun _ => rfl⟩

variable [Ed25519]

theorem settled_after (h : self.Settled) (calls : List HandshakeCall) :
    (after self calls).Settled := by
  induction calls generalizing self with
  | nil => exact h
  | cons call calls ih =>
    rw [after_cons]
    exact ih (settled_moves h (moves_perform self call))

theorem later_after (self : Handshake) (calls : List HandshakeCall) : Later self (after self calls) := by
  induction calls generalizing self with
  | nil => exact .refl self
  | cons call calls ih =>
    rw [after_cons]
    exact (later_moves (moves_perform self call)).trans (ih _)

/-- What one call may do: it completes the next position by an operation that belongs to
    it, and it neither sends nor takes a second grant. -/
structure StepLaw (endpoint : Handshake) (call : HandshakeCall) : Prop where
  grows : (call.perform endpoint).2.completed = endpoint.completed ∨
    (call.perform endpoint).2.completed = endpoint.completed + 1 ∧ (call.perform endpoint).1 = .ok () ∧
      call.Completes endpoint (endpoint.completed + 1)
  oneGrantReceived : ∀ bytes, call = .deliver bytes →
    endpoint.admitKind bytes = .ok .admissionGrantDelivery → endpoint.grant ≠ none →
    ∃ e, call.perform endpoint = (.error e, endpoint)
  oneGrantSent : ∀ grant, call = .send (.admissionGrantDelivery grant) → endpoint.grantSent = true →
    ∃ e, call.perform endpoint = (.error e, endpoint)

theorem stepLaw_perform (self : Handshake) (call : HandshakeCall) : StepLaw self call := by
  have hmoves := moves_perform self call
  constructor
  · cases hperform : call.perform self with
    | mk answer next =>
      rw [hperform] at hmoves
      cases hmoves with
      | refused e => exact Or.inl rfl
      | late e bytes view hcall hlate => exact Or.inl rfl
      | hello view selection transcript hcompletes => exact Or.inr ⟨rfl, rfl, hcompletes⟩
      | position hcompletes => exact Or.inr ⟨rfl, rfl, hcompletes⟩
      | grantReceived => exact Or.inl rfl
      | grantSent => exact Or.inl rfl
  · intro bytes hcall hadmit hheld
    subst hcall
    obtain ⟨e, hrefused⟩ : ∃ e, self.receiveGrantDelivery bytes = .error e := by
      cases hreceive : self.receiveGrantDelivery bytes with
      | error e => exact ⟨e, rfl⟩
      | ok next =>
        simp only [receiveGrantDelivery, Except.bind_eq_ok, Except.rejectIf_eq_ok, exists_const,
          not_not] at hreceive
        exact absurd hreceive.2.2.1 hheld
    refine ⟨e, ?_⟩
    show self.receive bytes = _
    simp only [Handshake.receive, hadmit, hrefused]
    rfl
  · intro grant hcall hsent
    subst hcall
    obtain ⟨e, hrefused⟩ : ∃ e, self.admissionGrantDelivery grant = .error e := by
      cases hsend : self.admissionGrantDelivery grant with
      | error e => exact ⟨e, rfl⟩
      | ok sent =>
        simp only [admissionGrantDelivery, Except.bind_eq_ok, Except.rejectIf_eq_ok,
          exists_const] at hsend
        exact absurd hsent hsend.2.2.2.1
    refine ⟨e, ?_⟩
    simp only [perform, SendCall.call_perform, SendCall.run, hrefused]
    rfl

/-- The laws of an endpoint of a configuration. -/
structure EndpointLaw (config : HandshakeConfig) (registry : FeatureRegistry) (endpoint : Handshake) :
    Prop where
  config_eq : endpoint.config = config
  registry_eq : endpoint.registry = registry
  localView_eq : endpoint.localView = config.view
  settled : endpoint.Settled
  later : ∀ calls, Later endpoint (after endpoint calls)
  step : ∀ call, StepLaw endpoint call

/-- The laws hold after any calls of a new endpoint. -/
theorem endpointLaw_after (config : HandshakeConfig) (registry : FeatureRegistry) (start : Handshake)
    (hnew : Handshake.new config registry = .ok start) (calls : List HandshakeCall) :
    EndpointLaw config registry (after start calls) := by
  obtain ⟨-, -, rfl⟩ := Handshake.new_eq_ok.mp hnew
  have hlater := later_after (initial config registry) calls
  exact
    { config_eq := hlater.config
      registry_eq := hlater.registry
      localView_eq := hlater.localView
      settled := settled_after (settled_initial config registry) calls
      later := later_after _
      step := stepLaw_perform _ }

end HandshakeCall

end Invariant

/-- A responder that has read the hello of a member and sends its own. -/
theorem sampleResponder_lawful :
    letI := DnsName.hostNames
    letI := sampleScheme
    ∃ (registry : FeatureRegistry) (offer : FeatureOffer) (start : Handshake) (bytes : Bytes),
      Handshake.new (sampleResponder offer) registry = .ok start ∧
      (HandshakeCall.after start [.deliver bytes]).peerHello = some (sampleInitiator offer).view ∧
      (HandshakeCall.after start [.deliver bytes]).transcript.isSome = true ∧
      HandshakeCall.EndpointLaw (sampleResponder offer) registry
        (HandshakeCall.after start [.deliver bytes, .send .responderHello]) := by
  let _ := DnsName.hostNames
  let _ := sampleScheme
  obtain ⟨registry, offer, selection, hoffer, hpair, -, hnew, hselect, hfits⟩ := exists_samplePair
  have hreceive := Handshake.receive_initiatorHello foldedHosts_hostNames hpair rfl
    (validateLimits_own (offers_of_nodeOffer hoffer))
  have hpeer : ({ Handshake.initial (sampleResponder offer) registry with
      peerHello := some (sampleInitiator offer).view } : Handshake).peerHello =
        some (sampleInitiator offer).view := rfl
  have hfinal := (Handshake.finalizeHellos_eq (sampleInitiator offer).view hpeer hselect).trans
    (if_pos (by
      rw [← size_transcriptItem registry hpair rfl, ← Handshake.transcriptItem_swap hpair] at hfits
      exact hfits))
  simp only [Handshake.acceptPeerHello, hfinal] at hreceive
  refine ⟨registry, offer, _, (Handshake.initiatorHelloItem (sampleInitiator offer)).encode, hnew,
    ?_, ?_, HandshakeCall.endpointLaw_after _ registry _ hnew _⟩
  · rw [HandshakeCall.after_cons, HandshakeCall.perform, hreceive]
    rfl
  · rw [HandshakeCall.after_cons, HandshakeCall.perform, hreceive]
    rfl

end Radiata
