import Radiata.Native.HandshakeCall
import Radiata.Spec.HandshakeComplete

/-!
# Calls of a handshake endpoint

A run of an endpoint is any sequence of its sends and of deliveries of arbitrary bytes.
The sends on the mutable endpoint are the pure ones: they write last, so an error leaves
nothing behind. A delivery can: the hello of the peer is stored before the offers are
compared.

## Key results

- `SendCall.call_perform`: the sends on the mutable endpoint are the pure sends
- `moves_perform`: everything a call does, with what it answers
- `harmless_iff`: a failed call changes nothing, unless it delivers a late hello
- `failures_harmless_iff`: the same of every call of a run
-/

namespace Radiata

section Calls

variable [DnsName]

namespace EndpointM

variable {α β : Type}

/-- The answer of a method and the endpoint after it. -/
def call (method : EndpointM α) (self : Handshake) : Except HandshakeError α × Handshake :=
  Id.run (StateT.run (ExceptT.run method) self)

theorem call_get (self : Handshake) : call (get : EndpointM Handshake) self = (.ok self, self) := rfl

theorem call_lift (x : Except HandshakeError α) (self : Handshake) :
    call (liftM x : EndpointM α) self = (x, self) := rfl

theorem call_bind (method : EndpointM α) (f : α → EndpointM β) (self : Handshake) :
    call (method >>= f) self =
      match call method self with
      | (.ok a, next) => call (f a) next
      | (.error e, next) => (.error e, next) := by
  show Id.run (StateT.run (ExceptT.run (method >>= f)) self) = _
  simp only [call, ExceptT.run_bind, StateT.run_bind, Id.run_bind]
  rcases Id.run (StateT.run (ExceptT.run method) self) with ⟨answer, next⟩
  cases answer <;> rfl

/-- A check on the endpoint comes before everything else the method does. -/
theorem call_lift_bind (x : Except HandshakeError α) (f : α → EndpointM β) (self : Handshake) :
    call (liftM x >>= f) self =
      match x with
      | .ok a => call (f a) self
      | .error e => (.error e, self) := by
  rw [call_bind, call_lift]
  cases x <;> rfl

end EndpointM

/-- The outcome of a pure send as one of a method: nothing is written on an error. -/
def Handshake.settleSend (self : Handshake) :
    Except HandshakeError (Bytes × Handshake) → Except HandshakeError Bytes × Handshake
  | .ok (bytes, next) => (.ok bytes, next)
  | .error e => (.error e, self)

namespace EndpointM

theorem call_finishSend {α : Type} (codec : CborCodec α) (wire : α) (self : Handshake) :
    call (finishSend codec wire) self = self.settleSend (self.finishSend codec wire) := by
  simp only [finishSend, call_lift_bind, Handshake.finishSend]
  cases (encodeCanonical codec wire controlCborLimits).mapError fun _ =>
    HandshakeError.malformed "handshake encode" <;> rfl

end EndpointM

namespace SendCall

/-- The send as a method of the mutable endpoint. -/
def perform : SendCall → EndpointM Bytes
  | .initiatorHello => EndpointM.initiatorHello
  | .responderHello => EndpointM.responderHello
  | .responderProof signature => EndpointM.responderProof signature
  | .initiatorProof signature => EndpointM.initiatorProof signature
  | .selectionConfirmation => EndpointM.selectionConfirmation
  | .admissionGrantDelivery grant => EndpointM.admissionGrantDelivery grant

open EndpointM in
theorem call_sendProof (kind : HandshakeKind) (sender : Role) (role : ProofRole)
    (signature : Signature) (self : Handshake) :
    (EndpointM.sendProof kind sender role signature).call self =
      self.settleSend (self.sendProof kind sender role signature) := by
  simp only [EndpointM.sendProof, call_bind, call_get, call_lift, Handshake.sendProof]
  cases self.beginSend kind sender with
  | error e => rfl
  | ok =>
    cases self.deriveLocalProof role with
    | error e => rfl
    | ok proof => exact call_finishSend _ _ self

open EndpointM in
/-- The sends on the mutable endpoint are the pure sends. -/
theorem call_perform (call : SendCall) (self : Handshake) :
    call.perform.call self = self.settleSend (call.run self) := by
  cases call with
  | initiatorHello =>
    simp only [perform, run, EndpointM.initiatorHello, call_bind, call_get, call_lift,
      Handshake.initiatorHello]
    cases self.beginSend .initiatorHello .initiator with
    | error e => rfl
    | ok => exact call_finishSend _ _ self
  | responderHello =>
    simp only [perform, run, EndpointM.responderHello, call_bind, call_get, call_lift,
      Handshake.responderHello]
    cases self.beginSend .responderHello .responder with
    | error e => rfl
    | ok => exact call_finishSend _ _ self
  | responderProof signature => exact call_sendProof _ _ _ _ self
  | initiatorProof signature => exact call_sendProof _ _ _ _ self
  | selectionConfirmation =>
    simp only [perform, run, EndpointM.selectionConfirmation, call_bind, call_get, call_lift,
      Handshake.selectionConfirmation]
    cases self.beginSend .selectionConfirmation .responder with
    | error e => rfl
    | ok =>
      cases Except.okOr (HandshakeError.state "handshake selection") self.selection with
      | error e => rfl
      | ok selection => exact call_finishSend _ _ self
  | admissionGrantDelivery grant =>
    simp only [perform, run, EndpointM.admissionGrantDelivery, call_bind, call_get, call_lift,
      Handshake.admissionGrantDelivery]
    cases Except.rejectIf (self.config.role ≠ .responder) (HandshakeError.state "handshake send role") with
    | error e => rfl
    | ok =>
    cases Except.rejectIf (self.config.mode ≠ .join) (HandshakeError.state "handshake grant mode") with
    | error e => rfl
    | ok =>
    cases Except.rejectIf (¬ self.isAuthenticated) (HandshakeError.state "handshake grant order") with
    | error e => rfl
    | ok =>
    cases Except.rejectIf self.grantSent (HandshakeError.state "handshake grant duplicate") with
    | error e => rfl
    | ok =>
    cases Except.rejectIf (grant = []) (HandshakeError.malformed "handshake grant") with
    | error e => rfl
    | ok =>
    simp only [Except.ok_bind_eq]
    cases (encodeCanonical GrantDeliveryWire.codec
      ⟨HandshakeKind.admissionGrantDelivery.kindId, grant⟩ controlCborLimits).mapError fun _ =>
        HandshakeError.malformed "handshake encode" <;> rfl

/-- The kind of the message a send makes. -/
def kind : SendCall → HandshakeKind
  | .initiatorHello => .initiatorHello
  | .responderHello => .responderHello
  | .responderProof _ => .responderProof
  | .initiatorProof _ => .initiatorProof
  | .selectionConfirmation => .selectionConfirmation
  | .admissionGrantDelivery _ => .admissionGrantDelivery

end SendCall

/-- A call of an endpoint: a send, or the delivery of arbitrary bytes. -/
inductive HandshakeCall where
  | send (call : SendCall)
  | deliver (bytes : Bytes)

namespace Handshake

/-- Bytes that carry the hello of the peer in its turn and pass every check of it. -/
def HelloInTurn (self : Handshake) (bytes : Bytes) (view : HelloView) : Prop :=
  ∃ kind, self.admitKind bytes = .ok kind ∧ self.checkPosition kind = .ok () ∧
    (kind = .initiatorHello ∧ self.readInitiatorHello bytes = .ok view ∨
      kind = .responderHello ∧ self.readResponderHello bytes = .ok view)

/-- The offers of both sides go together and the transcript fits into one body. -/
def Settles (self : Handshake) (view : HelloView) : Prop :=
  ∃ selection, select self.registry self.localView.offer view.offer self.localView.offer.required
      view.offer.required = .ok selection ∧
    (self.transcriptItem view selection.bytes).size ≤ 65536

/-- A hello that passes every check of its own and fails against the local offer. -/
def LateHello (self : Handshake) (bytes : Bytes) (view : HelloView) : Prop :=
  self.HelloInTurn bytes view ∧ ¬ self.Settles view

end Handshake

namespace HandshakeCall

/-- A call that belongs to a position: the send of its role, or the delivery of a message of
    the other role. -/
def Completes (self : Handshake) (position : Nat) (call : HandshakeCall) : Prop :=
  ∃ kind : HandshakeKind, kind ≠ .admissionGrantDelivery ∧ kind.position = position ∧
    match call with
    | .send call => call.kind = kind ∧ positionSender kind = self.config.role
    | .deliver bytes => self.admitKind bytes = .ok kind ∧
        positionSender kind = self.config.role.other

/-- What a call does to an endpoint, with what it answers. -/
inductive Moves (self : Handshake) (call : HandshakeCall) : Handshake.Outcome → Prop where
  | refused (e : HandshakeError) : Moves self call (.error e, self)
  /-- A late hello is refused and stored all the same. -/
  | late (e : HandshakeError) (bytes : Bytes) (view : HelloView) : call = .deliver bytes →
      self.LateHello bytes view → Moves self call (.error e, { self with peerHello := some view })
  | hello (view : HelloView) (selection : Selection) (transcript : Bytes) :
      call.Completes self (self.completed + 1) →
      self.completed + 1 = self.config.role.helloPosition →
      select self.registry self.localView.offer view.offer self.localView.offer.required
        view.offer.required = .ok selection →
      self.Assembles view selection transcript →
      Moves self call (.ok (), Handshake.advance { self with
        peerHello := some view, selection := some selection, transcript := some transcript })
  | position : call.Completes self (self.completed + 1) →
      self.completed + 1 ≠ self.config.role.helloPosition → Moves self call (.ok (), self.advance)
  | grantReceived (bytes grant : Bytes) : call = .deliver bytes →
      self.admitKind bytes = .ok .admissionGrantDelivery → self.config.mode = .join →
      self.completed = protocolPositions → self.grant = none →
      Moves self call (.ok (), { self with grant := some grant })
  | grantSent (grant : Bytes) : call = .send (.admissionGrantDelivery grant) →
      self.config.role = .responder → self.config.mode = .join →
      self.completed = protocolPositions → self.grantSent = false →
      Moves self call (.ok (), { self with grantSent := true })

end HandshakeCall

namespace Handshake

/-- The hello of the peer is due at the position of its kind. -/
theorem HelloInTurn.position {self : Handshake} {bytes : Bytes} {view : HelloView}
    (h : self.HelloInTurn bytes view) : self.completed + 1 = self.config.role.helloPosition := by
  obtain ⟨kind, hkind, hcheck, hread⟩ := h
  have hsender := sender_of_admit hkind
  rw [checkPosition_eq_ok hcheck]
  obtain ⟨rfl, -⟩ | ⟨rfl, -⟩ := hread <;> cases hrole : self.config.role <;>
    rw [hrole] at hsender <;> first | (cases hsender; done) | rfl

/-- The hellos are accepted exactly when they settle. -/
theorem finalizeHellos_eq_error_iff (self : Handshake) (view : HelloView) :
    (∃ e, finalizeHellos { self with peerHello := some view } = .error e) ↔ ¬ self.Settles view := by
  unfold Settles
  cases hselect : select self.registry self.localView.offer view.offer self.localView.offer.required
      view.offer.required with
  | error e =>
    have hfinal : finalizeHellos { self with peerHello := some view } = .error (.selection e) := by
      simp only [finalizeHellos, Except.okOr, Except.ok_bind_eq, hselect]
      rfl
    refine iff_of_true ⟨_, hfinal⟩ ?_
    rintro ⟨selection, hok, -⟩
    cases hok
  | ok selection =>
    have hpeer : ({ self with peerHello := some view } : Handshake).peerHello = some view := rfl
    have hfinal := finalizeHellos_eq view hpeer hselect
    rw [hfinal]
    by_cases hsize : (self.transcriptItem view selection.bytes).size ≤ 65536
    · have hsize' : (transcriptItem { self with peerHello := some view } view
          selection.bytes).size ≤ 65536 := hsize
      rw [if_pos hsize']
      refine iff_of_false (by rintro ⟨e, he⟩; cases he) ?_
      rw [not_not]
      exact ⟨selection, rfl, hsize⟩
    · have hsize' : ¬ (transcriptItem { self with peerHello := some view } view
          selection.bytes).size ≤ 65536 := hsize
      rw [if_neg hsize']
      refine iff_of_true ⟨_, rfl⟩ ?_
      rintro ⟨selection', hok, hfits⟩
      cases hok
      exact hsize hfits

end Handshake

namespace HandshakeCall

variable {self : Handshake} {kind : HandshakeKind}

theorem completes_send {call : SendCall} (hkind : call.kind = kind)
    (hgrant : kind ≠ .admissionGrantDelivery)
    (hbegin : self.beginSend kind (positionSender kind) = .ok ()) :
    (HandshakeCall.send call).Completes self (self.completed + 1) := by
  obtain ⟨hrole, hposition⟩ := SendCall.beginSend_eq_ok hbegin
  exact ⟨kind, hgrant, hposition.symm, hkind, hrole.symm⟩

/-- No endpoint sends the hello of its peer. -/
theorem ne_helloPosition_of_beginSend
    (hbegin : self.beginSend kind (positionSender kind) = .ok ()) :
    self.completed + 1 ≠ self.config.role.helloPosition := by
  obtain ⟨hrole, hposition⟩ := SendCall.beginSend_eq_ok hbegin
  rw [hposition, hrole]
  cases kind <;> decide

/-- A send that begins at its position and ends with the encoding. -/
theorem moves_finishSend {α : Type} {call : SendCall} {codec : CborCodec α} {wire : α}
    (hkind : call.kind = kind) (hgrant : kind ≠ .admissionGrantDelivery)
    (hbegin : self.beginSend kind (positionSender kind) = .ok ()) :
    Moves self (.send call) (Prod.map (Except.map fun _ => ()) id
      (self.settleSend (self.finishSend codec wire))) := by
  cases hfinish : self.finishSend codec wire with
  | error e => exact .refused e
  | ok sent =>
    obtain ⟨bytes, next⟩ := sent
    obtain rfl := SendCall.finishSend_eq_ok hfinish
    exact .position (completes_send hkind hgrant hbegin) (ne_helloPosition_of_beginSend hbegin)

/-- Everything a send does to an endpoint. -/
theorem moves_send (self : Handshake) (call : SendCall) :
    Moves self (.send call) (Prod.map (Except.map fun _ => ()) id
      (self.settleSend (call.run self))) := by
  have hproof : ∀ {kind : HandshakeKind} {role : ProofRole} {signature : Signature},
      call.kind = kind → kind ≠ .admissionGrantDelivery →
      Moves self (.send call) (Prod.map (Except.map fun _ => ()) id
        (self.settleSend (self.sendProof kind (positionSender kind) role signature))) := by
    intro kind role signature hkind hgrant
    unfold Handshake.sendProof
    cases hbegin : self.beginSend kind (positionSender kind) with
    | error e => exact .refused e
    | ok =>
      simp only [Except.ok_bind_eq]
      cases self.deriveLocalProof role with
      | error e => exact .refused e
      | ok proof => exact moves_finishSend hkind hgrant hbegin
  cases call with
  | initiatorHello =>
    simp only [SendCall.run, Handshake.initiatorHello]
    cases hbegin : self.beginSend .initiatorHello .initiator with
    | error e => exact .refused e
    | ok => exact moves_finishSend rfl (by decide) hbegin
  | responderHello =>
    simp only [SendCall.run, Handshake.responderHello]
    cases hbegin : self.beginSend .responderHello .responder with
    | error e => exact .refused e
    | ok => exact moves_finishSend rfl (by decide) hbegin
  | responderProof signature => exact hproof rfl (by decide)
  | initiatorProof signature => exact hproof rfl (by decide)
  | selectionConfirmation =>
    simp only [SendCall.run, Handshake.selectionConfirmation]
    cases hbegin : self.beginSend .selectionConfirmation .responder with
    | error e => exact .refused e
    | ok =>
      simp only [Except.ok_bind_eq]
      cases Except.okOr (HandshakeError.state "handshake selection") self.selection with
      | error e => exact .refused e
      | ok selection => exact moves_finishSend rfl (by decide) hbegin
  | admissionGrantDelivery grant =>
    cases hrun : SendCall.run (.admissionGrantDelivery grant) self with
    | error e => exact .refused e
    | ok sent =>
      obtain ⟨bytes, next⟩ := sent
      simp only [SendCall.run, Handshake.admissionGrantDelivery, Except.bind_eq_ok,
        Except.rejectIf_eq_ok, exists_const, not_not] at hrun
      obtain ⟨hrole, hmode, hdone, hsent, -, encoded, -, hnext⟩ := hrun
      cases hnext
      exact .grantSent grant rfl hrole hmode (of_decide_eq_true hdone) (Bool.eq_false_iff.mpr hsent)

variable [Ed25519]

/-- The hello of the peer, at its position. -/
theorem moves_acceptPeerHello {bytes : Bytes} {hello : Except HandshakeError HelloView}
    (hgrant : kind ≠ .admissionGrantDelivery) (hkind : self.admitKind bytes = .ok kind)
    (hcheck : self.checkPosition kind = .ok ())
    (hhello : self.completed + 1 = self.config.role.helloPosition)
    (hread : ∀ view, hello = .ok view → self.HelloInTurn bytes view) :
    Moves self (.deliver bytes) (self.acceptPeerHello hello) := by
  have hcompletes : (HandshakeCall.deliver bytes).Completes self (self.completed + 1) :=
    ⟨kind, hgrant, (Handshake.checkPosition_eq_ok hcheck).symm, hkind, Handshake.sender_of_admit hkind⟩
  cases hello with
  | error e => exact .refused e
  | ok view =>
    simp only [Handshake.acceptPeerHello]
    cases hfinal : Handshake.finalizeHellos { self with peerHello := some view } with
    | error e =>
      have hunsettled := (self.finalizeHellos_eq_error_iff view).mp ⟨e, hfinal⟩
      exact .late e bytes view rfl ⟨hread view rfl, hunsettled⟩
    | ok next =>
      obtain ⟨peer, selection, transcript, hpeer, hselect, hassembles, rfl⟩ :=
        Handshake.select_of_finalizeHellos hfinal
      cases hpeer
      exact .hello view selection transcript hcompletes hhello hselect hassembles

/-- A message that is settled by the check of one handler. -/
theorem moves_settle {bytes : Bytes} {check : Except HandshakeError Unit}
    (hgrant : kind ≠ .admissionGrantDelivery) (hkind : self.admitKind bytes = .ok kind)
    (hcheck : self.checkPosition kind = .ok ())
    (hhello : self.completed + 1 ≠ self.config.role.helloPosition) :
    Moves self (.deliver bytes) (self.settle do check; return self.advance) := by
  cases check with
  | error e => exact .refused e
  | ok =>
    exact .position ⟨kind, hgrant, (Handshake.checkPosition_eq_ok hcheck).symm, hkind,
      Handshake.sender_of_admit hkind⟩ hhello

/-- Everything a delivery does to an endpoint. -/
theorem moves_deliver (self : Handshake) (bytes : Bytes) :
    Moves self (.deliver bytes) (self.receive bytes) := by
  unfold Handshake.receive
  cases hkind : self.admitKind bytes with
  | error e => exact .refused e
  | ok kind =>
    have hsender := Handshake.sender_of_admit hkind
    dsimp only
    by_cases hgrant : kind = .admissionGrantDelivery
    · subst hgrant
      rw [if_pos rfl]
      cases hreceive : self.receiveGrantDelivery bytes with
      | error e => exact .refused e
      | ok next =>
        simp only [Handshake.receiveGrantDelivery, Except.bind_eq_ok, Except.rejectIf_eq_ok,
          exists_const, not_not] at hreceive
        obtain ⟨hmode, hdone, hnone, wire, -, -, hnext⟩ := hreceive
        cases hnext
        exact .grantReceived bytes wire.grant rfl hkind hmode (of_decide_eq_true hdone) hnone
    rw [if_neg hgrant]
    cases hcheck : self.checkPosition kind with
    | error e => exact .refused e
    | ok =>
      have hposition := Handshake.checkPosition_eq_ok hcheck
      -- the position of a kind is the one of the peer's hello for the two hellos only
      have hhello : self.completed + 1 = self.config.role.helloPosition ↔
          kind = .initiatorHello ∨ kind = .responderHello := by
        rw [hposition]
        cases hrole : self.config.role <;> rw [hrole] at hsender <;> cases kind <;>
          first | (cases hsender; done) | decide
      cases kind with
      | initiatorHello =>
        exact moves_acceptPeerHello hgrant hkind hcheck (hhello.mpr (Or.inl rfl))
          fun view hread => ⟨_, hkind, hcheck, Or.inl ⟨rfl, hread⟩⟩
      | responderHello =>
        exact moves_acceptPeerHello hgrant hkind hcheck (hhello.mpr (Or.inr rfl))
          fun view hread => ⟨_, hkind, hcheck, Or.inr ⟨rfl, hread⟩⟩
      | responderProof | initiatorProof | selectionConfirmation =>
        exact moves_settle hgrant hkind hcheck (by rw [Ne, hhello]; decide)
      | admissionGrantDelivery => exact absurd rfl hgrant

/-- The answer of a call and the endpoint after it. -/
def perform (call : HandshakeCall) (self : Handshake) : Handshake.Outcome :=
  match call with
  | .send call => Prod.map (Except.map fun _ => ()) id (call.perform.call self)
  | .deliver bytes => self.receive bytes

/-- Everything a call does to an endpoint. -/
theorem moves_perform (self : Handshake) (call : HandshakeCall) : Moves self call (call.perform self) := by
  cases call with
  | send call =>
    simp only [perform, SendCall.call_perform]
    exact moves_send self call
  | deliver bytes => exact moves_deliver self bytes

/-- The endpoint after a run of calls. -/
def after (self : Handshake) (calls : List HandshakeCall) : Handshake :=
  calls.foldl (fun self call => (call.perform self).2) self

@[simp] theorem after_nil (self : Handshake) : after self [] = self := rfl

@[simp] theorem after_cons (self : Handshake) (call : HandshakeCall) (calls : List HandshakeCall) :
    after self (call :: calls) = after (call.perform self).2 calls := rfl

/-! ## Failed calls -/

/-- A call that leaves the endpoint alone when it fails. -/
def Harmless (self : Handshake) (call : HandshakeCall) : Prop :=
  ∀ e, (call.perform self).1 = .error e → (call.perform self).2 = self

/-- The delivery of a late hello that is not stored already. -/
def StoresLate (self : Handshake) (call : HandshakeCall) : Prop :=
  ∃ bytes view, call = .deliver bytes ∧ self.LateHello bytes view ∧ self.peerHello ≠ some view

/-- A hello in its turn reaches the comparison of the offers. -/
theorem receive_helloInTurn {bytes : Bytes} {view : HelloView} (h : self.HelloInTurn bytes view) :
    self.receive bytes = self.acceptPeerHello (.ok view) := by
  obtain ⟨kind, hkind, hcheck, ⟨rfl, hread⟩ | ⟨rfl, hread⟩⟩ := h
  · simp only [Handshake.receive, hkind, hcheck, Handshake.receivePosition, hread]
    exact if_neg (by decide)
  · simp only [Handshake.receive, hkind, hcheck, Handshake.receivePosition, hread]
    exact if_neg (by decide)

/-- A late hello is refused and stored. -/
theorem receive_lateHello {bytes : Bytes} {view : HelloView} (h : self.LateHello bytes view) :
    ∃ e, self.receive bytes = (.error e, { self with peerHello := some view }) := by
  obtain ⟨e, hfinal⟩ := (self.finalizeHellos_eq_error_iff view).mpr h.2
  refine ⟨e, ?_⟩
  rw [receive_helloInTurn h.1]
  simp only [Handshake.acceptPeerHello, hfinal]
  rfl

theorem harmless_iff (self : Handshake) (call : HandshakeCall) :
    Harmless self call ↔ ¬ StoresLate self call := by
  constructor
  · intro hharmless hstores
    obtain ⟨bytes, view, rfl, hlate, hnew⟩ := hstores
    obtain ⟨e, hreceive⟩ := receive_lateHello hlate
    have hsame := hharmless e (congrArg Prod.fst hreceive)
    have hstored : (self.receive bytes).2.peerHello = some view := by rw [hreceive]
    rw [show (self.receive bytes).2 = self from hsame] at hstored
    exact hnew hstored
  · intro hfresh e herror
    have hmoves := moves_perform self call
    cases hperform : call.perform self with
    | mk answer next =>
      rw [hperform] at hmoves herror
      cases hmoves with
      | refused e' => rfl
      | late e' bytes view hcall hlate =>
        -- refused a second time, the hello is the one that is stored
        have hstored : self.peerHello = some view := by
          by_contra hnew
          exact hfresh ⟨bytes, view, hcall, hlate, hnew⟩
        cases self
        cases hstored
        rfl
      | hello => cases herror
      | position => cases herror
      | grantReceived => cases herror
      | grantSent => cases herror

/-- The failed calls of a run change nothing exactly when no late hello is stored in it. -/
theorem failures_harmless_iff (self : Handshake) (calls : List HandshakeCall) :
    (∀ before call rest, calls = before ++ call :: rest → Harmless (after self before) call) ↔
      ∀ before call rest, calls = before ++ call :: rest → ¬ StoresLate (after self before) call := by
  constructor
  · intro hharmless before call rest hcalls
    exact (harmless_iff _ call).mp (hharmless before call rest hcalls)
  · intro hfresh before call rest hcalls
    exact (harmless_iff _ call).mpr (hfresh before call rest hcalls)

end HandshakeCall

end Calls

/-- A responder refuses the hello of an honest member whose transcript does not fit, and
    keeps it. -/
theorem longHello_stored :
    letI := DnsName.hostNames
    letI := sampleScheme
    ∃ (registry : FeatureRegistry) (offer : FeatureOffer) (self : Handshake) (bytes : Bytes),
      Handshake.new (sampleResponder offer) registry = .ok self ∧
      (self.receive bytes).1 = .error (.malformed "handshake transcript") ∧
      self.peerHello.isSome = false ∧ (self.receive bytes).2.peerHello.isSome = true ∧
      ¬ HandshakeCall.Harmless self (.deliver bytes) := by
  let _ := DnsName.hostNames
  let _ := sampleScheme
  obtain ⟨registry, offer, hbuild, hoffer⟩ := exists_longOffer
  obtain ⟨selection, -, hnew, hselect, hbytes, -, -, hfeatures⟩ :=
    exists_memberPair hbuild acceptable_longDefinitions hoffer sampleCluster sampleInitiatorId
      sampleResponderId sampleInitiatorKey sampleResponderKey
  have hlong := transcriptLength_longOffer hbuild hoffer hbytes hfeatures
  have hpair : HonestPair (sampleInitiator offer) (sampleResponder offer) :=
    honestPair_memberConfig hoffer sampleCluster (by decide) (by decide)
  have hlimits := validateLimits_own (offers_of_nodeOffer hoffer)
  have hinputs : Handshake.checkInputs (sampleResponder offer) = .ok () := rfl
  have hoffered : (sampleInitiator offer).localOffer.validateLimits registry = .ok () := hlimits
  have hreceive := Handshake.receive_initiatorHello foldedHosts_hostNames hpair hinputs hoffered
  have hunfit : ¬ ((Handshake.initial (sampleResponder offer) registry).transcriptItem
      (sampleInitiator offer).view selection.bytes).size ≤ 65536 := by
    rw [Handshake.transcriptItem_swap hpair, size_transcriptItem registry hpair rfl]
    exact Nat.not_le_of_lt hlong
  have hpeer : ({ Handshake.initial (sampleResponder offer) registry with
      peerHello := some (sampleInitiator offer).view } : Handshake).peerHello =
        some (sampleInitiator offer).view := rfl
  have hfinal := (Handshake.finalizeHellos_eq (sampleInitiator offer).view hpeer hselect).trans
    (if_neg hunfit)
  have hrefused : (Handshake.initial (sampleResponder offer) registry).receive
      (Handshake.initiatorHelloItem (sampleInitiator offer)).encode =
        (.error (.malformed "handshake transcript"),
          { Handshake.initial (sampleResponder offer) registry with
            peerHello := some (sampleInitiator offer).view }) := by
    rw [hreceive]
    simp only [Handshake.acceptPeerHello, hfinal]
    rfl
  have hheld : ((Handshake.initial (sampleResponder offer) registry).receive
      (Handshake.initiatorHelloItem (sampleInitiator offer)).encode).2.peerHello =
        some (sampleInitiator offer).view := by
    rw [hrefused]
  refine ⟨registry, offer, Handshake.initial (sampleResponder offer) registry,
    (Handshake.initiatorHelloItem (sampleInitiator offer)).encode, hnew,
    congrArg Prod.fst hrefused, rfl, congrArg Option.isSome hheld, ?_⟩
  intro hharmless
  have hsame : ((Handshake.initial (sampleResponder offer) registry).receive
      (Handshake.initiatorHelloItem (sampleInitiator offer)).encode).2 =
        Handshake.initial (sampleResponder offer) registry :=
    hharmless _ (congrArg Prod.fst hrefused)
  rw [hsame] at hheld
  cases hheld

end Radiata
