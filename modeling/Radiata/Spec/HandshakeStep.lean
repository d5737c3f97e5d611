import Radiata.ForStd.List
import Radiata.ForStd.System
import Radiata.Native.Handshake

/-!
# Steps of a handshake endpoint

What a call can do to one endpoint: which position it completes and which fields it
sets. An initiator receives the messages 2, 3 and 5 and sends the others, a responder
receives 1 and 4, so the hellos and the peer's proof are completed by `receive` only.

## Key results

- `Handshake.received_receive`: everything `receive` does to an endpoint
- `SendCall.sent_of_run`: everything a send does to an endpoint
- `assembleTranscript_inj`: the transcript determines what it was assembled from
-/

namespace Radiata

open Cbor (Item)

/-! ## Roles -/

def Role.other : Role → Role
  | .initiator => .responder
  | .responder => .initiator

/-- The domain a role signs under. -/
def Role.sessionDomain : Role → Bytes
  | .initiator => sessionV1InitiatorDomain
  | .responder => sessionV1ResponderDomain

def Role.proofRole : Role → ProofRole
  | .initiator => .initiator
  | .responder => .responder

/-- The message a role signs: `initiator_session_message` or `responder_session_message`. -/
def Role.sessionMessage (role : Role) (transcript : Bytes) : Bytes :=
  signatureMessage role.sessionDomain transcript

/-- The position at which a role has received the hello of its peer. -/
def Role.helloPosition : Role → Nat
  | .initiator => 2
  | .responder => 1

/-- The position at which a role has received the proof of its peer. -/
def Role.proofPosition : Role → Nat
  | .initiator => 3
  | .responder => 4

theorem Role.eq_other {role sender : Role} (h : sender ≠ role) : sender = role.other := by
  cases role <;> cases sender <;> first | rfl | exact absurd rfl h

variable {transcript : Bytes}

/-- The two domains have one length and differ, so a session message fixes its role. -/
theorem Role.sessionMessage_inj {role role' : Role} {transcript' : Bytes}
    (h : role.sessionMessage transcript = role'.sessionMessage transcript') :
    role = role' ∧ bodyDigest transcript = bodyDigest transcript' := by
  have hlen : role.sessionDomain.length = role'.sessionDomain.length := by
    cases role <;> cases role' <;> decide
  obtain ⟨hdomain, hdigest⟩ := signatureMessage_inj hlen h
  refine ⟨?_, hdigest⟩
  cases role <;> cases role' <;> first | rfl | exact absurd hdomain (by decide)

/-- Bytes of the right length are the bytes of a value. -/
theorem handshakeBytes_eq_ok {length : Nat} {bytes : Bytes} {context : String}
    {value : ByteValue length} :
    handshakeBytes length bytes context = .ok value ↔ bytes = value.asBytes := by
  rw [handshakeBytes, Except.mapError_eq_ok, fixedBytes]
  constructor
  · intro h
    split at h
    · cases h
      rfl
    · cases h
  · rintro rfl
    rw [dif_pos value.width]
    rfl

theorem HandshakeMode.asStr_injective : Function.Injective HandshakeMode.asStr := by
  intro a b h
  cases a <;> cases b <;> first | rfl | exact absurd h (by decide)

variable [DnsName]

/-! ## Transcripts -/

variable {generation : Option (ByteValue generationLen)} {channelBinding : ByteValue 32}

theorem assembleTranscript_eq_ok {mode : HandshakeMode} {cluster : ClusterId}
    {initiator responder : HelloView} {selection : Bytes}
    (h : assembleTranscript mode generation cluster initiator responder selection channelBinding =
      .ok transcript) :
    transcript = (transcriptWire mode generation cluster initiator responder selection
      channelBinding).toItem.encode ∧ transcript.length ≤ 65536 := by
  rw [assembleTranscript, Except.mapError_eq_ok] at h
  obtain ⟨hbytes, hlen, -⟩ := encodeCanonical_eq_ok h
  exact ⟨hbytes, hlen⟩

/-- The identity of an endpoint in a transcript. -/
structure SameView (view view' : HelloView) : Prop where
  nodeId : view.nodeId = view'.nodeId
  publicKey : view.publicKey = view'.publicKey
  nonce : view.nonce = view'.nonce
  offerBytes : view.offerBytes = view'.offerBytes

/-- The transcript determines everything it was assembled from. -/
theorem assembleTranscript_inj {mode mode' : HandshakeMode}
    {generation' : Option (ByteValue generationLen)} {cluster cluster' : ClusterId}
    {initiator initiator' responder responder' : HelloView} {selection selection' : Bytes}
    {channelBinding' : ByteValue 32}
    (h : assembleTranscript mode generation cluster initiator responder selection channelBinding =
      .ok transcript)
    (h' : assembleTranscript mode' generation' cluster' initiator' responder' selection' channelBinding' =
      .ok transcript) :
    mode = mode' ∧ generation = generation' ∧ cluster = cluster' ∧ SameView initiator initiator' ∧
      SameView responder responder' ∧ selection = selection' ∧ channelBinding = channelBinding' := by
  obtain ⟨hbytes, hlen⟩ := assembleTranscript_eq_ok h
  obtain ⟨hbytes', -⟩ := assembleTranscript_eq_ok h'
  rw [hbytes, Item.length_encode] at hlen
  have hitem := Item.encode_inj (by omega) (hbytes.symm.trans hbytes')
  simp only [TranscriptWire.toItem, transcriptWire, IdentityWire.ofView, IdentityWire.toItem,
    List.map_cons, List.map_nil, Item.array.injEq, List.cons.injEq, Item.text.injEq, Item.bytes.injEq,
    and_true, true_and] at hitem
  obtain ⟨hmode, hgeneration, hcluster, ⟨⟨hid, hkey⟩, hid', hkey'⟩, ⟨hnonce, hnonce'⟩,
    ⟨hoffer, hoffer'⟩, hselection, hbinding⟩ := hitem
  have hgen : generation = generation' := by
    cases generation with
    | none => cases generation' with
      | none => rfl
      | some value' => cases hgeneration
    | some value => cases generation' with
      | none => cases hgeneration
      | some value' =>
        exact congrArg some (ByteValue.ext_asBytes (Item.bytes.inj hgeneration))
  refine ⟨HandshakeMode.asStr_injective hmode, hgen, CanonicalId.ext_asStr hcluster, ?_, ?_, hselection,
    ByteValue.ext_asBytes hbinding⟩
  · exact ⟨CanonicalId.ext_asStr hid, ByteValue.ext_asBytes hkey, ByteValue.ext_asBytes hnonce, hoffer⟩
  · exact ⟨CanonicalId.ext_asStr hid', ByteValue.ext_asBytes hkey', ByteValue.ext_asBytes hnonce', hoffer'⟩

namespace Handshake

/-- A transcript that an endpoint assembles from its own hello and the one of its peer. -/
def Assembles (self : Handshake) (peer : HelloView) (selection : Selection) (transcript : Bytes) :
    Prop :=
  assembleTranscript self.config.mode self.config.generation self.config.cluster
    (self.roleViews peer).1 (self.roleViews peer).2 selection.bytes self.config.channelBinding =
      .ok transcript

variable {self : Handshake}

/-- What the accepted hellos set, with the selection they were accepted for. -/
theorem select_of_finalizeHellos {next : Handshake} (h : self.finalizeHellos = .ok next) :
    ∃ peer selection transcript, self.peerHello = some peer ∧
      select self.registry self.localView.offer peer.offer self.localView.offer.required
        peer.offer.required = .ok selection ∧
      self.Assembles peer selection transcript ∧
      next = { self with selection := some selection, transcript := some transcript } := by
  simp only [finalizeHellos, Except.bind_eq_ok, Except.okOr_eq_ok, Except.mapError_eq_ok] at h
  obtain ⟨peer, hpeer, selection, hselect, transcript, htranscript, hnext⟩ := h
  cases hnext
  exact ⟨peer, selection, transcript, hpeer, hselect, htranscript, rfl⟩

theorem finalizeHellos_eq_ok {next : Handshake} (h : self.finalizeHellos = .ok next) :
    ∃ peer selection transcript, self.peerHello = some peer ∧
      self.Assembles peer selection transcript ∧
      next = { self with selection := some selection, transcript := some transcript } := by
  obtain ⟨peer, selection, transcript, hpeer, -, hassembles, hnext⟩ := select_of_finalizeHellos h
  exact ⟨peer, selection, transcript, hpeer, hassembles, hnext⟩

/-! ## Receiving -/

/-- A message that passes the position check completes the next position. -/
theorem checkPosition_eq_ok {kind : HandshakeKind} (h : self.checkPosition kind = .ok ()) :
    self.completed + 1 = kind.position := by
  simp only [checkPosition, Except.seq_eq_ok, Except.rejectIf_eq_ok] at h
  omega

/-- A message that passes the header checks was sent by the other role. -/
theorem sender_of_admit {bytes : Bytes} {kind : HandshakeKind}
    (h : self.admitKind bytes = .ok kind) : positionSender kind = self.config.role.other := by
  simp only [admitKind, Except.bind_eq_ok, Except.rejectIf_eq_ok, exists_const] at h
  obtain ⟨-, -, header, -, -, hsender, hkind⟩ := h
  cases hkind
  exact Role.eq_other hsender

/-- What a delivered message does to an endpoint. -/
inductive Received [Ed25519] (self : Handshake) (bytes : Bytes) : Handshake → Prop where
  | same : Received self bytes self
  | grant (grant : Bytes) : Received self bytes { self with grant := some grant }
  /-- A hello whose offer does not go with the local one is stored all the same. -/
  | stored (peer : HelloView) : self.completed + 1 = self.config.role.helloPosition →
      Received self bytes { self with peerHello := some peer }
  | hello (peer : HelloView) (selection : Selection) (transcript : Bytes) :
      self.completed + 1 = self.config.role.helloPosition →
      self.Assembles peer selection transcript →
      Received self bytes (advance { self with
        peerHello := some peer, selection := some selection, transcript := some transcript })
  | proof : self.completed + 1 = self.config.role.proofPosition →
      self.receiveProof bytes self.config.role.other.sessionDomain self.config.role.other.proofRole =
        .ok () →
      Received self bytes self.advance
  | confirmation : self.config.role = .initiator → self.completed = 4 →
      self.receiveConfirmation bytes = .ok () → Received self bytes self.advance

section

variable [Ed25519]

theorem received_settle {self : Handshake} {bytes : Bytes} {result : Except HandshakeError Handshake}
    (h : ∀ next, result = .ok next → Received self bytes next) :
    Received self bytes (self.settle result).2 := by
  cases result with
  | error e => exact .same
  | ok next => exact h next rfl

theorem received_acceptPeerHello {self : Handshake} {bytes : Bytes}
    (hello : Except HandshakeError HelloView)
    (hposition : self.completed + 1 = self.config.role.helloPosition) :
    Received self bytes (self.acceptPeerHello hello).2 := by
  cases hello with
  | error e => exact .same
  | ok view =>
    simp only [acceptPeerHello]
    cases hfinal : finalizeHellos { self with peerHello := some view } with
    | error e => exact .stored view hposition
    | ok next =>
      obtain ⟨peer, selection, transcript, hpeer, hassembles, rfl⟩ := finalizeHellos_eq_ok hfinal
      cases hpeer
      exact .hello view selection transcript hposition hassembles

/-- Everything `receive` does to an endpoint. -/
theorem received_receive (self : Handshake) (bytes : Bytes) :
    Received self bytes (self.receive bytes).2 := by
  unfold receive
  cases hadmit : self.admitKind bytes with
  | error e => exact .same
  | ok kind =>
    have hsender := sender_of_admit hadmit
    dsimp only
    by_cases hgrant : kind = .admissionGrantDelivery
    · rw [if_pos hgrant]
      refine received_settle fun next hnext => ?_
      simp only [receiveGrantDelivery, Except.bind_eq_ok, Except.rejectIf_eq_ok, exists_const] at hnext
      obtain ⟨-, -, -, wire, -, -, hnext⟩ := hnext
      cases hnext
      exact .grant wire.grant
    rw [if_neg hgrant]
    cases hcheck : self.checkPosition kind with
    | error e => exact .same
    | ok =>
      have hposition := checkPosition_eq_ok hcheck
      -- the sender of a kind is one role, so the receiver is the other one
      cases hrole : self.config.role with
      | initiator =>
        cases kind with
        | responderHello =>
          exact received_acceptPeerHello _ (by rw [hrole]; exact hposition)
        | responderProof =>
          refine received_settle fun next hnext => ?_
          obtain ⟨hproof, hnext⟩ := Except.seq_eq_ok.mp hnext
          cases hnext
          exact .proof (by rw [hrole]; exact hposition) (by rw [hrole]; exact hproof)
        | selectionConfirmation =>
          refine received_settle fun next hnext => ?_
          obtain ⟨hconfirmation, hnext⟩ := Except.seq_eq_ok.mp hnext
          cases hnext
          exact .confirmation hrole (Nat.succ.inj hposition) hconfirmation
        | admissionGrantDelivery => exact absurd rfl hgrant
        | initiatorHello => rw [hrole] at hsender; cases hsender
        | initiatorProof => rw [hrole] at hsender; cases hsender
      | responder =>
        cases kind with
        | initiatorHello =>
          exact received_acceptPeerHello _ (by rw [hrole]; exact hposition)
        | initiatorProof =>
          refine received_settle fun next hnext => ?_
          obtain ⟨hproof, hnext⟩ := Except.seq_eq_ok.mp hnext
          cases hnext
          exact .proof (by rw [hrole]; exact hposition) (by rw [hrole]; exact hproof)
        | admissionGrantDelivery => exact absurd rfl hgrant
        | responderHello | responderProof | selectionConfirmation =>
          rw [hrole] at hsender; cases hsender

/-- A proof is accepted for a signature under the key of the peer over the transcript. -/
theorem accepts_of_receiveProof {self : Handshake} {bytes : Bytes} {role : Role}
    (h : self.receiveProof bytes role.sessionDomain role.proofRole = .ok ()) :
    ∃ wire signature peer transcript, decodeWire ProofWire.codec bytes = .ok wire ∧
      wire.signature = signature.asBytes ∧ self.peerHello = some peer ∧
      self.transcript = some transcript ∧
      Ed25519.accepts peer.publicKey (role.sessionMessage transcript) signature = true := by
  simp only [receiveProof, Except.bind_eq_ok, Except.okOr_eq_ok, Except.mapError_eq_ok] at h
  obtain ⟨wire, hwire, proof, -, -, -, signature, hsignature, peer, hpeer, transcript, htranscript,
    hverify⟩ := h
  refine ⟨wire, signature, peer, transcript, hwire, ?_, hpeer, htranscript, ?_⟩
  · exact handshakeBytes_eq_ok.mp hsignature
  · simpa [verifyStrict, Except.rejectIf_eq_ok, Role.sessionMessage] using hverify

end

/-! ## Sending -/

end Handshake

/-- The local calls that send a message. -/
inductive SendCall where
  | initiatorHello
  | responderHello
  | responderProof (signature : Signature)
  | initiatorProof (signature : Signature)
  | selectionConfirmation
  | admissionGrantDelivery (grant : Bytes)

namespace SendCall

def run (call : SendCall) (self : Handshake) : Except HandshakeError (Bytes × Handshake) :=
  match call with
  | .initiatorHello => self.initiatorHello
  | .responderHello => self.responderHello
  | .responderProof signature => self.responderProof signature
  | .initiatorProof signature => self.initiatorProof signature
  | .selectionConfirmation => self.selectionConfirmation
  | .admissionGrantDelivery grant => self.admissionGrantDelivery grant

/-- What a send does to an endpoint: it completes a position of its own role. -/
inductive Sent (self : Handshake) : Handshake → Prop where
  | grant : Sent self { self with grantSent := true }
  | position (kind : HandshakeKind) : positionSender kind = self.config.role →
      self.completed + 1 = kind.position → kind ≠ .admissionGrantDelivery → Sent self self.advance

theorem beginSend_eq_ok {self : Handshake} {kind : HandshakeKind} {sender : Role}
    (h : self.beginSend kind sender = .ok ()) :
    self.config.role = sender ∧ self.completed + 1 = kind.position := by
  simpa only [Handshake.beginSend, Except.seq_eq_ok, Except.rejectIf_eq_ok, not_not] using h

theorem finishSend_eq_ok {α : Type} {self next : Handshake} {codec : CborCodec α} {wire : α}
    {bytes : Bytes} (h : self.finishSend codec wire = .ok (bytes, next)) : next = self.advance := by
  obtain ⟨encoded, -, hnext⟩ := Except.bind_eq_ok.mp h
  cases hnext
  rfl

/-- Everything a send does to an endpoint. -/
theorem sent_of_run {call : SendCall} {self next : Handshake} {bytes : Bytes}
    (h : call.run self = .ok (bytes, next)) : Sent self next := by
  cases call with
  | initiatorHello =>
    obtain ⟨hbegin, hfinish⟩ := Except.seq_eq_ok.mp h
    obtain ⟨hrole, hposition⟩ := beginSend_eq_ok hbegin
    rw [finishSend_eq_ok hfinish]
    exact .position .initiatorHello hrole.symm hposition (by decide)
  | responderHello =>
    obtain ⟨hbegin, hfinish⟩ := Except.seq_eq_ok.mp h
    obtain ⟨hrole, hposition⟩ := beginSend_eq_ok hbegin
    rw [finishSend_eq_ok hfinish]
    exact .position .responderHello hrole.symm hposition (by decide)
  | responderProof signature =>
    obtain ⟨hbegin, hproof⟩ := Except.seq_eq_ok.mp h
    obtain ⟨proof, -, hfinish⟩ := Except.bind_eq_ok.mp hproof
    obtain ⟨hrole, hposition⟩ := beginSend_eq_ok hbegin
    rw [finishSend_eq_ok hfinish]
    exact .position .responderProof hrole.symm hposition (by decide)
  | initiatorProof signature =>
    obtain ⟨hbegin, hproof⟩ := Except.seq_eq_ok.mp h
    obtain ⟨proof, -, hfinish⟩ := Except.bind_eq_ok.mp hproof
    obtain ⟨hrole, hposition⟩ := beginSend_eq_ok hbegin
    rw [finishSend_eq_ok hfinish]
    exact .position .initiatorProof hrole.symm hposition (by decide)
  | selectionConfirmation =>
    obtain ⟨hbegin, hselection⟩ := Except.seq_eq_ok.mp h
    obtain ⟨selection, -, hfinish⟩ := Except.bind_eq_ok.mp hselection
    obtain ⟨hrole, hposition⟩ := beginSend_eq_ok hbegin
    rw [finishSend_eq_ok hfinish]
    exact .position .selectionConfirmation hrole.symm hposition (by decide)
  | admissionGrantDelivery grant =>
    simp only [run, Handshake.admissionGrantDelivery, Except.bind_eq_ok, Except.rejectIf_eq_ok,
      exists_const] at h
    obtain ⟨-, -, -, -, -, encoded, -, hnext⟩ := h
    cases hnext
    exact .grant

end SendCall

end Radiata
