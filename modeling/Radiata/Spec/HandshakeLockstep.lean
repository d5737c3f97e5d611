import Radiata.Spec.HandshakeMessages
import Radiata.Spec.HandshakeStep
import Radiata.Spec.OfferInterop

/-!
# The lockstep exchange

What each message of an honest handshake does at its receiver. Two honest endpoints share
a mode, a cluster, a channel binding and a registry; every message they send fits the body
limit by the capacities of an offer, and the hellos are accepted exactly when the
transcript, which holds both offers and the selection, fits it too.

## Key results

- `Handshake.finalizeHellos_eq`: the hellos are accepted if and only if the transcript fits
- `Handshake.Lockstep`: the five messages with the states between them
-/

namespace Radiata

open Cbor (Item)

section Endpoint

variable [DnsName]

namespace Handshake

theorem finishSend_eq {α : Type} {self : Handshake} {codec : CborCodec α} {wire : α} {item : Item}
    (h : Sendable codec wire item) : self.finishSend codec wire = .ok (item.encode, self.advance) := by
  simp only [finishSend, h.encodeCanonical_eq, Except.mapError]
  rfl

theorem beginSend_eq {self : Handshake} {kind : HandshakeKind} {sender : Role}
    (hrole : self.config.role = sender) (hposition : self.completed + 1 = kind.position) :
    self.beginSend kind sender = .ok () := by
  rw [beginSend, Except.rejectIf_of_not _ (not_not.mpr hrole),
    Except.rejectIf_of_not _ (not_not.mpr hposition)]
  rfl

/-- A message of the other role in its position is dispatched by its kind. -/
theorem receive_eq [Ed25519] {α : Type} {self : Handshake} {codec : CborCodec α} {wire : α}
    {kind : HandshakeKind} {fields : List Item}
    (h : Sendable codec wire (.array (.uint kind.kindId :: fields)))
    (harity : fields.length + 1 = kind.arity) (hsender : positionSender kind ≠ self.config.role)
    (hposition : self.completed + 1 = kind.position) (hkind : kind ≠ .admissionGrantDelivery) :
    self.receive (Item.array (.uint kind.kindId :: fields)).encode =
      self.receivePosition kind (Item.array (.uint kind.kindId :: fields)).encode := by
  obtain ⟨-, -, hvalid⟩ := encodeCanonical_eq_ok h.encodeCanonical_eq
  have hadmit : self.admitKind (Item.array (.uint kind.kindId :: fields)).encode = .ok kind := by
    have hlen : fields.length < 2 ^ 32 := by cases kind <;> simp_all [HandshakeKind.arity]
    simp only [admitKind, hvalid, probe_encode hlen, Except.mapError, Except.ok_bind_eq,
      Except.rejectIf_of_not _ (not_not.mpr harity), Except.rejectIf_of_not _ hsender]
    rfl
  have hcheck : self.checkPosition kind = .ok () := by
    have hmax : kind.position ≤ 5 := by cases kind <;> first | exact absurd rfl hkind | decide
    have hopen : ¬ self.completed ≥ protocolPositions := by
      unfold protocolPositions
      omega
    rw [checkPosition, Except.rejectIf_of_not _ hopen, Except.rejectIf_of_not _ (by omega),
      Except.rejectIf_of_not _ (by omega)]
    rfl
  simp only [receive, hadmit, if_neg hkind, hcheck]

/-- The call of an honest exchange: a rejected message ends it. -/
def accept [Ed25519] (self : Handshake) (bytes : Bytes) : Except HandshakeError Handshake :=
  match self.receive bytes with
  | (.ok (), next) => .ok next
  | (.error e, _) => .error e

/-- The lockstep exchange; both endpoints sign the session message of their transcript. -/
def exchange [Ed25519] (initiator responder : Handshake)
    (signInitiator signResponder : Bytes → Signature) :
    Except HandshakeError (Handshake × Handshake) := do
  let (hello, initiator) ← initiator.initiatorHello
  let responder ← responder.accept hello
  let (answer, responder) ← responder.responderHello
  let initiator ← initiator.accept answer
  let transcript ← Except.okOr (.state "handshake transcript") responder.transcript
  let (proof, responder) ←
    responder.responderProof (signResponder (responderSessionMessage transcript))
  let initiator ← initiator.accept proof
  let transcript ← Except.okOr (.state "handshake transcript") initiator.transcript
  let (proof, initiator) ←
    initiator.initiatorProof (signInitiator (initiatorSessionMessage transcript))
  let responder ← responder.accept proof
  let (confirmation, responder) ← responder.selectionConfirmation
  let initiator ← initiator.accept confirmation
  return (initiator, responder)

end Handshake

/-! ## Hellos -/

/-- The hello of a configuration. -/
def HandshakeConfig.view (config : HandshakeConfig) : HelloView :=
  ⟨config.localId, config.localKey, config.localNonce, config.localOffer.wire.toItem.encode,
    config.localOffer⟩

/-- The initial endpoint of a configuration. -/
def Handshake.initial (config : HandshakeConfig) (registry : FeatureRegistry) : Handshake where
  config := config
  registry := registry
  completed := 0
  localView := config.view
  peerHello := none
  selection := none
  transcript := none
  grantSent := false
  grant := none

theorem Handshake.new_eq_ok {config : HandshakeConfig} {registry : FeatureRegistry} {self : Handshake} :
    new config registry = .ok self ↔ checkInputs config = .ok () ∧
      config.localOffer.validateLimits registry = .ok () ∧ self = initial config registry := by
  simp only [new, Except.mapError_eq_ok, Except.bind_eq_ok, config.localOffer.encode_eq_ok,
    Except.ok.injEq, exists_eq_left', Except.pure_eq]
  constructor
  · rintro ⟨_, hinputs, _, hlimits, rfl⟩
    exact ⟨hinputs, hlimits, rfl⟩
  · rintro ⟨hinputs, hlimits, rfl⟩
    exact ⟨(), hinputs, (), hlimits, rfl⟩

/-- Two configurations of honest endpoints of one handshake. -/
structure HonestPair (initiator responder : HandshakeConfig) : Prop where
  initiatorRole : initiator.role = .initiator
  responderRole : responder.role = .responder
  mode : initiator.mode = responder.mode
  cluster : initiator.cluster = responder.cluster
  channelBinding : initiator.channelBinding = responder.channelBinding
  generation : initiator.generation = responder.generation
  credential : initiator.credential = responder.credential
  initiatorExpects : ∀ binding ∈ initiator.expectedPeer,
    binding = (responder.localId, responder.localKey)
  responderExpects : ∀ binding ∈ responder.expectedPeer,
    binding = (initiator.localId, initiator.localKey)
  distinctIds : initiator.localId ≠ responder.localId
  distinctKeys : initiator.localKey ≠ responder.localKey
  initiatorOffer : ∃ supported required limits,
    FeatureOffer.new supported required limits = .ok initiator.localOffer
  responderOffer : ∃ supported required limits,
    FeatureOffer.new supported required limits = .ok responder.localOffer

/-! ## Accepting hellos -/

theorem generationMatches_of_checkInputs {config : HandshakeConfig}
    (h : Handshake.checkInputs config = .ok ()) :
    Handshake.generationMatches config.mode config.generation config.generation = true := by
  unfold Handshake.checkInputs at h
  cases hmode : config.mode with
  | join =>
    rw [hmode] at h
    simp only [Except.rejectIf_eq_ok, not_or] at h
    obtain ⟨generation, hgeneration⟩ := Option.ne_none_iff_exists'.mp h.1
    simp [Handshake.generationMatches, hgeneration]
  | member =>
    rw [hmode] at h
    simp only [Except.rejectIf_eq_ok, not_or, not_not] at h
    simp [Handshake.generationMatches, h.1]

namespace Handshake

/-- An endpoint accepts the identity and the offer in the hello of its peer. -/
theorem readPeerHello_view (hhosts : FoldedHosts) (self : Handshake) {peer : HandshakeConfig}
    (hcluster : peer.cluster = self.config.cluster) (hid : peer.localId ≠ self.config.localId)
    (hkey : peer.localKey ≠ self.config.localKey)
    (hexpects : ∀ binding ∈ self.config.expectedPeer, binding = (peer.localId, peer.localKey))
    (hoffer : peer.localOffer.Ascending)
    (hlimits : peer.localOffer.validateLimits self.registry = .ok ()) :
    self.readPeerHello peer.cluster.asStr peer.localId.asStr peer.localKey.asBytes
      peer.localNonce.asBytes peer.localOffer.wire.toItem.encode = .ok peer.view := by
  have hpublic : handshakeBytes publicKeyLen peer.localKey.asBytes "handshake public key" =
      .ok peer.localKey := handshakeBytes_eq_ok.mpr rfl
  have hnonce : handshakeBytes nonceLen peer.localNonce.asBytes "handshake nonce" =
      .ok peer.localNonce := handshakeBytes_eq_ok.mpr rfl
  have hdecode : FeatureOffer.decode peer.localOffer.wire.toItem.encode self.registry =
      .ok peer.localOffer := by
    rw [FeatureOffer.decode_encode hhosts hoffer, hlimits]
    rfl
  have hdistinct : ¬ (peer.localId = self.config.localId ∨ peer.localKey = self.config.localKey) :=
    not_or.mpr ⟨hid, hkey⟩
  simp only [readPeerHello, CanonicalId.parse_asStr, hpublic, hnonce, hdecode, Except.mapError,
    Except.ok_bind_eq, Except.rejectIf_of_not _ (not_not.mpr hcluster),
    Except.rejectIf_of_not _ hdistinct]
  cases hpeer : self.config.expectedPeer with
  | none => rfl
  | some binding =>
    rw [hexpects binding (by rw [hpeer]; rfl)]
    simp only [Option.any_some]
    rw [Except.rejectIf_of_not _ (by simp)]
    rfl

/-- The transcript of two hellos as an item. -/
def transcriptItem (self : Handshake) (peer : HelloView) (selection : Bytes) : Item :=
  (transcriptWire self.config.mode self.config.generation self.config.cluster (self.roleViews peer).1
    (self.roleViews peer).2 selection self.config.channelBinding).toItem

theorem fits_transcript (self : Handshake) (peer : HelloView) (selection : Bytes) :
    Fits controlCborLimits 0 (self.transcriptItem peer selection) := by
  have hgeneration : Fits controlCborLimits 1
      (Item.option .bytes (self.config.generation.map ByteValue.asBytes)) := by
    cases self.config.generation <;> exact trivial
  simp only [transcriptItem, TranscriptWire.toItem, transcriptWire, IdentityWire.ofView,
    IdentityWire.toItem, List.map_cons, List.map_nil, Fits, FitsAll, List.length_cons,
    List.length_nil, and_true, true_and]
  simp only [controlCborLimits]
  refine ⟨by omega, by omega, by decide, HandshakeMode.utf8_asStr _, hgeneration, ⟨by omega, by omega, by decide,
    by decide⟩, self.config.cluster.ascii.isUtf8, ⟨by omega, by omega, ⟨by omega, by omega, ?_⟩,
    by omega, by omega, ?_⟩, by omega, by omega⟩
  · exact (self.roleViews peer).1.nodeId.ascii.isUtf8
  · exact (self.roleViews peer).2.nodeId.ascii.isUtf8

theorem assembleTranscript_eq (self : Handshake) (peer : HelloView) (selection : Bytes) :
    assembleTranscript self.config.mode self.config.generation self.config.cluster
      (self.roleViews peer).1 (self.roleViews peer).2 selection self.config.channelBinding =
      if (self.transcriptItem peer selection).size ≤ 65536 then
        .ok (self.transcriptItem peer selection).encode
      else .error (.malformed "handshake transcript") := by
  have hencode : encodeCanonical (encodeOnly TranscriptWire.toItem) (transcriptWire self.config.mode
      self.config.generation self.config.cluster (self.roleViews peer).1 (self.roleViews peer).2
      selection self.config.channelBinding) controlCborLimits =
      if (self.transcriptItem peer selection).size ≤ controlCborLimits.maxBodyLen then
        .ok (self.transcriptItem peer selection).encode
      else .error (.invalidInput "CBOR encode") :=
    encodeCanonical_item _ _ rfl (by decide) (by decide) (self.fits_transcript peer selection) (by decide)
  by_cases hsize : (self.transcriptItem peer selection).size ≤ 65536
  · rw [if_pos (show _ ≤ controlCborLimits.maxBodyLen from hsize)] at hencode
    rw [assembleTranscript, hencode, if_pos hsize]
    rfl
  · rw [if_neg (show ¬ _ ≤ controlCborLimits.maxBodyLen from hsize)] at hencode
    rw [assembleTranscript, hencode, if_neg hsize]
    rfl

/-- The hellos are accepted if and only if the transcript fits. -/
theorem finalizeHellos_eq {self : Handshake} (peer : HelloView) {selection : Selection}
    (hpeer : self.peerHello = some peer)
    (hselect : select self.registry self.localView.offer peer.offer self.localView.offer.required
      peer.offer.required = .ok selection) :
    self.finalizeHellos =
      if (self.transcriptItem peer selection.bytes).size ≤ 65536 then
        .ok { self with
          selection := some selection
          transcript := some (self.transcriptItem peer selection.bytes).encode }
      else .error (.malformed "handshake transcript") := by
  have htranscript := self.assembleTranscript_eq peer selection.bytes
  simp only [finalizeHellos, hpeer, Except.okOr, hselect, Except.mapError, Except.ok_bind_eq,
    htranscript]
  by_cases hsize : (self.transcriptItem peer selection.bytes).size ≤ 65536
  · simp only [if_pos hsize, Except.ok_bind_eq]
    rfl
  · simp only [if_neg hsize, Except.error_bind_eq]

/-- An endpoint after both hellos, at a later position. -/
def met (config : HandshakeConfig) (registry : FeatureRegistry) (peer : HelloView)
    (selection : Selection) (transcript : Bytes) (completed : Nat) : Handshake :=
  { initial config registry with
    completed := completed
    peerHello := some peer
    selection := some selection
    transcript := some transcript }

/-- An endpoint of a checked configuration derives a proof that its peer verifies. -/
theorem exists_localProof (role : ProofRole) (self other : Handshake) {transcript : Bytes}
    (hinputs : checkInputs self.config = .ok ()) (hself : self.transcript = some transcript)
    (hother : other.transcript = some transcript) (hmode : other.config.mode = self.config.mode)
    (hcredential : other.config.credential = self.config.credential)
    (hbinding : other.config.channelBinding = self.config.channelBinding) :
    ∃ proof, self.deriveLocalProof role = .ok proof ∧ other.checkProof role proof = .ok () := by
  unfold deriveLocalProof checkProof
  rw [hmode]
  cases hkind : self.config.mode with
  | member => exact ⟨none, rfl, rfl⟩
  | join =>
    rw [checkInputs, hkind] at hinputs
    simp only [Except.rejectIf_eq_ok, not_or] at hinputs
    obtain ⟨secret, hsecret⟩ := Option.ne_none_iff_exists'.mp hinputs.2
    obtain ⟨proof, hderive, hverify⟩ := exists_deriveProof role self.config.channelBinding secret
      (bodyDigest transcript)
    refine ⟨some proof, ?_, ?_⟩
    · simp only [hsecret, transcriptDigest, hself, Option.map_some, Except.okOr, Except.ok_bind_eq,
        hderive, Except.mapError]
      rfl
    · simp only [hcredential, hsecret, transcriptDigest, hother, Option.map_some, Except.okOr,
        Except.ok_bind_eq, hbinding, hverify, Except.mapError]
      rfl

/-- The hello of the initiator. -/
def initiatorHelloItem (config : HandshakeConfig) : Item :=
  .array [.uint HandshakeKind.initiatorHello.kindId, .text config.mode.asStr,
    .option .bytes (config.generation.map ByteValue.asBytes), .text config.cluster.asStr,
    .text config.localId.asStr, .bytes config.localKey.asBytes, .bytes config.localNonce.asBytes,
    .bytes config.localOffer.wire.toItem.encode]

/-- The hello of the responder. -/
def responderHelloItem (config : HandshakeConfig) : Item :=
  .array [.uint HandshakeKind.responderHello.kindId, .text config.cluster.asStr,
    .text config.localId.asStr, .bytes config.localKey.asBytes, .bytes config.localNonce.asBytes,
    .bytes config.localOffer.wire.toItem.encode]

omit [DnsName] in
/-- A message that reads as a proof message has its three fields. -/
theorem length_of_decodeProof {fields : List Item} {wire : ProofWire}
    (hsize : (Item.array fields).size < 2 ^ 64)
    (h : decodeWire ProofWire.codec (Item.array fields).encode = .ok wire) : fields.length = 3 := by
  rw [decodeWire, Except.mapError_eq_ok] at h
  simp only [decodeCanonicalStrictOr, Except.bind_eq_ok, Except.mapError_eq_ok,
    Except.rejectIf_eq_ok, exists_const, not_not] at h
  obtain ⟨value, -, encoded, hencoded, hsame, hvalue⟩ := h
  cases hvalue
  have hbytes := (encodeCanonical_eq_ok hencoded).1
  have hitem : Item.array fields = wire.toItem := Item.encode_inj hsize (by rw [← hsame]; exact hbytes)
  rw [Item.array.inj hitem]
  rfl

section Exchange

variable [Ed25519]

variable {self : Handshake}

/-- What `accept` makes of a message that `receivePosition` settles. -/
theorem accept_of_receive {bytes : Bytes} (result : Except HandshakeError Handshake)
    (h : self.receive bytes = self.settle result) : self.accept bytes = result := by
  rw [accept, h]
  cases result <;> rfl

theorem accept_hello {bytes : Bytes} {view : HelloView}
    (h : self.receive bytes = self.acceptPeerHello (.ok view)) :
    self.accept bytes = advance <$> finalizeHellos { self with peerHello := some view } := by
  rw [accept, h, acceptPeerHello]
  cases finalizeHellos { self with peerHello := some view } <;> rfl

variable {transcript : Bytes}

/-- A proof message with the proof and the signature of the peer is accepted. -/
theorem receiveProof_eq {role : Role} (kind : UInt64) {peer : HelloView}
    {proof : Option CredentialProof} {signature : Signature}
    (hproof : self.checkProof role.proofRole proof = .ok ()) (hpeer : self.peerHello = some peer)
    (htranscript : self.transcript = some transcript)
    (haccepts : Ed25519.accepts peer.publicKey (role.sessionMessage transcript) signature = true) :
    self.receiveProof (Item.array [.uint kind, .option .bytes (proof.map ByteValue.asBytes),
      .bytes signature.asBytes]).encode role.sessionDomain role.proofRole = .ok () := by
  have hdecode := (sendable_proof kind proof signature).decodeWire_eq
  have hsignature : handshakeBytes signatureLen signature.asBytes "handshake signature" =
      .ok signature := handshakeBytes_eq_ok.mpr rfl
  have hverify : verifyStrict role.sessionDomain transcript peer.publicKey signature
      "handshake session signature" = .ok () := by
    rw [verifyStrict, Except.rejectIf_eq_ok, not_not]
    exact haccepts
  simp only [receiveProof, hdecode, optionalBytes_map, hproof, hsignature, hpeer, htranscript,
    Except.okOr, hverify, Except.mapError, Except.ok_bind_eq]

/-! ## The exchange -/

variable {initiator responder : HandshakeConfig} {registry : FeatureRegistry} {selection : Selection}

omit [Ed25519] in
/-- Both endpoints assemble one transcript. -/
theorem transcriptItem_swap (hpair : HonestPair initiator responder) (bytes : Bytes) :
    (initial responder registry).transcriptItem initiator.view bytes =
      (initial initiator registry).transcriptItem responder.view bytes := by
  simp only [transcriptItem, roleViews, initial, hpair.initiatorRole, hpair.responderRole,
    hpair.mode, hpair.generation, hpair.cluster, hpair.channelBinding]

omit [Ed25519] in
private theorem length_offer_le (config : HandshakeConfig) :
    config.localOffer.wire.toItem.encode.length ≤ 55687 := by
  rw [Item.length_encode]
  exact config.localOffer.size_wire_le

omit [Ed25519] in
theorem size_initiatorHelloItem_lt (config : HandshakeConfig) :
    (initiatorHelloItem config).size < 2 ^ 64 :=
  (sendable_initiatorHello _ _ _ _ _ _ _ (length_offer_le config)).small.trans_lt (by omega)

omit [Ed25519] in
theorem size_responderHelloItem_lt (config : HandshakeConfig) :
    (responderHelloItem config).size < 2 ^ 64 :=
  (sendable_responderHello _ _ _ _ _ (length_offer_le config)).small.trans_lt (by omega)

omit [Ed25519] in
theorem initiatorHello_eq (hrole : initiator.role = .initiator) :
    (initial initiator registry).initiatorHello =
      .ok ((initiatorHelloItem initiator).encode, (initial initiator registry).advance) := by
  rw [initiatorHello, beginSend_eq hrole rfl]
  exact finishSend_eq (sendable_initiatorHello _ _ _ _ _ _ _ (length_offer_le initiator))

omit [Ed25519] in
/-- Both hellos are in, and the next position is reached, if the transcript fits. -/
theorem advance_finalizeHellos {config peer : HandshakeConfig} {position : Nat}
    (hself : self = { initial config registry with completed := position, peerHello := some peer.view })
    {next : Nat} (hnext : next = position + 1)
    (hselect : select registry config.localOffer peer.localOffer config.localOffer.required
      peer.localOffer.required = .ok selection) :
    advance <$> self.finalizeHellos =
      if ((initial config registry).transcriptItem peer.view selection.bytes).size ≤ 65536 then
        .ok (met config registry peer.view selection
          ((initial config registry).transcriptItem peer.view selection.bytes).encode next)
      else .error (.malformed "handshake transcript") := by
  subst hself hnext
  rw [finalizeHellos_eq peer.view rfl hselect]
  show advance <$> (if ((initial config registry).transcriptItem peer.view selection.bytes).size ≤ 65536
    then _ else _) = _
  split <;> rfl

/-- The hello of the initiator passes every check of the responder before the offers are
    compared. -/
theorem receive_initiatorHello (hhosts : FoldedHosts) (hpair : HonestPair initiator responder)
    (hinputs : checkInputs responder = .ok ())
    (hlimits : initiator.localOffer.validateLimits registry = .ok ()) :
    (initial responder registry).receive (initiatorHelloItem initiator).encode =
      (initial responder registry).acceptPeerHello (.ok initiator.view) := by
  obtain ⟨supported, required, limits, hnew⟩ := hpair.initiatorOffer
  have hascending := FeatureOffer.ascending_of_new hnew
  have hsendable := sendable_initiatorHello HandshakeKind.initiatorHello.kindId initiator.mode
    initiator.generation initiator.cluster initiator.localId initiator.localKey initiator.localNonce
    (length_offer_le initiator)
  have hmode : ¬ initiator.mode ≠ (initial responder registry).config.mode := not_not.mpr hpair.mode
  have hgeneration : ¬ ¬ generationMatches (initial responder registry).config.mode
      initiator.generation (initial responder registry).config.generation = true := by
    rw [hpair.generation, not_not]
    exact generationMatches_of_checkInputs hinputs
  have hview := readPeerHello_view hhosts (initial responder registry)
    hpair.cluster hpair.distinctIds hpair.distinctKeys hpair.responderExpects hascending hlimits
  have hread : (initial responder registry).readInitiatorHello (initiatorHelloItem initiator).encode =
      .ok initiator.view := by
    rw [initiatorHelloItem, readInitiatorHello, hsendable.decodeWire_eq]
    simp only [Except.ok_bind_eq, parse_mode, optionalBytes_map, Except.rejectIf_of_not _ hmode,
      Except.rejectIf_of_not _ hgeneration, hview]
  have hsender : positionSender .initiatorHello ≠ (initial responder registry).config.role := by
    show Role.initiator ≠ responder.role
    rw [hpair.responderRole]
    decide
  rw [initiatorHelloItem, receive_eq hsendable rfl hsender rfl (by decide)]
  exact congrArg (acceptPeerHello _) hread

/-- The responder accepts the hello of the initiator if and only if the transcript fits. -/
theorem accept_initiatorHello (hhosts : FoldedHosts) (hpair : HonestPair initiator responder)
    (hinputs : checkInputs responder = .ok ())
    (hlimits : initiator.localOffer.validateLimits registry = .ok ())
    (hselect : select registry responder.localOffer initiator.localOffer responder.localOffer.required
      initiator.localOffer.required = .ok selection) :
    (initial responder registry).accept (initiatorHelloItem initiator).encode =
      if ((initial responder registry).transcriptItem initiator.view selection.bytes).size ≤ 65536 then
        .ok (met responder registry initiator.view selection
          ((initial responder registry).transcriptItem initiator.view selection.bytes).encode 1)
      else .error (.malformed "handshake transcript") := by
  rw [accept_hello (receive_initiatorHello hhosts hpair hinputs hlimits)]
  exact advance_finalizeHellos rfl rfl hselect

omit [Ed25519] in
theorem responderHello_eq (hrole : responder.role = .responder) {peer : HelloView} :
    (met responder registry peer selection transcript 1).responderHello =
      .ok ((responderHelloItem responder).encode, met responder registry peer selection transcript 2) := by
  rw [responderHello, beginSend_eq hrole rfl]
  exact finishSend_eq (sendable_responderHello _ _ _ _ _ (length_offer_le responder))

/-- The initiator accepts the hello of the responder if and only if the transcript fits. -/
theorem accept_responderHello (hhosts : FoldedHosts) (hpair : HonestPair initiator responder)
    (hlimits : responder.localOffer.validateLimits registry = .ok ())
    (hselect : select registry initiator.localOffer responder.localOffer initiator.localOffer.required
      responder.localOffer.required = .ok selection) :
    (initial initiator registry).advance.accept (responderHelloItem responder).encode =
      if ((initial initiator registry).transcriptItem responder.view selection.bytes).size ≤ 65536 then
        .ok (met initiator registry responder.view selection
          ((initial initiator registry).transcriptItem responder.view selection.bytes).encode 2)
      else .error (.malformed "handshake transcript") := by
  obtain ⟨supported, required, limits, hnew⟩ := hpair.responderOffer
  have hascending := FeatureOffer.ascending_of_new hnew
  have hsendable := sendable_responderHello HandshakeKind.responderHello.kindId responder.cluster
    responder.localId responder.localKey responder.localNonce (length_offer_le responder)
  have hview := readPeerHello_view hhosts (initial initiator registry).advance
    hpair.cluster.symm hpair.distinctIds.symm hpair.distinctKeys.symm
    hpair.initiatorExpects hascending hlimits
  have hread : (initial initiator registry).advance.readResponderHello
      (responderHelloItem responder).encode = .ok responder.view := by
    rw [responderHelloItem, readResponderHello, hsendable.decodeWire_eq]
    exact hview
  have hreceive : (initial initiator registry).advance.receive (responderHelloItem responder).encode =
      (initial initiator registry).advance.acceptPeerHello (.ok responder.view) := by
    have hsender : positionSender .responderHello ≠ (initial initiator registry).advance.config.role := by
      show Role.responder ≠ initiator.role
      rw [hpair.initiatorRole]
      decide
    rw [responderHelloItem, receive_eq hsendable rfl hsender rfl (by decide)]
    exact congrArg (acceptPeerHello _) hread
  rw [accept_hello hreceive]
  exact advance_finalizeHellos rfl rfl hselect

/-- The message with the proof of a role. -/
theorem receivePosition_proof (self : Handshake) (role : Role) (bytes : Bytes) :
    self.receivePosition role.proofKind bytes = self.settle (do
      self.receiveProof bytes role.sessionDomain role.proofRole
      return self.advance) := by
  cases role <;> rfl

variable (registry selection) in
/-- The proof of one endpoint is sent at its position and accepted by the other. -/
theorem proof_exchanged {sender receiver : HandshakeConfig} (peer peer' : HelloView)
    (position : Nat) (role : Role) (hposition : position + 1 = role.proofKind.position)
    (hsender : sender.role = role) (hreceiver : receiver.role = role.other)
    (hinputs : checkInputs sender = .ok ()) (hmode : receiver.mode = sender.mode)
    (hcredential : receiver.credential = sender.credential)
    (hbinding : receiver.channelBinding = sender.channelBinding) {signature : Signature}
    (haccepts : Ed25519.accepts peer'.publicKey (role.sessionMessage transcript) signature = true) :
    ∃ bytes, (met sender registry peer selection transcript position).sendProof role.proofKind role
        role.proofRole signature =
          .ok (bytes, met sender registry peer selection transcript (position + 1)) ∧
      (met receiver registry peer' selection transcript position).accept bytes =
        .ok (met receiver registry peer' selection transcript (position + 1)) ∧
      ∃ wire, decodeWire ProofWire.codec bytes = .ok wire ∧ wire.signature = signature.asBytes := by
  obtain ⟨proof, hderive, hcheck⟩ := exists_localProof role.proofRole
    (met sender registry peer selection transcript position)
    (met receiver registry peer' selection transcript position)
    hinputs rfl rfl hmode hcredential hbinding
  have hsendable := sendable_proof role.proofKind.kindId proof signature
  refine ⟨(Item.array [.uint role.proofKind.kindId, .option .bytes (proof.map ByteValue.asBytes),
    .bytes signature.asBytes]).encode, ?_, ?_, _, hsendable.decodeWire_eq, rfl⟩
  · rw [sendProof, beginSend_eq hsender hposition]
    simp only [Except.ok_bind_eq, hderive]
    exact finishSend_eq hsendable
  · have hproof := receiveProof_eq role.proofKind.kindId hcheck rfl rfl haccepts
    have hother : positionSender role.proofKind ≠ receiver.role := by
      rw [hreceiver]
      cases role <;> decide
    refine accept_of_receive (.ok _) ?_
    rw [receive_eq hsendable (by cases role <;> rfl) hother hposition (by cases role <;> decide),
      receivePosition_proof, hproof]
    rfl

variable (registry) in
/-- The confirmation of the selection is sent and accepted. -/
theorem confirmation_exchanged (hpair : HonestPair initiator responder) (peer peer' : HelloView)
    (transcript : Bytes) (hselection : selection.bytes.length ≤ 65520) :
    ∃ bytes, (met responder registry peer selection transcript 4).selectionConfirmation =
        .ok (bytes, met responder registry peer selection transcript 5) ∧
      (met initiator registry peer' selection transcript 4).accept bytes =
        .ok (met initiator registry peer' selection transcript 5) ∧
      ∀ wire, decodeWire ProofWire.codec bytes ≠ .ok wire := by
  have hsendable := sendable_confirmation HandshakeKind.selectionConfirmation.kindId hselection
  refine ⟨(Item.array [.uint HandshakeKind.selectionConfirmation.kindId,
    .bytes selection.bytes]).encode, ?_, ?_, fun wire hwire => ?_⟩
  · rw [selectionConfirmation, beginSend_eq hpair.responderRole rfl]
    exact finishSend_eq hsendable
  · have hsender : positionSender .selectionConfirmation ≠ initiator.role := by
      rw [hpair.initiatorRole]
      decide
    have hconfirmation : (met initiator registry peer' selection transcript 4).receiveConfirmation
        (Item.array [.uint HandshakeKind.selectionConfirmation.kindId, .bytes selection.bytes]).encode =
          .ok () := by
      rw [receiveConfirmation, hsendable.decodeWire_eq]
      exact Except.rejectIf_of_not _ (not_not.mpr rfl)
    refine accept_of_receive (.ok _) ?_
    rw [receive_eq hsendable rfl hsender rfl (by decide), receivePosition, hconfirmation]
    rfl
  · exact absurd (length_of_decodeProof (hsendable.small.trans_lt (by omega)) hwire) (by simp)

/-- The messages of an exchange, and what each endpoint is after each of them. -/
structure Lockstep (initiator responder : HandshakeConfig) (registry : FeatureRegistry)
    (selection : Selection) (transcript : Bytes) (signature signature' : Signature)
    (proof proof' confirmation : Bytes) : Prop where
  hello : (initial initiator registry).initiatorHello =
    .ok ((initiatorHelloItem initiator).encode, (initial initiator registry).advance)
  helloAccepted : (initial responder registry).accept (initiatorHelloItem initiator).encode =
    .ok (met responder registry initiator.view selection transcript 1)
  answer : (met responder registry initiator.view selection transcript 1).responderHello =
    .ok ((responderHelloItem responder).encode, met responder registry initiator.view selection transcript 2)
  answerAccepted : (initial initiator registry).advance.accept (responderHelloItem responder).encode =
    .ok (met initiator registry responder.view selection transcript 2)
  proved : (met responder registry initiator.view selection transcript 2).responderProof signature' =
    .ok (proof, met responder registry initiator.view selection transcript 3)
  proofAccepted : (met initiator registry responder.view selection transcript 2).accept proof =
    .ok (met initiator registry responder.view selection transcript 3)
  proved' : (met initiator registry responder.view selection transcript 3).initiatorProof signature =
    .ok (proof', met initiator registry responder.view selection transcript 4)
  proofAccepted' : (met responder registry initiator.view selection transcript 3).accept proof' =
    .ok (met responder registry initiator.view selection transcript 4)
  confirmed : (met responder registry initiator.view selection transcript 4).selectionConfirmation =
    .ok (confirmation, met responder registry initiator.view selection transcript 5)
  confirmationAccepted :
    (met initiator registry responder.view selection transcript 4).accept confirmation =
      .ok (met initiator registry responder.view selection transcript 5)
  carries : ∃ wire, decodeWire ProofWire.codec proof = .ok wire ∧ wire.signature = signature'.asBytes
  carries' : ∃ wire, decodeWire ProofWire.codec proof' = .ok wire ∧ wire.signature = signature.asBytes
  carriesNone : ∀ bytes ∈ [(initiatorHelloItem initiator).encode, (responderHelloItem responder).encode,
    confirmation], ∀ wire, decodeWire ProofWire.codec bytes ≠ .ok wire

end Exchange

end Handshake

end Endpoint

end Radiata
