import Radiata.Spec.HandshakeLockstep

/-!
# Honest handshakes

The lockstep exchange of two honest endpoints completes exactly when its transcript fits
the body limit. The capacities of an offer count entries, so two legal offers can be too
long for one transcript.

## Key results

- `exists_lockstep`: with room for the transcript every message is accepted
- `honest_handshake_completes_iff`: the lockstep exchange
-/

namespace Radiata

open Cbor (Item)

section Endpoint

variable [DnsName]

/-- The length of the transcript of two hellos and a selection: the fixed fields, the two
    encoded offers and the selection. -/
def transcriptLength (initiator responder : HandshakeConfig) (selection : Bytes) : Nat :=
  (match initiator.mode with | .join => 312 | .member => 298) +
    (Item.bytes initiator.localOffer.wire.toItem.encode).size +
    (Item.bytes responder.localOffer.wire.toItem.encode).size + (Item.bytes selection).size

variable {initiator responder : HandshakeConfig}

theorem size_transcriptItem (registry : FeatureRegistry) (hpair : HonestPair initiator responder)
    (hinputs : Handshake.checkInputs initiator = .ok ()) (selection : Bytes) :
    ((Handshake.initial initiator registry).transcriptItem responder.view selection).size =
      transcriptLength initiator responder selection := by
  have hid : ∀ id : NodeId, (Item.text id.asStr).size = 28 := by
    intro id
    rw [Item.size, id.length_asStr]
    decide
  have hkey : ∀ key : ByteValue 32, (Item.bytes key.asBytes).size = 34 := by
    intro key
    rw [Item.size, key.width]
    decide
  have hcluster : (Item.text initiator.cluster.asStr).size = 31 := by
    rw [Item.size, initiator.cluster.length_asStr]
    decide
  have hmode : (Item.text initiator.mode.asStr).size +
      (Item.option .bytes (initiator.generation.map ByteValue.asBytes)).size =
        match initiator.mode with | .join => 22 | .member => 8 := by
    unfold Handshake.checkInputs at hinputs
    cases hmode : initiator.mode with
    | join =>
      rw [hmode] at hinputs
      simp only [Except.rejectIf_eq_ok, not_or] at hinputs
      obtain ⟨generation, hgeneration⟩ := Option.ne_none_iff_exists'.mp hinputs.1
      rw [hgeneration, Option.map_some, Item.option, Item.size, Item.size, generation.width]
      decide
    | member =>
      rw [hmode] at hinputs
      simp only [Except.rejectIf_eq_ok, not_or, not_not] at hinputs
      rw [hinputs.1]
      decide
  have hmagic : (Item.text protocolMagic).size = 5 := by decide
  have hschema : (Item.uint baseSchemaId).size = 1 := by decide
  have hroles : (Item.array ([Role.initiator.asStr, Role.responder.asStr].map .text)).size = 21 := by
    decide
  simp only [Handshake.transcriptItem, Handshake.roleViews, Handshake.initial, hpair.initiatorRole,
    transcriptWire, TranscriptWire.toItem, IdentityWire.ofView, HandshakeConfig.view]
  show Cbor.headLen 11 + ((Item.text protocolMagic).size + ((Item.uint baseSchemaId).size +
    ((Item.text _).size + ((Item.option _ _).size + ((Item.array _).size + ((Item.text _).size +
      ((Cbor.headLen 2 + ((Cbor.headLen 2 + ((Item.text _).size + ((Item.bytes _).size + 0))) +
        ((Cbor.headLen 2 + ((Item.text _).size + ((Item.bytes _).size + 0))) + 0))) +
      ((Cbor.headLen 2 + ((Item.bytes _).size + ((Item.bytes _).size + 0))) +
      ((Cbor.headLen 2 + ((Item.bytes _).size + ((Item.bytes _).size + 0))) +
      ((Item.bytes _).size + ((Item.bytes _).size + 0))))))))))) = _
  rw [show Cbor.headLen 11 = 1 by decide, show Cbor.headLen 2 = 1 by decide, hmagic, hschema, hroles,
    hcluster, hid, hid, hkey, hkey, hkey, hkey, hkey, transcriptLength]
  cases hkind : initiator.mode with
  | join | member =>
    rw [hkind] at hmode
    dsimp only at hmode ⊢
    omega

variable {registry : FeatureRegistry} {selection : Selection}

/-- The responder computes the selection of the initiator. -/
theorem select_of_honestPair (hpair : HonestPair initiator responder)
    (hselect : select registry initiator.localOffer responder.localOffer initiator.localOffer.required
      responder.localOffer.required = .ok selection) :
    select registry responder.localOffer initiator.localOffer responder.localOffer.required
      initiator.localOffer.required = .ok selection := by
  obtain ⟨_, _, _, hnew⟩ := hpair.initiatorOffer
  obtain ⟨_, _, _, hnew'⟩ := hpair.responderOffer
  exact select_swap (FeatureOffer.ascending_of_new hnew) (FeatureOffer.ascending_of_new hnew')
    (AgreeOn.refl _ registry) hselect

/-- With room for the transcript every message is accepted. -/
theorem exists_lockstep [Ed25519] (hhosts : FoldedHosts) {signature signature' : Signature}
    {transcript : Bytes} (hpair : HonestPair initiator responder)
    (hinputs : Handshake.checkInputs initiator = .ok ())
    (hinputs' : Handshake.checkInputs responder = .ok ())
    (hlimits : initiator.localOffer.validateLimits registry = .ok ())
    (hlimits' : responder.localOffer.validateLimits registry = .ok ())
    (hselect : select registry initiator.localOffer responder.localOffer initiator.localOffer.required
      responder.localOffer.required = .ok selection)
    (hfits : transcriptLength initiator responder selection.bytes ≤ 65536)
    (htranscript : transcript = ((Handshake.initial initiator registry).transcriptItem responder.view
      selection.bytes).encode)
    (haccepts : Ed25519.accepts initiator.localKey (initiatorSessionMessage transcript) signature = true)
    (haccepts' : Ed25519.accepts responder.localKey (responderSessionMessage transcript) signature' =
      true) :
    ∃ proof proof' confirmation, Handshake.Lockstep initiator responder registry selection transcript
      signature signature' proof proof' confirmation := by
  have hhello := Handshake.accept_initiatorHello hhosts hpair hinputs' hlimits
    (select_of_honestPair hpair hselect)
  have hanswer := Handshake.accept_responderHello hhosts hpair hlimits' hselect
  have hsize := size_transcriptItem registry hpair hinputs selection.bytes
  rw [Handshake.transcriptItem_swap hpair, hsize, if_pos hfits, ← htranscript] at hhello
  rw [hsize, if_pos hfits, ← htranscript] at hanswer
  have hselection : selection.bytes.length ≤ 65520 := by
    rw [transcriptLength, Item.size, Item.size, Item.size] at hfits
    split at hfits <;> omega
  obtain ⟨proof, hproof, hproofAccepted, hcarries⟩ := Handshake.proof_exchanged registry
    selection initiator.view responder.view 2 .responder rfl hpair.responderRole hpair.initiatorRole hinputs' hpair.mode hpair.credential
    hpair.channelBinding haccepts'
  obtain ⟨proof', hproof', hproofAccepted', hcarries'⟩ := Handshake.proof_exchanged
    registry selection responder.view initiator.view 3 .initiator rfl hpair.initiatorRole hpair.responderRole hinputs
    hpair.mode.symm hpair.credential.symm hpair.channelBinding.symm haccepts
  obtain ⟨confirmation, hconfirmation, hconfirmed, hnone⟩ := Handshake.confirmation_exchanged
    registry hpair initiator.view responder.view transcript hselection
  refine ⟨proof, proof', confirmation, Handshake.initiatorHello_eq hpair.initiatorRole, hhello,
    Handshake.responderHello_eq hpair.responderRole, hanswer, hproof, hproofAccepted, hproof',
    hproofAccepted', hconfirmation, hconfirmed, hcarries, hcarries', ?_⟩
  intro bytes hbytes wire hwire
  simp only [List.mem_cons, List.not_mem_nil, or_false] at hbytes
  rcases hbytes with rfl | rfl | rfl
  · exact absurd (Handshake.length_of_decodeProof (Handshake.size_initiatorHelloItem_lt initiator)
      hwire) (by simp)
  · exact absurd (Handshake.length_of_decodeProof (Handshake.size_responderHelloItem_lt responder)
      hwire) (by simp)
  · exact hnone wire hwire

variable {signInitiator signResponder : Bytes → Signature}

/-- The exchange whose messages are all accepted ends with both endpoints authenticated. -/
theorem exchange_of_lockstep [Ed25519] {transcript proof proof' confirmation : Bytes}
    (h : Handshake.Lockstep initiator responder registry selection transcript
      (signInitiator (initiatorSessionMessage transcript))
      (signResponder (responderSessionMessage transcript)) proof proof' confirmation) :
    Handshake.exchange (.initial initiator registry) (.initial responder registry) signInitiator
        signResponder =
      .ok (Handshake.met initiator registry responder.view selection transcript 5,
        Handshake.met responder registry initiator.view selection transcript 5) := by
  have hheld : ∀ config view n, (Handshake.met config registry view selection transcript n).transcript =
      some transcript := fun _ _ _ => rfl
  simp only [Handshake.exchange, h.hello, h.helloAccepted, h.answer, h.answerAccepted, hheld,
    Except.okOr, h.proved, h.proofAccepted, h.proved', h.proofAccepted', h.confirmed,
    h.confirmationAccepted, Except.ok_bind_eq]
  rfl

/-- Without room for the transcript the first hello is refused. -/
theorem exchange_eq_error [Ed25519] (hhosts : FoldedHosts)
    (hpair : HonestPair initiator responder) (hinputs : Handshake.checkInputs initiator = .ok ())
    (hinputs' : Handshake.checkInputs responder = .ok ())
    (hlimits : initiator.localOffer.validateLimits registry = .ok ())
    (hselect : select registry responder.localOffer initiator.localOffer responder.localOffer.required
      initiator.localOffer.required = .ok selection)
    (hlong : ¬ transcriptLength initiator responder selection.bytes ≤ 65536) :
    Handshake.exchange (.initial initiator registry) (.initial responder registry) signInitiator
      signResponder = .error (.malformed "handshake transcript") := by
  have hhello := Handshake.accept_initiatorHello hhosts hpair hinputs' hlimits hselect
  rw [Handshake.transcriptItem_swap hpair, size_transcriptItem registry hpair hinputs, if_neg hlong] at hhello
  simp only [Handshake.exchange, Handshake.initiatorHello_eq hpair.initiatorRole, hhello,
    Except.ok_bind_eq, Except.error_bind_eq]

/-- The lockstep exchange of two honest endpoints with honest signatures completes with one
    transcript and one selection if and only if the transcript fits the body limit. -/
theorem honest_handshake_completes_iff [Ed25519] (hhosts : FoldedHosts)
    (initiator responder : HandshakeConfig) (registry : FeatureRegistry) (selection : Selection)
    (signInitiator signResponder : Bytes → Signature) (first second : Handshake)
    (hpair : HonestPair initiator responder) (hfirst : Handshake.new initiator registry = .ok first)
    (hsecond : Handshake.new responder registry = .ok second)
    (hselect : select registry initiator.localOffer responder.localOffer initiator.localOffer.required
      responder.localOffer.required = .ok selection)
    (hinitiator : ∀ message, Ed25519.accepts initiator.localKey message (signInitiator message) = true)
    (hresponder : ∀ message, Ed25519.accepts responder.localKey message (signResponder message) = true) :
    (∃ first' second' transcript,
        Handshake.exchange first second signInitiator signResponder = .ok (first', second') ∧
        first'.isAuthenticated = true ∧ second'.isAuthenticated = true ∧
        first'.transcript = some transcript ∧ second'.transcript = some transcript ∧
        first'.selection = some selection ∧ second'.selection = some selection) ↔
      transcriptLength initiator responder selection.bytes ≤ 65536 := by
  obtain ⟨hinputs, hlimits, rfl⟩ := Handshake.new_eq_ok.mp hfirst
  obtain ⟨hinputs', hlimits', rfl⟩ := Handshake.new_eq_ok.mp hsecond
  by_cases hfits : transcriptLength initiator responder selection.bytes ≤ 65536
  · obtain ⟨transcript, htranscript⟩ : ∃ transcript, transcript = ((Handshake.initial initiator
        registry).transcriptItem responder.view selection.bytes).encode := ⟨_, rfl⟩
    obtain ⟨proof, proof', confirmation, h⟩ := exists_lockstep hhosts hpair hinputs hinputs' hlimits
      hlimits' hselect hfits htranscript (hinitiator _) (hresponder _)
    exact iff_of_true ⟨Handshake.met initiator registry responder.view selection transcript 5,
      Handshake.met responder registry initiator.view selection transcript 5, transcript,
      exchange_of_lockstep h, rfl, rfl, rfl, rfl, rfl, rfl⟩ hfits
  · refine iff_of_false ?_ hfits
    rintro ⟨first', second', transcript', hexchange, -⟩
    rw [exchange_eq_error hhosts hpair hinputs hinputs' hlimits (select_of_honestPair hpair hselect)
      hfits] at hexchange
    cases hexchange

/-- A configuration of a member with the offer of its node. -/
def memberConfig (role : Role) (cluster : ClusterId) (localId peerId : NodeId)
    (localKey peerKey : PublicKey) (offer : FeatureOffer) : HandshakeConfig where
  mode := .member
  role := role
  cluster := cluster
  localId := localId
  localKey := localKey
  expectedPeer := some (peerId, peerKey)
  generation := none
  credential := none
  localNonce := .fill 0
  localOffer := offer
  channelBinding := .fill 0

variable {callerRequired : Finset FeatureTag} {offer : FeatureOffer}

/-- Two members of a cluster with the offers of one registry are an honest pair. -/
theorem honestPair_memberConfig (hoffer : nodeOffer registry callerRequired = .ok offer)
    (cluster : ClusterId) {id id' : NodeId} {key key' : PublicKey} (hid : id ≠ id')
    (hkey : key ≠ key') :
    HonestPair (memberConfig .initiator cluster id id' key key' offer)
      (memberConfig .responder cluster id' id key' key offer) where
  initiatorRole := rfl
  responderRole := rfl
  mode := rfl
  cluster := rfl
  channelBinding := rfl
  generation := rfl
  credential := rfl
  initiatorExpects := fun _ hbinding => (Option.some.inj hbinding).symm
  responderExpects := fun _ hbinding => (Option.some.inj hbinding).symm
  distinctIds := hid
  distinctKeys := hkey
  initiatorOffer := new_of_nodeOffer hoffer
  responderOffer := new_of_nodeOffer hoffer

variable {source : List FeatureDefinition}

/-- An offer of a registry has at most as many labels as the registry. -/
theorem length_labels_le (hbuild : FeatureRegistry.build source = .ok registry)
    (hoffers : Offers registry offer) :
    offer.supported.length ≤ source.length ∧ offer.required.length ≤ source.length := by
  have hsub : offer.supported.map Prod.fst ⊆ source.map FeatureDefinition.tag := by
    intro tag htag
    obtain ⟨⟨label, digest⟩, hentry, rfl⟩ := List.mem_map.mp htag
    obtain ⟨definition, hget, -⟩ := (hoffers.supported _ _).mp hentry
    obtain ⟨hmem, hlabel⟩ := (FeatureRegistry.get_of_build hbuild _ _).mp hget
    exact List.mem_map.mpr ⟨definition, hmem, hlabel⟩
  have hnodup : (offer.supported.map Prod.fst).Nodup :=
    (List.pairwise_map.mpr hoffers.ascending.supported).imp fun h => ne_of_lt h
  have hrequired : offer.required.Nodup := hoffers.ascending.required.imp fun h => ne_of_lt h
  have hsub' : offer.required ⊆ source.map FeatureDefinition.tag := by
    intro tag htag
    obtain ⟨entry, hentry, rfl⟩ := offer.wellFormed.requiredSupported tag htag
    exact hsub (List.mem_map_of_mem hentry)
  have hle := (hnodup.subperm hsub).length_le
  have hle' := (hrequired.subperm hsub').length_le
  simp only [List.length_map] at hle hle'
  exact ⟨hle, hle'⟩

/-- Two members with the offer of one acceptable registry start a handshake and select all
    its labels. -/
theorem exists_memberPair {builtins : List FeatureDefinition} {rank : FeatureTag → Nat}
    (hbuild : FeatureRegistry.build source = .ok registry) (h : Acceptable builtins source rank)
    (hoffer : nodeOffer registry callerRequired = .ok offer) (cluster : ClusterId)
    (id id' : NodeId) (key key' : PublicKey) :
    ∃ selection,
      Handshake.new (memberConfig .initiator cluster id id' key key' offer) registry =
        .ok (.initial (memberConfig .initiator cluster id id' key key' offer) registry) ∧
      Handshake.new (memberConfig .responder cluster id' id key' key offer) registry =
        .ok (.initial (memberConfig .responder cluster id' id key' key offer) registry) ∧
      select registry offer offer offer.required offer.required = .ok selection ∧
      selection.bytes = (selectionWire selection.features selection.limits).toItem.encode ∧
      selection.features.length ≤ source.length ∧ selection.limits.length ≤ 128 ∧
      ∀ definition ∈ source, definition.tag ∈ selection.features := by
  have hget := FeatureRegistry.get_of_build hbuild
  have hoffers := offers_of_nodeOffer hoffer
  have hconflicts : ∀ tag definition, registry.get tag = some definition → definition.conflicts = [] :=
    fun tag definition hdefinition => h.conflicts definition ((hget _ _).mp hdefinition).1
  have hdependencies : ∀ tag definition, registry.get tag = some definition →
      ∀ dependency ∈ definition.dependencies, ∃ other, registry.get dependency = some other := by
    intro tag definition hdefinition dependency hdependency
    obtain ⟨-, other, hother, heq⟩ :=
      h.dependencies definition ((hget _ _).mp hdefinition).1 dependency hdependency
    exact ⟨other, (hget _ _).mpr ⟨hother, heq⟩⟩
  obtain ⟨selection, hselect, hbytes, hfeatures, hlimits, hall⟩ :=
    exists_select hoffers hoffers hconflicts hdependencies
  refine ⟨selection, Handshake.new_eq_ok.mpr ⟨rfl, validateLimits_own hoffers, rfl⟩,
    Handshake.new_eq_ok.mpr ⟨rfl, validateLimits_own hoffers, rfl⟩, hselect, hbytes,
    hfeatures.trans (length_labels_le hbuild hoffers).1, hlimits, ?_⟩
  intro definition hmem
  exact (hall _).mpr ⟨definition, (hget _ _).mpr ⟨hmem, rfl⟩⟩

/-- The offers and the selection of a small registry leave room for the transcript. -/
theorem transcriptLength_le_of_small (initiator responder : HandshakeConfig)
    (hbuild : FeatureRegistry.build source = .ok registry) (hsmall : source.length ≤ 13)
    (hoffers : Offers registry initiator.localOffer)
    (hoffers' : Offers registry responder.localOffer)
    (hbytes : selection.bytes = (selectionWire selection.features selection.limits).toItem.encode)
    (hfeatures : selection.features.length ≤ source.length)
    (hlimits : selection.limits.length ≤ 128) :
    transcriptLength initiator responder selection.bytes ≤ 65536 := by
  have hoffer : ∀ {offer : FeatureOffer}, Offers registry offer → offer.wire.toItem.size ≤ 21761 := by
    intro offer hoffers
    obtain ⟨hs, hr⟩ := length_labels_le hbuild hoffers
    exact (FeatureOffer.size_wire_le_of (hs.trans hsmall) (hr.trans hsmall)).trans (by decide)
  have hsize := hoffer hoffers
  have hsize' := hoffer hoffers'
  have hselection := (size_selectionWire_le (hfeatures.trans hsmall) hlimits).trans
    (show _ ≤ 19615 by decide)
  have hhead : ∀ item : Item, item.size ≤ 21761 → (Item.bytes item.encode).size ≤ item.size + 3 := by
    intro item hitem
    have := Cbor.headLen_le_three (show item.size < 65536 by omega)
    rw [Item.size, Item.length_encode]
    omega
  have hfirst := hhead _ hsize
  have hsecond := hhead _ hsize'
  have hthird := hhead _ (hselection.trans (by decide))
  rw [transcriptLength, hbytes]
  split <;> omega

end Endpoint

/-! ## Sample handshakes -/

def sampleCluster : ClusterId := ⟨Bytes.utf8 "cluster_000000000000000000000", by decide⟩
def sampleInitiatorId : NodeId := ⟨Bytes.utf8 "node_000000000000000000000", by decide⟩
def sampleResponderId : NodeId := ⟨Bytes.utf8 "node_111111111111111111111", by decide⟩
def sampleInitiatorKey : PublicKey := .fill 1
def sampleResponderKey : PublicKey := ⟨List.replicate 32 2, rfl⟩

/-- Two members of a cluster with one offer. -/
def sampleInitiator (offer : @FeatureOffer .hostNames) : @HandshakeConfig .hostNames :=
  letI := DnsName.hostNames
  memberConfig .initiator sampleCluster sampleInitiatorId sampleResponderId sampleInitiatorKey
    sampleResponderKey offer

def sampleResponder (offer : @FeatureOffer .hostNames) : @HandshakeConfig .hostNames :=
  letI := DnsName.hostNames
  memberConfig .responder sampleCluster sampleResponderId sampleInitiatorId sampleResponderKey
    sampleInitiatorKey offer

/-- A keyed hash in place of a signature. -/
def sampleSign (key : PublicKey) (message : Bytes) : Signature :=
  ⟨(sha256 (key.asBytes ++ message)).asBytes ++ (sha256 message).asBytes, by
    rw [List.length_append, Digest.width, Digest.width]⟩

/-- The scheme that accepts exactly the keyed hashes. -/
@[reducible] def sampleScheme : Ed25519 :=
  ⟨fun key message signature => decide (signature = sampleSign key message)⟩

/-- The sample scheme accepts what it signs. -/
theorem verifyStrict_sampleSign (domain body : Bytes) (key : PublicKey) (context : String) :
    @verifyStrict sampleScheme domain body key (sampleSign key (signatureMessage domain body))
      context = .ok () :=
  Except.rejectIf_of_not _ (not_not.mpr (decide_eq_true rfl))

/-- Two members with the built-in features select, and their transcript fits. -/
theorem exists_samplePair :
    letI := DnsName.hostNames
    ∃ (registry : FeatureRegistry) (offer : FeatureOffer) (selection : Selection),
      nodeOffer registry ∅ = .ok offer ∧
      HonestPair (sampleInitiator offer) (sampleResponder offer) ∧
      Handshake.new (sampleInitiator offer) registry =
        .ok (.initial (sampleInitiator offer) registry) ∧
      Handshake.new (sampleResponder offer) registry =
        .ok (.initial (sampleResponder offer) registry) ∧
      select registry offer offer offer.required offer.required = .ok selection ∧
      transcriptLength (sampleInitiator offer) (sampleResponder offer) selection.bytes ≤ 65536 := by
  let _ := DnsName.hostNames
  obtain ⟨registry, -, offer, -, hbuild, -, hoffer, -⟩ := exists_sampleOffers
  have hoffers := offers_of_nodeOffer hoffer
  obtain ⟨selection, hfirst, hsecond, hselect, hbytes, hfeatures, hlimits, -⟩ :=
    exists_memberPair hbuild acceptable_sampleBuiltins hoffer sampleCluster sampleInitiatorId
      sampleResponderId sampleInitiatorKey sampleResponderKey
  have hfits := transcriptLength_le_of_small (sampleInitiator offer) (sampleResponder offer) hbuild
    (by decide +kernel) hoffers hoffers hbytes hfeatures hlimits
  have hpair : HonestPair (sampleInitiator offer) (sampleResponder offer) :=
    honestPair_memberConfig hoffer sampleCluster (by decide) (by decide)
  exact ⟨registry, offer, selection, hoffer, hpair, hfirst, hsecond, hselect, hfits⟩

/-- Two members with the built-in features complete the handshake. -/
theorem sample_handshake_completes :
    letI := DnsName.hostNames
    letI := sampleScheme
    ∃ (registry : FeatureRegistry) (offer : FeatureOffer) (selection : Selection)
      (first second first' second' : Handshake) (transcript : Bytes),
      nodeOffer registry ∅ = .ok offer ∧
      Handshake.new (sampleInitiator offer) registry = .ok first ∧
      Handshake.new (sampleResponder offer) registry = .ok second ∧
      transcriptLength (sampleInitiator offer) (sampleResponder offer) selection.bytes ≤ 65536 ∧
      Handshake.exchange first second (sampleSign sampleInitiatorKey) (sampleSign sampleResponderKey) =
        .ok (first', second') ∧
      first'.isAuthenticated = true ∧ second'.isAuthenticated = true ∧
      first'.transcript = some transcript ∧ second'.transcript = some transcript := by
  let _ := DnsName.hostNames
  let _ := sampleScheme
  obtain ⟨registry, offer, selection, hoffer, hpair, hfirst, hsecond, hselect, hfits⟩ :=
    exists_samplePair
  obtain ⟨first', second', transcript, hexchange, hdone, hdone', hheld, hheld', -, -⟩ :=
    (honest_handshake_completes_iff foldedHosts_hostNames (sampleInitiator offer)
      (sampleResponder offer) registry selection (sampleSign sampleInitiatorKey)
      (sampleSign sampleResponderKey) _ _ hpair hfirst hsecond hselect
      (fun _ => decide_eq_true rfl) (fun _ => decide_eq_true rfl)).mpr hfits
  exact ⟨registry, offer, selection, _, _, first', second', transcript, hoffer, hfirst, hsecond, hfits,
    hexchange, hdone, hdone', hheld, hheld'⟩

/-- A label of 128 bytes. -/
private def longLabel (i : Nat) : Bytes :=
  [UInt8.ofNat (48 + i / 10), UInt8.ofNat (48 + i % 10)] ++ List.replicate 45 0x61 ++
    Bytes.utf8 ".example/features/" ++ List.replicate 63 0x61

/-- A hundred extension features with long labels. -/
def longDefinitions : List (@FeatureDefinition .hostNames) :=
  letI := DnsName.hostNames
  (List.range 100).filterMap fun i =>
    (do FeatureDefinition.new (← FeatureTag.parse (longLabel i)) (.fill 0)).toOption

private theorem longDefinitions_facts :
    letI := DnsName.hostNames
    longDefinitions.map (fun definition => (definition.tag.asStr.take 2, definition.tag.asStr.length,
      decide (definition.tag.domain = builtinDomain))) =
        (List.range 100).map fun i => ((longLabel i).take 2, 128, false) := by
  decide +kernel

private theorem nodup_digits : ((List.range 100).map fun i => (longLabel i).take 2).Nodup := by
  refine List.Nodup.map_on ?_ List.nodup_range
  intro i hi j hj h
  have hdigits : ∀ n < 58, (UInt8.ofNat n).toNat = n := fun n hn => by
    rw [UInt8.toNat_ofNat']
    omega
  rw [List.mem_range] at hi hj
  simp only [longLabel, List.cons_append, List.nil_append, List.take_succ_cons, List.take_zero,
    List.cons.injEq, and_true, ← UInt8.toNat_inj] at h
  rw [hdigits _ (by omega), hdigits _ (by omega), hdigits _ (by omega), hdigits _ (by omega)] at h
  omega

private theorem longDefinitions_plain :
    letI := DnsName.hostNames
    ∀ definition ∈ longDefinitions, definition.dependencies = [] ∧ definition.conflicts = [] ∧
      definition.protocols = [] ∧ definition.limits = [] ∧ definition.testOwner = [] := by
  let _ := DnsName.hostNames
  intro definition h
  obtain ⟨i, -, hi⟩ := List.mem_filterMap.mp h
  cases htag : FeatureTag.parse (longLabel i) with
  | error e =>
    rw [htag] at hi
    cases hi
  | ok tag =>
    simp only [htag, Result.ok_bind, FeatureDefinition.new] at hi
    split at hi
    · cases hi
    · cases hi
      exact ⟨rfl, rfl, rfl, rfl, rfl⟩

theorem sampleBuiltins_domain :
    letI := DnsName.hostNames
    ∀ definition ∈ sampleBuiltins, definition.tag.domain = builtinDomain := by
  decide +kernel


theorem longDefinitions_labels :
    letI := DnsName.hostNames
    longDefinitions.length = 100 ∧ (longDefinitions.map FeatureDefinition.tag).Nodup ∧
      ∀ definition ∈ longDefinitions, definition.tag.asStr.length = 128 ∧
        definition.tag.domain ≠ builtinDomain := by
  let _ := DnsName.hostNames
  have hfacts := longDefinitions_facts
  refine ⟨?_, ?_, ?_⟩
  · have hlen := congrArg List.length hfacts
    rwa [List.length_map, List.length_map, List.length_range] at hlen
  · have hdigits := congrArg (List.map Prod.fst) hfacts
    simp only [List.map_map, Function.comp_def] at hdigits
    have hnodup : (longDefinitions.map fun definition => definition.tag.asStr.take 2).Nodup := by
      rw [hdigits]
      exact nodup_digits
    refine List.Nodup.of_map (fun tag => tag.asStr.take 2) ?_
    rwa [List.map_map]
  · intro definition hmem
    have hentry := List.mem_map_of_mem (f := fun definition : FeatureDefinition =>
      (definition.tag.asStr.take 2, definition.tag.asStr.length,
        decide (definition.tag.domain = builtinDomain))) hmem
    rw [hfacts] at hentry
    obtain ⟨i, -, hi⟩ := List.mem_map.mp hentry
    simp only [Prod.mk.injEq] at hi
    exact ⟨hi.2.1.symm, of_decide_eq_false hi.2.2.symm⟩

private theorem ownedTags_longDefinitions :
    letI := DnsName.hostNames
    limitTags (sampleBuiltins ++ longDefinitions) = limitTags sampleBuiltins ∧
      protocolTags (sampleBuiltins ++ longDefinitions) = protocolTags sampleBuiltins := by
  let _ := DnsName.hostNames
  constructor
  · rw [limitTags, List.flatMap_append, limitTags, List.append_right_eq_self]
    refine List.flatMap_eq_nil_iff.mpr fun definition hmem => ?_
    rw [(longDefinitions_plain definition hmem).2.2.2.1]
    rfl
  · rw [protocolTags, List.flatMap_append, protocolTags, List.append_right_eq_self]
    exact List.flatMap_eq_nil_iff.mpr fun definition hmem => (longDefinitions_plain definition hmem).2.2.1

private theorem digest_longDefinitions :
    letI := DnsName.hostNames
    ∀ definition ∈ longDefinitions,
      definition.definitionDigest = .ok (sha256 definition.wire.toItem.encode) := by
  let _ := DnsName.hostNames
  intro definition hmem
  obtain ⟨hdependencies, hconflicts, hprotocols, hlimits, howner⟩ := longDefinitions_plain definition hmem
  exact definition.definitionDigest_eq_ok (by simp [hdependencies]) (by simp [hconflicts])
    (by simp [hprotocols]) (by simp [hlimits]) (by simp [howner]) (by rw [howner]; rfl)

theorem acceptable_longDefinitions :
    @Acceptable .hostNames sampleBuiltins (sampleBuiltins ++ longDefinitions) builtinRank := by
  let _ := DnsName.hostNames
  obtain ⟨-, hnodup, hlabels⟩ := longDefinitions_labels
  obtain ⟨hlimits, hprotocols⟩ := ownedTags_longDefinitions
  refine acceptable_sampleBuiltins.extend ?_ (fun definition hmem => (hlabels definition hmem).2) ?_
    (fun definition hmem => (longDefinitions_plain definition hmem).1)
    (fun definition hmem => (longDefinitions_plain definition hmem).2.1) ?_ ?_
  · rw [List.map_append, List.nodup_append]
    refine ⟨nodup_sampleBuiltins, hnodup, ?_⟩
    intro tag htag tag' htag' heq
    obtain ⟨definition, hmem, rfl⟩ := List.mem_map.mp htag
    obtain ⟨definition', hmem', rfl⟩ := List.mem_map.mp htag'
    exact (hlabels definition' hmem').2 (heq ▸ sampleBuiltins_domain definition hmem)
  · exact fun definition hmem => ⟨_, digest_longDefinitions definition hmem⟩
  · rw [hlimits]
    exact acceptable_sampleBuiltins.limits
  · rw [hprotocols]
    exact acceptable_sampleBuiltins.protocols

/-- The offer of a registry with long labels, all of them required. -/
theorem exists_longOffer :
    letI := DnsName.hostNames
    ∃ (registry : FeatureRegistry) (offer : FeatureOffer),
      FeatureRegistry.build (sampleBuiltins ++ longDefinitions) = .ok registry ∧
      nodeOffer registry (longDefinitions.map FeatureDefinition.tag).toFinset = .ok offer := by
  let _ := DnsName.hostNames
  obtain ⟨registry, hbuild⟩ := FeatureRegistry.exists_build builtinDefinitions_hostNames
    nodup_sampleBuiltins acceptable_longDefinitions
  obtain ⟨hlen, -, -⟩ := longDefinitions_labels
  have hbuiltins : sampleBuiltins.length ≤ 5 ∧ (limitTags sampleBuiltins).length ≤ 5 := by
    decide +kernel
  have hrequired : ∀ tag ∈ (longDefinitions.map FeatureDefinition.tag).toFinset ∪
      sampleLabels.toFinset, ∃ definition ∈ sampleBuiltins ++ longDefinitions, definition.tag = tag := by
    intro tag htag
    rw [Finset.mem_union, List.mem_toFinset, List.mem_toFinset] at htag
    rcases htag with hlong | hsession
    · obtain ⟨definition, hmem, heq⟩ := List.mem_map.mp hlong
      exact ⟨definition, List.mem_append_right _ hmem, heq⟩
    · obtain ⟨definition, hmem, heq⟩ := sampleLabels_builtin tag hsession
      exact ⟨definition, List.mem_append_left _ hmem, heq⟩
  obtain ⟨offer, hoffer⟩ := exists_nodeOffer_of_build hbuild acceptable_longDefinitions
    requiredSessionFeatures_hostNames (by rw [List.length_append, hlen, maxSupportedLabels]; omega)
    (by rw [ownedTags_longDefinitions.1, maxNegotiatedLimits]; omega) hrequired
  exact ⟨registry, offer, hbuild, hoffer⟩

/-- Twice an offer and once a selection of a hundred long labels is too much for one body. -/
theorem transcriptLength_longOffer {registry : @FeatureRegistry .hostNames}
    {offer : @FeatureOffer .hostNames} {selection : @Selection .hostNames}
    (hbuild : @FeatureRegistry.build .hostNames (sampleBuiltins ++ longDefinitions) = .ok registry)
    (hoffer : letI := DnsName.hostNames
      nodeOffer registry (longDefinitions.map FeatureDefinition.tag).toFinset = .ok offer)
    (hbytes : letI := DnsName.hostNames
      selection.bytes = (selectionWire selection.features selection.limits).toItem.encode)
    (hfeatures : letI := DnsName.hostNames
      ∀ definition ∈ sampleBuiltins ++ longDefinitions, definition.tag ∈ selection.features) :
    letI := DnsName.hostNames
    65536 < transcriptLength (sampleInitiator offer) (sampleResponder offer) selection.bytes := by
  let _ := DnsName.hostNames
  obtain ⟨hlen, hnodup, hlabels⟩ := longDefinitions_labels
  have hoffers := offers_of_nodeOffer hoffer
  have hlong : ∀ tag ∈ longDefinitions.map FeatureDefinition.tag, (Item.text tag.asStr).size = 130 := by
    intro tag htag
    obtain ⟨definition, hmem, rfl⟩ := List.mem_map.mp htag
    rw [Item.size, (hlabels definition hmem).1]
    decide
  have hcount : (longDefinitions.map FeatureDefinition.tag).length = 100 := by
    rw [List.length_map, hlen]
  have hsupported : 100 * 165 ≤ Item.sizeAll (offer.wire.supported.map SupportedEntryWire.toItem) := by
    let entries := longDefinitions.map fun definition : FeatureDefinition =>
      (definition.tag, sha256 definition.wire.toItem.encode)
    have hentries : entries.length = 100 := by rw [List.length_map, hlen]
    rw [FeatureOffer.wire, List.map_map, ← hentries]
    refine Item.mul_le_sizeAll (List.Nodup.of_map Prod.fst ?_) ?_ ?_
    · rwa [List.map_map]
    · intro entry hentry
      obtain ⟨definition, hmem, rfl⟩ := List.mem_map.mp hentry
      exact (hoffers.supported _ _).mpr ⟨definition, (FeatureRegistry.get_of_build hbuild _ _).mpr
        ⟨List.mem_append_right _ hmem, rfl⟩, digest_longDefinitions definition hmem⟩
    · intro entry hentry
      obtain ⟨definition, hmem, rfl⟩ := List.mem_map.mp hentry
      show 165 ≤ Cbor.headLen 2 + ((Item.text definition.tag.asStr).size + ((Item.bytes _).size + 0))
      rw [hlong _ (List.mem_map_of_mem hmem), Item.size, Digest.width]
      decide
  have hrequired : 100 * 130 ≤ Item.sizeAll (offer.wire.required.map Item.text) := by
    rw [FeatureOffer.wire, List.map_map, ← hcount]
    refine Item.mul_le_sizeAll hnodup ?_ fun tag htag => (hlong tag htag).ge
    intro tag htag
    rw [mem_required_of_nodeOffer hoffer requiredSessionFeatures_hostNames]
    exact Finset.mem_union_left _ (List.mem_toFinset.mpr htag)
  have hselected : 100 * 130 ≤ Item.sizeAll ((selectionWire selection.features
      selection.limits).features.map Item.text) := by
    rw [selectionWire, List.map_map, ← hcount]
    refine Item.mul_le_sizeAll hnodup ?_ fun tag htag => (hlong tag htag).ge
    intro tag htag
    obtain ⟨definition, hmem, rfl⟩ := List.mem_map.mp htag
    exact hfeatures definition (List.mem_append_right _ hmem)
  have hoffersize : 29500 ≤ (Item.bytes offer.wire.toItem.encode).size := by
    rw [Item.size, Item.length_encode]
    show 29500 ≤ _ + (Cbor.headLen 3 + ((Cbor.headLen _ + Item.sizeAll _) +
      ((Cbor.headLen _ + Item.sizeAll _) + ((Item.array _).size + 0))))
    omega
  have hselectionsize : 13000 ≤ (Item.bytes selection.bytes).size := by
    rw [hbytes, Item.size, Item.length_encode]
    show 13000 ≤ _ + (Cbor.headLen 2 + ((Cbor.headLen _ + Item.sizeAll _) + ((Item.array _).size + 0)))
    omega
  show 65536 < 298 + (Item.bytes offer.wire.toItem.encode).size +
    (Item.bytes offer.wire.toItem.encode).size + (Item.bytes selection.bytes).size
  omega

/-- Two honest members whose legal offers name a hundred long labels fail at the first
    hello. -/
theorem long_handshake_refused :
    letI := DnsName.hostNames
    letI := sampleScheme
    ∃ (registry : FeatureRegistry) (offer : FeatureOffer) (selection : Selection)
      (first second : Handshake),
      nodeOffer registry (longDefinitions.map FeatureDefinition.tag).toFinset = .ok offer ∧
      HonestPair (sampleInitiator offer) (sampleResponder offer) ∧
      Handshake.new (sampleInitiator offer) registry = .ok first ∧
      Handshake.new (sampleResponder offer) registry = .ok second ∧
      select registry offer offer offer.required offer.required = .ok selection ∧
      (∀ message, Ed25519.accepts sampleInitiatorKey message (sampleSign sampleInitiatorKey message) =
        true) ∧
      (∀ message, Ed25519.accepts sampleResponderKey message (sampleSign sampleResponderKey message) =
        true) ∧
      Handshake.exchange first second (sampleSign sampleInitiatorKey) (sampleSign sampleResponderKey) =
        .error (.malformed "handshake transcript") := by
  let _ := DnsName.hostNames
  let _ := sampleScheme
  obtain ⟨registry, offer, hbuild, hoffer⟩ := exists_longOffer
  obtain ⟨selection, hfirst, hsecond, hselect, hbytes, -, -, hfeatures⟩ :=
    exists_memberPair hbuild acceptable_longDefinitions hoffer sampleCluster sampleInitiatorId
      sampleResponderId sampleInitiatorKey sampleResponderKey
  have hlong := transcriptLength_longOffer hbuild hoffer hbytes hfeatures
  have hpair : HonestPair (sampleInitiator offer) (sampleResponder offer) :=
    honestPair_memberConfig hoffer sampleCluster (by decide) (by decide)
  have hlimits := validateLimits_own (offers_of_nodeOffer hoffer)
  exact ⟨registry, offer, selection, _, _, hoffer, hpair, hfirst, hsecond, hselect,
    fun _ => decide_eq_true rfl, fun _ => decide_eq_true rfl,
    exchange_eq_error foldedHosts_hostNames hpair rfl rfl hlimits hselect (Nat.not_le_of_lt hlong)⟩

end Radiata
