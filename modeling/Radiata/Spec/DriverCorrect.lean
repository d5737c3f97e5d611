import Radiata.Native.Driver
import Radiata.Spec.HandshakeComplete
import Radiata.Spec.SelectionGreatest

/-!
# Features the caller registers

The offer of a node names the features of its caller, but every path of the session driver
interprets the offers by the built-in registry alone. A feature of the caller is then a label
without a definition, which no selection contains; one with a mandatory limit keeps the
handshake from starting, and one that a node requires keeps it from completing.

## Key results

- `Handshake.selectsWithin_exchange`: an exchange selects labels of its registry
- `caller_features_negotiated_iff`: when the features of the caller are negotiated
-/

namespace Radiata

/-! ## Selections of an endpoint -/

namespace Handshake

variable [DnsName]

/-- The endpoint works with the registry, and what it has selected is defined there. -/
structure SelectsWithin (registry : FeatureRegistry) (endpoint : Handshake) : Prop where
  same : endpoint.registry = registry
  known : ∀ selection, endpoint.selection = some selection → ∀ tag ∈ selection.features,
    ∃ definition, registry.get tag = some definition

variable {registry : FeatureRegistry} {self next : Handshake} {bytes : Bytes}

theorem SelectsWithin.advance (h : self.SelectsWithin registry) :
    self.advance.SelectsWithin registry := ⟨h.same, h.known⟩

theorem selectsWithin_initial (config : HandshakeConfig) (registry : FeatureRegistry) :
    (initial config registry).SelectsWithin registry :=
  ⟨rfl, fun _ hselection => by cases hselection⟩

/-- The labels of a selection are defined in the registry it was computed with. -/
theorem known_of_select {offer offer' : FeatureOffer} {required required' : List FeatureTag}
    {selection : Selection} (h : select registry offer offer' required required' = .ok selection)
    {tag : FeatureTag} (htag : tag ∈ selection.features) :
    ∃ definition, registry.get tag = some definition := by
  obtain ⟨-, selected, rfl, -, -, -, hfeatures, -, -⟩ := select_eq_ok.mp h
  rw [hfeatures, Finset.mem_sort] at htag
  exact known_of_mem_fixedPoint htag

theorem SelectsWithin.settle (h : self.SelectsWithin registry)
    {result : Except HandshakeError Handshake}
    (hresult : ∀ next, result = .ok next → next.SelectsWithin registry) :
    (self.settle result).2.SelectsWithin registry := by
  cases result with
  | error e => exact h
  | ok next => exact hresult next rfl

theorem SelectsWithin.acceptPeerHello (h : self.SelectsWithin registry)
    (hello : Except HandshakeError HelloView) :
    (self.acceptPeerHello hello).2.SelectsWithin registry := by
  cases hello with
  | error e => exact h
  | ok view =>
    have hstored : SelectsWithin registry { self with peerHello := some view } :=
      ⟨h.same, h.known⟩
    apply hstored.settle
    intro next hnext
    cases hfinal : Handshake.finalizeHellos { self with peerHello := some view } with
    | error e =>
      rw [hfinal] at hnext
      cases hnext
    | ok final =>
    rw [hfinal] at hnext
    cases hnext
    apply SelectsWithin.advance
    simp only [finalizeHellos, Except.bind_eq_ok, Except.okOr_eq_ok, Except.mapError_eq_ok] at hfinal
    obtain ⟨peer, -, selection, hselect, transcript, -, hdone⟩ := hfinal
    cases hdone
    refine ⟨h.same, ?_⟩
    intro other hother tag htag
    cases hother
    rw [h.same] at hselect
    exact known_of_select hselect htag

variable [Ed25519]

/-- A delivered message keeps the selection within the registry. -/
theorem SelectsWithin.receive (h : self.SelectsWithin registry) (bytes : Bytes) :
    (self.receive bytes).2.SelectsWithin registry := by
  -- a message that only completes its position
  have hadvance : ∀ check : Except HandshakeError Unit,
      (self.settle (do check; return self.advance)).2.SelectsWithin registry := by
    intro check
    apply h.settle
    intro next hnext
    obtain ⟨-, hnext⟩ := Except.seq_eq_ok.mp hnext
    cases hnext
    exact h.advance
  unfold Handshake.receive
  split
  · exact h
  · rename_i kind hadmit
    split
    · apply h.settle
      intro next hnext
      obtain ⟨-, hnext⟩ := Except.seq_eq_ok.mp hnext
      obtain ⟨-, hnext⟩ := Except.seq_eq_ok.mp hnext
      obtain ⟨-, hnext⟩ := Except.seq_eq_ok.mp hnext
      obtain ⟨wire, -, hnext⟩ := Except.bind_eq_ok.mp hnext
      obtain ⟨-, hnext⟩ := Except.seq_eq_ok.mp hnext
      cases hnext
      exact ⟨h.same, h.known⟩
    · split
      · exact h
      · unfold receivePosition
        cases kind with
        | initiatorHello => exact h.acceptPeerHello _
        | responderHello => exact h.acceptPeerHello _
        | responderProof => exact hadvance _
        | initiatorProof => exact hadvance _
        | selectionConfirmation => exact hadvance _
        | admissionGrantDelivery => exact h

theorem SelectsWithin.accept (h : self.SelectsWithin registry)
    (haccept : self.accept bytes = .ok next) : next.SelectsWithin registry := by
  have hreceive := h.receive bytes
  unfold Handshake.accept at haccept
  split at haccept
  · rename_i last heq
    cases haccept
    rwa [heq] at hreceive
  · cases haccept

omit [Ed25519] in
theorem SelectsWithin.send (h : self.SelectsWithin registry) (call : SendCall)
    (hsend : call.run self = .ok (bytes, next)) : next.SelectsWithin registry := by
  cases SendCall.sent_of_run hsend with
  | grant => exact ⟨h.same, h.known⟩
  | position kind _ _ _ => exact h.advance

/-- Both endpoints of an exchange end with a selection of labels of their registry. -/
theorem selectsWithin_exchange {initiator responder first second : Handshake}
    {signInitiator signResponder : Bytes → Signature}
    (hinitiator : initiator.SelectsWithin registry) (hresponder : responder.SelectsWithin registry)
    (h : exchange initiator responder signInitiator signResponder = .ok (first, second)) :
    first.SelectsWithin registry ∧ second.SelectsWithin registry := by
  simp only [exchange, Except.bind_eq_ok, Except.okOr_eq_ok] at h
  obtain ⟨⟨hello, initiator₁⟩, hhello, responder₁, haccepted, ⟨answer, responder₂⟩, hanswer,
    initiator₂, haccepted', transcript, -, ⟨proof, responder₃⟩, hproof, initiator₃, hproved,
    transcript', -, ⟨proof', initiator₄⟩, hproof', responder₄, hproved',
    ⟨confirmation, responder₅⟩, hconfirmation, initiator₅, hconfirmed, hdone⟩ := h
  cases hdone
  constructor
  · have hfirst := (hinitiator.send .initiatorHello hhello).accept haccepted'
    have hsecond := (hfirst.accept hproved).send (.initiatorProof _) hproof'
    exact hsecond.accept hconfirmed
  · have hfirst := (hresponder.accept haccepted).send .responderHello hanswer
    have hsecond := (hfirst.send (.responderProof _) hproof).accept hproved'
    exact hsecond.send .selectionConfirmation hconfirmation

end Handshake

/-! ## The built-in definitions -/

section Builtins

variable [DnsName]

namespace FeatureDefinition

variable {self next : FeatureDefinition}

theorem conflicts_of_dependency {tag : FeatureTag} (h : self.dependency tag = .ok next) :
    next.conflicts = self.conflicts := by
  unfold dependency at h
  split at h
  · cases h
  · split at h
    · cases h
    · cases h
      rfl

theorem conflicts_of_protocol {tag : ProtocolTag} (h : self.protocol tag = .ok next) :
    next.conflicts = self.conflicts := by
  unfold protocol at h
  split at h
  · cases h
  · cases h
    rfl

theorem conflicts_of_limit {limit : LimitDefinition} (h : self.limit limit = .ok next) :
    next.conflicts = self.conflicts := by
  unfold FeatureDefinition.limit at h
  split at h
  · cases h
  · split at h
    · cases h
    · cases h
      rfl

end FeatureDefinition

variable {definition : FeatureDefinition}

theorem conflicts_of_builtin {text : Bytes} (h : builtin text = .ok definition) :
    definition.conflicts = [] := by
  obtain ⟨tag, -, hdefinition⟩ := Result.bind_eq_ok.mp h
  cases hdefinition
  rfl

/-- The five built-in definitions name no conflicts. -/
theorem builtinDefinitions_eq_ok {builtins : List FeatureDefinition}
    (h : builtinDefinitions = .ok builtins) :
    builtins.length = 5 ∧ ∀ definition ∈ builtins, definition.conflicts = [] := by
  simp only [builtinDefinitions, Result.bind_eq_ok] at h
  obtain ⟨auth, hauth, session₀, hsession₀, _, -, session, hsession, data₀, hdata₀, _, -, data₁,
    hdata₁, _, -, _, -, _, -, _, -, data, hdata, direct₀, hdirect₀, _, -, direct₁, hdirect₁, _, -,
    _, -, _, -, _, -, direct₂, hdirect₂, _, -, direct, hdirect, routed₀, hrouted₀, _, -, routed,
    hrouted, hlist⟩ := h
  cases hlist
  refine ⟨rfl, ?_⟩
  simp only [List.forall_mem_cons, List.not_mem_nil, false_implies, implies_true, and_true]
  refine ⟨conflicts_of_builtin hauth, ?_, ?_, ?_, ?_⟩
  · rw [FeatureDefinition.conflicts_of_dependency hsession, conflicts_of_builtin hsession₀]
  · rw [FeatureDefinition.conflicts_of_limit hdata, FeatureDefinition.conflicts_of_dependency hdata₁,
      conflicts_of_builtin hdata₀]
  · rw [FeatureDefinition.conflicts_of_protocol hdirect, FeatureDefinition.conflicts_of_limit hdirect₂,
      FeatureDefinition.conflicts_of_dependency hdirect₁, conflicts_of_builtin hdirect₀]
  · rw [FeatureDefinition.conflicts_of_dependency hrouted, conflicts_of_builtin hrouted₀]

/-- The registry of a node without caller features is the built-in one. -/
theorem builtin_of_negotiationRegistry {registry : FeatureRegistry}
    (h : negotiationRegistry [] = .ok registry) :
    ∃ builtins, builtinDefinitions = .ok builtins ∧ FeatureRegistry.build builtins = .ok registry ∧
      FeatureRegistry.builtin = .ok registry := by
  obtain ⟨builtins, hbuiltins, hbuild⟩ := Result.bind_eq_ok.mp h
  rw [List.append_nil] at hbuild
  refine ⟨builtins, hbuiltins, hbuild, ?_⟩
  rw [FeatureRegistry.builtin, hbuiltins]
  exact hbuild

/-- A caller feature is no built-in feature. -/
theorem unknown_of_negotiationRegistry {features : List FeatureDefinition}
    {registry builtin : FeatureRegistry} (h : negotiationRegistry features = .ok registry)
    (hbuiltin : FeatureRegistry.builtin = .ok builtin) (hmem : definition ∈ features) :
    builtin.get definition.tag = none := by
  obtain ⟨builtins, hbuiltins, hbuild⟩ := Result.bind_eq_ok.mp h
  simp only [FeatureRegistry.builtin, hbuiltins, Result.ok_bind] at hbuiltin
  have hnodup := nodup_of_collectDefinitions (FeatureRegistry.collect_of_build hbuild)
  rw [List.map_append, List.nodup_append] at hnodup
  by_contra hsome
  obtain ⟨other, hget⟩ := Option.ne_none_iff_exists'.mp hsome
  obtain ⟨hother, htag⟩ := (FeatureRegistry.get_of_build hbuiltin _ _).mp hget
  exact hnodup.2.2 _ (List.mem_map_of_mem hother) _ (List.mem_map_of_mem hmem) htag

end Builtins

/-! ## Two drivers -/

section Drivers

variable [DnsName]

/-- How two nodes meet: as a joiner and its issuer, which share a credential, or as members
    of a cluster, which trust each other's keys. -/
inductive SessionPath where
  | join (generation : ByteValue generationLen) (credential : CredentialSecret)
  | member

/-- What two drivers share on one connection. -/
structure Meeting where
  path : SessionPath
  cluster : ClusterId
  nonce : ByteValue nonceLen
  nonce' : ByteValue nonceLen
  channelBinding : ByteValue 32

namespace SessionDriver

/-- The state machine of the initiator. -/
def initiate (self peer : SessionDriver) (meeting : Meeting) : Except DriverError Handshake :=
  match meeting.path with
  | .join generation credential => self.joinHandshake meeting.cluster generation credential
      meeting.nonce meeting.channelBinding
  | .member => self.memberHandshake meeting.cluster peer.node peer.publicKey meeting.nonce
      meeting.channelBinding

/-- The state machine of the responder. -/
def respond (self peer : SessionDriver) (meeting : Meeting) : Except DriverError Handshake :=
  self.acceptHandshake meeting.cluster
    (match meeting.path with
      | .join generation credential => .join generation credential
      | .member => .member peer.node peer.publicKey)
    meeting.nonce' meeting.channelBinding

/-- The two drivers run the handshake. -/
def meet [Ed25519] (initiator responder : SessionDriver) (meeting : Meeting)
    (signInitiator signResponder : Bytes → Signature) :
    Except DriverError (EstablishedSession × EstablishedSession) := do
  let first ← initiator.initiate responder meeting
  let second ← responder.respond initiator meeting
  let (first, second) ←
    (Handshake.exchange first second signInitiator signResponder).mapError .handshake
  return (← established first, ← established second)

/-- The configuration of the initiator. -/
def initiatorConfig (initiator responder : SessionDriver) (meeting : Meeting) : HandshakeConfig where
  mode := match meeting.path with | .join .. => .join | .member => .member
  role := .initiator
  cluster := meeting.cluster
  localId := initiator.node
  localKey := initiator.publicKey
  expectedPeer := match meeting.path with
    | .join .. => none
    | .member => some (responder.node, responder.publicKey)
  generation := match meeting.path with | .join generation _ => some generation | .member => none
  credential := match meeting.path with | .join _ credential => some credential | .member => none
  localNonce := meeting.nonce
  localOffer := initiator.offer
  channelBinding := meeting.channelBinding

/-- The configuration of the responder. -/
def responderConfig (initiator responder : SessionDriver) (meeting : Meeting) : HandshakeConfig :=
  { initiatorConfig responder initiator meeting with
    role := .responder
    localNonce := meeting.nonce' }

theorem initiate_eq (initiator responder : SessionDriver) (meeting : Meeting) :
    initiator.initiate responder meeting =
      startHandshake (initiatorConfig initiator responder meeting) := by
  unfold initiate initiatorConfig
  cases meeting.path <;> rfl

theorem respond_eq (initiator responder : SessionDriver) (meeting : Meeting) :
    responder.respond initiator meeting =
      startHandshake (responderConfig initiator responder meeting) := by
  unfold respond responderConfig initiatorConfig acceptHandshake
  cases meeting.path <;> rfl

theorem checkInputs_initiatorConfig (initiator responder : SessionDriver) (meeting : Meeting) :
    Handshake.checkInputs (initiatorConfig initiator responder meeting) = .ok () := by
  unfold Handshake.checkInputs initiatorConfig
  cases meeting.path <;> rfl

theorem checkInputs_responderConfig (initiator responder : SessionDriver) (meeting : Meeting) :
    Handshake.checkInputs (responderConfig initiator responder meeting) = .ok () := by
  unfold Handshake.checkInputs responderConfig initiatorConfig
  cases meeting.path <;> rfl

/-- Two drivers with offers that were built are an honest pair. -/
theorem honestPair_configs {initiator responder : SessionDriver} (meeting : Meeting)
    (hid : initiator.node ≠ responder.node) (hkey : initiator.publicKey ≠ responder.publicKey)
    (hoffer : ∃ supported required limits,
      FeatureOffer.new supported required limits = .ok initiator.offer)
    (hoffer' : ∃ supported required limits,
      FeatureOffer.new supported required limits = .ok responder.offer) :
    HonestPair (initiatorConfig initiator responder meeting)
      (responderConfig initiator responder meeting) where
  initiatorRole := rfl
  responderRole := rfl
  mode := rfl
  cluster := rfl
  channelBinding := rfl
  generation := rfl
  credential := rfl
  initiatorExpects := by
    intro binding hbinding
    unfold initiatorConfig at hbinding
    cases hpath : meeting.path with
    | join generation credential => simp [hpath] at hbinding
    | member =>
      simp only [hpath, Option.mem_def, Option.some.injEq] at hbinding
      exact hbinding.symm
  responderExpects := by
    intro binding hbinding
    unfold responderConfig initiatorConfig at hbinding
    cases hpath : meeting.path with
    | join generation credential => simp [hpath] at hbinding
    | member =>
      simp only [hpath, Option.mem_def, Option.some.injEq] at hbinding
      exact hbinding.symm
  distinctIds := hid
  distinctKeys := hkey
  initiatorOffer := hoffer
  responderOffer := hoffer'

/-- What a driver was built with. -/
theorem new_eq_ok {features : List FeatureDefinition} {required : Finset FeatureTag} {node : NodeId}
    {publicKey : PublicKey} {driver : SessionDriver}
    (h : SessionDriver.new features required node publicKey = .ok driver) :
    ∃ registry, negotiationRegistry features = .ok registry ∧
      nodeOffer registry required = .ok driver.offer ∧ driver.node = node ∧
      driver.publicKey = publicKey := by
  obtain ⟨registry, hregistry, h⟩ := Result.bind_eq_ok.mp h
  obtain ⟨offer, hoffer, h⟩ := Result.bind_eq_ok.mp h
  cases h
  exact ⟨registry, hregistry, hoffer, rfl, rfl⟩

end SessionDriver

/-! ## Negotiated features -/

/-- Both sessions select every caller feature in the greatest dependency-closed set that the
    two offers share in the extended registry. -/
def CallerFeaturesNegotiated (features : List FeatureDefinition) (initiator responder : SessionDriver)
    (result : Except DriverError (EstablishedSession × EstablishedSession)) : Prop :=
  ∃ session session', result = .ok (session, session') ∧
    ∀ registry, negotiationRegistry features = .ok registry →
    ∀ selected, IsGreatest (closedShared registry initiator.offer responder.offer) selected →
    ∀ definition ∈ features, definition.tag ∈ selected →
      definition.tag ∈ session.selectedFeatures ∧ definition.tag ∈ session'.selectedFeatures

variable {definition : FeatureDefinition}

/-- Every label of a registry is in the greatest closed set of two offers of it. -/
theorem mem_greatest_of_offers {registry : FeatureRegistry} {offer offer' : FeatureOffer}
    (hoffers : Offers registry offer) (hoffers' : Offers registry offer')
    {selected : Finset FeatureTag}
    (hgreatest : IsGreatest (closedShared registry offer offer') selected) {tag : FeatureTag}
    (hget : registry.get tag = some definition) :
    tag ∈ selected := by
  have hcommon : ∀ tag, tag ∈ commonLabels offer offer' ↔
      ∃ definition, registry.get tag = some definition := fun tag =>
    mem_commonLabels_of_offers hoffers hoffers'
  have hclosed : commonLabels offer offer' ∈ closedShared registry offer offer' := by
    constructor
    · intro label hlabel
      obtain ⟨found, hfound⟩ := (hcommon label).mp hlabel
      obtain ⟨digest, hdigest⟩ := hoffers.digests label found hfound
      exact ⟨digest, (hoffers.supported _ _).mpr ⟨found, hfound, hdigest⟩,
        (hoffers'.supported _ _).mpr ⟨found, hfound, hdigest⟩⟩
    · intro label hlabel
      obtain ⟨found, hfound⟩ := (hcommon label).mp hlabel
      refine ⟨found, hfound, fun dependency hdependency => ?_⟩
      exact (hcommon dependency).mpr (registry.dependency_known hfound hdependency)
  exact hgreatest.2 hclosed ((hcommon tag).mpr ⟨definition, hget⟩)

variable {signInitiator signResponder : Bytes → Signature}

variable {initiator responder : SessionDriver} {meeting : Meeting}

/-- A session selects built-in features only. -/
theorem known_of_meet [Ed25519] {session session' : EstablishedSession}
    (h : initiator.meet responder meeting signInitiator signResponder = .ok (session, session')) :
    ∃ builtin, FeatureRegistry.builtin = .ok builtin ∧
      ∀ tag ∈ session.selectedFeatures, ∃ definition, builtin.get tag = some definition := by
  simp only [SessionDriver.meet, SessionDriver.initiate_eq, SessionDriver.respond_eq,
    SessionDriver.startHandshake, Except.bind_eq_ok, Except.mapError_eq_ok] at h
  obtain ⟨first, ⟨builtin, hbuiltin, hfirst⟩, second, ⟨builtin', hbuiltin', hsecond⟩,
    ⟨first', second'⟩, hexchange, session₁, hsession, session₂, -, hdone⟩ := h
  cases hdone
  rw [hbuiltin] at hbuiltin'
  cases hbuiltin'
  obtain ⟨-, -, rfl⟩ := Handshake.new_eq_ok.mp hfirst
  obtain ⟨-, -, rfl⟩ := Handshake.new_eq_ok.mp hsecond
  obtain ⟨hwithin, -⟩ := Handshake.selectsWithin_exchange
    (Handshake.selectsWithin_initial _ builtin) (Handshake.selectsWithin_initial _ builtin) hexchange
  refine ⟨builtin, hbuiltin, ?_⟩
  simp only [established, Except.bind_eq_ok, Except.okOr_eq_ok] at hsession
  obtain ⟨peer, -, selection, hselection, hdone⟩ := hsession
  cases hdone
  exact hwithin.known selection hselection

variable {required required' : Finset FeatureTag}

/-- Two drivers without caller features complete the handshake. -/
theorem exists_meet [Ed25519] (hhosts : FoldedHosts)
    (hinitiator : SessionDriver.new [] required initiator.node initiator.publicKey = .ok initiator)
    (hresponder : SessionDriver.new [] required' responder.node responder.publicKey = .ok responder)
    (hid : initiator.node ≠ responder.node) (hkey : initiator.publicKey ≠ responder.publicKey)
    (hsigned : ∀ message, Ed25519.accepts initiator.publicKey message (signInitiator message) = true)
    (hsigned' : ∀ message, Ed25519.accepts responder.publicKey message (signResponder message) = true) :
    ∃ session session',
      initiator.meet responder meeting signInitiator signResponder = .ok (session, session') := by
  obtain ⟨registry, hregistry, hoffer, -⟩ := SessionDriver.new_eq_ok hinitiator
  obtain ⟨registry', hregistry', hoffer', -⟩ := SessionDriver.new_eq_ok hresponder
  rw [hregistry] at hregistry'
  cases hregistry'
  obtain ⟨builtins, hbuiltins, hbuild, hbuiltin⟩ := builtin_of_negotiationRegistry hregistry
  obtain ⟨hcount, hconflicts⟩ := builtinDefinitions_eq_ok hbuiltins
  have hoffers := offers_of_nodeOffer hoffer
  have hoffers' := offers_of_nodeOffer hoffer'
  obtain ⟨selection, hselect, hbytes, hfeatures, hlimits, -⟩ := exists_select hoffers hoffers'
    (fun tag definition hget => hconflicts definition
      ((FeatureRegistry.get_of_build hbuild _ _).mp hget).1)
    (fun tag definition hget dependency => registry.dependency_known hget)
  have hpair := SessionDriver.honestPair_configs meeting hid hkey (new_of_nodeOffer hoffer)
    (new_of_nodeOffer hoffer')
  have hinputs := SessionDriver.checkInputs_initiatorConfig initiator responder meeting
  have hinputs' := SessionDriver.checkInputs_responderConfig initiator responder meeting
  have hfits := transcriptLength_le_of_small (initiator.initiatorConfig responder meeting)
    (initiator.responderConfig responder meeting) hbuild (by omega) hoffers hoffers' hbytes
    (hfeatures.trans (length_labels_le hbuild hoffers).1) hlimits
  obtain ⟨transcript, htranscript⟩ : ∃ transcript, transcript = ((Handshake.initial
      (initiator.initiatorConfig responder meeting) registry).transcriptItem
        (initiator.responderConfig responder meeting).view selection.bytes).encode := ⟨_, rfl⟩
  obtain ⟨proof, proof', confirmation, hlockstep⟩ := exists_lockstep hhosts hpair hinputs hinputs'
    (validateLimits_own hoffers) (validateLimits_own hoffers') hselect hfits htranscript
    (hsigned _) (hsigned' _)
  have hexchange := exchange_of_lockstep hlockstep
  have hstart := Handshake.new_eq_ok.mpr ⟨hinputs, validateLimits_own hoffers, rfl⟩
  have hstart' := Handshake.new_eq_ok.mpr ⟨hinputs', validateLimits_own hoffers', rfl⟩
  refine ⟨⟨responder.node, selection.features⟩, ⟨initiator.node, selection.features⟩, ?_⟩
  simp only [SessionDriver.meet, SessionDriver.initiate_eq, SessionDriver.respond_eq,
    SessionDriver.startHandshake, hbuiltin, Except.mapError, Except.ok_bind_eq, hstart, hstart',
    hexchange]
  rfl

/-- No caller feature is negotiated. -/
theorem not_negotiated_of_mem [Ed25519] {features : List FeatureDefinition} (hinitiator :
      SessionDriver.new features required initiator.node initiator.publicKey = .ok initiator)
    (hresponder :
      SessionDriver.new features required' responder.node responder.publicKey = .ok responder)
    (hmem : definition ∈ features) :
    ¬ CallerFeaturesNegotiated features initiator responder
      (initiator.meet responder meeting signInitiator signResponder) := by
  rintro ⟨session, session', hmeet, hselected⟩
  obtain ⟨registry, hregistry, hoffer, -⟩ := SessionDriver.new_eq_ok hinitiator
  obtain ⟨registry', hregistry', hoffer', -⟩ := SessionDriver.new_eq_ok hresponder
  rw [hregistry] at hregistry'
  cases hregistry'
  have hoffers := offers_of_nodeOffer hoffer
  have hoffers' := offers_of_nodeOffer hoffer'
  have hget : registry.get definition.tag = some definition := by
    obtain ⟨builtins, -, hbuild⟩ := Result.bind_eq_ok.mp hregistry
    exact (FeatureRegistry.get_of_build hbuild _ _).mpr ⟨List.mem_append_right _ hmem, rfl⟩
  -- the extended registry would select the feature, the built-in one does not know it
  have hgreatest := @isGreatest_closedShared _ registry _ _
    ((matches_iff hoffers'.ascending).mp fun entry => matches_of_offers hoffers hoffers')
  obtain ⟨hin, -⟩ := hselected registry hregistry _ hgreatest definition hmem
    (mem_greatest_of_offers hoffers hoffers' hgreatest hget)
  obtain ⟨builtin, hbuiltin, hknown⟩ := known_of_meet hmeet
  obtain ⟨other, hother⟩ := hknown _ hin
  rw [unknown_of_negotiationRegistry hregistry hbuiltin hmem] at hother
  cases hother

/-- Two drivers that were built with the same caller features negotiate these features if and
    only if there are none. -/
theorem caller_features_negotiated_iff [Ed25519] (hhosts : FoldedHosts)
    (features : List FeatureDefinition) (required required' : Finset FeatureTag)
    (initiator responder : SessionDriver) (meeting : Meeting)
    (signInitiator signResponder : Bytes → Signature)
    (hinitiator :
      SessionDriver.new features required initiator.node initiator.publicKey = .ok initiator)
    (hresponder :
      SessionDriver.new features required' responder.node responder.publicKey = .ok responder)
    (hid : initiator.node ≠ responder.node) (hkey : initiator.publicKey ≠ responder.publicKey)
    (hsigned : ∀ message, Ed25519.accepts initiator.publicKey message (signInitiator message) = true)
    (hsigned' : ∀ message,
      Ed25519.accepts responder.publicKey message (signResponder message) = true) :
    CallerFeaturesNegotiated features initiator responder
      (initiator.meet responder meeting signInitiator signResponder) ↔ features = [] := by
  constructor
  · intro hnegotiated
    by_contra hne
    obtain ⟨definition, hmem⟩ := List.exists_mem_of_ne_nil features hne
    exact not_negotiated_of_mem hinitiator hresponder hmem hnegotiated
  · rintro rfl
    obtain ⟨session, session', hmeet⟩ :=
      exists_meet hhosts hinitiator hresponder hid hkey hsigned hsigned'
    exact ⟨session, session', hmeet, by simp⟩

end Drivers

/-! ## Sample drivers -/

/-- Two members of a cluster meet. -/
def sampleMeeting : Meeting where
  path := .member
  cluster := sampleCluster
  nonce := .fill 0
  nonce' := .fill 0
  channelBinding := .fill 0

/-- A node with the built-in features, and one with a feature of its caller. -/
theorem exists_sampleDriver (node : NodeId) (publicKey : PublicKey) :
    letI := DnsName.hostNames
    (∃ driver, SessionDriver.new [] ∅ node publicKey = .ok driver ∧ driver.node = node ∧
      driver.publicKey = publicKey) ∧
    ∃ driver, SessionDriver.new [sampleExtension] ∅ node publicKey = .ok driver ∧
      driver.node = node ∧ driver.publicKey = publicKey := by
  let _ := DnsName.hostNames
  obtain ⟨plain, extended, offer, offer', hplain, hextended, hoffer, hoffer'⟩ := exists_sampleOffers
  constructor
  · have hregistry : negotiationRegistry [] = .ok plain := by
      rw [negotiationRegistry, builtinDefinitions_hostNames, Result.ok_bind, List.append_nil, hplain]
    refine ⟨⟨node, publicKey, offer⟩, ?_, rfl, rfl⟩
    rw [SessionDriver.new, hregistry, Result.ok_bind, hoffer, Result.ok_bind, Result.pure_eq_ok]
  · have hregistry : negotiationRegistry [sampleExtension] = .ok extended := by
      rw [negotiationRegistry, builtinDefinitions_hostNames, Result.ok_bind, hextended]
    refine ⟨⟨node, publicKey, offer'⟩, ?_, rfl, rfl⟩
    rw [SessionDriver.new, hregistry, Result.ok_bind, hoffer', Result.ok_bind, Result.pure_eq_ok]

theorem sample_features_negotiated :
    letI := DnsName.hostNames
    letI := sampleScheme
    ∃ initiator responder : SessionDriver,
      SessionDriver.new [] ∅ initiator.node initiator.publicKey = .ok initiator ∧
      SessionDriver.new [] ∅ responder.node responder.publicKey = .ok responder ∧
      initiator.node ≠ responder.node ∧ initiator.publicKey ≠ responder.publicKey ∧
      CallerFeaturesNegotiated [] initiator responder (initiator.meet responder sampleMeeting
        (sampleSign initiator.publicKey) (sampleSign responder.publicKey)) := by
  let _ := DnsName.hostNames
  let _ := sampleScheme
  obtain ⟨⟨initiator, hinitiator, hnode, hkey⟩, -⟩ :=
    exists_sampleDriver sampleInitiatorId sampleInitiatorKey
  obtain ⟨⟨responder, hresponder, hnode', hkey'⟩, -⟩ :=
    exists_sampleDriver sampleResponderId sampleResponderKey
  rw [← hnode, ← hkey] at hinitiator
  rw [← hnode', ← hkey'] at hresponder
  have hids : initiator.node ≠ responder.node := by
    rw [hnode, hnode']
    decide
  have hkeys : initiator.publicKey ≠ responder.publicKey := by
    rw [hkey, hkey']
    decide
  exact ⟨initiator, responder, hinitiator, hresponder, hids, hkeys,
    (caller_features_negotiated_iff foldedHosts_hostNames [] ∅ ∅ initiator responder sampleMeeting
      _ _ hinitiator hresponder hids hkeys (fun _ => decide_eq_true rfl)
      (fun _ => decide_eq_true rfl)).mpr rfl⟩

/-- Two nodes with one feature of their callers do not negotiate it. -/
theorem sample_extension_not_negotiated :
    letI := DnsName.hostNames
    letI := sampleScheme
    ∃ initiator responder : SessionDriver,
      SessionDriver.new [sampleExtension] ∅ sampleInitiatorId sampleInitiatorKey = .ok initiator ∧
      SessionDriver.new [sampleExtension] ∅ sampleResponderId sampleResponderKey = .ok responder ∧
      ¬ CallerFeaturesNegotiated [sampleExtension] initiator responder
        (initiator.meet responder sampleMeeting (sampleSign sampleInitiatorKey)
          (sampleSign sampleResponderKey)) := by
  let _ := DnsName.hostNames
  let _ := sampleScheme
  obtain ⟨-, initiator, hinitiator, hnode, hkey⟩ :=
    exists_sampleDriver sampleInitiatorId sampleInitiatorKey
  obtain ⟨-, responder, hresponder, hnode', hkey'⟩ :=
    exists_sampleDriver sampleResponderId sampleResponderKey
  refine ⟨initiator, responder, hinitiator, hresponder, ?_⟩
  rw [← hnode, ← hkey] at hinitiator
  rw [← hnode', ← hkey'] at hresponder
  exact not_negotiated_of_mem hinitiator hresponder (List.mem_singleton_self sampleExtension)

end Radiata
