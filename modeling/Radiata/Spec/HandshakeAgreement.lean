import Radiata.Spec.HandshakeComplete

/-!
# Agreement of the handshake

Any number of endpoints run while the network delivers arbitrary bytes to them. Honest
endpoints sign the session message of their own transcript in their own role; the holders
of corrupt keys sign anything. A delivered signature verifies only what the holder of
its key has signed before.

An endpoint that has authenticated its peer holds the transcript that the peer's key has
signed in the other role, and endpoints with one transcript agree on everything that
went into it.

## Key results

- `Handshake.Consistent`: what an endpoint knows at each position
- `sound_of_reachable`: the invariant of a run
- `handshake_agreement`: authentication and agreement in every run
-/

namespace Radiata

/-- The messages signed so far, with the keys that signed them. -/
abbrev SignatureLog := List (PublicKey × Bytes)

/-- Every signature that delivered bytes carry verifies signed messages only. -/
def Unforged [Ed25519] (signed : SignatureLog) (bytes : Bytes) : Prop :=
  ∀ wire (signature : Signature), decodeWire ProofWire.codec bytes = .ok wire →
    wire.signature = signature.asBytes → ∀ key message,
      Ed25519.accepts key message signature = true → (key, message) ∈ signed

theorem Role.helloPosition_lt_proofPosition (role : Role) :
    role.helloPosition < role.proofPosition := by
  cases role <;> decide

section Run

variable [DnsName]

/-- The endpoints of a run and the messages that have been signed in it. -/
structure World where
  endpoints : List Handshake
  signed : SignatureLog

variable [Ed25519]

/-- One step of a run. -/
inductive World.Step (corrupt : PublicKey → Prop) (world : World) : World → Prop where
  | start (config : HandshakeConfig) (registry : FeatureRegistry) (endpoint : Handshake) :
      Handshake.new config registry = .ok endpoint →
      Step corrupt world { world with endpoints := world.endpoints ++ [endpoint] }
  | send (i : Nat) (endpoint next : Handshake) (call : SendCall) (bytes : Bytes) :
      world.endpoints[i]? = some endpoint → call.run endpoint = .ok (bytes, next) →
      Step corrupt world { world with endpoints := world.endpoints.set i next }
  /-- An honest endpoint signs its transcript in its role. -/
  | sign (i : Nat) (endpoint : Handshake) (transcript : Bytes) :
      world.endpoints[i]? = some endpoint → endpoint.transcript = some transcript →
      Step corrupt world { world with
        signed := (endpoint.config.localKey, endpoint.config.role.sessionMessage transcript) ::
          world.signed }
  /-- The holder of a corrupt key signs anything. -/
  | signAny (key : PublicKey) (message : Bytes) : corrupt key →
      Step corrupt world { world with signed := (key, message) :: world.signed }
  | deliver (i : Nat) (endpoint : Handshake) (bytes : Bytes) :
      world.endpoints[i]? = some endpoint → Unforged world.signed bytes →
      Step corrupt world { world with endpoints := world.endpoints.set i (endpoint.receive bytes).2 }

/-- The runs from the empty world. -/
def handshakeRuns (corrupt : PublicKey → Prop) : TransitionSystem World where
  init := fun world => world = ⟨[], []⟩
  next := World.Step corrupt

/-! ## One endpoint -/

/-- What an endpoint knows at each position, given what has been signed. -/
structure Handshake.Consistent (signed : SignatureLog) (endpoint : Handshake) : Prop where
  early : endpoint.completed < endpoint.config.role.helloPosition → endpoint.transcript = none
  assembled : endpoint.config.role.helloPosition ≤ endpoint.completed → ∃ peer selection transcript,
    endpoint.peerHello = some peer ∧ endpoint.selection = some selection ∧
      endpoint.transcript = some transcript ∧ endpoint.Assembles peer selection transcript
  verified : endpoint.config.role.proofPosition ≤ endpoint.completed → ∀ peer transcript,
    endpoint.peerHello = some peer → endpoint.transcript = some transcript →
      (peer.publicKey, endpoint.config.role.other.sessionMessage transcript) ∈ signed

namespace Handshake

variable {signed : SignatureLog} {self : Handshake}

omit [Ed25519] in
theorem Consistent.mono {signed' : SignatureLog} (h : self.Consistent signed)
    (hsub : ∀ entry ∈ signed, entry ∈ signed') :
    self.Consistent signed' where
  early := h.early
  assembled := h.assembled
  verified hposition peer transcript hpeer htranscript :=
    hsub _ (h.verified hposition peer transcript hpeer htranscript)

omit [Ed25519] in
/-- A new endpoint has completed nothing. -/
theorem consistent_new {config : HandshakeConfig} {registry : FeatureRegistry}
    (h : new config registry = .ok self) :
    self.Consistent signed := by
  simp only [new, Except.bind_eq_ok] at h
  obtain ⟨-, -, -, -, offerBytes, -, hself⟩ := h
  cases hself
  refine ⟨fun _ => rfl, ?_, ?_⟩
  · intro hposition
    cases hrole : config.role <;> simp [hrole, Role.helloPosition] at hposition
  · intro hposition
    cases hrole : config.role <;> simp [hrole, Role.proofPosition] at hposition

omit [Ed25519] in
/-- Completing a position between the hello and the proof, or after both, keeps what an
    endpoint knows. -/
theorem Consistent.advance (h : self.Consistent signed)
    (hhello : self.completed + 1 ≠ self.config.role.helloPosition)
    (hproof : self.config.role.proofPosition ≤ self.completed + 1 → ∀ peer transcript,
      self.peerHello = some peer → self.transcript = some transcript →
        (peer.publicKey, self.config.role.other.sessionMessage transcript) ∈ signed) :
    self.advance.Consistent signed where
  early hposition := h.early (Nat.lt_of_succ_lt hposition)
  assembled hposition := by
    have hposition : self.config.role.helloPosition ≤ self.completed + 1 := hposition
    exact h.assembled (by omega)
  verified hposition := hproof hposition

variable {next : Handshake}

omit [Ed25519] in
/-- A send completes a position of its own role, never the hello or proof of the peer. -/
theorem Consistent.sent (h : self.Consistent signed) (hsent : SendCall.Sent self next) :
    next.Consistent signed := by
  cases hsent with
  | grant => exact ⟨h.early, h.assembled, h.verified⟩
  | position kind hsender hposition hkind =>
    have hhello : self.completed + 1 ≠ self.config.role.helloPosition := by
      rw [hposition, ← hsender]
      cases kind <;> decide
    have hproof : self.completed + 1 ≠ self.config.role.proofPosition := by
      rw [hposition, ← hsender]
      cases kind <;> first | exact absurd rfl hkind | decide
    refine h.advance hhello fun hle => h.verified (by omega)

/-- A delivered message keeps what an endpoint knows: the hello of the peer is stored only
    before the transcript exists, and its proof is accepted only for a signed message. -/
theorem Consistent.received {bytes : Bytes} (h : self.Consistent signed)
    (hunforged : Unforged signed bytes) (hreceived : Received self bytes next) :
    next.Consistent signed := by
  have hlt := self.config.role.helloPosition_lt_proofPosition
  cases hreceived with
  | same => exact h
  | grant grant => exact ⟨h.early, h.assembled, h.verified⟩
  | stored peer hposition =>
    refine ⟨h.early, fun hle => ?_, fun hle => ?_⟩
    · have hle : self.config.role.helloPosition ≤ self.completed := hle
      omega
    · have hle : self.config.role.proofPosition ≤ self.completed := hle
      omega
  | hello peer selection transcript hposition hassembles =>
    refine ⟨fun hless => ?_, fun _ => ?_, fun hle => ?_⟩
    · have hless : self.completed + 1 < self.config.role.helloPosition := hless
      omega
    · exact ⟨peer, selection, transcript, rfl, rfl, rfl, hassembles⟩
    · have hle : self.config.role.proofPosition ≤ self.completed + 1 := hle
      omega
  | proof hposition hproof =>
    refine h.advance (by omega) fun _ peer transcript hpeer htranscript => ?_
    obtain ⟨wire, signature, peer', transcript', hwire, hbytes, hpeer', htranscript', haccepts⟩ :=
      accepts_of_receiveProof hproof
    rw [hpeer] at hpeer'
    rw [htranscript] at htranscript'
    cases hpeer'
    cases htranscript'
    exact hunforged wire signature hwire hbytes _ _ haccepts
  | confirmation hrole hposition hconfirmation =>
    have hproof : self.config.role.proofPosition = 3 := by rw [hrole]; rfl
    refine h.advance (by omega) fun _ => h.verified (by omega)

/-- An endpoint keeps its transcript. -/
theorem transcript_of_received {bytes transcript : Bytes} (h : self.Consistent signed)
    (hreceived : Received self bytes next) (htranscript : self.transcript = some transcript) :
    next.transcript = some transcript := by
  cases hreceived with
  | hello peer selection transcript' hposition _ =>
    rw [h.early (by omega)] at htranscript
    cases htranscript
  | _ => exact htranscript

theorem config_of_received {bytes : Bytes} (hreceived : Received self bytes next) :
    next.config = self.config := by
  cases hreceived <;> rfl

omit [Ed25519] in
theorem fields_of_sent (hsent : SendCall.Sent self next) :
    next.config = self.config ∧ next.transcript = self.transcript := by
  cases hsent <;> exact ⟨rfl, rfl⟩

end Handshake

/-! ## Runs -/

/-- A signed message is the session message of an endpoint that holds the key, unless the
    key is corrupt. -/
def SignedByOwner (corrupt : PublicKey → Prop) (world : World) : Prop :=
  ∀ key message, (key, message) ∈ world.signed → corrupt key ∨
    ∃ owner ∈ world.endpoints, ∃ transcript, owner.config.localKey = key ∧
      owner.transcript = some transcript ∧ message = owner.config.role.sessionMessage transcript

variable {corrupt : PublicKey → Prop}

variable {world : World} {endpoint : Handshake}

omit [Ed25519] in
/-- The owners of signatures survive the change of an endpoint that keeps its configuration
    and transcript. -/
theorem SignedByOwner.set {i : Nat} {next : Handshake} (h : SignedByOwner corrupt world)
    (hget : world.endpoints[i]? = some endpoint) (hconfig : next.config = endpoint.config)
    (htranscript : ∀ transcript, endpoint.transcript = some transcript →
      next.transcript = some transcript) :
    SignedByOwner corrupt { world with endpoints := world.endpoints.set i next } := by
  intro key message hsigned
  rcases h key message hsigned with hcorrupt | ⟨owner, howner, transcript, hkey, hheld, hmessage⟩
  · exact Or.inl hcorrupt
  refine Or.inr ?_
  rcases List.mem_set_or_eq hget howner with hmem | heq
  · exact ⟨owner, hmem, transcript, hkey, hheld, hmessage⟩
  · subst heq
    exact ⟨next, List.mem_set_self hget, transcript, by rw [hconfig]; exact hkey,
      htranscript transcript hheld, by rw [hconfig]; exact hmessage⟩

/-- The invariant of a run. -/
structure World.Sound (corrupt : PublicKey → Prop) (world : World) : Prop where
  consistent : ∀ endpoint ∈ world.endpoints, endpoint.Consistent world.signed
  owned : SignedByOwner corrupt world

omit [Ed25519] in
/-- Changing one endpoint. -/
theorem World.Sound.set {i : Nat} {next : Handshake} (h : world.Sound corrupt)
    (hget : world.endpoints[i]? = some endpoint) (hnext : next.Consistent world.signed)
    (hconfig : next.config = endpoint.config)
    (htranscript : ∀ transcript, endpoint.transcript = some transcript →
      next.transcript = some transcript) :
    Sound corrupt { world with endpoints := world.endpoints.set i next } where
  consistent other hother := by
    rcases List.mem_or_eq_of_mem_set hother with hmem | rfl
    · exact h.consistent other hmem
    · exact hnext
  owned := h.owned.set hget hconfig htranscript

omit [Ed25519] in
/-- Signing one more message. -/
theorem World.Sound.sign {key : PublicKey} {message : Bytes} (h : world.Sound corrupt)
    (hnew : corrupt key ∨ ∃ owner ∈ world.endpoints, ∃ transcript, owner.config.localKey = key ∧
      owner.transcript = some transcript ∧ message = owner.config.role.sessionMessage transcript) :
    Sound corrupt { world with signed := (key, message) :: world.signed } where
  consistent endpoint hmem := (h.consistent endpoint hmem).mono fun _ => List.mem_cons_of_mem _
  owned := by
    intro other signed hsigned
    rcases List.mem_cons.mp hsigned with heq | hold
    · cases heq
      exact hnew
    · exact h.owned other signed hold

/-- Every step keeps the invariant. -/
theorem World.Sound.step {next : World} (h : world.Sound corrupt)
    (hstep : World.Step corrupt world next) : next.Sound corrupt := by
  cases hstep with
  | start config registry endpoint hnew =>
    constructor
    · intro other hother
      rcases List.mem_append.mp hother with hmem | hmem
      · exact h.consistent other hmem
      · rw [List.mem_singleton.mp hmem]
        exact Handshake.consistent_new hnew
    · intro key message hsigned
      rcases h.owned key message hsigned with hcorrupt | ⟨owner, howner, hheld⟩
      · exact Or.inl hcorrupt
      · exact Or.inr ⟨owner, List.mem_append_left _ howner, hheld⟩
  | send i endpoint next call bytes hget hrun =>
    have hsent := SendCall.sent_of_run hrun
    have hfields := Handshake.fields_of_sent hsent
    have hold := h.consistent endpoint (List.mem_of_getElem? hget)
    refine h.set hget (hold.sent hsent) hfields.1 fun transcript htranscript => ?_
    rw [hfields.2]
    exact htranscript
  | sign i endpoint transcript hget htranscript =>
    exact h.sign (Or.inr ⟨endpoint, List.mem_of_getElem? hget, transcript, rfl, htranscript, rfl⟩)
  | signAny key message hcorrupt => exact h.sign (Or.inl hcorrupt)
  | deliver i endpoint bytes hget hunforged =>
    have hreceived := endpoint.received_receive bytes
    have hold := h.consistent endpoint (List.mem_of_getElem? hget)
    exact h.set hget (hold.received hunforged hreceived) (Handshake.config_of_received hreceived)
      fun transcript => Handshake.transcript_of_received hold hreceived

theorem sound_of_reachable (h : (handshakeRuns corrupt).Reachable world) :
    world.Sound corrupt := by
  refine h.invariant ?_ fun _ _ _ hsound hstep => hsound.step hstep
  rintro world rfl
  exact ⟨fun endpoint hmem => (by cases hmem), fun key message hmem => (by cases hmem)⟩

/-! ## Agreement -/

/-- No two transcripts of a run have one digest. -/
def TranscriptsDistinct (world : World) : Prop :=
  ∀ endpoint ∈ world.endpoints, ∀ other ∈ world.endpoints, ∀ transcript transcript',
    endpoint.transcript = some transcript → other.transcript = some transcript' →
    bodyDigest transcript = bodyDigest transcript' → transcript = transcript'

/-- What two endpoints with one transcript agree on. -/
structure Agrees (endpoint other : Handshake) : Prop where
  mode : endpoint.config.mode = other.config.mode
  generation : endpoint.config.generation = other.config.generation
  cluster : endpoint.config.cluster = other.config.cluster
  channelBinding : endpoint.config.channelBinding = other.config.channelBinding
  views : ∃ peer peer', endpoint.peerHello = some peer ∧ other.peerHello = some peer' ∧
    SameView (endpoint.roleViews peer).1 (other.roleViews peer').1 ∧
    SameView (endpoint.roleViews peer).2 (other.roleViews peer').2
  selection : ∃ selection selection', endpoint.selection = some selection ∧
    other.selection = some selection' ∧ selection.bytes = selection'.bytes

omit [Ed25519] in
theorem Handshake.Consistent.exists_transcript {signed : SignatureLog} {self : Handshake}
    (h : self.Consistent signed) {transcript : Bytes} (htranscript : self.transcript = some transcript) :
    ∃ peer selection, self.peerHello = some peer ∧ self.selection = some selection ∧
      self.Assembles peer selection transcript := by
  have hposition : self.config.role.helloPosition ≤ self.completed := by
    by_contra hless
    rw [h.early (by omega)] at htranscript
    cases htranscript
  obtain ⟨peer, selection, transcript', hpeer, hselection, htranscript', hassembles⟩ :=
    h.assembled hposition
  rw [htranscript] at htranscript'
  cases htranscript'
  exact ⟨peer, selection, hpeer, hselection, hassembles⟩

omit [Ed25519] in
theorem agrees_of_transcript {signed : SignatureLog} {other : Handshake}
    (h : endpoint.Consistent signed) (h' : other.Consistent signed) {transcript : Bytes}
    (htranscript : endpoint.transcript = some transcript)
    (htranscript' : other.transcript = some transcript) : Agrees endpoint other := by
  obtain ⟨peer, selection, hpeer, hselection, hassembles⟩ := h.exists_transcript htranscript
  obtain ⟨peer', selection', hpeer', hselection', hassembles'⟩ := h'.exists_transcript htranscript'
  obtain ⟨hmode, hgeneration, hcluster, hinitiator, hresponder, hbytes, hbinding⟩ :=
    assembleTranscript_inj hassembles hassembles'
  exact ⟨hmode, hgeneration, hcluster, hbinding, ⟨peer, peer', hpeer, hpeer', hinitiator, hresponder⟩,
    selection, selection', hselection, hselection', hbytes⟩

/-- In every run: the key of an authenticated endpoint's peer has signed the endpoint's
    transcript in the other role, by an endpoint that holds this very transcript unless the
    key is corrupt; and endpoints with one transcript agree. -/
theorem handshake_agreement (corrupt : PublicKey → Prop) (world : World)
    (hrun : (handshakeRuns corrupt).Reachable world) (hdistinct : TranscriptsDistinct world) :
    (∀ endpoint ∈ world.endpoints, endpoint.isAuthenticated = true →
      ∃ peer transcript, endpoint.peerHello = some peer ∧ endpoint.transcript = some transcript ∧
        (peer.publicKey, endpoint.config.role.other.sessionMessage transcript) ∈ world.signed ∧
        (¬ corrupt peer.publicKey → ∃ owner ∈ world.endpoints,
          owner.config.role = endpoint.config.role.other ∧ owner.config.localKey = peer.publicKey ∧
          owner.transcript = some transcript)) ∧
    ∀ endpoint ∈ world.endpoints, ∀ other ∈ world.endpoints, ∀ transcript,
      endpoint.transcript = some transcript → other.transcript = some transcript →
      Agrees endpoint other := by
  have hsound := sound_of_reachable hrun
  constructor
  · intro endpoint hmem hauthenticated
    have hcompleted : endpoint.completed = 5 := of_decide_eq_true hauthenticated
    have hconsistent := hsound.consistent endpoint hmem
    have hhello : endpoint.config.role.helloPosition ≤ endpoint.completed := by
      rw [hcompleted]
      cases endpoint.config.role <;> decide
    have hproof : endpoint.config.role.proofPosition ≤ endpoint.completed := by
      rw [hcompleted]
      cases endpoint.config.role <;> decide
    obtain ⟨peer, selection, transcript, hpeer, -, htranscript, -⟩ := hconsistent.assembled hhello
    have hsigned := hconsistent.verified hproof peer transcript hpeer htranscript
    refine ⟨peer, transcript, hpeer, htranscript, hsigned, fun hhonest => ?_⟩
    rcases hsound.owned _ _ hsigned with hcorrupt | ⟨owner, howner, transcript', hkey, hheld, hmessage⟩
    · exact absurd hcorrupt hhonest
    · obtain ⟨hrole, hdigest⟩ := Role.sessionMessage_inj hmessage
      have hsame := hdistinct endpoint hmem owner howner transcript transcript' htranscript hheld hdigest
      exact ⟨owner, howner, hrole.symm, hkey, hsame ▸ hheld⟩
  · intro endpoint hmem other hmem' transcript htranscript htranscript'
    exact agrees_of_transcript (hsound.consistent endpoint hmem) (hsound.consistent other hmem')
      htranscript htranscript'

end Run

/-! ## The honest run -/

section Honest

variable [DnsName] [Ed25519]

/-- Delivering a message that an endpoint accepts. -/
theorem World.Step.accepted {corrupt : PublicKey → Prop} {world : World} (i : Nat)
    {endpoint next : Handshake} {bytes : Bytes} (hget : world.endpoints[i]? = some endpoint)
    (hunforged : Unforged world.signed bytes) (haccept : endpoint.accept bytes = .ok next) :
    World.Step corrupt world { world with endpoints := world.endpoints.set i next } := by
  have hnext : (endpoint.receive bytes).2 = next := by
    rw [Handshake.accept] at haccept
    split at haccept
    · rename_i hreceive
      rw [hreceive]
      exact Except.ok.inj haccept
    · cases haccept
  rw [← hnext]
  exact .deliver i endpoint bytes hget hunforged

/-- Two endpoints after their lockstep exchange. -/
def lockstepWorld (initiator responder : HandshakeConfig) (registry : FeatureRegistry)
    (selection : Selection) (transcript : Bytes) : World where
  endpoints := [Handshake.met initiator registry responder.view selection transcript 5,
    Handshake.met responder registry initiator.view selection transcript 5]
  signed := [(initiator.localKey, initiator.role.sessionMessage transcript),
    (responder.localKey, responder.role.sessionMessage transcript)]

/-- The lockstep exchange of honest endpoints is a run. -/
theorem Handshake.Lockstep.reachable (corrupt : PublicKey → Prop)
    {initiator responder : HandshakeConfig} {registry : FeatureRegistry} {selection : Selection}
    {transcript : Bytes} {signature signature' : Signature} {proof proof' confirmation : Bytes}
    (h : Lockstep initiator responder registry selection transcript signature signature' proof proof'
      confirmation)
    (hfirst : new initiator registry = .ok (initial initiator registry))
    (hsecond : new responder registry = .ok (initial responder registry))
    (hproof : Unforged [(responder.localKey, responder.role.sessionMessage transcript)] proof)
    (hproof' : Unforged [(initiator.localKey, initiator.role.sessionMessage transcript),
      (responder.localKey, responder.role.sessionMessage transcript)] proof') :
    (handshakeRuns corrupt).Reachable
      (lockstepWorld initiator responder registry selection transcript) := by
  have hplain : ∀ signed, ∀ bytes ∈ [(initiatorHelloItem initiator).encode,
      (responderHelloItem responder).encode, confirmation], Unforged signed bytes :=
    fun signed bytes hbytes wire _ hwire => absurd hwire (h.carriesNone bytes hbytes wire)
  -- both endpoints start, exchange their hellos and hold the transcript
  have hempty : (handshakeRuns corrupt).Reachable ⟨[], []⟩ := .init rfl
  have hinitiator := hempty.step (.start initiator registry _ hfirst)
  have hresponder := hinitiator.step (.start responder registry _ hsecond)
  have hhello := hresponder.step (.send 0 _ _ .initiatorHello _ rfl h.hello)
  have hmet := hhello.step (World.Step.accepted 1 rfl (hplain _ _ (by simp)) h.helloAccepted)
  have hanswer := hmet.step (.send 1 _ _ .responderHello _ rfl h.answer)
  have hassembled := hanswer.step (World.Step.accepted 0 rfl (hplain _ _ (by simp)) h.answerAccepted)
  -- the responder signs and proves itself, then the initiator
  have hsigned := hassembled.step (.sign 1 _ transcript rfl rfl)
  have hproved := hsigned.step (.send 1 _ _ (.responderProof signature') _ rfl h.proved)
  have hverified := hproved.step (World.Step.accepted 0 rfl hproof h.proofAccepted)
  have hsigned' := hverified.step (.sign 0 _ transcript rfl rfl)
  have hproved' := hsigned'.step (.send 0 _ _ (.initiatorProof signature) _ rfl h.proved')
  have hverified' := hproved'.step (World.Step.accepted 1 rfl hproof' h.proofAccepted')
  have hconfirmed := hverified'.step (.send 1 _ _ .selectionConfirmation _ rfl h.confirmed)
  exact hconfirmed.step
    (World.Step.accepted 0 rfl (hplain _ _ (by simp)) h.confirmationAccepted)

omit [Ed25519] in
theorem transcriptsDistinct_lockstepWorld (initiator responder : HandshakeConfig)
    (registry : FeatureRegistry) (selection : Selection) (transcript : Bytes) :
    TranscriptsDistinct (lockstepWorld initiator responder registry selection transcript) := by
  have hheld : ∀ endpoint ∈ (lockstepWorld initiator responder registry selection
      transcript).endpoints, endpoint.transcript = some transcript := by
    simp [lockstepWorld, Handshake.met]
  intro endpoint hmem other hmem' first second hfirst hsecond _
  rw [hheld endpoint hmem] at hfirst
  rw [hheld other hmem'] at hsecond
  cases hfirst
  cases hsecond
  rfl

end Honest

/-- The scheme that accepts exactly the listed signatures. -/
@[reducible] def listedScheme (listed : List (PublicKey × Bytes × Signature)) : Ed25519 :=
  ⟨fun key message signature => decide ((key, message, signature) ∈ listed)⟩

/-- A message with a listed signature is unforged if the holders of the key have signed what
    is listed for it. -/
theorem unforged_of_listed {listed : List (PublicKey × Bytes × Signature)} {signed : SignatureLog}
    {bytes : Bytes} {signature : Signature}
    (hcarries : ∃ wire, decodeWire ProofWire.codec bytes = .ok wire ∧
      wire.signature = signature.asBytes)
    (h : ∀ key message, (key, message, signature) ∈ listed → (key, message) ∈ signed) :
    @Unforged (listedScheme listed) signed bytes := by
  intro wire other hwire hother key message haccepts
  obtain ⟨wire', hwire', hsignature⟩ := hcarries
  rw [hwire] at hwire'
  cases hwire'
  have heq : other = signature := ByteValue.ext_asBytes (hother.symm.trans hsignature)
  subst heq
  exact h key message (of_decide_eq_true haccepts)

/-- The honest exchange of two members is a run in which both authenticate. -/
theorem sample_handshake_agreement :
    letI := DnsName.hostNames
    ∃ (_scheme : Ed25519) (world : World),
      (handshakeRuns fun _ => False).Reachable world ∧ TranscriptsDistinct world ∧
      world.endpoints.length = 2 ∧
      ∀ endpoint ∈ world.endpoints, endpoint.isAuthenticated = true ∧
        ∃ peer transcript, endpoint.peerHello = some peer ∧ endpoint.transcript = some transcript ∧
          (peer.publicKey, endpoint.config.role.other.sessionMessage transcript) ∈ world.signed := by
  let _ := DnsName.hostNames
  obtain ⟨registry, offer, selection, hoffer, hpair, hfirst, hsecond, hselect, hfits⟩ :=
    exists_samplePair
  have hvalid := validateLimits_own (offers_of_nodeOffer hoffer)
  obtain ⟨transcript, htranscript⟩ : ∃ transcript, transcript = ((Handshake.initial
      (sampleInitiator offer) registry).transcriptItem (sampleResponder offer).view
        selection.bytes).encode := ⟨_, rfl⟩
  let signature : Signature := ⟨List.replicate 64 1, rfl⟩
  let signature' : Signature := ⟨List.replicate 64 2, rfl⟩
  let scheme := listedScheme [(sampleInitiatorKey, initiatorSessionMessage transcript, signature),
    (sampleResponderKey, responderSessionMessage transcript, signature')]
  have haccepts : scheme.accepts sampleInitiatorKey (initiatorSessionMessage transcript) signature = true :=
    decide_eq_true (by simp)
  have haccepts' : scheme.accepts sampleResponderKey (responderSessionMessage transcript) signature' =
      true := decide_eq_true (by simp)
  have hne : signature ≠ signature' := by decide
  obtain ⟨proof, proof', confirmation, hlockstep⟩ := exists_lockstep foldedHosts_hostNames hpair rfl rfl
    hvalid hvalid hselect hfits htranscript haccepts haccepts'
  -- each proof carries one of the two signatures, which is listed for what its sender signed
  have hunforged : Unforged [((sampleResponder offer).localKey,
      (sampleResponder offer).role.sessionMessage transcript)] proof := by
    refine unforged_of_listed hlockstep.carries fun key message hlisted => ?_
    have hlisted : key = sampleResponderKey ∧ message = responderSessionMessage transcript := by
      simpa [hne.symm] using hlisted
    rw [hlisted.1, hlisted.2]
    exact List.mem_cons_self
  have hunforged' : Unforged [((sampleInitiator offer).localKey,
      (sampleInitiator offer).role.sessionMessage transcript), ((sampleResponder offer).localKey,
      (sampleResponder offer).role.sessionMessage transcript)] proof' := by
    refine unforged_of_listed hlockstep.carries' fun key message hlisted => ?_
    have hlisted : key = sampleInitiatorKey ∧ message = initiatorSessionMessage transcript := by
      simpa [hne] using hlisted
    rw [hlisted.1, hlisted.2]
    exact List.mem_cons_self
  have hrun := hlockstep.reachable (fun _ => False) hfirst hsecond hunforged hunforged'
  have hdistinct := transcriptsDistinct_lockstepWorld (sampleInitiator offer) (sampleResponder offer)
    registry selection transcript
  have hagreement := handshake_agreement (fun _ => False) _ hrun hdistinct
  refine ⟨scheme, _, hrun, hdistinct, rfl, fun endpoint hmem => ?_⟩
  have hauthenticated : endpoint.isAuthenticated = true := by
    simp only [lockstepWorld, List.mem_cons, List.not_mem_nil, or_false] at hmem
    rcases hmem with rfl | rfl <;> rfl
  obtain ⟨peer, held, hpeer, hheld, hsigned, -⟩ := hagreement.1 endpoint hmem hauthenticated
  exact ⟨hauthenticated, peer, held, hpeer, hheld, hsigned⟩

end Radiata
