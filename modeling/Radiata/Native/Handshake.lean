import Radiata.Native.Selection
import Radiata.Native.Signature

/-!
# The authentication handshake

`src/protocol/handshake.rs`: one endpoint of the in-memory handshake. Five messages are
exchanged in strict lockstep (two hellos, two proofs, the confirmation of the selection),
a sixth delivers an admission grant after authentication. Both hellos fix the transcript,
the canonical record that the identity signatures and the credential proofs cover.

A method that changes the endpoint returns the new one. `receive` also returns the
endpoint when it rejects a message, since a hello is stored before the offers are
compared.
-/

namespace Radiata

open Cbor (Item)
open Except (rejectIf okOr)

def protocolMagic : Bytes := Bytes.utf8 "MRLY"
def baseSchemaId : UInt64 := 1
def protocolPositions : Nat := 5
abbrev generationLen : Nat := 16
abbrev nonceLen : Nat := 32
abbrev publicKeyLen : Nat := 32
abbrev signatureLen : Nat := 64

def sessionV1ResponderDomain : Bytes := Bytes.utf8 "radiata.woooo.tech/crypto/session-v1-responder"
def sessionV1InitiatorDomain : Bytes := Bytes.utf8 "radiata.woooo.tech/crypto/session-v1-initiator"

/-! ## Kinds, modes and errors -/

inductive HandshakeKind where
  | initiatorHello
  | responderHello
  | responderProof
  | initiatorProof
  | selectionConfirmation
  | admissionGrantDelivery
  deriving DecidableEq

namespace HandshakeKind

def all : List HandshakeKind :=
  [initiatorHello, responderHello, responderProof, initiatorProof, selectionConfirmation,
    admissionGrantDelivery]

def kindId : HandshakeKind → UInt64
  | initiatorHello => 1
  | responderHello => 2
  | responderProof => 3
  | initiatorProof => 4
  | selectionConfirmation => 5
  | admissionGrantDelivery => 6

/-- The position of a message in the lockstep exchange. -/
def position : HandshakeKind → Nat
  | initiatorHello => 1
  | responderHello => 2
  | responderProof => 3
  | initiatorProof => 4
  | selectionConfirmation => 5
  | admissionGrantDelivery => 6

def arity : HandshakeKind → Nat
  | initiatorHello => 8
  | responderHello => 6
  | responderProof | initiatorProof => 3
  | selectionConfirmation | admissionGrantDelivery => 2

end HandshakeKind

def positionSender : HandshakeKind → Role
  | .initiatorHello | .initiatorProof => .initiator
  | _ => .responder

/-- The typed reason a transition was rejected. -/
inductive HandshakeError where
  | terminal
  | nonCanonical
  | unknownField
  | malformed (context : String)
  | roleSwapped
  | duplicate
  | outOfOrder
  | identityEqual
  | unexpectedCluster
  | expectedKeyConflict
  | proofMismatch
  | derivation
  | invalidSignature
  | selectionBytesMismatch
  | selection (error : SelectionError)
  | state (context : String)
  deriving DecidableEq

inductive HandshakeMode where
  | join
  | member
  deriving DecidableEq

def HandshakeMode.asStr : HandshakeMode → Bytes
  | join => Bytes.utf8 "join"
  | member => Bytes.utf8 "member"

def HandshakeMode.parse (value : Bytes) : Except HandshakeError HandshakeMode :=
  if value = HandshakeMode.join.asStr then .ok .join
  else if value = HandshakeMode.member.asStr then .ok .member
  else .error (.malformed "handshake mode")

/-! ## Wire forms -/

structure InitiatorHelloWire where
  kind : UInt64
  mode : Bytes
  generation : Option Bytes
  cluster : Bytes
  nodeId : Bytes
  publicKey : Bytes
  nonce : Bytes
  offer : Bytes

structure ResponderHelloWire where
  kind : UInt64
  cluster : Bytes
  nodeId : Bytes
  publicKey : Bytes
  nonce : Bytes
  offer : Bytes

structure ProofWire where
  kind : UInt64
  proof : Option Bytes
  signature : Bytes

structure ConfirmationWire where
  kind : UInt64
  selection : Bytes

structure GrantDeliveryWire where
  kind : UInt64
  grant : Bytes

structure IdentityWire where
  nodeId : Bytes
  publicKey : Bytes

/-- The canonical transcript. -/
structure TranscriptWire where
  magic : Bytes
  schema : UInt64
  mode : Bytes
  generation : Option Bytes
  roles : List Bytes
  cluster : Bytes
  identities : List IdentityWire
  nonces : List Bytes
  offers : List Bytes
  selection : Bytes
  channelBinding : Bytes

namespace InitiatorHelloWire

def toItem (wire : InitiatorHelloWire) : Item :=
  .array [.uint wire.kind, .text wire.mode, .option .bytes wire.generation, .text wire.cluster,
    .text wire.nodeId, .bytes wire.publicKey, .bytes wire.nonce, .bytes wire.offer]

def decode : Reader InitiatorHelloWire := Cbor.decodeFields 8 do
  return ⟨← Cbor.decodeU64, ← Cbor.decodeStr, ← Cbor.decodeOption Cbor.decodeBytes, ← Cbor.decodeStr,
    ← Cbor.decodeStr, ← Cbor.decodeBytes, ← Cbor.decodeBytes, ← Cbor.decodeBytes⟩

def codec : CborCodec InitiatorHelloWire := ⟨fun wire => wire.toItem.encode, decode⟩

end InitiatorHelloWire

namespace ResponderHelloWire

def toItem (wire : ResponderHelloWire) : Item :=
  .array [.uint wire.kind, .text wire.cluster, .text wire.nodeId, .bytes wire.publicKey,
    .bytes wire.nonce, .bytes wire.offer]

def decode : Reader ResponderHelloWire := Cbor.decodeFields 6 do
  return ⟨← Cbor.decodeU64, ← Cbor.decodeStr, ← Cbor.decodeStr, ← Cbor.decodeBytes,
    ← Cbor.decodeBytes, ← Cbor.decodeBytes⟩

def codec : CborCodec ResponderHelloWire := ⟨fun wire => wire.toItem.encode, decode⟩

end ResponderHelloWire

namespace ProofWire

def toItem (wire : ProofWire) : Item :=
  .array [.uint wire.kind, .option .bytes wire.proof, .bytes wire.signature]

def decode : Reader ProofWire := Cbor.decodeFields 3 do
  return ⟨← Cbor.decodeU64, ← Cbor.decodeOption Cbor.decodeBytes, ← Cbor.decodeBytes⟩

def codec : CborCodec ProofWire := ⟨fun wire => wire.toItem.encode, decode⟩

end ProofWire

namespace ConfirmationWire

def toItem (wire : ConfirmationWire) : Item := .array [.uint wire.kind, .bytes wire.selection]

def decode : Reader ConfirmationWire := Cbor.decodeFields 2 do
  return ⟨← Cbor.decodeU64, ← Cbor.decodeBytes⟩

def codec : CborCodec ConfirmationWire := ⟨fun wire => wire.toItem.encode, decode⟩

end ConfirmationWire

namespace GrantDeliveryWire

def toItem (wire : GrantDeliveryWire) : Item := .array [.uint wire.kind, .bytes wire.grant]

def decode : Reader GrantDeliveryWire := Cbor.decodeFields 2 do
  return ⟨← Cbor.decodeU64, ← Cbor.decodeBytes⟩

def codec : CborCodec GrantDeliveryWire := ⟨fun wire => wire.toItem.encode, decode⟩

end GrantDeliveryWire

def IdentityWire.toItem (wire : IdentityWire) : Item :=
  .array [.text wire.nodeId, .bytes wire.publicKey]

def TranscriptWire.toItem (wire : TranscriptWire) : Item :=
  .array [.text wire.magic, .uint wire.schema, .text wire.mode, .option .bytes wire.generation,
    .array (wire.roles.map .text), .text wire.cluster, .array (wire.identities.map IdentityWire.toItem),
    .array (wire.nonces.map .bytes), .array (wire.offers.map .bytes), .bytes wire.selection,
    .bytes wire.channelBinding]

/-! ## Reading messages -/

def decodeWire {α : Type} (codec : CborCodec α) (bytes : Bytes) : Except HandshakeError α :=
  (decodeCanonicalStrictOr codec bytes controlCborLimits).mapError fun
    | .decode _ => .malformed "handshake message decode"
    | .nonCanonical => .nonCanonical

/-- `fixed_bytes::<LENGTH>` of the handshake. -/
def handshakeBytes (length : Nat) (bytes : Bytes) (context : String) :
    Except HandshakeError (ByteValue length) :=
  ((fixedBytes length bytes context).map ByteValue.fromBytes).mapError fun _ => .malformed context

def optionalBytes (length : Nat) (value : Option Bytes) (context : String) :
    Except HandshakeError (Option (ByteValue length)) :=
  match value with
  | none => .ok none
  | some bytes => some <$> handshakeBytes length bytes context

/-- `probe`: the arity and the kind of a message. -/
def probe (bytes : Bytes) : Except HandshakeError (Nat × HandshakeKind) :=
  match Cbor.decodeArray bytes with
  | some (some arity, rest) =>
    match Cbor.decodeU64 rest with
    | none => .error (.malformed "handshake message")
    | some (kind, _) =>
      match HandshakeKind.all.find? fun handshake => handshake.kindId = kind with
      | none => .error (.malformed "handshake message kind")
      | some handshake => .ok (arity, handshake)
  | _ => .error (.malformed "handshake message")

def responderSessionMessage (transcript : Bytes) : Bytes :=
  signatureMessage sessionV1ResponderDomain transcript

def initiatorSessionMessage (transcript : Bytes) : Bytes :=
  signatureMessage sessionV1InitiatorDomain transcript

section Endpoint

variable [DnsName]

/-! ## Endpoints -/

/-- The immutable local configuration of one endpoint. -/
structure HandshakeConfig where
  mode : HandshakeMode
  role : Role
  cluster : ClusterId
  localId : NodeId
  localKey : PublicKey
  expectedPeer : Option (NodeId × PublicKey)
  generation : Option (ByteValue generationLen)
  credential : Option CredentialSecret
  localNonce : ByteValue nonceLen
  localOffer : FeatureOffer
  channelBinding : ByteValue 32

/-- The validated content of one hello. -/
structure HelloView where
  nodeId : NodeId
  publicKey : PublicKey
  nonce : ByteValue nonceLen
  offerBytes : Bytes
  offer : FeatureOffer

structure Handshake where
  config : HandshakeConfig
  registry : FeatureRegistry
  completed : Nat
  localView : HelloView
  peerHello : Option HelloView
  selection : Option Selection
  transcript : Option Bytes
  grantSent : Bool
  grant : Option Bytes

def IdentityWire.ofView (view : HelloView) : IdentityWire :=
  ⟨view.nodeId.asStr, view.publicKey.asBytes⟩

/-- The record that `assemble_transcript` writes. -/
def transcriptWire (mode : HandshakeMode) (generation : Option (ByteValue generationLen))
    (cluster : ClusterId) (initiator responder : HelloView) (selection : Bytes)
    (channelBinding : ByteValue 32) : TranscriptWire where
  magic := protocolMagic
  schema := baseSchemaId
  mode := mode.asStr
  generation := generation.map ByteValue.asBytes
  roles := [Role.initiator.asStr, Role.responder.asStr]
  cluster := cluster.asStr
  identities := [.ofView initiator, .ofView responder]
  nonces := [initiator.nonce.asBytes, responder.nonce.asBytes]
  offers := [initiator.offerBytes, responder.offerBytes]
  selection := selection
  channelBinding := channelBinding.asBytes

def assembleTranscript (mode : HandshakeMode) (generation : Option (ByteValue generationLen))
    (cluster : ClusterId) (initiator responder : HelloView) (selection : Bytes)
    (channelBinding : ByteValue 32) : Except HandshakeError Bytes :=
  (encodeCanonical (encodeOnly TranscriptWire.toItem)
    (transcriptWire mode generation cluster initiator responder selection channelBinding)
    controlCborLimits).mapError fun _ => .malformed "handshake transcript"

namespace Handshake

/-- The inputs a mode needs. -/
def checkInputs (config : HandshakeConfig) : Except HandshakeError Unit :=
  match config.mode with
  | .join => rejectIf (config.generation = none ∨ config.credential = none)
      (.malformed "handshake join inputs")
  | .member => rejectIf (config.generation ≠ none ∨ config.credential ≠ none ∨ config.expectedPeer = none)
      (.malformed "handshake member inputs")

def new (config : HandshakeConfig) (registry : FeatureRegistry) : Except HandshakeError Handshake := do
  checkInputs config
  (config.localOffer.validateLimits registry).mapError fun _ => .malformed "handshake local offer"
  let offerBytes ← config.localOffer.encode.mapError fun _ => .malformed "handshake local offer"
  return {
    config := config
    registry := registry
    completed := 0
    localView := ⟨config.localId, config.localKey, config.localNonce, offerBytes, config.localOffer⟩
    peerHello := none
    selection := none
    transcript := none
    grantSent := false
    grant := none }

def isAuthenticated (self : Handshake) : Bool := self.completed = protocolPositions

def transcriptDigest (self : Handshake) : Option Digest := self.transcript.map bodyDigest

/-! ## Sending -/

def beginSend (self : Handshake) (kind : HandshakeKind) (sender : Role) :
    Except HandshakeError Unit := do
  rejectIf (self.config.role ≠ sender) (.state "handshake send role")
  rejectIf (self.completed + 1 ≠ kind.position) (.state "handshake send order")

def finishSend {α : Type} (self : Handshake) (codec : CborCodec α) (wire : α) :
    Except HandshakeError (Bytes × Handshake) := do
  let bytes ← (encodeCanonical codec wire controlCborLimits).mapError fun _ =>
    .malformed "handshake encode"
  return (bytes, { self with completed := self.completed + 1 })

def initiatorHello (self : Handshake) : Except HandshakeError (Bytes × Handshake) := do
  self.beginSend .initiatorHello .initiator
  self.finishSend InitiatorHelloWire.codec {
    kind := HandshakeKind.initiatorHello.kindId
    mode := self.config.mode.asStr
    generation := self.config.generation.map ByteValue.asBytes
    cluster := self.config.cluster.asStr
    nodeId := self.config.localId.asStr
    publicKey := self.config.localKey.asBytes
    nonce := self.config.localNonce.asBytes
    offer := self.localView.offerBytes }

def responderHello (self : Handshake) : Except HandshakeError (Bytes × Handshake) := do
  self.beginSend .responderHello .responder
  self.finishSend ResponderHelloWire.codec {
    kind := HandshakeKind.responderHello.kindId
    cluster := self.config.cluster.asStr
    nodeId := self.config.localId.asStr
    publicKey := self.config.localKey.asBytes
    nonce := self.config.localNonce.asBytes
    offer := self.localView.offerBytes }

/-- The credential proof of a role; a member has none. -/
def deriveLocalProof (self : Handshake) (role : ProofRole) :
    Except HandshakeError (Option CredentialProof) :=
  match self.config.mode with
  | .member => .ok none
  | .join => do
    let secret ← okOr (.state "handshake credential") self.config.credential
    let digest ← okOr (.state "handshake transcript") self.transcriptDigest
    some <$> (deriveProof role self.config.channelBinding secret digest).mapError fun _ => .derivation

/-- The two proof messages, which differ in their kind and roles. -/
def sendProof (self : Handshake) (kind : HandshakeKind) (sender : Role) (role : ProofRole)
    (signature : Signature) : Except HandshakeError (Bytes × Handshake) := do
  self.beginSend kind sender
  let proof ← self.deriveLocalProof role
  self.finishSend ProofWire.codec {
    kind := kind.kindId
    proof := proof.map ByteValue.asBytes
    signature := signature.asBytes }

def responderProof (self : Handshake) (signature : Signature) :
    Except HandshakeError (Bytes × Handshake) :=
  self.sendProof .responderProof .responder .responder signature

def initiatorProof (self : Handshake) (signature : Signature) :
    Except HandshakeError (Bytes × Handshake) :=
  self.sendProof .initiatorProof .initiator .initiator signature

def selectionConfirmation (self : Handshake) : Except HandshakeError (Bytes × Handshake) := do
  self.beginSend .selectionConfirmation .responder
  let selection ← okOr (.state "handshake selection") self.selection
  self.finishSend ConfirmationWire.codec {
    kind := HandshakeKind.selectionConfirmation.kindId
    selection := selection.bytes }

def admissionGrantDelivery (self : Handshake) (grant : Bytes) :
    Except HandshakeError (Bytes × Handshake) := do
  rejectIf (self.config.role ≠ .responder) (.state "handshake send role")
  rejectIf (self.config.mode ≠ .join) (.state "handshake grant mode")
  rejectIf (¬ self.isAuthenticated) (.state "handshake grant order")
  rejectIf self.grantSent (.state "handshake grant duplicate")
  rejectIf (grant = []) (.malformed "handshake grant")
  let bytes ← (encodeCanonical GrantDeliveryWire.codec
    ⟨HandshakeKind.admissionGrantDelivery.kindId, grant⟩ controlCborLimits).mapError fun _ =>
      .malformed "handshake encode"
  return (bytes, { self with grantSent := true })

/-! ## Receiving -/

/-- The checks of `accept_peer_hello` before the hello is stored. -/
def readPeerHello (self : Handshake) (cluster nodeId publicKey nonce offerBytes : Bytes) :
    Except HandshakeError HelloView := do
  let cluster : ClusterId ← (CanonicalId.parse cluster).mapError fun _ => .malformed "handshake cluster"
  let nodeId : NodeId ← (CanonicalId.parse nodeId).mapError fun _ => .malformed "handshake node id"
  let publicKey ← handshakeBytes publicKeyLen publicKey "handshake public key"
  let nonce ← handshakeBytes nonceLen nonce "handshake nonce"
  rejectIf (cluster ≠ self.config.cluster) .unexpectedCluster
  rejectIf (nodeId = self.config.localId ∨ publicKey = self.config.localKey) .identityEqual
  rejectIf (self.config.expectedPeer.any fun (expectedId, expectedKey) =>
    decide (expectedId ≠ nodeId ∨ expectedKey ≠ publicKey)) .expectedKeyConflict
  let offer ← (FeatureOffer.decode offerBytes self.registry).mapError fun _ =>
    .malformed "handshake offer"
  return ⟨nodeId, publicKey, nonce, offerBytes, offer⟩

/-- Whether a hello carries the generation its mode asks for. -/
def generationMatches : HandshakeMode → Option (ByteValue generationLen) →
    Option (ByteValue generationLen) → Bool
  | .join, some actual, some expected => actual = expected
  | .member, none, none => true
  | _, _, _ => false

def readInitiatorHello (self : Handshake) (bytes : Bytes) : Except HandshakeError HelloView := do
  let wire ← decodeWire InitiatorHelloWire.codec bytes
  let mode ← HandshakeMode.parse wire.mode
  rejectIf (mode ≠ self.config.mode) (.malformed "handshake mode")
  let generation ← optionalBytes generationLen wire.generation "handshake generation"
  rejectIf (¬ generationMatches self.config.mode generation self.config.generation)
    (.malformed "handshake generation")
  self.readPeerHello wire.cluster wire.nodeId wire.publicKey wire.nonce wire.offer

def readResponderHello (self : Handshake) (bytes : Bytes) : Except HandshakeError HelloView := do
  let wire ← decodeWire ResponderHelloWire.codec bytes
  self.readPeerHello wire.cluster wire.nodeId wire.publicKey wire.nonce wire.offer

/-- The hellos in the order of their roles. -/
def roleViews (self : Handshake) (peer : HelloView) : HelloView × HelloView :=
  match self.config.role with
  | .initiator => (self.localView, peer)
  | .responder => (peer, self.localView)

def finalizeHellos (self : Handshake) : Except HandshakeError Handshake := do
  let peer ← okOr (.state "handshake peer hello") self.peerHello
  let selection ← (select self.registry self.localView.offer peer.offer
    self.localView.offer.required peer.offer.required).mapError .selection
  let (initiator, responder) := self.roleViews peer
  let transcript ← assembleTranscript self.config.mode self.config.generation self.config.cluster
    initiator responder selection.bytes self.config.channelBinding
  return { self with selection := some selection, transcript := some transcript }

/-- The proof field of a proof message. -/
def checkProof (self : Handshake) (role : ProofRole) (proof : Option CredentialProof) :
    Except HandshakeError Unit :=
  match self.config.mode, proof with
  | .join, some actual => do
    let secret ← okOr (.state "handshake credential") self.config.credential
    let digest ← okOr (.state "handshake transcript") self.transcriptDigest
    let verified ← (verifyProof role self.config.channelBinding secret digest actual).mapError fun _ =>
      .derivation
    rejectIf (¬ verified) .proofMismatch
  | .join, none => .error (.malformed "handshake proof")
  | .member, none => .ok ()
  | .member, some _ => .error (.malformed "handshake proof field")

def receiveProof [Ed25519] (self : Handshake) (bytes domain : Bytes) (role : ProofRole) :
    Except HandshakeError Unit := do
  let wire ← decodeWire ProofWire.codec bytes
  let proof ← optionalBytes proofLen wire.proof "handshake proof"
  self.checkProof role proof
  let signature ← handshakeBytes signatureLen wire.signature "handshake signature"
  let peer ← okOr (.state "handshake peer hello") self.peerHello
  let transcript ← okOr (.state "handshake transcript") self.transcript
  (verifyStrict domain transcript peer.publicKey signature "handshake session signature").mapError
    fun _ => .invalidSignature

def receiveConfirmation (self : Handshake) (bytes : Bytes) : Except HandshakeError Unit := do
  let wire ← decodeWire ConfirmationWire.codec bytes
  let selection ← okOr (.state "handshake selection") self.selection
  rejectIf (wire.selection ≠ selection.bytes) .selectionBytesMismatch

def receiveGrantDelivery (self : Handshake) (bytes : Bytes) : Except HandshakeError Handshake := do
  rejectIf (self.config.mode ≠ .join) (.malformed "handshake grant mode")
  rejectIf (¬ self.isAuthenticated) .outOfOrder
  rejectIf (self.grant ≠ none) .duplicate
  let wire ← decodeWire GrantDeliveryWire.codec bytes
  rejectIf (wire.grant = []) (.malformed "handshake grant")
  return { self with grant := some wire.grant }

/-- The answer of a call and the endpoint after it. -/
abbrev Outcome := Except HandshakeError Unit × Handshake

/-- A call that leaves the endpoint alone when it fails. -/
def settle (self : Handshake) : Except HandshakeError Handshake → Outcome
  | .error e => (.error e, self)
  | .ok next => (.ok (), next)

def advance (self : Handshake) : Handshake := { self with completed := self.completed + 1 }

/-- `accept_peer_hello`: the hello is stored before the offers are compared. -/
def acceptPeerHello (self : Handshake) (hello : Except HandshakeError HelloView) : Outcome :=
  match hello with
  | .error e => (.error e, self)
  | .ok view =>
    let stored := { self with peerHello := some view }
    stored.settle (advance <$> stored.finalizeHellos)

/-- The checks of `receive` on the header of a message. -/
def admitKind (self : Handshake) (bytes : Bytes) : Except HandshakeError HandshakeKind := do
  (validateCanonical bytes controlCborLimits).mapError fun _ => .nonCanonical
  let (arity, kind) ← probe bytes
  rejectIf (arity ≠ kind.arity) .unknownField
  rejectIf (positionSender kind = self.config.role) .roleSwapped
  return kind

def checkPosition (self : Handshake) (kind : HandshakeKind) : Except HandshakeError Unit := do
  rejectIf (self.completed ≥ protocolPositions) .terminal
  rejectIf (kind.position ≤ self.completed) .duplicate
  rejectIf (kind.position > self.completed + 1) .outOfOrder

/-- The lockstep positions of `receive`; every accepted message completes its position. -/
def receivePosition [Ed25519] (self : Handshake) (kind : HandshakeKind) (bytes : Bytes) : Outcome :=
  match kind with
  | .initiatorHello => self.acceptPeerHello (self.readInitiatorHello bytes)
  | .responderHello => self.acceptPeerHello (self.readResponderHello bytes)
  | .responderProof => self.settle do
    self.receiveProof bytes sessionV1ResponderDomain .responder
    return self.advance
  | .initiatorProof => self.settle do
    self.receiveProof bytes sessionV1InitiatorDomain .initiator
    return self.advance
  | .selectionConfirmation => self.settle do
    self.receiveConfirmation bytes
    return self.advance
  -- `receive` has taken the grant out before
  | .admissionGrantDelivery => (.error .terminal, self)

def receive [Ed25519] (self : Handshake) (bytes : Bytes) : Outcome :=
  match self.admitKind bytes with
  | .error e => (.error e, self)
  | .ok kind =>
    if kind = .admissionGrantDelivery then self.settle (self.receiveGrantDelivery bytes)
    else
      match self.checkPosition kind with
      | .error e => (.error e, self)
      | .ok () => self.receivePosition kind bytes

end Handshake

end Endpoint

end Radiata
