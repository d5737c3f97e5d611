import Radiata.Native.Handshake

/-!
# Handshake calls on a mutable endpoint

The sends of `src/protocol/handshake.rs` again, as methods on `&mut self`: a call reads
the endpoint, writes it where the source does, and what it wrote before an error stays
written. The pure sends answer with the new endpoint only when they succeed; here an
error has an endpoint after it as well.
-/

namespace Radiata

open Except (rejectIf okOr)

section Calls

variable [DnsName]

/-- A method on `&mut self`: what it wrote stays when it fails. -/
abbrev EndpointM := ExceptT HandshakeError (StateM Handshake)

namespace EndpointM

def finishSend {α : Type} (codec : CborCodec α) (wire : α) : EndpointM Bytes := do
  let bytes ← (encodeCanonical codec wire controlCborLimits).mapError fun _ =>
    HandshakeError.malformed "handshake encode"
  modify Handshake.advance
  return bytes

def initiatorHello : EndpointM Bytes := do
  let self ← get
  self.beginSend .initiatorHello .initiator
  finishSend InitiatorHelloWire.codec {
    kind := HandshakeKind.initiatorHello.kindId
    mode := self.config.mode.asStr
    generation := self.config.generation.map ByteValue.asBytes
    cluster := self.config.cluster.asStr
    nodeId := self.config.localId.asStr
    publicKey := self.config.localKey.asBytes
    nonce := self.config.localNonce.asBytes
    offer := self.localView.offerBytes }

def responderHello : EndpointM Bytes := do
  let self ← get
  self.beginSend .responderHello .responder
  finishSend ResponderHelloWire.codec {
    kind := HandshakeKind.responderHello.kindId
    cluster := self.config.cluster.asStr
    nodeId := self.config.localId.asStr
    publicKey := self.config.localKey.asBytes
    nonce := self.config.localNonce.asBytes
    offer := self.localView.offerBytes }

def sendProof (kind : HandshakeKind) (sender : Role) (role : ProofRole) (signature : Signature) :
    EndpointM Bytes := do
  let self ← get
  self.beginSend kind sender
  let proof ← self.deriveLocalProof role
  finishSend ProofWire.codec {
    kind := kind.kindId
    proof := proof.map ByteValue.asBytes
    signature := signature.asBytes }

def responderProof (signature : Signature) : EndpointM Bytes :=
  sendProof .responderProof .responder .responder signature

def initiatorProof (signature : Signature) : EndpointM Bytes :=
  sendProof .initiatorProof .initiator .initiator signature

def selectionConfirmation : EndpointM Bytes := do
  let self ← get
  self.beginSend .selectionConfirmation .responder
  let selection ← okOr (HandshakeError.state "handshake selection") self.selection
  finishSend ConfirmationWire.codec {
    kind := HandshakeKind.selectionConfirmation.kindId
    selection := selection.bytes }

def admissionGrantDelivery (grant : Bytes) : EndpointM Bytes := do
  let self ← get
  rejectIf (self.config.role ≠ .responder) (HandshakeError.state "handshake send role")
  rejectIf (self.config.mode ≠ .join) (HandshakeError.state "handshake grant mode")
  rejectIf (¬ self.isAuthenticated) (HandshakeError.state "handshake grant order")
  rejectIf self.grantSent (HandshakeError.state "handshake grant duplicate")
  rejectIf (grant = []) (HandshakeError.malformed "handshake grant")
  let bytes ← (encodeCanonical GrantDeliveryWire.codec
    ⟨HandshakeKind.admissionGrantDelivery.kindId, grant⟩ controlCborLimits).mapError fun _ =>
      HandshakeError.malformed "handshake encode"
  modify fun self => { self with grantSent := true }
  return bytes

end EndpointM

end Calls

end Radiata
