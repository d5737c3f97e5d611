import Radiata.Native.Handshake

/-!
# The session driver

`src/session/driver.rs` and the construction of the driver in `src/runtime/supervisor.rs`:
the offer of a node is built from the built-in definitions and the definitions its caller
registered; the three paths that authenticate a connection (`accept`, `join_inner` and
`member_inner`) build the state machine of the handshake from that offer and a registry.

What the paths read from the durable store (the cluster, the trusted binding, the active
generation) are their arguments.
-/

namespace Radiata

open Except (okOr)

variable [DnsName]

/-- What a session driver holds of its node. -/
structure SessionDriver where
  node : NodeId
  publicKey : PublicKey
  offer : FeatureOffer

/-- One authenticated session: the peer and the negotiated features. -/
structure EstablishedSession where
  peer : NodeId
  selectedFeatures : List FeatureTag

/-- Why a path did not get to authenticate. -/
inductive DriverError where
  | error (error : Error)
  | handshake (error : HandshakeError)

/-- `Supervisor::new`: the negotiation registry is the built-in set plus the definitions of
    the caller. -/
def negotiationRegistry (features : List FeatureDefinition) : Result FeatureRegistry := do
  let builtins ← builtinDefinitions
  FeatureRegistry.build (builtins ++ features)

namespace SessionDriver

/-- The driver that `Supervisor::new` builds. -/
def new (features : List FeatureDefinition) (required : Finset FeatureTag) (node : NodeId)
    (publicKey : PublicKey) : Result SessionDriver := do
  let registry ← negotiationRegistry features
  let offer ← nodeOffer registry required
  return ⟨node, publicKey, offer⟩

/-- Every path interprets the offers by the built-in registry. -/
def startHandshake (config : HandshakeConfig) : Except DriverError Handshake := do
  let registry ← FeatureRegistry.builtin.mapError .error
  (Handshake.new config registry).mapError .handshake

/-- The state machine of `join_inner`. -/
def joinHandshake (self : SessionDriver) (cluster : ClusterId)
    (generation : ByteValue generationLen) (credential : CredentialSecret)
    (nonce : ByteValue nonceLen) (channelBinding : ByteValue 32) : Except DriverError Handshake :=
  startHandshake {
    mode := .join
    role := .initiator
    cluster := cluster
    localId := self.node
    localKey := self.publicKey
    expectedPeer := none
    generation := some generation
    credential := some credential
    localNonce := nonce
    localOffer := self.offer
    channelBinding := channelBinding }

/-- The state machine of `member_inner`. -/
def memberHandshake (self : SessionDriver) (cluster : ClusterId) (peer : NodeId)
    (binding : PublicKey) (nonce : ByteValue nonceLen) (channelBinding : ByteValue 32) :
    Except DriverError Handshake :=
  startHandshake {
    mode := .member
    role := .initiator
    cluster := cluster
    localId := self.node
    localKey := self.publicKey
    expectedPeer := some (peer, binding)
    generation := none
    credential := none
    localNonce := nonce
    localOffer := self.offer
    channelBinding := channelBinding }

/-- What `accept` resolves from the mode of the hello: the trusted binding of a member, or
    the active generation and its credential. -/
inductive AcceptInputs where
  | join (generation : ByteValue generationLen) (credential : CredentialSecret)
  | member (peer : NodeId) (binding : PublicKey)

/-- The state machine of `accept`. -/
def acceptHandshake (self : SessionDriver) (cluster : ClusterId) (inputs : AcceptInputs)
    (nonce : ByteValue nonceLen) (channelBinding : ByteValue 32) : Except DriverError Handshake :=
  startHandshake {
    mode := match inputs with | .join .. => .join | .member .. => .member
    role := .responder
    cluster := cluster
    localId := self.node
    localKey := self.publicKey
    expectedPeer := match inputs with
      | .join .. => none
      | .member peer binding => some (peer, binding)
    generation := match inputs with
      | .join generation _ => some generation
      | .member .. => none
    credential := match inputs with
      | .join _ credential => some credential
      | .member .. => none
    localNonce := nonce
    localOffer := self.offer
    channelBinding := channelBinding }

end SessionDriver

/-- The session of a completed handshake. -/
def established (handshake : Handshake) : Except DriverError EstablishedSession := do
  let peer ← okOr (.error (.internal "handshake peer")) handshake.peerHello
  let selection ← okOr (.error (.internal "handshake selection")) handshake.selection
  return ⟨peer.nodeId, selection.features⟩

end Radiata
