import Radiata.Native.Handshake
import Radiata.Native.OpenWire
import Radiata.Native.SessionQueue

/-!
# Wire messages

`src/protocol/wire.rs`, `src/protocol/envelope.rs`, `src/transport/connection.rs` and the loops of
`src/session/stream.rs` around it: the registry of kinds, the prelude of a message, the checks on
both sides of a connection, and what a session reads from it.

A WebSocket connection is the row of items that the library hands out. A body is shorter than
`usize::MAX` minus the prelude.
-/

namespace Radiata

open Except (rejectIf)

/-! ## Kinds -/

/-- `BASE_SCHEMA_ID` as it stands in a prelude. -/
def wireSchemaId : UInt16 := baseSchemaId.toUInt16

namespace PacketKind

def all : List PacketKind := [.open, .chunk, .end, .ack]

def kindId : PacketKind → UInt16
  | .open => 0x0010
  | .chunk => 0x0011
  | .end => 0x0012
  | .ack => 0x0013

end PacketKind

/-- `lookup` -/
def lookupHandshake (schemaId kindId : UInt16) : Option HandshakeKind :=
  if schemaId ≠ wireSchemaId then none
  else HandshakeKind.all.find? fun kind => kind.kindId.toUInt16 = kindId

/-- `lookup_packet` -/
def lookupPacket (schemaId kindId : UInt16) : Option PacketKind :=
  if schemaId ≠ wireSchemaId then none
  else PacketKind.all.find? fun kind => kind.kindId = kindId

/-- `is_declared` -/
def isDeclared (schemaId kindId : UInt16) : Bool :=
  (lookupHandshake schemaId kindId).isSome || (lookupPacket schemaId kindId).isSome

/-! ## Preludes -/

def preludeLen : Nat := 16

structure Prelude where
  schemaId : UInt16
  kindId : UInt16
  flags : UInt16
  bodyLen : UInt32
  deriving DecidableEq

namespace Prelude

/-- `Prelude::encode` -/
def encode (prelude : Prelude) : Bytes :=
  protocolMagic ++ (Bytes.toBE 2 prelude.schemaId.toNat ++ (Bytes.toBE 2 prelude.kindId.toNat ++
    (Bytes.toBE 2 prelude.flags.toNat ++ ([0, 0] ++ Bytes.toBE 4 prelude.bodyLen.toNat))))

/-- The number of `width` bytes at `start`. -/
def field (bytes : Bytes) (start width : Nat) : Nat := Bytes.ofBE ((bytes.drop start).take width)

/-- `Prelude::decode` -/
def decode (bytes : Bytes) : Result Prelude := do
  rejectIf (bytes.length < preludeLen ∨ bytes.take 4 ≠ protocolMagic) (.invalidInput "wire prelude")
  rejectIf ((bytes.drop 10).take 2 ≠ [0, 0]) (.invalidInput "wire reserved bits")
  return ⟨.ofNat (field bytes 4 2), .ofNat (field bytes 6 2), .ofNat (field bytes 8 2),
    .ofNat (field bytes 12 4)⟩

end Prelude

/-! ## Frames -/

/-- `FrameRules` -/
structure FrameRules where
  allowedFlags : UInt16
  messageLimit : UInt32
  receiveLimit : UInt32
  isDeclared : UInt16 → UInt16 → Bool

/-- `handshake_frame_rules`: the rules of every connection. -/
def handshakeFrameRules : FrameRules where
  allowedFlags := 0
  messageLimit := UInt32.ofNat controlCborLimits.maxBodyLen
  receiveLimit := UInt32.ofNat controlCborLimits.maxBodyLen
  isDeclared := isDeclared

/-- A received message. -/
structure Message where
  schemaId : UInt16
  kindId : UInt16
  flags : UInt16
  body : Bytes
  deriving DecidableEq

namespace FrameRules

/-- `split_message`: the length of the whole message decides, not only that of the body. -/
def splitMessage (rules : FrameRules) (message : Bytes) : Result (Prelude × Bytes) := do
  let prelude ← Prelude.decode message
  rejectIf (rules.isDeclared prelude.schemaId prelude.kindId = false ∨
      prelude.flags &&& ~~~rules.allowedFlags ≠ 0 ∨ rules.messageLimit < prelude.bodyLen ∨
      rules.receiveLimit < prelude.bodyLen) (.invalidInput "wire limits")
  rejectIf (message.length ≠ preludeLen + prelude.bodyLen.toNat) (.invalidInput "wire body length")
  return (prelude, message.drop preludeLen)

/-- `encode_frame` -/
def encodeFrame (rules : FrameRules) (schemaId kindId flags : UInt16) (body : Bytes) :
    Result Bytes := do
  rejectIf (2 ^ 32 ≤ body.length) (.invalidInput "wire body length")
  let bodyLen := UInt32.ofNat body.length
  rejectIf (rules.isDeclared schemaId kindId = false ∨ flags &&& ~~~rules.allowedFlags ≠ 0 ∨
      rules.messageLimit < bodyLen) (.invalidInput "wire limits")
  return Prelude.encode ⟨schemaId, kindId, flags, bodyLen⟩ ++ body

end FrameRules

/-! ## Connections -/

/-- The failures of the WebSocket library, as far as `receive_error` tells them apart. -/
inductive WsError where
  | io
  | capacity
  | other
  deriving DecidableEq

/-- `receive_error` -/
def receiveError : WsError → Error
  | .io => .provider .io .transportReceive
  | .capacity => .provider .overloaded .transportReceive
  | .other => .invalidInput "websocket message"

/-- What a WebSocket connection hands out: a message, or a failure; a pong is read at `now`. -/
inductive WsMessage where
  | binary (bytes : Bytes)
  | text
  | ping
  | pong (now : UInt64)
  | close
  | frame
  | failed (error : WsError)
  deriving DecidableEq

/-- What `next_message` answers, with the items and the liveness stamp that it leaves. -/
structure Received where
  answer : Result (Option Message)
  rest : List WsMessage
  pongLastSeen : UInt64

/-- `next_message`: the receive loop of both halves of a connection. -/
def nextMessage (rules : FrameRules) : List WsMessage → UInt64 → Received
  | [], stamp => ⟨.ok none, [], stamp⟩
  | .failed error :: rest, stamp => ⟨.error (receiveError error), rest, stamp⟩
  | .binary bytes :: rest, stamp =>
    let answer := do
      let (prelude, body) ← rules.splitMessage bytes
      return some ⟨prelude.schemaId, prelude.kindId, prelude.flags, body⟩
    ⟨answer, rest, stamp⟩
  | .text :: rest, stamp => ⟨.error (.invalidInput "websocket text message"), rest, stamp⟩
  | .ping :: rest, stamp => nextMessage rules rest stamp
  | .pong now :: rest, _ => nextMessage rules rest now
  | .close :: rest, stamp => ⟨.ok none, rest, stamp⟩
  | .frame :: rest, stamp => ⟨.error (.invalidInput "websocket raw frame"), rest, stamp⟩

/-! ## Sessions -/

section Sessions

variable [DnsName]

/-- A frame of a packet stream. -/
inductive SessionPacket where
  | «open» (packet : OpenPacket)
  | chunk (frame : ChunkFrame)
  | «end» (frame : EndFrame)
  | ack (frame : AckFrame)

namespace SessionPacket

def kind : SessionPacket → PacketKind
  | .open _ => .open
  | .chunk _ => .chunk
  | .end _ => .end
  | .ack _ => .ack

/-- The body of a frame. -/
def encode : SessionPacket → Result Bytes
  | .open packet => packet.encodeOpen
  | .chunk frame => encodeChunk frame
  | .end frame => encodeEnd frame
  | .ack frame => encodeAck frame

/-- The arms of `read_loop`. -/
def decode (kind : PacketKind) (body : Bytes) (limits : CborLimits) : Result SessionPacket :=
  match kind with
  | .open => SessionPacket.open <$> OpenPacket.decodeOpen body limits
  | .chunk => SessionPacket.chunk <$> decodeChunk body limits
  | .end => SessionPacket.end <$> decodeEnd body limits
  | .ack => SessionPacket.ack <$> decodeAck body limits

end SessionPacket

/-- What the writer task of a session is woken by. -/
inductive WriterEvent where
  | frame (frame : SessionFrame)
  | ping
  deriving DecidableEq

/-- `run_writer`: the items that reach the connection. A frame that is not encoded ends the task. -/
def runWriter (rules : FrameRules) : List WriterEvent → List WsMessage
  | [] => []
  | .ping :: rest => .ping :: runWriter rules rest
  | .frame frame :: rest =>
    match rules.encodeFrame wireSchemaId frame.kind.kindId 0 frame.body with
    | .ok bytes => .binary bytes :: runWriter rules rest
    | .error _ => []

/-- Why the read loop of a session ends. -/
inductive ReadEnd where
  | orderly
  | receiveFailed (error : Error)
  | unknownKind (schemaId kindId : UInt16)
  | malformed (kind : PacketKind)
  /-- The handling of a packet ended the loop: an open that was not admitted for an error, a chunk
      out of sequence. -/
  | handled (kind : PacketKind)
  deriving DecidableEq

/-- The message of `read_loop`: the packet in it, or the end of the loop. -/
def readPacket (limits : CborLimits) (answer : Result (Option Message)) :
    Except ReadEnd SessionPacket :=
  match answer with
  | .error error => .error (.receiveFailed error)
  | .ok none => .error .orderly
  | .ok (some message) =>
    match lookupPacket message.schemaId message.kindId with
    | none => .error (.unknownKind message.schemaId message.kindId)
    | some kind => (SessionPacket.decode kind message.body limits).mapError fun _ => .malformed kind

section Handling

/- What the arms of `read_loop` do with a packet: the state they leave, or none where the loop goes
no further. The state is whatever the handlers see, and what other tasks do to it meanwhile. -/
variable {σ : Type} (handle : σ → SessionPacket → Option σ)

/-- The packets that are handled of those that arrive, and the state that the last of them leaves. -/
def handleAll : σ → List SessionPacket → List SessionPacket × Except PacketKind σ
  | state, [] => ([], .ok state)
  | state, packet :: rest =>
    match handle state packet with
    | none => ([packet], .error packet.kind)
    | some state =>
      let (handled, outcome) := handleAll state rest
      (packet :: handled, outcome)

/-- The packets that a session reads, and why it stops. Each turn takes an item, so that their
    number is enough turns. -/
def readTurns (rules : FrameRules) (limits : CborLimits) :
    Nat → σ → List WsMessage → UInt64 → List SessionPacket × ReadEnd
  | 0, _, _, _ => ([], .orderly)
  | turns + 1, state, items, stamp =>
    let received := nextMessage rules items stamp
    match readPacket limits received.answer with
    | .error stop => ([], stop)
    | .ok packet =>
      match handle state packet with
      | none => ([packet], .handled packet.kind)
      | some state =>
        let (packets, stop) := readTurns rules limits turns state received.rest received.pongLastSeen
        (packet :: packets, stop)

/-- `read_loop`: the packets that it hands to its handlers, and why it ends. -/
def readPackets (rules : FrameRules) (limits : CborLimits) (state : σ) (items : List WsMessage)
    (stamp : UInt64) : List SessionPacket × ReadEnd :=
  readTurns handle rules limits items.length state items stamp

end Handling

end Sessions

end Radiata
