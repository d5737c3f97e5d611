import Radiata.Native.Incoming
import Radiata.Native.Opening
import Radiata.Native.Route

/-!
# The read loop of a session

`read_loop`, `admit_open` and `forward_chunk` (`src/session/stream.rs`): a session reads its frames
one after the other. An open for this node is checked against the peer, the streams that are
admitted already and the registry; an admission makes a channel, enters the stream in the table
and spawns the consumer of the protocol. A routed open for another node goes to the forwarder,
and so do the chunks and ends whose trace has a hop in the forwarding table of the node: only
the others reach the table of the session.

Frames are given decoded; one that does not decode ends the loop like the end of the stream.
The forwarding table belongs to the node, so its other sessions change it between two frames.
-/

namespace Radiata

section ReadLoop

variable [DnsName]

/-- What an open frame carries beside its endpoints and its route. -/
abbrev OpenContent := ProtocolTag × PacketMetadata

/-- The immutable context of an open frame. -/
def OpenFrame.opening (frame : OpenFrame OpenContent) : OpeningContext :=
  ⟨frame.source, frame.destination, frame.content.1, frame.content.2⟩

/-- What the read loop reads of its session, the policy and the registry. -/
structure ReadContext where
  localId : NodeId
  peer : NodeId
  selectedFeatures : List FeatureTag
  /-- The owning feature of a registered protocol. -/
  owningFeature : ProtocolTag → Option FeatureTag
  queueMessages : Nat

/-- An entry of the table of admitted streams; `channel` is the place of its consumer. -/
structure AdmittedEntry where
  channel : Nat
  nextSequence : UInt64
  context : Digest
  admittedAtMillis : UInt64
  deriving DecidableEq

/-- A packet that was handed out for consumption, with all items its channel was given. -/
structure PacketConsumer where
  trace : TraceId
  opening : OpeningContext
  items : List StreamItem
  closed : Bool
  deriving DecidableEq

structure ReadState where
  incoming : SortedMap TraceId AdmittedEntry
  consumers : List PacketConsumer
  /-- The channels whose consumers were spawned, in order. -/
  spawned : List Nat
  /-- The traces with a hop in the forwarding table. -/
  hops : SortedMap TraceId Unit
  acks : List AckFrame
  running : Bool
  deriving DecidableEq

/-- What a read loop reads, and what other tasks do meanwhile. -/
inductive ReadEvent where
  /-- An open frame, with the times of an admission and of its acknowledgement; `relayed` if the
      forwarder would send it on, `queued` if the frame queue takes the acknowledgement. -/
  | «open» (frame : OpenFrame OpenContent) (now ackedAt : UInt64) (relayed queued : Bool)
  /-- A chunk; `gone` if the consumer dropped its body, `broken` if the next hop is lost. -/
  | chunk (frame : ChunkFrame) (gone broken : Bool)
  | «end» (frame : EndFrame) (gone : Bool)
  | ack (frame : AckFrame)
  /-- The end of the stream, a failure of it, or a frame that is not accepted. -/
  | stop
  /-- Another session registers a hop or removes one. -/
  | hop (trace : TraceId) (present : Bool)
  deriving DecidableEq

/-- The outcome of the checks of `admit_open`. -/
inductive Admission where
  | refused (status : AckStatus)
  | again (admittedAtMillis : UInt64)
  | admitted
  deriving DecidableEq

namespace ReadState

def start (hops : SortedMap TraceId Unit) : ReadState := ⟨.empty, [], [], hops, [], true⟩

/-- The loop returns: the table is dropped and with it all senders. -/
def stop (state : ReadState) : ReadState :=
  { state with
    incoming := .empty
    consumers := state.consumers.map fun consumer => { consumer with closed := true }
    running := false }

/-- A stream leaves the table, and its channel is closed with the items it has got. -/
def close (state : ReadState) (trace : TraceId) (channel : Nat) (last : List StreamItem) :
    ReadState :=
  { state with
    incoming := state.incoming.erase trace
    consumers := state.consumers.modify channel fun consumer =>
      { consumer with items := consumer.items ++ last, closed := true } }

/-- `forward_chunk`, and the end of the loop on a sequence violation. -/
def forwardChunk (state : ReadState) (frame : ChunkFrame) (gone : Bool) : ReadState :=
  match state.incoming.get frame.traceId with
  | none => state
  | some admitted =>
    if admitted.nextSequence ≠ frame.sequence then state.stop
    else if gone then state.close frame.traceId admitted.channel []
    else
      { state with
        incoming := state.incoming.insert frame.traceId
          { admitted with nextSequence := saturatingSucc admitted.nextSequence }
        consumers := state.consumers.modify admitted.channel fun consumer =>
          { consumer with items := consumer.items ++ [.chunk frame.bytes] } }

/-- The end of a stream of this session. -/
def endStream (state : ReadState) (frame : EndFrame) (gone : Bool) : ReadState :=
  match state.incoming.get frame.traceId with
  | none => state
  | some admitted => state.close frame.traceId admitted.channel (if gone then [] else [.end])

end ReadState

namespace ReadContext

/-- A routed frame for another node goes to the forwarder. -/
def routed (context : ReadContext) (frame : OpenFrame OpenContent) : Bool :=
  frame.destination ≠ context.localId && frame.route.isSome

/-- The envelope of a routed frame arrives here; a direct frame names the peer as its source. -/
def accepts (context : ReadContext) (frame : OpenFrame OpenContent) : Bool :=
  match frame.route with
  | some route =>
    let envelope := RouteContext.fromFrame frame.traceId frame.source frame.destination (some route)
    match envelope.receive context.localId context.peer
      fun _ => .error (.unsupported "route forwarding") with
    | .ok .arrive => true
    | _ => false
  | none => frame.source = context.peer

/-- The checks of `admit_open`, in their order. -/
def admission (context : ReadContext) (state : ReadState) (frame : OpenFrame OpenContent) :
    Admission :=
  if !context.accepts frame then .refused .unsupported
  else if frame.destination ≠ context.localId then .refused .unsupported
  else
    match state.incoming.get frame.traceId with
    | some admitted =>
      if admitted.context = frame.opening.digest then .again admitted.admittedAtMillis
      else .refused .unsupported
    | none =>
      match context.owningFeature frame.content.1 with
      | some feature =>
        if feature ∈ context.selectedFeatures then
          if context.queueMessages ≤ state.incoming.toList.length then .refused .overloaded
          else .admitted
        else .refused .unsupported
      | none => .refused .unsupported

/-- A new stream: its channel, its entry and its consumer. -/
def enroll (state : ReadState) (frame : OpenFrame OpenContent) (now : UInt64) : ReadState :=
  { state with
    incoming := state.incoming.insert frame.traceId
      ⟨state.consumers.length, 0, frame.opening.digest, now⟩
    consumers := state.consumers ++ [⟨frame.traceId, frame.opening, [], false⟩]
    spawned := state.spawned ++ [state.consumers.length] }

/-- The acknowledgement of `admit_open`; a closed frame queue ends the loop. -/
def acknowledge (state : ReadState) (ack : AckFrame) (queued : Bool) : ReadState :=
  if queued then { state with acks := state.acks ++ [ack] } else state.stop

/-- `admit_open` -/
def admitOpen (context : ReadContext) (state : ReadState) (frame : OpenFrame OpenContent)
    (now ackedAt : UInt64) (queued : Bool) : ReadState :=
  match context.admission state frame with
  | .refused status => acknowledge state ⟨frame.traceId, status, ackedAt⟩ queued
  | .again admittedAtMillis =>
    acknowledge state ⟨frame.traceId, .admitted, admittedAtMillis⟩ queued
  | .admitted => acknowledge (enroll state frame now) ⟨frame.traceId, .admitted, ackedAt⟩ queued

/-- `forward::open`: a relayed open registers its hop, unless its trace has one. -/
def forwardOpen (state : ReadState) (frame : OpenFrame OpenContent) (relayed : Bool) : ReadState :=
  if relayed then { state with hops := state.hops.insert frame.traceId () } else state

/-- One turn of `read_loop`, or a step of another task. -/
def step (context : ReadContext) (state : ReadState) (event : ReadEvent) : ReadState :=
  if !state.running then state
  else
    match event with
    | .open frame now ackedAt relayed queued =>
      if context.routed frame then forwardOpen state frame relayed
      else context.admitOpen state frame now ackedAt queued
    | .chunk frame gone broken =>
      if state.hops.contains frame.traceId then
        -- `relay_chunk`; the loss of the next hop removes the entry.
        if broken then { state with hops := state.hops.erase frame.traceId } else state
      else state.forwardChunk frame gone
    | .end frame gone =>
      if state.hops.contains frame.traceId then
        -- `relay_end`
        { state with hops := state.hops.erase frame.traceId }
      else state.endStream frame gone
    -- `resolve_ack` and the routes of outgoing packets are not part of this state.
    | .ack _ => state
    | .stop => state.stop
    | .hop trace present =>
      { state with
        hops := if present then state.hops.insert trace () else state.hops.erase trace }

/-- A session through a list of events. -/
def run (context : ReadContext) (hops : SortedMap TraceId Unit) (events : List ReadEvent) :
    ReadState :=
  events.foldl context.step (.start hops)

end ReadContext

end ReadLoop

end Radiata
