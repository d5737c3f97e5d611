import Radiata.Native.Connection
import Radiata.Native.Incoming
import Radiata.Spec.OpenWireCorrect
import Radiata.Spec.PacketCorrect

/-!
# Wire messages

A receiver accepts exactly the bytes that a sender under the same rules emits, so that the packets
of a session arrive as they were queued, in their order and with control frames between them, up
to the first that the receiver cannot read or whose handling ends its loop. Whatever else a peer puts on the connection, each
packet that is read is one that this node would have written, at the same length.

## Key results

- `Prelude.decode_eq_ok_iff`: the bytes with a prelude
- `split_iff_encoded`: the receiver's checks undo the sender's
- `session_delivers`: what a session reads of what its peer wrote
- `session_reads_frames`: what a session reads of any bytes
-/

namespace Radiata

open Except (rejectIf)

/-! ## Preludes -/

namespace Prelude

@[simp] theorem length_encode (prelude : Prelude) : prelude.encode.length = 16 := by
  have hmagic : protocolMagic.length = 4 := by decide
  simp [encode, hmagic]

/-- The bytes from `start` on begin with the field there. -/
theorem drop_eq_field_append (bytes : Bytes) (start width : Nat) :
    bytes.drop start = (bytes.drop start).take width ++ bytes.drop (start + width) := by
  have hsplit := (List.take_append_drop width (bytes.drop start)).symm
  rwa [List.drop_drop] at hsplit

/-- A field that is written back is the bytes it was read from. -/
theorem toBE_field {bytes : Bytes} {start width : Nat} (h : start + width ≤ bytes.length) :
    Bytes.toBE width (field bytes start width) = (bytes.drop start).take width := by
  have hlength : ((bytes.drop start).take width).length = width := by
    rw [List.length_take, List.length_drop]
    omega
  have hround := Bytes.toBE_ofBE ((bytes.drop start).take width)
  rwa [hlength] at hround

theorem field_lt {bytes : Bytes} {start width : Nat} (h : start + width ≤ bytes.length) :
    field bytes start width < 256 ^ width := by
  have hlength : ((bytes.drop start).take width).length = width := by
    rw [List.length_take, List.length_drop]
    omega
  have hlt := Bytes.ofBE_lt ((bytes.drop start).take width)
  rwa [hlength] at hlt

/-- A field after a front part of known length. -/
theorem field_append {front rest : Bytes} {start width n : Nat} (hstart : front.length = start)
    (hn : n < 256 ^ width) : field (front ++ (Bytes.toBE width n ++ rest)) start width = n := by
  rw [field, List.drop_left' hstart, List.take_left' (Bytes.length_toBE width n),
    Bytes.ofBE_toBE width n hn]

/-- The bytes that start with a prelude. -/
theorem decode_eq_ok_iff {bytes : Bytes} {prelude : Prelude} :
    decode bytes = .ok prelude ↔ ∃ body, bytes = prelude.encode ++ body := by
  constructor
  · intro h
    obtain ⟨_, hmagic, h⟩ := Result.bind_eq_ok.mp h
    obtain ⟨_, hreserved, h⟩ := Result.bind_eq_ok.mp h
    rw [Except.rejectIf_eq_ok, not_or, not_lt, not_not] at hmagic
    rw [Except.rejectIf_eq_ok, not_not] at hreserved
    obtain ⟨hlength, hmagic⟩ := hmagic
    simp only [preludeLen] at hlength
    cases h
    refine ⟨bytes.drop 16, ?_⟩
    have hschema : field bytes 4 2 < 2 ^ 16 := field_lt (by omega)
    have hkind : field bytes 6 2 < 2 ^ 16 := field_lt (by omega)
    have hflags : field bytes 8 2 < 2 ^ 16 := field_lt (by omega)
    have hbodyLen : field bytes 12 4 < 2 ^ 32 := field_lt (by omega)
    simp only [encode, UInt16.toNat_ofNat_of_lt' hschema, UInt16.toNat_ofNat_of_lt' hkind,
      UInt16.toNat_ofNat_of_lt' hflags, UInt32.toNat_ofNat_of_lt' hbodyLen,
      toBE_field (show 4 + 2 ≤ bytes.length by omega), toBE_field (show 6 + 2 ≤ bytes.length by omega),
      toBE_field (show 8 + 2 ≤ bytes.length by omega),
      toBE_field (show 12 + 4 ≤ bytes.length by omega), ← hmagic, ← hreserved, List.append_assoc]
    have hfront := drop_eq_field_append bytes 0 4
    rw [List.drop_zero] at hfront
    rw [← drop_eq_field_append bytes 12 4, ← drop_eq_field_append bytes 10 2,
      ← drop_eq_field_append bytes 8 2, ← drop_eq_field_append bytes 6 2,
      ← drop_eq_field_append bytes 4 2]
    exact hfront
  · intro ⟨body, hbody⟩
    have hschema := prelude.schemaId.toNat_lt
    have hkind := prelude.kindId.toNat_lt
    have hflags := prelude.flags.toNat_lt
    have hbodyLen := prelude.bodyLen.toNat_lt
    have hmagic : protocolMagic.length = 4 := by decide
    have hlength : ¬ (bytes.length < preludeLen ∨ bytes.take 4 ≠ protocolMagic) := by
      rw [hbody, List.length_append, length_encode, preludeLen, encode, List.append_assoc,
        List.take_left' hmagic, not_or, not_not]
      exact ⟨by omega, rfl⟩
    -- each field stands after the fields before it
    have h4 : field bytes 4 2 = prelude.schemaId.toNat := by
      rw [hbody, encode, List.append_assoc, List.append_assoc]
      exact field_append hmagic hschema
    have h6 : field bytes 6 2 = prelude.kindId.toNat := by
      have hfront : (protocolMagic ++ Bytes.toBE 2 prelude.schemaId.toNat).length = 6 := by
        simp [hmagic]
      rw [hbody, encode, ← List.append_assoc, List.append_assoc, List.append_assoc]
      exact field_append hfront hkind
    have h8 : field bytes 8 2 = prelude.flags.toNat := by
      have hfront : (protocolMagic ++ Bytes.toBE 2 prelude.schemaId.toNat ++
          Bytes.toBE 2 prelude.kindId.toNat).length = 8 := by simp [hmagic]
      rw [hbody, encode, ← List.append_assoc, ← List.append_assoc, List.append_assoc,
        List.append_assoc]
      exact field_append hfront hflags
    have h10 : (bytes.drop 10).take 2 = [0, 0] := by
      rw [hbody, encode, ← List.append_assoc, ← List.append_assoc, ← List.append_assoc,
        List.append_assoc, List.drop_left' (by simp [hmagic]), List.append_assoc]
      rfl
    have h12 : field bytes 12 4 = prelude.bodyLen.toNat := by
      have hfront : (protocolMagic ++ Bytes.toBE 2 prelude.schemaId.toNat ++
          Bytes.toBE 2 prelude.kindId.toNat ++ Bytes.toBE 2 prelude.flags.toNat ++
          [0, 0]).length = 12 := by simp [hmagic]
      rw [hbody, encode, ← List.append_assoc, ← List.append_assoc, ← List.append_assoc,
        ← List.append_assoc, List.append_assoc]
      exact field_append hfront hbodyLen
    unfold decode
    rw [Except.rejectIf_of_not _ hlength, Result.ok_bind,
      Except.rejectIf_of_not _ (by rw [h10]; exact not_not.mpr rfl), Result.ok_bind, h4, h6, h8, h12,
      UInt16.ofNat_toNat, UInt16.ofNat_toNat, UInt16.ofNat_toNat, UInt32.ofNat_toNat]
    rfl

end Prelude

/-! ## Frames -/

namespace FrameRules

variable {rules : FrameRules} {message body frame : Bytes}

theorem encodeFrame_eq_ok_iff {schemaId kindId flags : UInt16} :
    rules.encodeFrame schemaId kindId flags body = .ok frame ↔
      body.length < 2 ^ 32 ∧ rules.isDeclared schemaId kindId = true ∧
        flags &&& ~~~rules.allowedFlags = 0 ∧ body.length ≤ rules.messageLimit.toNat ∧
        frame = Prelude.encode ⟨schemaId, kindId, flags, UInt32.ofNat body.length⟩ ++ body := by
  have hlimit : body.length < 2 ^ 32 → (rules.messageLimit < UInt32.ofNat body.length ↔
      rules.messageLimit.toNat < body.length) := by
    intro hlength
    rw [UInt32.lt_iff_toNat_lt, UInt32.toNat_ofNat_of_lt' hlength]
  constructor
  · intro h
    obtain ⟨_, hlength, h⟩ := Result.bind_eq_ok.mp h
    obtain ⟨_, hrules, h⟩ := Result.bind_eq_ok.mp h
    rw [Except.rejectIf_eq_ok, not_le] at hlength
    rw [Except.rejectIf_eq_ok, not_or, not_or, Bool.not_eq_false, not_not, hlimit hlength,
      not_lt] at hrules
    cases h
    exact ⟨hlength, hrules.1, hrules.2.1, hrules.2.2, rfl⟩
  · intro ⟨hlength, hdeclared, hflags, hbody, hframe⟩
    unfold encodeFrame
    rw [Except.rejectIf_of_not _ (by omega), Result.ok_bind]
    dsimp only
    rw [Except.rejectIf_of_not, Result.ok_bind, hframe]
    · rfl
    · rw [not_or, not_or, Bool.not_eq_false, not_not, hlimit hlength, not_lt]
      exact ⟨hdeclared, hflags, hbody⟩

/-- A receiver takes a message apart exactly where a sender under its rules puts it together, if
    the body is within the limit of the receiver. -/
theorem split_iff_encoded {prelude : Prelude} :
    rules.splitMessage message = .ok (prelude, body) ↔
      rules.encodeFrame prelude.schemaId prelude.kindId prelude.flags body = .ok message ∧
        body.length = prelude.bodyLen.toNat ∧ body.length ≤ rules.receiveLimit.toNat := by
  rw [encodeFrame_eq_ok_iff]
  constructor
  · intro h
    obtain ⟨found, hfound, h⟩ := Result.bind_eq_ok.mp h
    obtain ⟨_, hrules, h⟩ := Result.bind_eq_ok.mp h
    obtain ⟨_, hlength, h⟩ := Result.bind_eq_ok.mp h
    rw [Except.rejectIf_eq_ok, not_or, not_or, not_or, Bool.not_eq_false, not_not,
      UInt32.not_lt, UInt32.not_lt] at hrules
    rw [Except.rejectIf_eq_ok, not_not] at hlength
    cases h
    obtain ⟨hdeclared, hflags, hmessage, hreceive⟩ := hrules
    obtain ⟨rest, hrest⟩ := Prelude.decode_eq_ok_iff.mp hfound
    have hbody : message.drop preludeLen = rest := by
      rw [hrest]
      exact List.drop_left' prelude.length_encode
    have hsize : rest.length = prelude.bodyLen.toNat := by
      rw [hrest, List.length_append, prelude.length_encode, preludeLen] at hlength
      omega
    have hround : UInt32.ofNat rest.length = prelude.bodyLen := by
      rw [hsize, UInt32.ofNat_toNat]
    have hlt := prelude.bodyLen.toNat_lt
    rw [UInt32.le_iff_toNat_le] at hmessage hreceive
    rw [hbody, hround]
    exact ⟨⟨by omega, hdeclared, hflags, by omega, hrest⟩, hsize, by omega⟩
  · intro ⟨⟨hlength, hdeclared, hflags, hmessage, hframe⟩, hsize, hreceive⟩
    have hround : UInt32.ofNat body.length = prelude.bodyLen := by
      rw [hsize, UInt32.ofNat_toNat]
    rw [hround] at hframe
    have hfound : Prelude.decode message = .ok prelude := Prelude.decode_eq_ok_iff.mpr ⟨body, hframe⟩
    unfold splitMessage
    rw [hfound, Result.ok_bind, Except.rejectIf_of_not, Result.ok_bind, Except.rejectIf_of_not,
      Result.ok_bind, hframe, List.drop_left' (show prelude.encode.length = preludeLen from
        prelude.length_encode)]
    · rfl
    · rw [hframe, List.length_append, prelude.length_encode, hsize, preludeLen, not_not]
    · rw [not_or, not_or, not_or, Bool.not_eq_false, not_not, UInt32.not_lt, UInt32.not_lt,
        UInt32.le_iff_toNat_le, UInt32.le_iff_toNat_le, ← hsize]
      exact ⟨hdeclared, hflags, hmessage, hreceive⟩

end FrameRules

/-! ## Bodies -/

section Bodies

variable {body : Bytes} {limits : CborLimits}

/-- A strict decoder accepts the encoding of a message and nothing else, if its limits admit it. -/
theorem Sendable.decodeStrict_eq_ok_iff {α : Type} {codec : CborCodec α} {wire : α}
    {item : Cbor.Item} (h : Sendable codec wire item) (context : String) :
    decodeCanonicalStrict codec body limits context = .ok wire ↔
      encodeCanonical codec wire controlCborLimits = .ok body ∧
        validateCanonical body limits = .ok () := by
  rw [h.encodeCanonical_eq]
  constructor
  · intro hdecode
    obtain ⟨hbody, -, hvalid⟩ := encodeCanonical_eq_ok (encodeCanonical_of_decodeStrict hdecode)
    exact ⟨by rw [hbody, h.encodes], hvalid⟩
  · intro ⟨hbody, hvalid⟩
    obtain rfl := Except.ok.inj hbody
    have hread := h.reads []
    rw [List.append_nil] at hread
    have hencode : encodeCanonical codec wire limits = .ok item.encode := by
      unfold encodeCanonical
      dsimp only
      rw [h.encodes, if_neg (Nat.not_lt.mpr (length_le_of_validateCanonical hvalid)), hvalid]
      rfl
    unfold decodeCanonicalStrict
    rw [decodeCanonical_eq_ok_iff.mpr ⟨hvalid, hread⟩, Result.ok_bind, hencode,
      Result.ok_bind, if_neg (not_not.mpr rfl)]
    rfl

/-- A chunk is read from its encoding, if the limits admit it. -/
theorem decodeChunk_eq_ok_iff {frame : ChunkFrame} :
    decodeChunk body limits = .ok frame ↔
      encodeChunk frame = .ok body ∧ validateCanonical body limits = .ok () := by
  constructor
  · intro h
    obtain ⟨⟨trace, sequence, bytes⟩, hwire, h⟩ := Result.bind_eq_ok.mp h
    split at h
    · cases h
    · rename_i hsmall
      obtain ⟨id, hid, hframe⟩ := Result.bind_eq_ok.mp h
      cases hframe
      obtain rfl := CanonicalId.asStr_of_parse hid
      rw [encodeChunk, if_neg hsmall]
      exact ((sendable_chunk ⟨id, sequence, bytes⟩ (Nat.not_lt.mp hsmall)).decodeStrict_eq_ok_iff
        _).mp hwire
  · intro ⟨hencode, hvalid⟩
    unfold encodeChunk at hencode
    split at hencode
    · cases hencode
    · rename_i hsmall
      have hwire := ((sendable_chunk frame (Nat.not_lt.mp hsmall)).decodeStrict_eq_ok_iff
        "packet frame canonical").mpr ⟨hencode, hvalid⟩
      unfold decodeChunk
      rw [hwire, Result.ok_bind]
      dsimp only
      rw [if_neg hsmall, CanonicalId.parse_asStr]
      rfl

theorem decodeEnd_eq_ok_iff {frame : EndFrame} :
    decodeEnd body limits = .ok frame ↔
      encodeEnd frame = .ok body ∧ validateCanonical body limits = .ok () := by
  constructor
  · intro h
    obtain ⟨⟨trace⟩, hwire, h⟩ := Result.bind_eq_ok.mp h
    obtain ⟨id, hid, hframe⟩ := Result.bind_eq_ok.mp h
    cases hframe
    obtain rfl := CanonicalId.asStr_of_parse hid
    exact ((sendable_end ⟨id⟩).decodeStrict_eq_ok_iff _).mp hwire
  · intro h
    have hwire := ((sendable_end frame).decodeStrict_eq_ok_iff "packet frame canonical").mpr h
    unfold decodeEnd
    rw [hwire, Result.ok_bind, CanonicalId.parse_asStr]
    rfl

theorem AckStatus.code_of_fromCode {code : UInt64} {status : AckStatus}
    (h : AckStatus.fromCode code = some status) : status.code = code := by
  unfold AckStatus.fromCode at h
  split at h
  · rename_i hcode
    cases h
    exact hcode.symm
  split at h
  · rename_i hcode
    cases h
    exact hcode.symm
  split at h
  · rename_i hcode
    cases h
    exact hcode.symm
  split at h
  · rename_i hcode
    cases h
    exact hcode.symm
  · cases h

theorem decodeAck_eq_ok_iff {frame : AckFrame} :
    decodeAck body limits = .ok frame ↔
      encodeAck frame = .ok body ∧ validateCanonical body limits = .ok () := by
  constructor
  · intro h
    obtain ⟨⟨trace, outcome, admittedAt⟩, hwire, h⟩ := Result.bind_eq_ok.mp h
    cases hstatus : AckStatus.fromCode outcome with
    | none =>
      simp only [hstatus] at h
      cases h
    | some status =>
      simp only [hstatus] at h
      obtain ⟨id, hid, hframe⟩ := Result.bind_eq_ok.mp h
      cases hframe
      obtain rfl := CanonicalId.asStr_of_parse hid
      obtain rfl := AckStatus.code_of_fromCode hstatus
      exact ((sendable_ack ⟨id, status, admittedAt⟩).decodeStrict_eq_ok_iff _).mp hwire
  · intro h
    have hwire := ((sendable_ack frame).decodeStrict_eq_ok_iff "packet frame canonical").mpr h
    unfold decodeAck
    rw [hwire, Result.ok_bind]
    dsimp only
    rw [AckStatus.fromCode_code]
    dsimp only
    rw [CanonicalId.parse_asStr]
    rfl

end Bodies

/-! ## Kinds -/

theorem lookupPacket_eq_some_iff {schemaId kindId : UInt16} {kind : PacketKind} :
    lookupPacket schemaId kindId = some kind ↔ schemaId = wireSchemaId ∧ kindId = kind.kindId := by
  unfold lookupPacket
  by_cases hschema : schemaId = wireSchemaId
  · rw [if_neg (not_not.mpr hschema), and_iff_right hschema]
    constructor
    · intro h
      have hfound := List.find?_some h
      simpa using (of_decide_eq_true hfound).symm
    · intro h
      rw [h]
      cases kind <;> rfl
  · simp [hschema]

theorem isDeclared_kindId (kind : PacketKind) : isDeclared wireSchemaId kind.kindId = true := by
  cases kind <;> decide

/-! ## Packets on the wire -/

theorem Except.map_eq_ok {ε α β : Type} {f : α → β} {x : Except ε α} {b : β} :
    f <$> x = .ok b ↔ ∃ a, x = .ok a ∧ f a = b := by
  cases x with
  | error e => simp [Functor.map, Except.map]
  | ok a => simp [Functor.map, Except.map]

section Sessions

variable [DnsName]

namespace SessionPacket

/-- The receiver can tell the nodes of the chain apart and parse the metadata keys again. -/
def Plain : SessionPacket → Prop
  | .open packet => packet.chain.Nodup ∧
      ∀ entry ∈ packet.frame.content.2.entries.toList, ¬ entry.1.Reserved
  | _ => True

/-- The receiver's limits admit the body, and the packet is plain. -/
def Readable (limits : CborLimits) (packet : SessionPacket) : Prop :=
  packet.Plain ∧ ∀ body, packet.encode = .ok body → validateCanonical body limits = .ok ()

/-- A strict decoder reads a body as at most one frame. -/
theorem map_decode_iff {α : Type} {read : Result α} {wrap : α → SessionPacket} {encoded : α → Prop}
    {valid : Prop} (hread : ∀ frame, read = .ok frame ↔ encoded frame ∧ valid) {frame : α}
    (hframe : encoded frame) {other : SessionPacket} :
    wrap <$> read = .ok other ↔ other = wrap frame ∧ valid := by
  rw [Except.map_eq_ok]
  constructor
  · intro ⟨found, hfound, hother⟩
    have hvalid := ((hread found).mp hfound).2
    have hsame := (hread frame).mpr ⟨hframe, hvalid⟩
    rw [hfound] at hsame
    exact ⟨by rw [← hother, Except.ok.inj hsame], hvalid⟩
  · intro ⟨hother, hvalid⟩
    exact ⟨frame, (hread frame).mpr ⟨hframe, hvalid⟩, hother.symm⟩

variable {packet : SessionPacket}

/-- The body of a packet is read back as the packet, or not at all. -/
theorem decode_encode (hhosts : FoldedHosts) {other : SessionPacket} {body : Bytes}
    {limits : CborLimits} (h : packet.encode = .ok body) :
    decode packet.kind body limits = .ok other ↔ other = packet ∧ packet.Readable limits := by
  have hreadable : packet.Readable limits ↔ packet.Plain ∧ validateCanonical body limits = .ok () := by
    constructor
    · intro ⟨hplain, hvalid⟩
      exact ⟨hplain, hvalid body h⟩
    · intro ⟨hplain, hvalid⟩
      refine ⟨hplain, fun again hagain => ?_⟩
      rw [h] at hagain
      cases hagain
      exact hvalid
  rw [hreadable]
  cases packet with
  | «open» packet =>
    have hopen := @OpenPacket.decodeOpen_encodeOpen _ hhosts packet
    show SessionPacket.open <$> OpenPacket.decodeOpen body limits = .ok other ↔ _
    rw [Except.map_eq_ok]
    constructor
    · intro ⟨found, hfound, hother⟩
      obtain ⟨hsame, hvalid, hplain⟩ := (hopen h).mp hfound
      exact ⟨by rw [← hother, hsame], hplain, hvalid⟩
    · intro ⟨hother, hplain, hvalid⟩
      exact ⟨packet, (hopen h).mpr ⟨rfl, hvalid, hplain⟩, hother.symm⟩
  | chunk frame =>
    rw [show (chunk frame).Plain ↔ True from Iff.rfl, true_and]
    exact map_decode_iff (fun _ => decodeChunk_eq_ok_iff) h
  | «end» frame =>
    rw [show (SessionPacket.end frame).Plain ↔ True from Iff.rfl, true_and]
    exact map_decode_iff (fun _ => decodeEnd_eq_ok_iff) h
  | ack frame =>
    rw [show (ack frame).Plain ↔ True from Iff.rfl, true_and]
    exact map_decode_iff (fun _ => decodeAck_eq_ok_iff) h

/-- A packet with the bytes of its message. -/
def Sends (packet : SessionPacket) (bytes : Bytes) : Prop :=
  ∃ body, packet.encode = .ok body ∧
    handshakeFrameRules.encodeFrame wireSchemaId packet.kind.kindId 0 body = .ok bytes

/-- The body of a packet is within the default limits. -/
theorem bounds_of_encode {body : Bytes} (h : packet.encode = .ok body) :
    body.length ≤ 65536 ∧ validateCanonical body controlCborLimits = .ok () := by
  cases packet with
  | «open» packet => exact (encodeCanonical_eq_ok h).2
  | chunk frame =>
    change encodeChunk frame = .ok body at h
    unfold encodeChunk at h
    split at h
    · cases h
    · exact (encodeCanonical_eq_ok h).2
  | «end» frame => exact (encodeCanonical_eq_ok h).2
  | ack frame => exact (encodeCanonical_eq_ok h).2

/-- The default limits admit every encoded packet. -/
theorem readable_iff_plain {body : Bytes} (h : packet.encode = .ok body) :
    packet.Readable controlCborLimits ↔ packet.Plain := by
  constructor
  · intro hreadable
    exact hreadable.1
  · intro hplain
    refine ⟨hplain, fun again hagain => ?_⟩
    rw [h] at hagain
    cases hagain
    exact (bounds_of_encode h).2

/-- Every encoded packet is within the rules of a connection. -/
theorem exists_sends {body : Bytes} (h : packet.encode = .ok body) :
    handshakeFrameRules.encodeFrame wireSchemaId packet.kind.kindId 0 body =
      .ok (Prelude.encode ⟨wireSchemaId, packet.kind.kindId, 0, UInt32.ofNat body.length⟩ ++ body) := by
  have hlength := (bounds_of_encode h).1
  rw [FrameRules.encodeFrame_eq_ok_iff]
  exact ⟨by omega, isDeclared_kindId packet.kind, rfl, hlength, rfl⟩

end SessionPacket

/-! ## The receive loop -/

omit [DnsName] in
/-- Every call of the receive loop takes an item, if there is one. -/
theorem length_nextMessage_le (rules : FrameRules) (items : List WsMessage) (stamp : UInt64) :
    (nextMessage rules items stamp).rest.length ≤ items.length - 1 := by
  induction items generalizing stamp with
  | nil => exact Nat.le_refl 0
  | cons item rest ih =>
    have hskip : ∀ s, (nextMessage rules rest s).rest.length ≤ rest.length := by
      intro s
      have := ih s
      omega
    cases item with
    | ping => exact hskip _
    | pong now => exact hskip _
    | _ => exact Nat.le_refl _

omit [DnsName] in
/-- The liveness stamp does not matter for what is received. -/
theorem nextMessage_stamp (rules : FrameRules) (items : List WsMessage) (stamp stamp' : UInt64) :
    (nextMessage rules items stamp).answer = (nextMessage rules items stamp').answer ∧
      (nextMessage rules items stamp).rest = (nextMessage rules items stamp').rest := by
  induction items generalizing stamp stamp' with
  | nil => exact ⟨rfl, rfl⟩
  | cons item rest ih =>
    cases item with
    | ping => exact ih stamp stamp'
    | pong now => exact ⟨rfl, rfl⟩
    | _ => exact ⟨rfl, rfl⟩

section Turns

variable {rules : FrameRules} {limits : CborLimits} {σ : Type} {handle : σ → SessionPacket → Option σ}

/-- One turn of the read loop. -/
theorem readTurns_succ (turns : Nat) (state : σ) (items : List WsMessage) (stamp : UInt64) :
    readTurns handle rules limits (turns + 1) state items stamp =
      match readPacket limits (nextMessage rules items stamp).answer with
      | .error stop => ([], stop)
      | .ok packet =>
        match handle state packet with
        | none => ([packet], .handled packet.kind)
        | some state =>
          let read := readTurns handle rules limits turns state (nextMessage rules items stamp).rest
            (nextMessage rules items stamp).pongLastSeen
          (packet :: read.1, read.2) := rfl

/-- More turns than items read nothing more, and the liveness stamp does not matter. -/
theorem readTurns_of_le {turns : Nat} {state : σ} {items : List WsMessage} (stamp stamp' : UInt64)
    (h : items.length ≤ turns) :
    readTurns handle rules limits turns state items stamp =
      readTurns handle rules limits items.length state items stamp' := by
  induction turns using Nat.strong_induction_on generalizing state items stamp stamp' with
  | _ turns ih =>
    cases items with
    | nil => cases turns <;> rfl
    | cons item rest =>
      rw [List.length_cons] at h ⊢
      obtain ⟨turns, rfl⟩ : ∃ n, turns = n + 1 := ⟨turns - 1, by omega⟩
      obtain ⟨hanswer, hrest⟩ := nextMessage_stamp rules (item :: rest) stamp stamp'
      have hlength := length_nextMessage_le rules (item :: rest) stamp'
      rw [List.length_cons] at hlength
      have hlater : ∀ state, readTurns handle rules limits turns state
          (nextMessage rules (item :: rest) stamp').rest
          (nextMessage rules (item :: rest) stamp).pongLastSeen =
        readTurns handle rules limits rest.length state
          (nextMessage rules (item :: rest) stamp').rest
          (nextMessage rules (item :: rest) stamp').pongLastSeen := by
        intro state
        rw [ih turns (by omega) _ stamp' (by omega), ih rest.length (by omega) _ stamp' (by omega)]
      simp only [readTurns_succ, hanswer, hrest, hlater]

/-- Control frames are skipped. -/
theorem readPackets_control {item : WsMessage} (hitem : item = .ping ∨ ∃ now, item = .pong now)
    (state : σ) (rest : List WsMessage) (stamp : UInt64) :
    readPackets handle rules limits state (item :: rest) stamp =
      readPackets handle rules limits state rest stamp := by
  have hskip : ∃ s, nextMessage rules (item :: rest) stamp = nextMessage rules rest s := by
    obtain hping | ⟨now, hpong⟩ := hitem
    · exact ⟨stamp, by rw [hping]; rfl⟩
    · exact ⟨now, by rw [hpong]; rfl⟩
  obtain ⟨s, hs⟩ := hskip
  have hturn : readPackets handle rules limits state (item :: rest) stamp =
      readTurns handle rules limits (rest.length + 1) state rest s := by
    show readTurns handle rules limits (rest.length + 1) state (item :: rest) stamp = _
    rw [readTurns_succ, readTurns_succ, hs]
  rw [hturn]
  exact readTurns_of_le s stamp (by omega)

/-- A message is taken apart and handled, and the loop goes on with what follows it. -/
theorem readPackets_binary (bytes : Bytes) (state : σ) (rest : List WsMessage) (stamp : UInt64) :
    readPackets handle rules limits state (.binary bytes :: rest) stamp =
      match readPacket limits (nextMessage rules [.binary bytes] stamp).answer with
      | .error stop => ([], stop)
      | .ok packet =>
        match handle state packet with
        | none => ([packet], .handled packet.kind)
        | some state =>
          let read := readPackets handle rules limits state rest stamp
          (packet :: read.1, read.2) := rfl

end Turns

/-! ## Sent packets -/

/-- A ping or a pong. -/
def WsMessage.isControl : WsMessage → Bool
  | .ping => true
  | .pong _ => true
  | _ => false

omit [DnsName] in
theorem isControl_eq_true {item : WsMessage} (h : item.isControl = true) :
    item = .ping ∨ ∃ now, item = .pong now := by
  cases item with
  | ping => exact .inl rfl
  | pong now => exact .inr ⟨now, rfl⟩
  | _ => cases h

variable {packet : SessionPacket}

/-- The message of a packet is taken apart into the kind and the body of the packet. -/
theorem readPacket_encoded {body bytes : Bytes} (limits : CborLimits) (stamp : UInt64)
    (hbody : packet.encode = .ok body)
    (hbytes : handshakeFrameRules.encodeFrame wireSchemaId packet.kind.kindId 0 body = .ok bytes) :
    readPacket limits (nextMessage handshakeFrameRules [.binary bytes] stamp).answer =
      (SessionPacket.decode packet.kind body limits).mapError fun _ => .malformed packet.kind := by
  have hlength := (SessionPacket.bounds_of_encode hbody).1
  have hsplit : handshakeFrameRules.splitMessage bytes =
      .ok (⟨wireSchemaId, packet.kind.kindId, 0, UInt32.ofNat body.length⟩, body) := by
    rw [FrameRules.split_iff_encoded]
    exact ⟨hbytes, (UInt32.toNat_ofNat_of_lt' (show body.length < 2 ^ 32 by omega)).symm, hlength⟩
  have hkind : lookupPacket wireSchemaId packet.kind.kindId = some packet.kind :=
    lookupPacket_eq_some_iff.mpr ⟨rfl, rfl⟩
  simp only [nextMessage, hsplit, Result.ok_bind]
  show readPacket limits (.ok (some ⟨wireSchemaId, packet.kind.kindId, 0, body⟩)) = _
  simp only [readPacket, hkind]

/-- A readable packet is read, and any other ends the loop. -/
theorem readPacket_sends (hhosts : FoldedHosts) {bytes : Bytes} (limits : CborLimits)
    (stamp : UInt64) (h : packet.Sends bytes) :
    (packet.Readable limits →
      readPacket limits (nextMessage handshakeFrameRules [.binary bytes] stamp).answer =
        .ok packet) ∧
    (¬ packet.Readable limits →
      readPacket limits (nextMessage handshakeFrameRules [.binary bytes] stamp).answer =
        .error (.malformed packet.kind)) := by
  obtain ⟨body, hbody, hbytes⟩ := h
  rw [readPacket_encoded limits stamp hbody hbytes]
  constructor
  · intro hreadable
    rw [(SessionPacket.decode_encode hhosts hbody).mpr ⟨rfl, hreadable⟩]
    rfl
  · intro hunreadable
    cases hdecode : SessionPacket.decode packet.kind body limits with
    | error e => rfl
    | ok other => exact absurd ((SessionPacket.decode_encode hhosts hbody).mp hdecode).2 hunreadable

/-- The items of a connection without the control frames. -/
def messages (items : List WsMessage) : List WsMessage := items.filter fun item => !item.isControl

/-- The items between which the messages of packets stand, and nothing else but control frames. -/
def Carries (items : List WsMessage) (packets : List SessionPacket) : Prop :=
  ∃ frames, messages items = frames.map .binary ∧ List.Forall₂ SessionPacket.Sends packets frames

variable {packets : List SessionPacket}

theorem Carries.nil_inv (h : Carries [] packets) : packets = [] := by
  obtain ⟨frames, hframes, hsends⟩ := h
  cases hsends with
  | nil => rfl
  | cons _ _ => cases hframes

/-- The first item is a control frame, or the message of the first packet. -/
theorem Carries.cons_inv {item : WsMessage} {rest : List WsMessage}
    (h : Carries (item :: rest) packets) :
    (item.isControl = true ∧ Carries rest packets) ∨
      ∃ packet others bytes, packets = packet :: others ∧ item = .binary bytes ∧
        packet.Sends bytes ∧ Carries rest others := by
  obtain ⟨frames, hframes, hsends⟩ := h
  by_cases hcontrol : item.isControl = true
  · rw [messages, List.filter_cons_of_neg (by simp [hcontrol])] at hframes
    exact .inl ⟨hcontrol, frames, hframes, hsends⟩
  · rw [messages, List.filter_cons_of_pos (by simpa using hcontrol)] at hframes
    cases hsends with
    | nil => cases hframes
    | cons hsend hrest =>
      rw [List.map_cons, List.cons.injEq] at hframes
      exact .inr ⟨_, _, _, rfl, hframes.1, hsend, _, hframes.2, hrest⟩

section Handling

variable {σ : Type} {handle : σ → SessionPacket → Option σ}

/-- What the loop reads if it gets some packets and goes on with `rest` after them. -/
def readOn (handle : σ → SessionPacket → Option σ) (state : σ) (packets : List SessionPacket)
    (rest : σ → List SessionPacket × ReadEnd) : List SessionPacket × ReadEnd :=
  let (handled, outcome) := handleAll handle state packets
  match outcome with
  | .error kind => (handled, .handled kind)
  | .ok state => (handled ++ (rest state).1, (rest state).2)

/-- A packet is handled before those behind it. -/
theorem readOn_cons (state : σ) (packet : SessionPacket) (packets : List SessionPacket)
    (rest : σ → List SessionPacket × ReadEnd) :
    readOn handle state (packet :: packets) rest =
      match handle state packet with
      | none => ([packet], .handled packet.kind)
      | some state =>
        (packet :: (readOn handle state packets rest).1, (readOn handle state packets rest).2) := by
  cases hstate : handle state packet with
  | none => simp only [readOn, handleAll, hstate]
  | some after =>
    simp only [readOn, handleAll, hstate]
    cases (handleAll handle after packets).2 with
    | error kind => rfl
    | ok left => rfl

/-- The readable packets on a connection are read, and then what follows them. -/
theorem readPackets_append (hhosts : FoldedHosts) {limits : CborLimits} {items : List WsMessage}
    {packets : List SessionPacket} (hitems : Carries items packets)
    (hreadable : ∀ packet ∈ packets, packet.Readable limits) (state : σ) (tail : List WsMessage)
    (stamp : UInt64) :
    readPackets handle handshakeFrameRules limits state (items ++ tail) stamp =
      readOn handle state packets fun state =>
        readPackets handle handshakeFrameRules limits state tail stamp := by
  induction items generalizing packets state with
  | nil =>
    rw [hitems.nil_inv]
    rfl
  | cons item rest ih =>
    obtain ⟨hcontrol, hrest⟩ | ⟨packet, others, bytes, hpackets, hbinary, hsend, hrest⟩ :=
      hitems.cons_inv
    · rw [List.cons_append, readPackets_control (isControl_eq_true hcontrol)]
      exact ih hrest hreadable state
    · rw [hpackets, List.forall_mem_cons] at hreadable
      rw [hbinary, List.cons_append, readPackets_binary,
        (readPacket_sends hhosts limits stamp hsend).1 hreadable.1, hpackets, readOn_cons]
      simp only [ih hrest hreadable.2]

/-- A packet that cannot be read ends the loop. -/
theorem readPackets_unreadable (hhosts : FoldedHosts) {limits : CborLimits} {items : List WsMessage}
    {front rest : List SessionPacket} {packet : SessionPacket}
    (hitems : Carries items (front ++ packet :: rest))
    (hreadable : ∀ packet ∈ front, packet.Readable limits) (hunreadable : ¬ packet.Readable limits)
    (state : σ) (tail : List WsMessage) (stamp : UInt64) :
    readPackets handle handshakeFrameRules limits state (items ++ tail) stamp =
      readOn handle state front fun _ => ([], .malformed packet.kind) := by
  induction items generalizing front state with
  | nil =>
    have hnone := hitems.nil_inv
    simp at hnone
  | cons item others ih =>
    obtain ⟨hcontrol, hrest⟩ | ⟨first, packets, bytes, hpackets, hbinary, hsend, hrest⟩ :=
      hitems.cons_inv
    · rw [List.cons_append, readPackets_control (isControl_eq_true hcontrol)]
      exact ih hrest hreadable state
    · rw [hbinary, List.cons_append, readPackets_binary]
      cases front with
      | nil =>
        rw [List.nil_append, List.cons.injEq] at hpackets
        rw [← hpackets.1] at hsend
        rw [(readPacket_sends hhosts limits stamp hsend).2 hunreadable]
        rfl
      | cons head front =>
        rw [List.cons_append, List.cons.injEq] at hpackets
        rw [List.forall_mem_cons] at hreadable
        rw [← hpackets.1] at hsend
        rw [← hpackets.2] at hrest
        rw [(readPacket_sends hhosts limits stamp hsend).1 hreadable.1, readOn_cons]
        simp only [ih hrest hreadable.2]

end Handling

/-! ## The writer -/

/-- The frame of a packet in the queue of a session. -/
def Queued (frame : SessionFrame) (packet : SessionPacket) : Prop :=
  frame.kind = packet.kind ∧ packet.encode = .ok frame.body

/-- The frames that a writer takes out of its queue. -/
def queuedFrames (events : List WriterEvent) : List SessionFrame :=
  events.filterMap fun event =>
    match event with
    | .frame frame => some frame
    | .ping => none

/-- The writer puts the message of every packet on the connection. -/
theorem carries_runWriter {events : List WriterEvent}
    (h : List.Forall₂ Queued (queuedFrames events) packets) :
    Carries (runWriter handshakeFrameRules events) packets := by
  induction events generalizing packets with
  | nil =>
    cases h
    exact ⟨[], rfl, .nil⟩
  | cons event rest ih =>
    cases event with
    | ping =>
      obtain ⟨frames, hframes, hsends⟩ := ih h
      exact ⟨frames, hframes, hsends⟩
    | frame frame =>
      have hcons : queuedFrames (.frame frame :: rest) = frame :: queuedFrames rest := rfl
      rw [hcons] at h
      cases h with
      | cons hqueued hrest =>
        rename_i packet others
        obtain ⟨frames, hframes, hsends⟩ := ih hrest
        have hframe := SessionPacket.exists_sends hqueued.2
        have hwritten := hframe
        rw [← hqueued.1] at hwritten
        refine ⟨_ :: frames, ?_, .cons ⟨_, hqueued.2, hframe⟩ hsends⟩
        unfold runWriter
        rw [hwritten, List.map_cons, ← hframes, hqueued.1]
        rfl

theorem Carries.congr {items items' : List WsMessage} (h : Carries items packets)
    (hsame : messages items' = messages items) :
    Carries items' packets := by
  obtain ⟨frames, hframes, hsends⟩ := h
  exact ⟨frames, hsame.trans hframes, hsends⟩

/-- What the writer of a session puts on the connection, with any control frames between, is read
    at the other end as the packets that were queued, and then whatever follows, unless the handling
    of one ends the loop there. The first packet that the receiver cannot read ends it too. -/
theorem session_delivers (hhosts : FoldedHosts) (limits : CborLimits) {events : List WriterEvent}
    {packets : List SessionPacket} (hqueued : List.Forall₂ Queued (queuedFrames events) packets)
    {sent : List WsMessage} (hsent : messages sent = messages (runWriter handshakeFrameRules events))
    {σ : Type} (handle : σ → SessionPacket → Option σ) (state : σ) (tail : List WsMessage)
    (stamp : UInt64) :
    ((∀ packet ∈ packets, packet.Readable limits) →
      readPackets handle handshakeFrameRules limits state (sent ++ tail) stamp =
        readOn handle state packets fun state =>
          readPackets handle handshakeFrameRules limits state tail stamp) ∧
    ∀ front packet rest, packets = front ++ packet :: rest →
      (∀ earlier ∈ front, earlier.Readable limits) → ¬ packet.Readable limits →
      readPackets handle handshakeFrameRules limits state (sent ++ tail) stamp =
        readOn handle state front fun _ => ([], .malformed packet.kind) := by
  have hcarries : Carries sent packets := (carries_runWriter hqueued).congr hsent
  constructor
  · intro hreadable
    exact readPackets_append hhosts hcarries hreadable state tail stamp
  · intro front packet rest hpackets hreadable hunreadable
    rw [hpackets] at hcarries
    exact readPackets_unreadable hhosts hcarries hreadable hunreadable state tail stamp

/-! ## Any bytes -/

/-- The message from which a packet was read: the node would write it itself, unless the tags of an
    open frame are spelled otherwise. -/
def Respells (packet : SessionPacket) (bytes : Bytes) : Prop :=
  ∃ again, packet.Sends again ∧ again.length = bytes.length ∧
    (packet.kind ≠ .open → again = bytes)

theorem encode_of_decode {kind : PacketKind} {body : Bytes} {limits : CborLimits}
    (h : SessionPacket.decode kind body limits = .ok packet) :
    packet.kind = kind ∧ ∃ again, packet.encode = .ok again ∧ again.length = body.length ∧
      (kind ≠ .open → again = body) := by
  cases kind with
  | «open» =>
    obtain ⟨frame, hframe, hpacket⟩ := Except.map_eq_ok.mp h
    obtain ⟨wire, -, -, -, hagain, hlength⟩ := OpenPacket.encodeOpen_decodeOpen hframe
    rw [← hpacket]
    exact ⟨rfl, _, hagain, hlength, fun hkind => absurd rfl hkind⟩
  | chunk =>
    obtain ⟨frame, hframe, hpacket⟩ := Except.map_eq_ok.mp h
    rw [← hpacket]
    exact ⟨rfl, body, (decodeChunk_eq_ok_iff.mp hframe).1, rfl, fun _ => rfl⟩
  | «end» =>
    obtain ⟨frame, hframe, hpacket⟩ := Except.map_eq_ok.mp h
    rw [← hpacket]
    exact ⟨rfl, body, (decodeEnd_eq_ok_iff.mp hframe).1, rfl, fun _ => rfl⟩
  | ack =>
    obtain ⟨frame, hframe, hpacket⟩ := Except.map_eq_ok.mp h
    rw [← hpacket]
    exact ⟨rfl, body, (decodeAck_eq_ok_iff.mp hframe).1, rfl, fun _ => rfl⟩

theorem respells_of_readPacket {bytes : Bytes} {limits : CborLimits} {stamp : UInt64}
    (h : readPacket limits (nextMessage handshakeFrameRules [.binary bytes] stamp).answer =
      .ok packet) : Respells packet bytes := by
  cases hsplit : handshakeFrameRules.splitMessage bytes with
  | error e =>
    simp only [nextMessage, hsplit] at h
    cases h
  | ok found =>
    obtain ⟨prelude, body⟩ := found
    obtain ⟨hframe, hsize, hlimit⟩ := FrameRules.split_iff_encoded.mp hsplit
    obtain ⟨-, -, hflags, -, hbytes⟩ := FrameRules.encodeFrame_eq_ok_iff.mp hframe
    have hnone : prelude.flags = 0 := by
      have hmask : prelude.flags &&& ~~~(0 : UInt16) = 0 := hflags
      simpa using hmask
    simp only [nextMessage, hsplit, Result.ok_bind] at h
    change readPacket limits (.ok (some ⟨prelude.schemaId, prelude.kindId, prelude.flags, body⟩)) =
      .ok packet at h
    simp only [readPacket] at h
    cases hkind : lookupPacket prelude.schemaId prelude.kindId with
    | none =>
      simp only [hkind] at h
      cases h
    | some kind =>
      simp only [hkind, Except.mapError_eq_ok] at h
      obtain ⟨hschema, hid⟩ := lookupPacket_eq_some_iff.mp hkind
      obtain ⟨hsame, again, hagain, hlength, hexact⟩ := encode_of_decode h
      have hsends := SessionPacket.exists_sends hagain
      refine ⟨_, ⟨again, hagain, hsends⟩, ?_, ?_⟩
      · rw [hbytes, List.length_append, List.length_append, Prelude.length_encode,
          Prelude.length_encode, hlength]
      · intro hother
        rw [hsame] at hother
        rw [hbytes, hexact hother, hschema, hid, hnone, hsame]

/-- Whatever a peer puts on a connection, the packets that are read stand in a row of messages at
    its front, each with the bytes that this node would write for it, or as many. -/
theorem session_reads_frames {σ : Type} (handle : σ → SessionPacket → Option σ) (state : σ)
    (limits : CborLimits) (items : List WsMessage) (stamp : UInt64) :
    ∃ frames rest, messages items = frames.map .binary ++ rest ∧
      List.Forall₂ Respells
        (readPackets handle handshakeFrameRules limits state items stamp).1 frames := by
  induction items generalizing state with
  | nil => exact ⟨[], [], rfl, .nil⟩
  | cons item items ih =>
    have hstop : (readPackets handle handshakeFrameRules limits state (item :: items) stamp).1 = [] →
        ∃ frames rest, messages (item :: items) = frames.map .binary ++ rest ∧
          List.Forall₂ Respells
            (readPackets handle handshakeFrameRules limits state (item :: items) stamp).1
              frames := by
      intro hnone
      exact ⟨[], _, rfl, hnone ▸ .nil⟩
    by_cases hcontrol : item.isControl = true
    · obtain ⟨frames, rest, hmessages, hread⟩ := ih state
      refine ⟨frames, rest, ?_, ?_⟩
      · rw [messages, List.filter_cons_of_neg (by simp [hcontrol])]
        exact hmessages
      · rw [readPackets_control (isControl_eq_true hcontrol)]
        exact hread
    · cases item with
      | ping => exact absurd rfl hcontrol
      | pong now => exact absurd rfl hcontrol
      | binary bytes =>
        have hfirst : ∀ frames rest, messages items = frames.map .binary ++ rest →
            messages (.binary bytes :: items) = (bytes :: frames).map .binary ++ rest := by
          intro frames rest hmessages
          rw [messages, List.filter_cons_of_pos (by rfl), List.map_cons, List.cons_append]
          exact congrArg _ hmessages
        cases hpacket : readPacket limits
            (nextMessage handshakeFrameRules [.binary bytes] stamp).answer with
        | error stop => exact hstop (by rw [readPackets_binary, hpacket])
        | ok packet =>
          have hrespells := respells_of_readPacket hpacket
          cases hstate : handle state packet with
          | none =>
            refine ⟨[bytes], messages items, hfirst [] _ rfl, ?_⟩
            simp only [readPackets_binary, hpacket, hstate]
            exact .cons hrespells .nil
          | some after =>
            obtain ⟨frames, rest, hmessages, hread⟩ := ih after
            refine ⟨bytes :: frames, rest, hfirst frames rest hmessages, ?_⟩
            simp only [readPackets_binary, hpacket, hstate]
            exact .cons hrespells hread
      | text => exact hstop rfl
      | close => exact hstop rfl
      | frame => exact hstop rfl
      | failed error => exact hstop rfl

end Sessions

/-- A handler for admitted streams: an open is always admitted, and no consumer goes away. -/
def handleStreams [DnsName] (incoming : Incoming) : SessionPacket → Option Incoming
  | .open packet => some (incoming.admitOpen packet.frame.traceId)
  | .chunk chunk => incoming.forwardChunk chunk false
  | .end frame => some (incoming.endStream frame false)
  | .ack _ => some incoming

/-- A chunk and the end of its stream, with a ping between and a pong before them: both are read if
    the chunk is the next of the stream, and otherwise the loop ends at the chunk. -/
theorem sampleStream_delivered :
    letI := DnsName.hostNames
    ∃ (chunk : UInt64 → SessionFrame) (finish : SessionFrame), ∀ sequence : UInt64,
      Queued (chunk sequence) (.chunk ⟨.ofDigits 1 2, sequence, [0x68, 0x69]⟩) ∧
      Queued finish (.end ⟨.ofDigits 1 2⟩) ∧
      readPackets handleStreams handshakeFrameRules controlCborLimits
          (Incoming.admitOpen ⟨.empty, []⟩ (.ofDigits 1 2))
          (.pong 5 :: runWriter handshakeFrameRules [.frame (chunk sequence), .ping, .frame finish] ++
            [.close]) 0 =
        if sequence = 0 then
          ([.chunk ⟨.ofDigits 1 2, sequence, [0x68, 0x69]⟩, .end ⟨.ofDigits 1 2⟩], .orderly)
        else ([.chunk ⟨.ofDigits 1 2, sequence, [0x68, 0x69]⟩], .handled .chunk) := by
  let _ := DnsName.hostNames
  refine ⟨fun sequence => ⟨.chunk, ChunkFrame.body ⟨.ofDigits 1 2, sequence, [0x68, 0x69]⟩⟩,
    ⟨.end, EndFrame.body ⟨.ofDigits 1 2⟩⟩, fun sequence => ?_⟩
  have hchunk : SessionPacket.encode (.chunk ⟨.ofDigits 1 2, sequence, [0x68, 0x69]⟩) =
      .ok (ChunkFrame.body ⟨.ofDigits 1 2, sequence, [0x68, 0x69]⟩) :=
    encodeChunk_eq ⟨.ofDigits 1 2, sequence, [0x68, 0x69]⟩ (Nat.le_of_ble_eq_true rfl)
  have hend : SessionPacket.encode (.end ⟨.ofDigits 1 2⟩) = .ok (EndFrame.body ⟨.ofDigits 1 2⟩) :=
    encodeEnd_eq ⟨.ofDigits 1 2⟩
  let chunk : SessionFrame := ⟨.chunk, ChunkFrame.body ⟨.ofDigits 1 2, sequence, [0x68, 0x69]⟩⟩
  let finish : SessionFrame := ⟨.end, EndFrame.body ⟨.ofDigits 1 2⟩⟩
  let events : List WriterEvent := [.frame chunk, .ping, .frame finish]
  have hqueued : List.Forall₂ Queued (queuedFrames events)
      [.chunk ⟨.ofDigits 1 2, sequence, [0x68, 0x69]⟩, .end ⟨.ofDigits 1 2⟩] :=
    .cons ⟨rfl, hchunk⟩ (.cons ⟨rfl, hend⟩ .nil)
  have hsent : messages (.pong 5 :: runWriter handshakeFrameRules events) =
      messages (runWriter handshakeFrameRules events) := rfl
  refine ⟨⟨rfl, hchunk⟩, ⟨rfl, hend⟩, ?_⟩
  refine ((session_delivers foldedHosts_hostNames controlCborLimits hqueued hsent handleStreams _
    [.close] 0).1 ?_).trans ?_
  · intro packet hpacket
    rw [List.mem_cons, List.mem_singleton] at hpacket
    obtain rfl | rfl := hpacket
    · exact (SessionPacket.readable_iff_plain hchunk).mpr trivial
    · exact (SessionPacket.readable_iff_plain hend).mpr trivial
  · have hstream : (Incoming.admitOpen ⟨.empty, []⟩ (.ofDigits 1 2)).streams.get (.ofDigits 1 2) =
        some ⟨0, []⟩ := rfl
    rw [readOn_cons]
    by_cases hzero : sequence = 0
    · rw [hzero]
      rfl
    · simp only [handleStreams, Incoming.forwardChunk, hstream, if_pos (Ne.symm hzero), if_neg hzero]
      rfl

end Radiata
