import Radiata.Native.Handshake
import Radiata.Spec.CborCorrect
import Radiata.Spec.HandshakeStep

/-!
# Handshake messages

Every message of an endpoint fits the body limit by the capacities of an offer, is
written in canonical form and is read back.

## Key results

- `sendable_initiatorHello` / `sendable_responderHello` / `sendable_proof` /
  `sendable_confirmation`: the messages of the exchange
- `probe_encode`: the kind and the arity are read from the first bytes
-/

namespace Radiata

open Cbor (Item)
open Reader (Reads)

namespace Sendable

variable {α : Type} {codec : CborCodec α} {wire : α} {item : Item}

theorem decodeWire_eq (h : Sendable codec wire item) : decodeWire codec item.encode = .ok wire := by
  have hencode := h.encodeCanonical_eq
  obtain ⟨-, -, hvalid⟩ := encodeCanonical_eq_ok hencode
  have hdecode : codec.decode item.encode = some (wire, []) := by simpa using h.reads []
  have hcanonical : decodeCanonical codec item.encode controlCborLimits = .ok wire := by
    simp [decodeCanonical, hvalid, hdecode, decoding]
  rw [decodeWire, Except.mapError_eq_ok]
  simp only [decodeCanonicalStrictOr, hcanonical, hencode, Except.mapError, Except.ok_bind_eq,
    Except.rejectIf_of_not _ (not_not.mpr rfl)]
  rfl

end Sendable

/-- The kind of the message with the proof of a role. -/
def Role.proofKind : Role → HandshakeKind
  | .initiator => .initiatorProof
  | .responder => .responderProof

theorem HandshakeMode.utf8_asStr (mode : HandshakeMode) : mode.asStr.isUtf8 = true := by
  cases mode <;> decide

theorem HandshakeMode.length_asStr_le (mode : HandshakeMode) : mode.asStr.length ≤ 6 := by
  cases mode <;> decide

private theorem size_bytes_le {value : Bytes} {n : Nat} (h : value.length ≤ n) :
    (Item.bytes value).size ≤ Cbor.headLen n + n := Item.size_text_le h

private theorem size_option_le {length n : Nat} {value : Option (ByteValue length)} (h : length ≤ n) :
    (Item.option .bytes (value.map ByteValue.asBytes)).size ≤ Cbor.headLen n + n := by
  cases value with
  | none => exact Nat.le_trans (Cbor.headLen_pos n) (Nat.le_add_right _ _)
  | some value => exact size_bytes_le (by rw [value.width]; exact h)

private theorem reads_optionBytes {length : Nat} (value : Option (ByteValue length)) (h : length < 2 ^ 64) :
    Reads (Cbor.decodeOption Cbor.decodeBytes) (Item.option .bytes (value.map ByteValue.asBytes)).encode
      (value.map ByteValue.asBytes) := by
  refine Cbor.reads_option _ (fun _ => by simp [Item.major]) ?_
  intro bytes hbytes
  obtain ⟨value, rfl, rfl⟩ := Option.map_eq_some_iff.mp hbytes
  exact Cbor.reads_bytes (by rw [value.width]; exact h)

/-- The fields that both hellos have. -/
private theorem size_helloFields (cluster : ClusterId) (nodeId : NodeId) (publicKey : PublicKey)
    (nonce : ByteValue nonceLen) {offer : Bytes} (hoffer : offer.length ≤ 55687) :
    (Item.text cluster.asStr).size + ((Item.text nodeId.asStr).size +
      ((Item.bytes publicKey.asBytes).size + ((Item.bytes nonce.asBytes).size +
        ((Item.bytes offer).size + 0)))) ≤ 55817 := by
  have hcluster : (Item.text cluster.asStr).size ≤ 2 + 29 :=
    Item.size_text_le (Nat.le_of_eq cluster.length_asStr)
  have hid : (Item.text nodeId.asStr).size ≤ 2 + 26 :=
    Item.size_text_le (Nat.le_of_eq nodeId.length_asStr)
  have hkey : (Item.bytes publicKey.asBytes).size ≤ 2 + 32 := size_bytes_le (Nat.le_of_eq publicKey.width)
  have hnonce : (Item.bytes nonce.asBytes).size ≤ 2 + 32 := size_bytes_le (Nat.le_of_eq nonce.width)
  have hoffer : (Item.bytes offer).size ≤ 3 + 55687 := size_bytes_le hoffer
  omega

/-- A hello of the initiator is sent and read back. -/
theorem sendable_initiatorHello (kind : UInt64) (mode : HandshakeMode)
    (generation : Option (ByteValue generationLen)) (cluster : ClusterId) (nodeId : NodeId)
    (publicKey : PublicKey) (nonce : ByteValue nonceLen) {offer : Bytes} (hoffer : offer.length ≤ 55687) :
    Sendable InitiatorHelloWire.codec ⟨kind, mode.asStr, generation.map ByteValue.asBytes,
      cluster.asStr, nodeId.asStr, publicKey.asBytes, nonce.asBytes, offer⟩
      (.array [.uint kind, .text mode.asStr, .option .bytes (generation.map ByteValue.asBytes),
        .text cluster.asStr, .text nodeId.asStr, .bytes publicKey.asBytes, .bytes nonce.asBytes,
        .bytes offer]) where
  encodes := rfl
  reads := by
    refine Cbor.reads_fields (by omega) ?_
    refine (Cbor.reads_u64 kind).bind ?_
    refine (Cbor.reads_str ((HandshakeMode.length_asStr_le mode).trans_lt (by omega)) (HandshakeMode.utf8_asStr mode)).bind ?_
    refine (reads_optionBytes generation (by decide)).bind ?_
    refine (Cbor.reads_str (by rw [ClusterId.length_asStr]; omega) cluster.ascii.isUtf8).bind ?_
    refine (Cbor.reads_str (by rw [NodeId.length_asStr]; omega) nodeId.ascii.isUtf8).bind ?_
    refine (Cbor.reads_bytes (by rw [publicKey.width]; omega)).bind ?_
    refine (Cbor.reads_bytes (by rw [nonce.width]; decide)).bind ?_
    exact (Cbor.reads_bytes (by omega)).bind (Reads.pure _)
  fits := by
    simp only [Fits, FitsAll, controlCborLimits, List.length_cons, List.length_nil, and_true, true_and]
    refine ⟨by omega, by omega, HandshakeMode.utf8_asStr mode, ?_, cluster.ascii.isUtf8, nodeId.ascii.isUtf8⟩
    cases generation <;> exact trivial
  small := by
    have hkind : (Item.uint kind).size ≤ 9 := Cbor.headLen_le_nine _
    have hmode : (Item.text mode.asStr).size ≤ 1 + 6 := Item.size_text_le (HandshakeMode.length_asStr_le mode)
    have hgeneration : (Item.option .bytes (generation.map ByteValue.asBytes)).size ≤ 1 + 16 :=
      size_option_le (Nat.le_refl generationLen)
    have hfields := size_helloFields cluster nodeId publicKey nonce hoffer
    show Cbor.headLen 8 + ((Item.uint _).size + ((Item.text _).size + ((Item.option _ _).size +
      ((Item.text _).size + ((Item.text _).size + ((Item.bytes _).size + ((Item.bytes _).size +
        ((Item.bytes _).size + 0)))))))) ≤ _
    rw [show Cbor.headLen 8 = 1 by decide]
    omega

/-- A hello of the responder is sent and read back. -/
theorem sendable_responderHello (kind : UInt64) (cluster : ClusterId) (nodeId : NodeId)
    (publicKey : PublicKey) (nonce : ByteValue nonceLen) {offer : Bytes} (hoffer : offer.length ≤ 55687) :
    Sendable ResponderHelloWire.codec
      ⟨kind, cluster.asStr, nodeId.asStr, publicKey.asBytes, nonce.asBytes, offer⟩
      (.array [.uint kind, .text cluster.asStr, .text nodeId.asStr, .bytes publicKey.asBytes,
        .bytes nonce.asBytes, .bytes offer]) where
  encodes := rfl
  reads := by
    refine Cbor.reads_fields (by omega) ?_
    refine (Cbor.reads_u64 kind).bind ?_
    refine (Cbor.reads_str (by rw [ClusterId.length_asStr]; omega) cluster.ascii.isUtf8).bind ?_
    refine (Cbor.reads_str (by rw [NodeId.length_asStr]; omega) nodeId.ascii.isUtf8).bind ?_
    refine (Cbor.reads_bytes (by rw [publicKey.width]; omega)).bind ?_
    refine (Cbor.reads_bytes (by rw [nonce.width]; decide)).bind ?_
    exact (Cbor.reads_bytes (by omega)).bind (Reads.pure _)
  fits := by
    simp only [Fits, FitsAll, controlCborLimits, List.length_cons, List.length_nil, and_true, true_and]
    exact ⟨by omega, by omega, cluster.ascii.isUtf8, nodeId.ascii.isUtf8⟩
  small := by
    have hkind : (Item.uint kind).size ≤ 9 := Cbor.headLen_le_nine _
    have hfields := size_helloFields cluster nodeId publicKey nonce hoffer
    show Cbor.headLen 6 + ((Item.uint _).size + ((Item.text _).size + ((Item.text _).size +
      ((Item.bytes _).size + ((Item.bytes _).size + ((Item.bytes _).size + 0)))))) ≤ _
    rw [show Cbor.headLen 6 = 1 by decide]
    omega

/-- A proof message is sent and read back. -/
theorem sendable_proof (kind : UInt64) (proof : Option CredentialProof) (signature : Signature) :
    Sendable ProofWire.codec ⟨kind, proof.map ByteValue.asBytes, signature.asBytes⟩
      (.array [.uint kind, .option .bytes (proof.map ByteValue.asBytes), .bytes signature.asBytes]) where
  encodes := rfl
  reads := by
    refine Cbor.reads_fields (by omega) ?_
    refine (Cbor.reads_u64 kind).bind ?_
    refine (reads_optionBytes proof (by omega)).bind ?_
    exact (Cbor.reads_bytes (by rw [signature.width]; omega)).bind (Reads.pure _)
  fits := by
    simp only [Fits, FitsAll, controlCborLimits, List.length_cons, List.length_nil, and_true, true_and]
    refine ⟨by omega, by omega, ?_⟩
    cases proof <;> exact trivial
  small := by
    have hkind : (Item.uint kind).size ≤ 9 := Cbor.headLen_le_nine _
    have hproof : (Item.option .bytes (proof.map ByteValue.asBytes)).size ≤ 2 + 32 :=
      size_option_le (Nat.le_refl 32)
    have hsignature : (Item.bytes signature.asBytes).size ≤ 2 + 64 :=
      size_bytes_le (Nat.le_of_eq signature.width)
    show Cbor.headLen 3 + ((Item.uint _).size + ((Item.option _ _).size + ((Item.bytes _).size + 0))) ≤ _
    rw [show Cbor.headLen 3 = 1 by decide]
    omega

/-- The confirmation of a selection is sent and read back. -/
theorem sendable_confirmation (kind : UInt64) {selection : Bytes} (hselection : selection.length ≤ 65520) :
    Sendable ConfirmationWire.codec ⟨kind, selection⟩ (.array [.uint kind, .bytes selection]) where
  encodes := rfl
  reads := by
    refine Cbor.reads_fields (by omega) ?_
    refine (Cbor.reads_u64 kind).bind ?_
    exact (Cbor.reads_bytes (by omega)).bind (Reads.pure _)
  fits := by
    simp only [Fits, FitsAll, controlCborLimits, List.length_cons, List.length_nil, and_true]
    omega
  small := by
    have hkind : (Item.uint kind).size ≤ 9 := Cbor.headLen_le_nine _
    have hselection : (Item.bytes selection).size ≤ 3 + 65520 := size_bytes_le hselection
    show Cbor.headLen 2 + ((Item.uint _).size + ((Item.bytes _).size + 0)) ≤ _
    rw [show Cbor.headLen 2 = 1 by decide]
    omega

/-- The arity and the kind of a message are read from its first bytes. -/
theorem probe_encode {kind : HandshakeKind} {fields : List Item} (hlen : fields.length < 2 ^ 32) :
    probe (Item.array (.uint kind.kindId :: fields)).encode = .ok (fields.length + 1, kind) := by
  have harray := Cbor.reads_array (show fields.length + 1 < 2 ^ 64 by omega)
    (Cbor.encodeU64 kind.kindId ++ Item.encodeAll fields)
  have hkind := Cbor.reads_u64 kind.kindId (Item.encodeAll fields)
  have hfind : (HandshakeKind.all.find? fun handshake => handshake.kindId = kind.kindId) = some kind := by
    cases kind <;> decide
  simp only [probe, Item.encode, Item.encodeAll, List.length_cons]
  rw [harray]
  simp only [hkind, hfind]

theorem parse_mode (mode : HandshakeMode) : HandshakeMode.parse mode.asStr = .ok mode := by
  cases mode <;> decide

theorem optionalBytes_map {length : Nat} (value : Option (ByteValue length)) (context : String) :
    optionalBytes length (value.map ByteValue.asBytes) context = .ok value := by
  cases value with
  | none => rfl
  | some value =>
    have hbytes : handshakeBytes length value.asBytes context = .ok value := handshakeBytes_eq_ok.mpr rfl
    simp [optionalBytes, hbytes]

end Radiata
