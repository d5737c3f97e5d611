import Radiata.Native.SyncLane
import Radiata.Spec.DescriptorCorrect
import Radiata.Spec.ResourceCorrect

/-!
# Pages read back

What a node hands over for a peer is a page in an envelope in a payload. A receiver of the payload
reads the same page from it.

## Key results

- `PageEnvelopeWire.reads`: an envelope reads back
- `SyncPage.decode_encode`: a page reads back if its records do
- `acceptResourcePage_of_payload`, `acceptMembershipPage_of_payload`: a payload reads back
-/

namespace Radiata

open Cbor (Item)
open Reader (Reads)

/-! ## Envelopes -/

namespace PageEnvelopeWire

/-- The cursor of an envelope reads back at the length of the envelope. -/
theorem reads_cursor {cursor : Option Bytes} (h : ∀ key ∈ cursor, key.length < 2 ^ 64) :
    Reads (decodeCursor (2 + cursor.toList.length))
      (Item.encodeAll (cursor.map Item.bytes).toList) cursor := by
  cases cursor with
  | none => exact Reads.pure none
  | some key =>
    have hpresent : ∀ a ∈ some key, Reads Cbor.decodeBytes (Item.bytes a).encode a := by
      intro a ha
      cases ha
      exact Cbor.reads_bytes (h key rfl)
    have hread := Cbor.reads_option (some key) (by simp [Item.major]) hpresent
    simpa [decodeCursor, Item.encodeAll, Item.option] using hread

/-- An envelope that is not too large reads back. -/
theorem reads {wire : PageEnvelopeWire} (hutf8 : wire.schema.isUtf8 = true)
    (hsize : wire.toItem.size < 2 ^ 64) : Reads decode wire.toItem.encode wire := by
  obtain ⟨schema, items, cursor⟩ := wire
  simp only at hutf8
  simp only [toItem, Item.size, Item.sizeAll_append, Item.sizeAll] at hsize
  have hitem : ∀ bytes ∈ items, bytes.length < 2 ^ 64 := by
    intro bytes hbytes
    have hsmall := Item.size_le_of_mem (List.mem_map_of_mem (f := Item.bytes) hbytes)
    simp only [Item.size] at hsmall
    omega
  have hcount : items.length < 2 ^ 64 := by
    have hlen := Item.length_le_sizeAll (items.map Item.bytes)
    rw [List.length_map] at hlen
    omega
  have hcursor : ∀ key ∈ cursor, key.length < 2 ^ 64 := by
    intro key hkey
    cases hkey
    simp only [Option.map_some, Option.toList_some, Item.sizeAll, Item.size] at hsize
    omega
  have hbody : (toItem ⟨schema, items, cursor⟩).encode =
      Cbor.encodeArray (2 + cursor.toList.length) ++ (Cbor.encodeStr schema ++
        ((Item.array (items.map .bytes)).encode ++
          Item.encodeAll (cursor.map Item.bytes).toList)) := by
    cases cursor <;>
      simp [toItem, Item.encode, Item.encodeAll, Cbor.encodeArray, Cbor.encodeStr]
  have hlength : cursor.toList.length ≤ 1 := by
    cases cursor <;> simp
  rw [hbody]
  apply (Cbor.reads_array (by omega)).bind
  show Reads (if 2 + cursor.toList.length < 2 then failure else decodeElements _) _ _
  rw [if_neg (by omega)]
  apply (Cbor.reads_str (by omega) hutf8).bind
  apply (Cbor.reads_items hcount fun bytes hbytes => Cbor.reads_bytes (hitem bytes hbytes)).bind
  apply (reads_cursor hcursor).bind_nil
  rw [show 2 + cursor.toList.length - 3 = 0 by omega]
  exact Cbor.reads_skip_zero.bind_nil (Reads.pure _)

end PageEnvelopeWire

/-- The lengths in an encoding within the control limits. -/
theorem size_le_of_encodeCanonical {α : Type} {codec : CborCodec α} {value : α} {bytes : Bytes}
    {item : Item} (hcodec : codec.encode value = item.encode)
    (h : encodeCanonical codec value controlCborLimits = .ok bytes) : item.size ≤ 65536 := by
  obtain ⟨rfl, hlength, -⟩ := encodeCanonical_eq_ok h
  rw [hcodec, Item.length_encode] at hlength
  exact hlength

/-- An envelope that was encoded is decoded again. -/
theorem decodePage_encodePage {schema bytes : Bytes} {items : List Bytes} {cursor : Option Bytes}
    {max : Nat} (context : String) (hutf8 : schema.isUtf8 = true) (hcount : items.length ≤ max)
    (h : encodePage schema items cursor = .ok bytes) :
    decodePage bytes schema max context = .ok (items, cursor) := by
  have hsize : (PageEnvelopeWire.toItem ⟨schema, items, cursor⟩).size ≤ 65536 :=
    size_le_of_encodeCanonical rfl h
  have hreads : Reads PageEnvelopeWire.decode
      (PageEnvelopeWire.toItem ⟨schema, items, cursor⟩).encode ⟨schema, items, cursor⟩ :=
    PageEnvelopeWire.reads hutf8 (by omega)
  have hread := decodeStrict_of_encodeCanonical context hreads h
  simp only [decodePage, hread, Result.ok_bind, checkPageShape]
  rw [Except.rejectIf_of_not _ (by simp), Except.ok_bind_eq,
    Except.rejectIf_of_not _ (by omega), Except.ok_bind_eq, Except.rejectIf_of_not _ (by simp)]
  rfl

/-! ## Pages -/

section Pages

variable {ρ : Type} {kind : PageKind ρ}

/-- Every record that is encoded reads back, and the schema is a text. -/
structure PageKind.ReadsBack (kind : PageKind ρ) : Prop where
  schema : kind.schema.isUtf8 = true
  record : ∀ record bytes, kind.encodeRecord record = .ok bytes →
    kind.decodeRecord bytes = .ok record

/-- The records of a page read back in their order. -/
theorem PageKind.ReadsBack.records (h : kind.ReadsBack) {records : List ρ} {items : List Bytes}
    (hitems : records.mapM kind.encodeRecord = .ok items) :
    items.length = records.length ∧ (items.mapM fun encoded =>
      (kind.decodeRecord encoded).mapError fun _ => Error.invalidInput kind.recordContext) =
        .ok records := by
  have hpairs := Except.mapM_eq_ok.mp hitems
  refine ⟨hpairs.length_eq.symm, Except.mapM_eq_ok.mpr (hpairs.flip.imp ?_)⟩
  intro encoded record hencode
  rw [h.record record encoded hencode]
  rfl

theorem SyncPage.new_self (page : SyncPage ρ) :
    SyncPage.new kind page.records page.cursor = .ok page := by
  rw [SyncPage.new, dif_pos page.bounded, dif_pos page.continued]

/-- A page that was encoded reads back. -/
theorem SyncPage.decode_encode (h : kind.ReadsBack) {page : SyncPage ρ} {bytes : Bytes}
    (hencode : page.encode kind = .ok bytes) : SyncPage.decode kind bytes = .ok page := by
  obtain ⟨items, hitems, hbytes⟩ := Result.bind_eq_ok.mp hencode
  obtain ⟨hlength, hrecords⟩ := h.records hitems
  have henvelope := decodePage_encodePage kind.context h.schema
    (hlength.trans_le page.bounded) hbytes
  simp only [SyncPage.decode, henvelope, Result.ok_bind, hrecords]
  exact page.new_self

end Pages

/-! ## Payloads -/

/-- A body of one chunk of the size of a message is not too large. -/
theorem drainBody_singleton {payload : Bytes} (h : payload.length ≤ 65536) (context : String) :
    drainBody [payload] context = .ok payload := by
  have hfits : ¬ (maxSyncChunks < 0 + 1 ∨ maxSyncBytes < ([] : Bytes).length + payload.length) := by
    simp only [maxSyncChunks, maxSyncBytes, List.length_nil]
    omega
  simp only [drainBody, drainChunks, if_neg hfits, List.nil_append]

/-- The payload of a page of the register reads back. -/
theorem decodeResourcePayload_encode {payload bytes : Bytes}
    (h : encodeResourcePayload payload = .ok bytes) : decodeResourcePayload bytes = .ok payload := by
  have hsize : (ResourcePayloadWire.toItem ⟨resourcePayloadSchema, payload⟩).size ≤ 65536 :=
    size_le_of_encodeCanonical rfl h
  simp only [ResourcePayloadWire.toItem, Item.size, Item.sizeAll] at hsize
  have hreads : Reads ResourcePayloadWire.decode
      (ResourcePayloadWire.toItem ⟨resourcePayloadSchema, payload⟩).encode
        ⟨resourcePayloadSchema, payload⟩ := by
    have hitem : (ResourcePayloadWire.toItem ⟨resourcePayloadSchema, payload⟩).encode =
        Cbor.encodeArray 2 ++ (Cbor.encodeStr resourcePayloadSchema ++ Cbor.encodeBytes payload) := by
      simp [ResourcePayloadWire.toItem, Item.encode, Item.encodeAll, Cbor.encodeArray,
        Cbor.encodeStr, Cbor.encodeBytes]
    rw [hitem]
    apply Cbor.reads_fields (by decide)
    apply (Cbor.reads_str (by decide) (by decide)).bind
    exact (Cbor.reads_bytes (by omega)).bind_nil (Reads.pure _)
  have hread := decodeStrict_of_encodeCanonical "resource sync payload canonical form" hreads h
  simp only [decodeResourcePayload, hread, Result.ok_bind]
  rw [Except.rejectIf_of_not _ (by simp)]
  rfl

/-- A payload of the membership protocol reads back. -/
theorem SyncPayload.decode_encode {payload : SyncPayload} {bytes : Bytes}
    (h : payload.encode = .ok bytes) : SyncPayload.decode bytes = .ok payload := by
  have hreads : ∀ (code : UInt64) (encoded : Bytes), code < 256 → encoded.length < 2 ^ 64 →
      Reads MembershipPayloadWire.decode
        (MembershipPayloadWire.toItem ⟨syncPayloadSchema, code, encoded⟩).encode
          ⟨syncPayloadSchema, code, encoded⟩ := by
    intro code encoded hcode hlength
    have hitem : (MembershipPayloadWire.toItem ⟨syncPayloadSchema, code, encoded⟩).encode =
        Cbor.encodeArray 3 ++ (Cbor.encodeStr syncPayloadSchema ++
          (Cbor.encodeU64 code ++ Cbor.encodeBytes encoded)) := by
      simp [MembershipPayloadWire.toItem, Item.encode, Item.encodeAll, Cbor.encodeArray,
        Cbor.encodeStr, Cbor.encodeBytes, Cbor.encodeU64]
    rw [hitem]
    apply Cbor.reads_fields (by decide)
    apply (Cbor.reads_str (by decide) (by decide)).bind
    apply (Cbor.reads_uintBelow hcode).bind
    exact (Cbor.reads_bytes hlength).bind_nil (Reads.pure _)
  -- the two kinds differ in their number only
  have hread : ∀ (code : UInt64) (encoded : Bytes), code < 256 →
      encodeCanonical MembershipPayloadWire.codec ⟨syncPayloadSchema, code, encoded⟩
        controlCborLimits = .ok bytes →
      decodeCanonicalStrict MembershipPayloadWire.codec bytes controlCborLimits
        "membership sync payload canonical form" = .ok ⟨syncPayloadSchema, code, encoded⟩ := by
    intro code encoded hcode hencode
    have hsize : (MembershipPayloadWire.toItem ⟨syncPayloadSchema, code, encoded⟩).size ≤ 65536 :=
      size_le_of_encodeCanonical rfl hencode
    simp only [MembershipPayloadWire.toItem, Item.size, Item.sizeAll] at hsize
    exact decodeStrict_of_encodeCanonical _ (hreads code encoded hcode (by omega)) hencode
  cases payload with
  | page encoded =>
    simp only [SyncPayload.decode, hread syncKindPage encoded (by decide) h, Result.ok_bind]
    rw [Except.rejectIf_of_not _ (by simp)]
    rfl
  | snapshot encoded =>
    simp only [SyncPayload.decode, hread syncKindSnapshot encoded (by decide) h, Result.ok_bind]
    rw [Except.rejectIf_of_not _ (by simp)]
    rfl

section Lanes

variable [DnsName]

theorem resourcePages_readsBack (hhosts : FoldedHosts) : PageKind.ReadsBack resourcePages where
  schema := by
    show (Bytes.utf8 "radiata.woooo.tech/schemas/resource-page-v1").isUtf8 = true
    decide
  record := fun _ _ => ResourceRecord.decode_encode hhosts

theorem membershipPages_readsBack (hhosts : FoldedHosts) : PageKind.ReadsBack membershipPages where
  schema := by
    show (Bytes.utf8 "radiata.woooo.tech/schemas/membership-page-v1").isUtf8 = true
    decide
  record := fun _ _ => NodeDescriptor.decode_encode hhosts

/-- The receiver of a payload reads the page of the register. -/
theorem acceptResourcePage_of_payload (hhosts : FoldedHosts) {page : SyncPage ResourceRecord}
    {payload : Bytes} (h : resourcePayload page = .ok payload) :
    acceptResourcePage [payload] = .ok page := by
  obtain ⟨encoded, hencoded, hpayload⟩ := Result.bind_eq_ok.mp h
  have hsmall : payload.length ≤ 65536 := (encodeCanonical_eq_ok hpayload).2.1
  simp only [acceptResourcePage, drainBody_singleton hsmall, Result.ok_bind,
    decodeResourcePayload_encode hpayload]
  exact SyncPage.decode_encode (resourcePages_readsBack hhosts) hencoded

theorem SyncPayload.length_le_of_encode {payload : SyncPayload} {bytes : Bytes}
    (h : payload.encode = .ok bytes) : bytes.length ≤ 65536 := by
  cases payload with
  | page encoded => exact (encodeCanonical_eq_ok h).2.1
  | snapshot encoded => exact (encodeCanonical_eq_ok h).2.1

/-- The receiver of a payload reads the page of descriptors. -/
theorem acceptMembershipPage_of_payload (hhosts : FoldedHosts) {page : SyncPage NodeDescriptor}
    {payload : Bytes} (h : membershipPayload page = .ok payload) :
    acceptMembershipPage [payload] = .ok (some page) := by
  obtain ⟨encoded, hencoded, hpayload⟩ := Result.bind_eq_ok.mp h
  have hdecode := SyncPage.decode_encode (membershipPages_readsBack hhosts) hencoded
  have hsmall := SyncPayload.length_le_of_encode hpayload
  simp only [acceptMembershipPage, acceptSyncPayload, drainBody_singleton hsmall, Result.ok_bind,
    SyncPayload.decode_encode hpayload, hdecode]
  rfl

/-- A snapshot is no page. -/
theorem acceptMembershipPage_of_snapshot {encoded payload : Bytes}
    (h : SyncPayload.encode (.snapshot encoded) = .ok payload) :
    acceptMembershipPage [payload] = .ok none := by
  have hsmall := SyncPayload.length_le_of_encode h
  simp only [acceptMembershipPage, acceptSyncPayload, drainBody_singleton hsmall, Result.ok_bind,
    SyncPayload.decode_encode h]
  rfl

end Lanes

end Radiata
