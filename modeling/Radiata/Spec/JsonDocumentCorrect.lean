import Radiata.Native.JsonDocument

/-!
# Generation documents parse

What `build` writes, `parse` accepts: the hexadecimal fields decode, the entries and
receipts are in the byte order of their texts, and the checksum is the one of the
document.

## Key results

- `GenerationDocument.parse_sealed`: a built document is accepted as it was built
-/

namespace Radiata

/-! ## Texts -/

theorem ascii_hexEncode (bytes : Bytes) : (hexEncode bytes).Ascii := by
  intro b hb
  have hdigit := List.all_eq_true.mp (all_isHexDigit_hexEncode bytes) b hb
  simp only [isHexDigit, Bool.or_eq_true, Bool.and_eq_true, decide_eq_true_eq,
    UInt8.le_iff_toNat_le, UInt8.reduceToNat] at hdigit
  simp only [UInt8.lt_iff_toNat_lt, UInt8.reduceToNat]
  omega

/-! ## Checks -/

theorem ensure_eq_ok {condition : Bool} {e : Error} (h : condition = true) :
    ensure condition e = .ok () := by
  rw [ensure, if_pos h]

/-- A loop without an early return. -/
theorem forM_eq_ok {α : Type} {f : α → Result PUnit} {items : List α}
    (h : ∀ item ∈ items, f item = .ok ()) : items.forM f = .ok () := by
  induction items with
  | nil => rfl
  | cons item items ih =>
    show (f item >>= fun _ => items.forM f) = .ok ()
    rw [h item (List.mem_cons_self ..), Result.ok_bind]
    exact ih (fun other hother => h other (List.mem_cons_of_mem item hother))

namespace GenerationDocument

/-- The loop over receipts in ascending order. -/
theorem validateReceipts_eq_ok {receipts : List (TransactionId × Digest × StoreRevision)}
    (horder : receipts.Pairwise (fun a b => a.1 < b.1))
    (hrevisions : ∀ receipt ∈ receipts, ∃ generation, receipt.2.2 = .ofGeneration generation)
    {previous : Option Bytes} (hprevious : ∀ text ∈ previous, ∀ receipt ∈ receipts,
      text < receipt.1.asStr) :
    validateReceipts previous (receipts.map fun (transaction, digest, revision) =>
      ReceiptBody.encode transaction digest revision) = .ok () := by
  induction receipts generalizing previous with
  | nil => rfl
  | cons receipt receipts ih =>
    obtain ⟨transaction, digest, revision⟩ := receipt
    rw [List.pairwise_cons] at horder
    obtain ⟨generation, hrevision⟩ := hrevisions _ (List.mem_cons_self ..)
    have hbytes : revision.asBytes.length = 8 := by
      rw [show revision = .ofGeneration generation from hrevision]
      exact length_u64ToBEBytes generation
    have hfirst : validateReceiptBody previous (ReceiptBody.encode transaction digest revision)
        = .ok () := by
      rw [validateReceiptBody, ReceiptBody.encode, CanonicalId.parse_asStr, Result.ok_bind,
        hexDecodeArray_hexEncode digest.width, Result.ok_bind, hexDecodeArray_hexEncode hbytes,
        Result.ok_bind]
      apply ensure_eq_ok
      cases hcase : previous with
      | none => rfl
      | some text =>
        exact decide_eq_true (hprevious text (by rw [hcase]; rfl) _ (List.mem_cons_self ..))
    rw [List.map_cons, validateReceipts, hfirst, Result.ok_bind]
    refine ih horder.2 (fun other hother => hrevisions other (List.mem_cons_of_mem _ hother)) ?_
    intro text htext other hother
    cases htext
    exact horder.1 other hother

end GenerationDocument

/-- What a commit promises about the input of its document. -/
structure GenerationInput.WellFormed [DnsName] (input : GenerationInput) : Prop where
  revision : input.revision = .ofGeneration input.generation
  receipt : input.receipt = ⟨input.transaction, input.operationDigest, input.revision⟩
  parent : ∀ parent ∈ input.parent, parent.1 < input.generation
  first : input.parent = none → input.generation = 1
  namespaces : ∀ entry ∈ input.entries, ∃ tag : StoreNamespace,
    tag.asStr = entry.1 ∧ tag.Reparses
  entryOrder : input.entries.Pairwise (fun a b => a.1 < b.1 ∨ a.1 = b.1 ∧ a.2.1 < b.2.1)
  receiptOrder : input.receipts.Pairwise (fun a b => a.1 < b.1)
  revisions : ∀ receipt ∈ input.receipts, ∃ generation, receipt.2.2 = .ofGeneration generation

section Parse

variable [DnsName] {input : GenerationInput}

namespace GenerationInput

/-- Every text of a built document is ASCII. -/
theorem WellFormed.ascii (h : input.WellFormed) (length : UInt64) {checksum : Bytes}
    (hchecksum : checksum.Ascii) :
    ∀ text ∈ { input.zeroed length with checksum := checksum }.texts,
      Bytes.isUtf8 text = true := by
  have hreceipt : ∀ (transaction : TransactionId) digest revision,
      ∀ text ∈ (ReceiptBody.encode transaction digest revision).texts, text.Ascii := by
    intro transaction digest revision text htext
    simp only [ReceiptBody.texts, ReceiptBody.encode, List.mem_cons, List.not_mem_nil,
      or_false] at htext
    rcases htext with rfl | rfl | rfl
    · exact transaction.ascii
    · exact ascii_hexEncode _
    · exact ascii_hexEncode _
  intro text htext
  apply Bytes.Ascii.isUtf8
  simp only [GenerationDocument.texts, zeroed, List.mem_append, List.mem_flatMap] at htext
  rcases htext with ((((htext | htext) | htext) | htext) | htext) | htext
  · simp only [List.mem_cons, List.not_mem_nil, or_false] at htext
    rcases htext with rfl | rfl | rfl | rfl | rfl | rfl | rfl
    · exact Bytes.Ascii.of_all (by decide)
    · exact ascii_hexEncode _
    · exact input.transaction.ascii
    · exact ascii_hexEncode _
    · exact Bytes.Ascii.of_all (by decide)
    · exact ascii_hexEncode _
    · exact hchecksum
  · cases hparent : input.parent with
    | none => rw [hparent] at htext; cases htext
    | some parent =>
      rw [hparent] at htext
      simp only [Option.map_some, Option.toList_some, List.mem_singleton] at htext
      rw [htext]
      exact ascii_hexEncode _
  · obtain ⟨id, -, rfl⟩ := List.mem_map.mp htext
    exact TransactionId.ascii id
  · exact hreceipt _ _ _ text htext
  · obtain ⟨⟨namespaceText, key, value⟩, hentry, htext⟩ := htext
    obtain ⟨⟨ns, k, v⟩, hinput, heq⟩ := List.mem_map.mp hentry
    cases heq
    simp only [List.mem_cons, List.not_mem_nil, or_false] at htext
    rcases htext with rfl | rfl | rfl
    · obtain ⟨tag, htag, -⟩ := h.namespaces _ hinput
      have htext : tag.asStr = text := htag
      rw [← htext]
      exact tag.ascii
    · exact ascii_hexEncode _
    · exact ascii_hexEncode _
  · obtain ⟨body, hbody, htext⟩ := htext
    obtain ⟨⟨transaction, digest, revision⟩, -, rfl⟩ := List.mem_map.mp hbody
    exact hreceipt _ _ _ text htext

end GenerationInput

namespace GenerationDocument

/-- The revision of a built document is its generation. -/
theorem validateRevision_eq_ok (h : input.WellFormed) {document : GenerationDocument}
    (hrevision : document.revision = hexEncode input.revision.asBytes)
    (hgeneration : document.generation = input.generation) :
    document.validateRevision = .ok () := by
  have hbytes : input.revision.asBytes = u64ToBEBytes input.generation := by
    rw [h.revision]
    rfl
  have hread : UInt64.ofNat (Bytes.ofBE (u64ToBEBytes input.generation)) = input.generation := by
    rw [u64ToBEBytes, Bytes.ofBE_toBE 8 _ (by simpa using input.generation.toNat_lt),
      UInt64.ofNat_toNat]
  rw [validateRevision, hrevision, hbytes,
    hexDecodeArray_hexEncode (length_u64ToBEBytes input.generation), Result.ok_bind,
    hgeneration]
  exact ensure_eq_ok (decide_eq_true hread)

theorem validateEntry_eq_ok {tag : StoreNamespace} (h : tag.Reparses) (key value : Bytes) :
    validateEntry (tag.asStr, hexEncode key, hexEncode value) = .ok () := by
  rw [validateEntry, h, Result.ok_bind, hexDecode_hexEncode, Result.ok_bind, hexDecode_hexEncode,
    Result.ok_bind]
  rfl

/-- The entries are in the byte order of their texts: hexadecimal keeps the order. -/
theorem allAdjacent_documentEntries (h : input.WellFormed) :
    input.documentEntries.allAdjacent
      (fun a b => decide (a.1 < b.1 ∨ a.1 = b.1 ∧ a.2.1 < b.2.1)) = true := by
  rw [List.allAdjacent_iff_pairwise, GenerationInput.documentEntries, List.pairwise_map]
  · refine h.entryOrder.imp ?_
    intro a b hab
    exact decide_eq_true (hab.imp id (And.imp id hexEncode_lt_iff.mpr))
  · intro a b c hab hbc
    have hab' := of_decide_eq_true hab
    have hbc' := of_decide_eq_true hbc
    apply decide_eq_true
    rcases hab' with hab | ⟨hab, hkab⟩
    · rcases hbc' with hbc | ⟨hbc, -⟩
      · exact .inl (lt_trans hab hbc)
      · exact .inl (hbc ▸ hab)
    · rcases hbc' with hbc | ⟨hbc, hkbc⟩
      · exact .inl (hab ▸ hbc)
      · exact .inr ⟨hab.trans hbc, lt_trans hkab hkbc⟩

theorem validateParent_eq_ok (h : input.WellFormed) {document : GenerationDocument}
    (hgeneration : document.generation = input.generation)
    (hparentGeneration : document.parentGeneration = input.parent.map Prod.fst)
    (hparentDigest : document.parentDigest
      = input.parent.map fun parent => hexEncode parent.2.asBytes) :
    document.validateParent = .ok () := by
  rw [validateParent, hparentGeneration, hparentDigest]
  cases hparent : input.parent with
  | none =>
    apply ensure_eq_ok
    have hfirst : document.generation = 1 := by rw [hgeneration, h.first hparent]
    simp [hfirst]
  | some parent =>
    have hlt : decide (parent.1 < document.generation) = true := by
      rw [hgeneration]
      exact decide_eq_true (h.parent parent (by rw [hparent]; rfl))
    show (do
      ensure (decide (parent.1 < document.generation)) _
      let _ ← hexDecodeArray 32 (hexEncode parent.2.asBytes) _
      return ()) = Except.ok ()
    rw [ensure_eq_ok hlt, Result.ok_bind, hexDecodeArray_hexEncode parent.2.width, Result.ok_bind]
    rfl

/-- A built document is accepted as it was built. -/
theorem parse_sealed [SerdeJson] (h : input.WellFormed) {length : UInt64}
    (hlength : Radiata.bodyLength input.documentEntries input.documentReceipts = .ok length) :
    parse (SerdeJson.toVec (input.zeroed length).sealed) = .ok (input.zeroed length).sealed := by
  have hutf8 := h.ascii length (ascii_hexEncode
    (Sha256.hash (SerdeJson.toVec { input.zeroed length with checksum := [] })))
  have hread : SerdeJson.fromSlice (SerdeJson.toVec (input.zeroed length).sealed)
      = some (input.zeroed length).sealed :=
    SerdeJson.fromSlice_toVec _ hutf8
  have hschema : ensure (decide ((input.zeroed length).sealed.schema = generationSchema))
      (.unsupportedSchema "json generation schema") = .ok () := ensure_eq_ok (decide_eq_true rfl)
  have hstoreSchema : ensure
      (decide ((input.zeroed length).sealed.storeSchema = Radiata.storeSchema))
      (.unsupportedSchema "json store schema") = .ok () := ensure_eq_ok (decide_eq_true rfl)
  have hforgotten : (input.zeroed length).sealed.forgotten.forM (fun forgotten => do
      let _ ← (CanonicalId.parse forgotten : Result TransactionId)
      return ()) = .ok () := by
    apply forM_eq_ok
    intro text htext
    obtain ⟨id, -, rfl⟩ := List.mem_map.mp htext
    rw [CanonicalId.parse_asStr, Result.ok_bind]
    rfl
  have hreceipt : (input.zeroed length).sealed.validateReceipt = .ok () := by
    apply ensure_eq_ok
    simp [sealed, GenerationInput.zeroed, ReceiptBody.encode, h.receipt]
  have hbody : (input.zeroed length).sealed.validateBodyLength = .ok () := by
    show (Radiata.bodyLength input.documentEntries input.documentReceipts >>= _) = _
    rw [hlength, Result.ok_bind]
    exact ensure_eq_ok (decide_eq_true rfl)
  have hentries : (input.zeroed length).sealed.entries.forM validateEntry = .ok () := by
    apply forM_eq_ok
    intro entry hentry
    obtain ⟨⟨namespaceText, key, value⟩, hinput, rfl⟩ := List.mem_map.mp hentry
    obtain ⟨tag, htag, hreparses⟩ := h.namespaces _ hinput
    have hentry := validateEntry_eq_ok hreparses key value
    rw [htag] at hentry
    exact hentry
  have horder : (input.zeroed length).sealed.validateEntryOrder = .ok () :=
    ensure_eq_ok (allAdjacent_documentEntries h)
  have hreceipts : validateReceipts none (input.zeroed length).sealed.receipts = .ok () :=
    validateReceipts_eq_ok h.receiptOrder h.revisions (by intro text htext; cases htext)
  have hvalid : (input.zeroed length).sealed.validate
      (SerdeJson.toVec (input.zeroed length).sealed) = .ok () := by
    rw [validate, ensure_eq_ok (decide_eq_true rfl), Result.ok_bind, hschema, Result.ok_bind,
      hstoreSchema, Result.ok_bind]
    show (hexDecodeArray 16 (hexEncode input.storeUuid.1) _ >>= _) = _
    rw [hexDecodeArray_hexEncode input.storeUuid.2, Result.ok_bind]
    show (hexDecodeArray 32 (hexEncode input.operationDigest.asBytes) _ >>= _) = _
    rw [hexDecodeArray_hexEncode input.operationDigest.width, Result.ok_bind,
      validateRevision_eq_ok h rfl rfl, Result.ok_bind]
    show ((CanonicalId.parse input.transaction.asStr : Result TransactionId) >>= _) = _
    rw [CanonicalId.parse_asStr, Result.ok_bind, hforgotten, Result.ok_bind, hreceipt,
      Result.ok_bind, hbody, Result.ok_bind, hentries, Result.ok_bind, horder, Result.ok_bind,
      hreceipts, Result.ok_bind, validateParent_eq_ok h rfl rfl rfl, Result.ok_bind]
    exact ensure_eq_ok (decide_eq_true rfl)
  rw [parse, hread]
  show ((input.zeroed length).sealed.validate _ >>= _) = _
  rw [hvalid, Result.ok_bind]
  rfl

end GenerationDocument

end Parse

end Radiata
