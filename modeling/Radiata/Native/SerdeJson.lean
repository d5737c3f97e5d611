import Radiata.ForStd.Json
import Radiata.Native.JsonDocument

/-!
# Generation documents as compact JSON

A writer and a reader to evaluate the model with. The writer puts the bytes that
`serde_json` puts: the fields in the order of the struct, no white space. The reader
accepts exactly that spelling; the crate accepts further ones, which the canonical-form
check of `GenerationDocument::parse` refuses.

## Key results

- `reads_document`: a written document reads back
-/

namespace Radiata

namespace SerdeJson

/-- The text before the value of a field. -/
def key (before name : String) : Bytes := Bytes.utf8 (before ++ "\"" ++ name ++ "\":")

/-- A field: its key, and the value `r` reads. -/
def field {α : Type} (before name : String) (r : Reader α) : Reader α := do
  Json.literal (key before name)
  r

theorem reads_field {α : Type} {r : Reader α} {bytes : Bytes} {a : α} (before name : String)
    (h : Reader.Reads r bytes a) : Reader.Reads (field before name r) (key before name ++ bytes) a :=
  (Json.reads_literal _).bind h

def closeBrace : Bytes := Bytes.utf8 "\x7d"
def nullText : Bytes := Bytes.utf8 "null"

/-! ## Receipts and entries -/

def encodeReceipt (body : ReceiptBody) : Bytes :=
  key "\x7b" "transaction" ++ Json.encodeString body.transaction
    ++ (key "," "operation_digest" ++ Json.encodeString body.operationDigest
    ++ (key "," "committed_revision" ++ Json.encodeString body.committedRevision
    ++ closeBrace))

def receipt : Reader ReceiptBody := do
  let transaction ← field "\x7b" "transaction" Json.string
  let operationDigest ← field "," "operation_digest" Json.string
  let committedRevision ← field "," "committed_revision" Json.string
  Json.literal closeBrace
  return ⟨transaction, operationDigest, committedRevision⟩

theorem reads_receipt {body : ReceiptBody} (h : ∀ text ∈ body.texts, Bytes.isUtf8 text = true) :
    Reader.Reads receipt (encodeReceipt body) body := by
  have htransaction := h body.transaction (by simp [ReceiptBody.texts])
  have hdigest := h body.operationDigest (by simp [ReceiptBody.texts])
  have hrevision := h body.committedRevision (by simp [ReceiptBody.texts])
  refine (reads_field _ _ (Json.reads_string htransaction)).bind ?_
  refine (reads_field _ _ (Json.reads_string hdigest)).bind ?_
  refine (reads_field _ _ (Json.reads_string hrevision)).bind ?_
  exact (Json.reads_literal closeBrace).bind_nil (Reader.Reads.pure body)

/-- A tuple of three strings. -/
def encodeEntry (entry : Bytes × Bytes × Bytes) : Bytes :=
  [Json.openBracket] ++ (Json.encodeString entry.1 ++ ([Json.comma]
    ++ (Json.encodeString entry.2.1 ++ ([Json.comma]
    ++ (Json.encodeString entry.2.2 ++ [Json.closeBracket])))))

def entry : Reader (Bytes × Bytes × Bytes) := do
  Json.literal [Json.openBracket]
  let namespaceText ← Json.string
  Json.literal [Json.comma]
  let key ← Json.string
  Json.literal [Json.comma]
  let value ← Json.string
  Json.literal [Json.closeBracket]
  return (namespaceText, key, value)

theorem reads_entry {e : Bytes × Bytes × Bytes} (hnamespace : Bytes.isUtf8 e.1 = true)
    (hkey : Bytes.isUtf8 e.2.1 = true) (hvalue : Bytes.isUtf8 e.2.2 = true) :
    Reader.Reads entry (encodeEntry e) e := by
  refine (Json.reads_literal _).bind ?_
  refine (Json.reads_string hnamespace).bind ?_
  refine (Json.reads_literal _).bind ?_
  refine (Json.reads_string hkey).bind ?_
  refine (Json.reads_literal _).bind ?_
  refine (Json.reads_string hvalue).bind ?_
  exact (Json.reads_literal _).bind_nil (Reader.Reads.pure e)

/-! ## Documents -/

def encodeDocument (document : GenerationDocument) : Bytes :=
  key "\x7b" "schema" ++ Json.encodeString document.schema
    ++ (key "," "store_uuid" ++ Json.encodeString document.storeUuid
    ++ (key "," "generation" ++ Json.encodeNumber document.generation
    ++ (key "" "parent_generation" ++ Json.encodeOption (nullText ++ [Json.comma])
      Json.encodeNumber document.parentGeneration
    ++ (key "" "parent_digest" ++ Json.encodeOption nullText Json.encodeString document.parentDigest
    ++ (key "," "transaction_id" ++ Json.encodeString document.transactionId
    ++ (key "," "operation_digest" ++ Json.encodeString document.operationDigest
    ++ (key "," "store_schema" ++ Json.encodeString document.storeSchema
    ++ (key "," "revision" ++ Json.encodeString document.revision
    ++ (key "," "forgotten" ++ Json.encodeArray Json.encodeString document.forgotten
    ++ (key "," "receipt" ++ encodeReceipt document.receipt
    ++ (key "," "body_length" ++ Json.encodeNumber document.bodyLength
    ++ (key "" "entries" ++ Json.encodeArray encodeEntry document.entries
    ++ (key "," "receipts" ++ Json.encodeArray encodeReceipt document.receipts
    ++ (key "," "checksum" ++ Json.encodeString document.checksum
    ++ closeBrace))))))))))))))

def document : Reader GenerationDocument := do
  let schema ← field "\x7b" "schema" Json.string
  let storeUuid ← field "," "store_uuid" Json.string
  let generation ← field "," "generation" Json.number
  let parentGeneration ← field "" "parent_generation"
    (Json.option (nullText ++ [Json.comma]) Json.number)
  let parentDigest ← field "" "parent_digest" (Json.option nullText Json.string)
  let transactionId ← field "," "transaction_id" Json.string
  let operationDigest ← field "," "operation_digest" Json.string
  let storeSchema ← field "," "store_schema" Json.string
  let revision ← field "," "revision" Json.string
  let forgotten ← field "," "forgotten" (Json.array Json.string)
  let receiptBody ← field "," "receipt" receipt
  let bodyLength ← field "," "body_length" Json.number
  let entries ← field "" "entries" (Json.array entry)
  let receipts ← field "," "receipts" (Json.array receipt)
  let checksum ← field "," "checksum" Json.string
  Json.literal closeBrace
  return ⟨schema, storeUuid, generation, parentGeneration, parentDigest, transactionId,
    operationDigest, storeSchema, revision, forgotten, receiptBody, bodyLength, entries, receipts,
    checksum⟩

/-- The first character of a text decides that it does not start like `null`. -/
theorem not_nullText_isPrefix {first : UInt8} {rest after : Bytes} (h : first ≠ 0x6E) :
    ¬ nullText ++ after <+: first :: rest := by
  intro hpre
  have hhead : (0x6E : UInt8) = first := by
    obtain ⟨other, hother⟩ := hpre
    have := congrArg List.head? hother
    rw [show nullText = 0x6E :: Bytes.utf8 "ull" by decide] at this
    simpa using this
  exact h hhead.symm

theorem reads_parentGeneration (a : Option UInt64) :
    Reader.Reads (Json.option (nullText ++ [Json.comma]) Json.number)
      (Json.encodeOption (nullText ++ [Json.comma]) Json.encodeNumber a) a := by
  refine Json.reads_option (fun n _ => Json.reads_number n) ?_
  intro n _ rest
  cases hdigits : Bytes.decimal n.toNat with
  | nil =>
    rw [Json.encodeNumber, hdigits]
    exact not_nullText_isPrefix (by decide)
  | cons b digits =>
    have hdigit := Bytes.isDigit_of_mem_decimal (hdigits ▸ List.mem_cons_self ..)
    rw [Json.encodeNumber, hdigits]
    refine not_nullText_isPrefix ?_
    rintro rfl
    exact absurd hdigit (by decide)

theorem reads_parentDigest {a : Option Bytes} (h : ∀ text ∈ a, Bytes.isUtf8 text = true) :
    Reader.Reads (Json.option nullText Json.string)
      (Json.encodeOption nullText Json.encodeString a) a := by
  refine Json.reads_option (fun text htext => Json.reads_string (h text htext)) ?_
  intro text _ rest hpre
  rw [← List.append_nil nullText] at hpre
  exact not_nullText_isPrefix (by decide) hpre

/-- A written document reads back. -/
theorem reads_document {d : GenerationDocument} (h : ∀ text ∈ d.texts, Bytes.isUtf8 text = true) :
    Reader.Reads document (encodeDocument d) d := by
  simp only [GenerationDocument.texts, List.forall_mem_append, List.forall_mem_flatMap,
    Option.mem_toList] at h
  obtain ⟨⟨⟨⟨⟨hfixed, hparent⟩, hforgotten⟩, hreceipt⟩, hentries⟩, hreceipts⟩ := h
  simp only [List.mem_cons, List.not_mem_nil, or_false, forall_eq_or_imp, forall_eq] at hfixed
  obtain ⟨hschema, huuid, htransaction, hdigest, hstore, hrevision, hchecksum⟩ := hfixed
  have hforgottenArray : Reader.Reads (Json.array Json.string)
      (Json.encodeArray Json.encodeString d.forgotten) d.forgotten :=
    Json.reads_array (fun text htext => Json.reads_string (hforgotten text htext))
      (fun _ _ => ⟨Json.quote, _, rfl, by decide⟩)
  have hentryArray : Reader.Reads (Json.array entry)
      (Json.encodeArray encodeEntry d.entries) d.entries := by
    refine Json.reads_array ?_ (fun _ _ => ⟨Json.openBracket, _, rfl, by decide⟩)
    intro e he
    exact reads_entry (hentries e he _ (by simp)) (hentries e he _ (by simp))
      (hentries e he _ (by simp))
  have hreceiptArray : Reader.Reads (Json.array receipt)
      (Json.encodeArray encodeReceipt d.receipts) d.receipts := by
    refine Json.reads_array (fun body hbody => reads_receipt (hreceipts body hbody)) ?_
    intro body _
    exact ⟨0x7B, _, rfl, by decide⟩
  refine (reads_field _ _ (Json.reads_string hschema)).bind ?_
  refine (reads_field _ _ (Json.reads_string huuid)).bind ?_
  refine (reads_field _ _ (Json.reads_number _)).bind ?_
  refine (reads_field _ _ (reads_parentGeneration _)).bind ?_
  refine (reads_field _ _ (reads_parentDigest hparent)).bind ?_
  refine (reads_field _ _ (Json.reads_string htransaction)).bind ?_
  refine (reads_field _ _ (Json.reads_string hdigest)).bind ?_
  refine (reads_field _ _ (Json.reads_string hstore)).bind ?_
  refine (reads_field _ _ (Json.reads_string hrevision)).bind ?_
  refine (reads_field _ _ hforgottenArray).bind ?_
  refine (reads_field _ _ (reads_receipt hreceipt)).bind ?_
  refine (reads_field _ _ (Json.reads_number _)).bind ?_
  refine (reads_field _ _ hentryArray).bind ?_
  refine (reads_field _ _ hreceiptArray).bind ?_
  refine (reads_field _ _ (Json.reads_string hchecksum)).bind ?_
  exact (Json.reads_literal closeBrace).bind_nil (Reader.Reads.pure d)

/-- The whole input as one document. -/
def readDocument (bytes : Bytes) : Option GenerationDocument :=
  match document bytes with
  | some (d, []) => some d
  | _ => none

/-- The compact writer and its reader. -/
@[reducible] def compact : SerdeJson where
  toVec := encodeDocument
  entriesToVec := Json.encodeArray encodeEntry
  receiptsToVec := Json.encodeArray encodeReceipt
  fromSlice := readDocument
  fromSlice_toVec := by
    intro d h
    have hread := reads_document h []
    rw [List.append_nil] at hread
    rw [readDocument, hread]

end SerdeJson

end Radiata
