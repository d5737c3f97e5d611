import Radiata.Native.Resource
import Radiata.Spec.LabelCorrect

/-!
# Resource records

A record reads back from its canonical bytes. The tuple order is a total preorder, and two
records of one tuple have one digest: they differ in their signatures at most, unless their
bodies collide.

## Key results

- `ResourceRecord.decode_encode`: a record reads back from its bytes
- `ResourceRecord.winsOver_of_not_winsOver`: the winner over a record wins over what that beats
- `ResourceRecord.fields_eq_of_tie`: what a tie says about two records
- `accepted_write_stamped`: what passes the shape check is within the limits under every stamp
-/

namespace Radiata

open Cbor (Item)
open Reader (Reads)

/-! ## Wire forms read back -/

/-- A text that fits a CBOR header. -/
def ShortText (text : Bytes) : Prop := text.length < 2 ^ 64 ∧ text.isUtf8 = true

/-- A body whose texts and pairs can be written. -/
structure ResourceBodyWire.Short (wire : ResourceBodyWire) : Prop where
  schema : ShortText wire.schema
  version : wire.recordVersion < 65536
  clusterId : ShortText wire.clusterId
  name : ShortText wire.name
  resourceType : ShortText wire.resourceType
  resourceUri : ShortText wire.resourceUri
  count : wire.labels.length ≤ 256
  labels : ∀ pair ∈ wire.labels, ShortText pair.1 ∧ ShortText pair.2
  writer : ShortText wire.writer

theorem ResourceBodyWire.reads_items {wire : ResourceBodyWire} (h : wire.Short) :
    Reads ResourceBodyWire.decodeItems (Item.encodeAll wire.items) wire := by
  have hlabels : Reads decodePairs (pairsItem wire.labels).encode wire.labels :=
    reads_pairs (Nat.lt_of_le_of_lt h.count (by decide)) fun pair hpair => by
      obtain ⟨hkey, hvalue⟩ := h.labels pair hpair
      exact ⟨hkey.1, hvalue.1, hkey.2, hvalue.2⟩
  refine (Cbor.reads_str h.schema.1 h.schema.2).bind ?_
  refine (Cbor.reads_uintBelow h.version).bind ?_
  refine (Cbor.reads_str h.clusterId.1 h.clusterId.2).bind ?_
  refine (Cbor.reads_str h.name.1 h.name.2).bind ?_
  refine (Cbor.reads_str h.resourceType.1 h.resourceType.2).bind ?_
  refine (Cbor.reads_str h.resourceUri.1 h.resourceUri.2).bind ?_
  refine hlabels.bind ?_
  refine (Cbor.reads_u64 wire.timestampMillis).bind ?_
  refine (Cbor.reads_str h.writer.1 h.writer.2).bind ?_
  refine (Cbor.reads_u64 wire.removalRank).bind ?_
  exact (Cbor.reads_bool wire.removed).bind (Reads.pure _)

theorem ResourceRecordWire.reads {wire : ResourceRecordWire} (hbody : wire.body.Short)
    (hdigest : wire.digest.length < 2 ^ 64) (hsignature : wire.signature.length < 2 ^ 64) :
    Reads ResourceRecordWire.codec.decode (ResourceRecordWire.codec.encode wire) wire := by
  have hitem : ResourceRecordWire.codec.encode wire = Cbor.encodeArray 13 ++
      (Item.encodeAll wire.body.items ++
        (Cbor.encodeBytes wire.digest ++ Cbor.encodeBytes wire.signature)) := by
    show (Item.array (wire.body.items ++ [.bytes wire.digest, .bytes wire.signature])).encode = _
    rw [Item.encode, Item.encodeAll_append]
    simp [Item.encodeAll, Item.encode, ResourceBodyWire.items]
  rw [hitem]
  refine Cbor.reads_fields (by decide) ?_
  refine (ResourceBodyWire.reads_items hbody).bind ?_
  refine (Cbor.reads_bytes hdigest).bind ?_
  exact (Cbor.reads_bytes hsignature).bind_nil (Reads.pure _)

theorem ResourceBodyWire.fits_items {wire : ResourceBodyWire} (h : wire.Short) :
    FitsAll recordLimits 1 wire.items := by
  simp only [ResourceBodyWire.items, FitsAll, Fits, and_true]
  refine ⟨h.schema.2, trivial, h.clusterId.2, h.name.2, h.resourceType.2, h.resourceUri.2, ?_, trivial,
    h.writer.2⟩
  refine fits_pairs (fun pair hpair => ?_) (by decide) (by decide) h.count
  obtain ⟨hkey, hvalue⟩ := h.labels pair hpair
  exact ⟨hkey.2, hvalue.2⟩

/-- A record's wire form is written exactly if it is within the body limit. -/
theorem ResourceRecordWire.encode_eq {wire : ResourceRecordWire} (h : wire.body.Short) :
    encodeCanonical ResourceRecordWire.codec wire recordLimits =
      if wire.toItem.size ≤ 16384 then .ok wire.toItem.encode
      else .error (.invalidInput "CBOR encode") := by
  have hfits : Fits recordLimits 0 wire.toItem := by
    simp only [ResourceRecordWire.toItem, Fits]
    refine ⟨by decide, by simp [ResourceBodyWire.items, recordLimits], fitsAll_iff.mpr ?_⟩
    intro item hitem
    rcases List.mem_append.mp hitem with hbody | htail
    · exact fitsAll_iff.mp (ResourceBodyWire.fits_items h) item hbody
    · simp only [List.mem_cons, List.not_mem_nil, or_false] at htail
      rcases htail with rfl | rfl <;> trivial
  exact encodeCanonical_item _ _ rfl (by decide) (by decide) hfits (by decide)

variable [DnsName]

/-! ## Records read back -/

/-- The fields of a record are short. -/
theorem ResourceFields.short (fields : ResourceFields) : fields.wire.Short := by
  have hname : fields.name.asStr.length ≤ 128 := fields.name.tag.length_asStr_le
  have htype : fields.resourceType.asStr.length ≤ 256 := fields.resourceType.bounded
  have huri : fields.resourceUri.asStr.length ≤ 256 := fields.resourceUri.bounded
  have hcluster := fields.cluster.length_asStr
  have hwriter := fields.writer.length_asStr
  have hcount := fields.labels.length_pairs
  have hschema : ShortText resourceRecordSchema := ⟨by decide, by decide⟩
  have hversion : resourceRecordVersion < 65536 := by decide
  refine ⟨hschema, hversion, ⟨?_, fields.cluster.ascii.isUtf8⟩,
    ⟨?_, fields.name.tag.ascii.isUtf8⟩, ⟨?_, fields.resourceType.utf8⟩, ⟨?_, fields.resourceUri.utf8⟩,
    ?_, ?_, ⟨?_, fields.writer.ascii.isUtf8⟩⟩
  · show fields.cluster.asStr.length < 2 ^ 64
    omega
  · show fields.name.asStr.length < 2 ^ 64
    omega
  · show fields.resourceType.asStr.length < 2 ^ 64
    omega
  · show fields.resourceUri.asStr.length < 2 ^ 64
    omega
  · show fields.labels.pairs.length ≤ 256
    omega
  · intro pair hpair
    obtain ⟨hkey, hvalue, hkeyUtf8, hvalueUtf8⟩ := LabelSet.mem_pairs hpair
    exact ⟨⟨hkey, hkeyUtf8⟩, hvalue, hvalueUtf8⟩
  · show fields.writer.asStr.length < 2 ^ 64
    omega

theorem ResourceFields.reads (fields : ResourceFields) :
    Reads ResourceBodyWire.codec.decode (ResourceBodyWire.codec.encode fields.wire) fields.wire :=
  Cbor.reads_fields (by decide) (ResourceBodyWire.reads_items fields.short)

theorem ResourceRecord.reads (record : ResourceRecord) :
    Reads ResourceRecordWire.codec.decode (ResourceRecordWire.codec.encode record.wire)
      record.wire :=
  ResourceRecordWire.reads record.toResourceFields.short
    (show record.digest.asBytes.length < 2 ^ 64 by rw [record.digest.width]; omega)
    (show record.signature.asBytes.length < 2 ^ 64 by rw [record.signature.width]; omega)

/-- The fields convert back from their wire form. -/
theorem readFields_wire (hhosts : FoldedHosts) (fields : ResourceFields) :
    ResourceRecord.readFields fields.wire = .ok fields := by
  have hname : ResourceName.parse fields.name.asStr = .ok fields.name :=
    CategoryTag.parse_asStr hhosts (by decide) "resource name" fields.name
  simp only [ResourceRecord.readFields, ResourceFields.wire, CanonicalId.parse_asStr, Result.ok_bind,
    hname, LabelValue.parse, ResourceUri.parse, parseLabelText_asStr,
    LabelSet.insertPairs_pairs hhosts]
  rfl

theorem ResourceRecord.checkDigest_self (record : ResourceRecord) :
    checkDigest record.toResourceFields record.digest record.signature = .ok record := by
  obtain ⟨fields, digest, signature, body, hbody, hdigest⟩ := record
  unfold checkDigest
  split
  · rename_i error herror
    have hok : fields.encodeSignedBody = .ok body := hbody
    rw [hok] at herror
    cases herror
  · rename_i body' hbody'
    have hok : fields.encodeSignedBody = .ok body := hbody
    obtain rfl : body = body' := Except.ok.inj (hok.symm.trans hbody')
    exact dif_pos hdigest

/-- A wire form of the fields, the digest and the signature of a record decodes to the record. -/
theorem ResourceRecord.decode_of_wire {record : ResourceRecord} {body : ResourceBodyWire}
    {bytes : Bytes} (hstrict : decodeCanonicalStrict ResourceRecordWire.codec bytes recordLimits
      "resource record canonical" = .ok ⟨body, record.digest.asBytes, record.signature.asBytes⟩)
    (hschema : body.schema = resourceRecordSchema)
    (hversion : body.recordVersion = resourceRecordVersion)
    (hfields : readFields body = .ok record.toResourceFields) :
    ResourceRecord.decode bytes = .ok record := by
  have hknown : ¬ (body.schema ≠ resourceRecordSchema ∨
      body.recordVersion ≠ resourceRecordVersion) := by
    rw [not_or, not_not, not_not]
    exact ⟨hschema, hversion⟩
  unfold ResourceRecord.decode
  rw [hstrict, Result.ok_bind, Except.rejectIf_of_not _ hknown, Except.ok_bind_eq]
  simp only [hfields, Result.ok_bind, fixedBytes_digest, ByteValue.fixedBytes_asBytes]
  exact record.checkDigest_self

/-- A record reads back from its bytes. -/
theorem ResourceRecord.decode_encode (hhosts : FoldedHosts) {record : ResourceRecord}
    {bytes : Bytes} (h : record.encode = .ok bytes) : ResourceRecord.decode bytes = .ok record :=
  decode_of_wire (decodeStrict_of_encodeCanonical "resource record canonical" record.reads h) rfl rfl
    (readFields_wire hhosts record.toResourceFields)

/-- A body is written exactly if it is within the body limit. -/
theorem ResourceFields.encodeSignedBody_eq (fields : ResourceFields) :
    fields.encodeSignedBody = if fields.wire.toItem.size ≤ 16384 then .ok fields.wire.toItem.encode
      else .error (.invalidInput "CBOR encode") := by
  have hfits : Fits recordLimits 0 fields.wire.toItem := by
    simp only [ResourceBodyWire.toItem, Fits]
    exact ⟨by decide, by simp [ResourceBodyWire.items, recordLimits], ResourceBodyWire.fits_items fields.short⟩
  exact encodeCanonical_item _ _ rfl (by decide) (by decide) hfits (by decide)

/-- A record is written exactly if it is within the body limit. -/
theorem ResourceRecord.encode_eq (record : ResourceRecord) :
    record.encode = if record.wire.toItem.size ≤ 16384 then .ok record.wire.toItem.encode
      else .error (.invalidInput "CBOR encode") :=
  @ResourceRecordWire.encode_eq record.wire record.toResourceFields.short

/-- A record is its body with a digest and a signature. -/
theorem ResourceRecord.size_wire (record : ResourceRecord) :
    record.wire.toItem.size = record.toResourceFields.wire.toItem.size + 100 := by
  have hlength : (record.toResourceFields.wire.items ++ [Item.bytes record.digest.asBytes,
      .bytes record.signature.asBytes]).length = 13 := rfl
  have hdigest := record.digest.width
  have hsignature := record.signature.width
  simp only [ResourceRecordWire.toItem, ResourceBodyWire.toItem, ResourceRecord.wire, Item.size,
    hlength, Item.sizeAll_append, Item.sizeAll, hdigest, hsignature]
  rw [show record.toResourceFields.wire.items.length = 11 from rfl, show Cbor.headLen 13 = 1 by decide,
    show Cbor.headLen 11 = 1 by decide, show Cbor.headLen 32 = 2 by decide,
    show Cbor.headLen 64 = 2 by decide]
  omega

/-- The body determines the fields. -/
theorem encodeSignedBody_inj (hhosts : FoldedHosts) {a b : ResourceFields} {body : Bytes}
    (ha : a.encodeSignedBody = .ok body) (hb : b.encodeSignedBody = .ok body) : a = b := by
  obtain ⟨hbytes, -⟩ := encodeCanonical_eq_ok ha
  obtain ⟨hbytes', -⟩ := encodeCanonical_eq_ok hb
  have hread := a.reads []
  have hread' := b.reads []
  rw [← hbytes] at hread
  rw [← hbytes', hread] at hread'
  have hwire : a.wire = b.wire := congrArg Prod.fst (Option.some.inj hread')
  have hfields := readFields_wire hhosts a
  rw [hwire, readFields_wire hhosts b] at hfields
  exact (Except.ok.inj hfields).symm

/-! ## The tuple order -/

namespace ResourceRecord

/-- The tuple order as a lexicographic comparison. -/
theorem tupleOrder_eq : tupleOrder = compareLex (compareOn fun r : ResourceRecord => r.timestampMillis)
    (compareLex (compareOn fun r : ResourceRecord => r.writer.asStr)
      (compareLex (compareOn fun r : ResourceRecord => r.removalRank)
        (compareOn fun r : ResourceRecord => r.digest))) := rfl

instance : Std.TransCmp tupleOrder := by
  rw [tupleOrder_eq]
  infer_instance

variable {a b : ResourceRecord}

theorem winsOver_iff : a.winsOver b = true ↔ a.tupleOrder b = .gt := by
  simp [winsOver]

theorem isLE_of_not_winsOver (h : a.winsOver b = false) :
    (a.tupleOrder b).isLE := by
  cases horder : a.tupleOrder b with
  | lt => rfl
  | eq => rfl
  | gt => simp [winsOver, horder] at h

/-- A record that wins over one wins over everything that one does not lose to. -/
theorem winsOver_of_not_winsOver {c : ResourceRecord} (hab : a.winsOver b = true)
    (hcb : c.winsOver b = false) : c.winsOver a = false := by
  have hlt : b.tupleOrder a = .lt := Std.OrientedCmp.lt_of_gt (winsOver_iff.mp hab)
  have hless := Std.TransCmp.lt_of_isLE_of_lt (isLE_of_not_winsOver hcb) hlt
  simp [winsOver, hless]

/-- Records of one tuple have one digest. -/
theorem digest_eq_of_tie (hab : a.winsOver b = false) (hba : b.winsOver a = false) :
    a.digest = b.digest := by
  have htie := Std.OrientedCmp.isLE_antisymm (isLE_of_not_winsOver hab) (isLE_of_not_winsOver hba)
  simp only [tupleOrder, Ordering.then_eq_eq] at htie
  exact compare_eq_iff_eq.mp htie.2.2.2

/-- Records of one tuple agree but for the signature, if their bodies do not collide. -/
theorem fields_eq_of_tie (hhosts : FoldedHosts) (hab : a.winsOver b = false)
    (hba : b.winsOver a = false)
    (hdistinct : ∀ body body', a.encodeSignedBody = .ok body → b.encodeSignedBody = .ok body' →
      bodyDigest body = bodyDigest body' → body = body') :
    a.toResourceFields = b.toResourceFields ∧ a.digest = b.digest := by
  have hdigest := digest_eq_of_tie hab hba
  obtain ⟨body, hbody, ha⟩ := a.sealed
  obtain ⟨body', hbody', hb⟩ := b.sealed
  obtain rfl : body = body' := hdistinct body body' hbody hbody' (by rw [← ha, ← hb, hdigest])
  exact ⟨encodeSignedBody_inj hhosts hbody hbody', hdigest⟩

end ResourceRecord

/-! ## Writes -/

section Writes

variable {name : ResourceName} {labels : ResourceLabels}

/-- The identifiers have a fixed length, and no number is wider than the largest word. -/
theorem ResourceFields.size_stamp_le (name : ResourceName) (labels : ResourceLabels)
    (cluster cluster' : ClusterId) (timestamp rank : UInt64) (writer writer' : NodeId)
    (removed : Bool) :
    (stamp cluster name labels timestamp writer rank removed).wire.toItem.size ≤
      (stamp cluster' name labels UInt64.maxValue writer' UInt64.maxValue true).wire.toItem.size := by
  have hcluster := cluster.length_asStr
  have hcluster' := cluster'.length_asStr
  have hwriter := writer.length_asStr
  have hwriter' := writer'.length_asStr
  have hwidest : Cbor.headLen UInt64.maxValue.toNat = 9 := by decide
  have htimestamp := Cbor.headLen_le_nine timestamp.toNat
  have hrank := Cbor.headLen_le_nine rank.toNat
  simp only [ResourceBodyWire.toItem, ResourceBodyWire.items, Item.size, Item.sizeAll, wire, stamp,
    hcluster, hcluster', hwriter, hwriter', hwidest, List.length_cons, List.length_nil]
  omega

/-- Fields within the body limit are sealed. -/
theorem ResourceRecord.exists_seal {fields : ResourceFields} (h : fields.wire.toItem.size ≤ 16384)
    (signature : Signature) : ∃ record, ResourceRecord.seal fields signature = .ok record ∧
      record.toResourceFields = fields ∧ record.signature = signature := by
  have hbody := fields.encodeSignedBody_eq
  rw [if_pos h] at hbody
  unfold ResourceRecord.seal
  split
  · rename_i error herror
    rw [hbody] at herror
    cases herror
  · exact ⟨_, rfl, rfl, rfl⟩

/-- A record with a small body is written. -/
theorem ResourceRecord.exists_encoded {fields : ResourceFields} (h : fields.wire.toItem.size ≤ 200)
    (signature : Signature) : ∃ (record : ResourceRecord) (bytes : Bytes),
      record.toResourceFields = fields ∧ record.signature = signature ∧ record.encode = .ok bytes := by
  obtain ⟨record, -, hfields, hsignature⟩ := exists_seal (h.trans (by decide)) signature
  have hencode := record.encode_eq
  rw [if_pos (by rw [record.size_wire, hfields]; omega)] at hencode
  exact ⟨record, _, hfields, hsignature, hencode⟩

/-- The probe of an accepted write fits with its digest and its signature. -/
theorem checkWriteShape_eq_ok (h : checkWriteShape name labels = .ok ()) :
    ∃ cluster writer, (ResourceFields.stamp cluster name labels UInt64.maxValue writer
      UInt64.maxValue true).wire.toItem.size + 100 ≤ 16384 := by
  unfold checkWriteShape at h
  obtain ⟨cluster, -, h⟩ := Result.bind_eq_ok.mp h
  obtain ⟨writer, -, h⟩ := Result.bind_eq_ok.mp h
  obtain ⟨probe, hseal, h⟩ := Result.bind_eq_ok.mp h
  obtain ⟨bytes, hencode, -⟩ := Result.bind_eq_ok.mp h
  have hfields : probe.toResourceFields =
      .stamp cluster name labels UInt64.maxValue writer UInt64.maxValue true := by
    unfold ResourceRecord.seal at hseal
    split at hseal
    · cases hseal
    · cases hseal
      rfl
  refine ⟨cluster, writer, ?_⟩
  rw [← hfields, ← probe.size_wire]
  rw [probe.encode_eq] at hencode
  by_contra hlarge
  rw [if_neg hlarge] at hencode
  cases hencode

theorem checkWriteShape_of_fits (h : ∀ cluster writer, (ResourceFields.stamp cluster name labels
      UInt64.maxValue writer UInt64.maxValue true).wire.toItem.size + 100 ≤ 16384) :
    checkWriteShape name labels = .ok () := by
  obtain ⟨cluster, hcluster⟩ : ∃ cluster : ClusterId,
      CanonicalId.parse (Bytes.utf8 "cluster_000000000000000000001") = .ok cluster :=
    ⟨_, dif_pos (by decide)⟩
  obtain ⟨writer, hwriter⟩ : ∃ writer : NodeId,
      CanonicalId.parse (Bytes.utf8 "node_000000000000000000001") = .ok writer :=
    ⟨_, dif_pos (by decide)⟩
  unfold checkWriteShape
  rw [hcluster, Result.ok_bind, hwriter, Result.ok_bind]
  obtain ⟨record, hseal, hfields, -⟩ := ResourceRecord.exists_seal
    (Nat.le_trans (Nat.le_add_right _ 100) (h cluster writer))
    (.fromBytes ⟨List.replicate 64 0, rfl⟩)
  have hencode := record.encode_eq
  rw [if_pos (by rw [record.size_wire, hfields]; exact h _ _)] at hencode
  rw [hseal, Result.ok_bind, hencode]
  rfl

/-- An accepted write is encoded, sealed and encoded again under every stamp. -/
theorem accepted_write_stamped (h : checkWriteShape name labels = .ok ()) (cluster : ClusterId)
    (timestamp : UInt64) (writer : NodeId) (rank : UInt64) (removed : Bool) (signature : Signature) :
    ∃ body record bytes,
      (ResourceFields.stamp cluster name labels timestamp writer rank removed).encodeSignedBody =
        .ok body ∧
      ResourceRecord.seal (.stamp cluster name labels timestamp writer rank removed) signature =
        .ok record ∧
      record.toResourceFields = .stamp cluster name labels timestamp writer rank removed ∧
      record.signature = signature ∧ record.encode = .ok bytes := by
  obtain ⟨cluster', writer', hfits⟩ := checkWriteShape_eq_ok h
  have hle := ResourceFields.size_stamp_le name labels cluster cluster' timestamp rank writer writer'
    removed
  have hbody := (ResourceFields.stamp cluster name labels timestamp writer rank
    removed).encodeSignedBody_eq
  rw [if_pos (by omega)] at hbody
  obtain ⟨record, hseal, hfields, hsignature⟩ := @ResourceRecord.exists_seal _
    (.stamp cluster name labels timestamp writer rank removed) (by omega) signature
  have hencode := record.encode_eq
  rw [if_pos (by rw [record.size_wire, hfields]; omega)] at hencode
  exact ⟨_, record, _, hbody, hseal, hfields, hsignature, hencode⟩

end Writes

/-- A resource with the type `t` and the URI `u`. -/
def sampleResource : @ResourceName .hostNames × @ResourceLabels .hostNames :=
  let _ := DnsName.hostNames
  (⟨⟨Bytes.utf8 "example.com/resources/a", 11, 21, Bytes.utf8 "example.com/resources/a", by decide⟩,
      by decide⟩,
    ⟨⟨Bytes.utf8 "t", by decide, by decide, by decide⟩,
      ⟨Bytes.utf8 "u", by decide, by decide, by decide⟩, .empty⟩)

omit [DnsName] in
theorem sample_write_accepted :
    letI := DnsName.hostNames
    checkWriteShape sampleResource.1 sampleResource.2 = .ok () := by
  let _ := DnsName.hostNames
  refine checkWriteShape_of_fits fun cluster writer => ?_
  have hcluster := cluster.length_asStr
  have hwriter := writer.length_asStr
  simp only [ResourceBodyWire.toItem, ResourceBodyWire.items, Item.sizeAll, Item.size,
    ResourceFields.wire, ResourceFields.stamp, sampleResource, hcluster, hwriter, List.length_cons,
    List.length_nil]
  decide

omit [DnsName] in
/-- The sample resource is removed at the first millisecond. -/
theorem sample_write_stamped :
    letI := DnsName.hostNames
    ∃ (cluster : ClusterId) (writer : NodeId) (body : Bytes),
      (ResourceFields.stamp cluster sampleResource.1 sampleResource.2 1 writer 1 true).encodeSignedBody =
        .ok body := by
  let _ := DnsName.hostNames
  obtain ⟨body, -, -, hbody, -⟩ := accepted_write_stamped sample_write_accepted
    ⟨Bytes.utf8 "cluster_000000000000000000002", by decide⟩ 1
    ⟨Bytes.utf8 "node_000000000000000000002", by decide⟩ 1 true ⟨List.replicate 64 1, rfl⟩
  exact ⟨_, _, body, hbody⟩

end Radiata
