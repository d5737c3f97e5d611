import Radiata.Spec.ResourceCorrect
import Radiata.Spec.TagCorrect

/-!
# Encodings of resource records

A record reads back from its bytes. Bytes that decode to a record are its bytes if they spell
the name and the label keys as the record keeps them and give the labels in key order: the
decoder folds the hosts and sorts the labels, and the digest covers the fields after that.

## Key results

- `ResourceBodyWire.Canonical`: a wire form as a record writes it
- `LabelSet.pairs_insertPairs_iff`: when the labels of a wire form are kept
- `resource_encoding_unique_iff`: which accepted bytes a record encodes to
- `capital_host_accepted`: a name with a capital in its host
-/

namespace Radiata

open Cbor (Item)
open Reader (Reads)

/-- The labels are spelled as a set keeps them and come in the order of their keys. -/
def CanonicalPairs (pairs : List (Bytes × Bytes)) : Prop :=
  (∀ pair ∈ pairs, Uncapitalized pair.1) ∧ pairs.Pairwise (·.1 < ·.1)

/-- The name and the labels are spelled as a record keeps them. -/
def ResourceBodyWire.Canonical (wire : ResourceBodyWire) : Prop :=
  Uncapitalized wire.name ∧ CanonicalPairs wire.labels

variable [DnsName]

namespace LabelSet

/-- The pairs of a set are as the set keeps them. -/
theorem canonical_pairs (set : LabelSet) : CanonicalPairs set.pairs := by
  constructor
  · intro pair hpair
    obtain ⟨⟨key, value⟩, -, rfl⟩ := List.mem_map.mp hpair
    exact key.tag.uncapitalized
  · rw [pairs, List.pairwise_map]
    exact set.entries.sorted

variable {pairs : List (Bytes × Bytes)}

/-- Pairs in key order are appended. -/
theorem pairs_insertPairs {set after : LabelSet} (h : set.insertPairs pairs = .ok after)
    (hcanonical : CanonicalPairs pairs)
    (habove : ∀ entry ∈ set.entries.toList, ∀ pair ∈ pairs, entry.1.asStr < pair.1) :
    after.pairs = set.pairs ++ pairs := by
  induction pairs generalizing set with
  | nil =>
    cases h
    exact (List.append_nil _).symm
  | cons pair pairs ih =>
    obtain ⟨key, value⟩ := pair
    obtain ⟨hlower, hsorted⟩ := hcanonical
    obtain ⟨hfirst, hrest⟩ := List.pairwise_cons.mp hsorted
    obtain ⟨parsedKey, hkey, h⟩ := Result.bind_eq_ok.mp h
    obtain ⟨parsedValue, hvalue, h⟩ := Result.bind_eq_ok.mp h
    obtain ⟨next, hinsert, h⟩ := Result.bind_eq_ok.mp h
    have hkeyText : parsedKey.asStr = key :=
      (CategoryTag.asStr_eq_iff hkey).mpr (hlower _ (List.mem_cons_self ..))
    have hvalueText : parsedValue.asStr = value := asStr_of_parseLabelText hvalue
    have hentries : next.entries.toList = set.entries.toList ++ [(parsedKey, parsedValue)] := by
      rw [insert_eq_ok hinsert]
      refine SortedMap.toList_insert_of_lt _ _ fun entry hentry => ?_
      rw [CategoryTag.lt_iff_asStr_lt, hkeyText]
      exact habove entry hentry _ (List.mem_cons_self ..)
    have hnext : after.pairs = next.pairs ++ pairs := by
      refine ih h ⟨fun pair hpair => hlower pair (List.mem_cons_of_mem _ hpair), hrest⟩ ?_
      intro entry hentry pair hpair
      rw [hentries, List.mem_append, List.mem_singleton] at hentry
      rcases hentry with hentry | rfl
      · exact habove entry hentry pair (List.mem_cons_of_mem _ hpair)
      · rw [hkeyText]
        exact hfirst pair hpair
    rw [hnext, LabelSet.pairs, hentries, List.map_append, List.append_assoc, List.map_singleton,
      hkeyText, hvalueText]
    rfl

/-- The labels of a wire form are kept exactly if they are spelled and ordered as a set does. -/
theorem pairs_insertPairs_iff {set : LabelSet} (h : empty.insertPairs pairs = .ok set) :
    set.pairs = pairs ↔ CanonicalPairs pairs := by
  constructor
  · intro heq
    rw [← heq]
    exact set.canonical_pairs
  · intro hcanonical
    exact pairs_insertPairs h hcanonical nofun

end LabelSet

namespace ResourceRecord

/-- The fields keep a wire form of their schema exactly if it is spelled as a record writes it. -/
theorem wire_readFields_iff {wire : ResourceBodyWire} {fields : ResourceFields}
    (h : readFields wire = .ok fields) (hschema : wire.schema = resourceRecordSchema)
    (hversion : wire.recordVersion = resourceRecordVersion) :
    fields.wire = wire ↔ wire.Canonical := by
  unfold readFields at h
  obtain ⟨cluster, hcluster, h⟩ := Result.bind_eq_ok.mp h
  obtain ⟨name, hname, h⟩ := Result.bind_eq_ok.mp h
  obtain ⟨resourceType, htype, h⟩ := Result.bind_eq_ok.mp h
  obtain ⟨resourceUri, huri, h⟩ := Result.bind_eq_ok.mp h
  obtain ⟨labels, hlabels, h⟩ := Result.bind_eq_ok.mp h
  obtain ⟨writer, hwriter, h⟩ := Result.bind_eq_ok.mp h
  cases h
  obtain ⟨schema, version, clusterId, nameText, typeText, uriText, pairs, timestamp, writerId, rank,
    removed⟩ := wire
  simp only at hschema hversion hcluster hname htype huri hlabels hwriter
  subst hschema hversion
  have hkept : name.asStr = nameText ↔ Uncapitalized nameText := CategoryTag.asStr_eq_iff hname
  have hpairs := LabelSet.pairs_insertPairs_iff hlabels
  simp only [ResourceFields.wire, ResourceBodyWire.Canonical, CanonicalId.asStr_of_parse hcluster,
    asStr_of_parseLabelText htype, asStr_of_parseLabelText huri, CanonicalId.asStr_of_parse hwriter,
    ResourceBodyWire.mk.injEq, true_and, and_true, hkept, hpairs]

/-- The wire form that an accepted text spells. -/
theorem exists_wire_of_decode {bytes : Bytes} {record : ResourceRecord}
    (h : decode bytes = .ok record) : ∃ wire,
      decodeCanonicalStrict ResourceRecordWire.codec bytes recordLimits "resource record canonical" =
        .ok wire ∧
      (record.wire = wire ↔ wire.body.Canonical) := by
  unfold decode at h
  obtain ⟨wire, hwire, h⟩ := Result.bind_eq_ok.mp h
  obtain ⟨u, hschema, h⟩ := Result.bind_eq_ok.mp h
  rw [Except.rejectIf_eq_ok, not_or, not_not, not_not] at hschema
  obtain ⟨fields, hfields, h⟩ := Result.bind_eq_ok.mp h
  obtain ⟨digest, hdigest, h⟩ := Result.bind_eq_ok.mp h
  obtain ⟨signature, hsignature, h⟩ := Result.bind_eq_ok.mp h
  have hkept := wire_readFields_iff hfields hschema.1 hschema.2
  have hrecord : record.toResourceFields = fields ∧ record.digest = .fromBytes digest ∧
      record.signature = .fromBytes signature := by
    unfold checkDigest at h
    split at h
    · cases h
    · split at h
      · cases h
        exact ⟨rfl, rfl, rfl⟩
      · cases h
  refine ⟨wire, hwire, ?_⟩
  rw [← hkept]
  obtain ⟨body, digestBytes, signatureBytes⟩ := wire
  simp only at hdigest hsignature
  simp only [ResourceRecord.wire, hrecord.1, hrecord.2.1, hrecord.2.2, Digest.fromBytes,
    ByteValue.fromBytes, asBytes_of_fixedBytes hdigest, asBytes_of_fixedBytes hsignature,
    ResourceRecordWire.mk.injEq, and_true]

/-- The bytes spell the name and the labels of a record as the record keeps them. -/
def SpelledCanonically (bytes : Bytes) : Prop :=
  ∃ wire rest, ResourceRecordWire.decode bytes = some (wire, rest) ∧ wire.body.Canonical

omit [DnsName] in
/-- What a strict decoder returns is what the reader reads. -/
theorem spelledCanonically_iff {bytes : Bytes} {wire : ResourceRecordWire}
    (h : decodeCanonicalStrict ResourceRecordWire.codec bytes recordLimits
      "resource record canonical" = .ok wire) : SpelledCanonically bytes ↔ wire.body.Canonical := by
  have hread : ResourceRecordWire.decode bytes = some (wire, []) := decode_of_decodeStrict h
  constructor
  · rintro ⟨wire', rest', hread', hcanonical⟩
    have hsame : (wire, []) = (wire', rest') := Option.some.inj (hread.symm.trans hread')
    cases hsame
    exact hcanonical
  · intro hcanonical
    exact ⟨wire, [], hread, hcanonical⟩

/-- A record encodes to the bytes it was decoded from exactly if they spell it canonically. -/
theorem encode_decode_iff {bytes : Bytes} {record : ResourceRecord}
    (h : decode bytes = .ok record) : record.encode = .ok bytes ↔ SpelledCanonically bytes := by
  obtain ⟨wire, hstrict, hkept⟩ := exists_wire_of_decode h
  rw [spelledCanonically_iff hstrict, ← hkept]
  constructor
  · intro hencode
    have hback := decodeStrict_of_encodeCanonical "resource record canonical" record.reads hencode
    rw [hback] at hstrict
    exact Except.ok.inj hstrict
  · intro hwire
    unfold encode
    rw [hwire]
    exact encodeCanonical_of_decodeStrict hstrict

end ResourceRecord

open ResourceRecord in
/-- Every record reads back from its bytes. Bytes that are accepted are the bytes of the record
    they decode to exactly if they spell the name and the label keys without capital letters and
    give the labels in key order, and then no other such bytes decode to the record. -/
theorem resource_encoding_unique_iff (hhosts : FoldedHosts) :
    (∀ record bytes, encode record = .ok bytes → decode bytes = .ok record) ∧
    (∀ bytes record, decode bytes = .ok record →
      (encode record = .ok bytes ↔ SpelledCanonically bytes)) ∧
    (∀ bytes bytes' record, decode bytes = .ok record → decode bytes' = .ok record →
      SpelledCanonically bytes → SpelledCanonically bytes' → bytes = bytes') := by
  refine ⟨fun _ _ => decode_encode hhosts, fun _ _ => encode_decode_iff, ?_⟩
  intro bytes bytes' record h h' hcanonical hcanonical'
  have hencode := (encode_decode_iff h).mpr hcanonical
  have hencode' := (encode_decode_iff h').mpr hcanonical'
  exact Except.ok.inj (hencode.symm.trans hencode')

omit [DnsName] in
/-- A record of the sample resource with a label. -/
theorem exists_sampleEncoding :
    letI := DnsName.hostNames
    ∃ (record : ResourceRecord) (bytes : Bytes), record.name = sampleResource.1 ∧
      record.labels.entries.toList.length = 1 ∧ record.encode = .ok bytes := by
  let _ := DnsName.hostNames
  let labels : LabelSet := ⟨SortedMap.empty.insert
    ⟨⟨Bytes.utf8 "example.com/labels/a", 11, 18, Bytes.utf8 "example.com/labels/a", by decide⟩,
      by decide⟩ sampleResource.2.resourceType, by decide⟩
  let fields : ResourceFields := .stamp ⟨Bytes.utf8 "cluster_000000000000000000002", by decide⟩
    sampleResource.1 { sampleResource.2 with custom := labels } 1
    ⟨Bytes.utf8 "node_000000000000000000002", by decide⟩ 0 false
  obtain ⟨record, bytes, hfields, -, hencode⟩ := @ResourceRecord.exists_encoded _ fields (by decide)
    ⟨List.replicate 64 0, rfl⟩
  exact ⟨record, bytes, congrArg ResourceFields.name hfields,
    congrArg (·.labels.entries.toList.length) hfields, hencode⟩

omit [DnsName] in
/-- The bytes of the sample record spell it canonically. -/
theorem sample_encoding_unique :
    letI := DnsName.hostNames
    ∃ (record : ResourceRecord) (bytes : Bytes), record.labels.entries.toList.length = 1 ∧
      ResourceRecord.decode bytes = .ok record ∧ ResourceRecord.SpelledCanonically bytes := by
  let _ := DnsName.hostNames
  obtain ⟨record, bytes, -, hlabels, hencode⟩ := exists_sampleEncoding
  obtain ⟨hback, hiff, -⟩ := resource_encoding_unique_iff foldedHosts_hostNames
  have hdecode := hback record bytes hencode
  exact ⟨record, bytes, hlabels, hdecode, (hiff bytes record hdecode).mp hencode⟩

/-! ## Another spelling of a name -/

/-- The wire form of a record with another text for its name. -/
def ResourceRecord.renamed (record : ResourceRecord) (text : Bytes) : ResourceRecordWire :=
  { record.wire with body := { record.wire.body with name := text } }

namespace ResourceRecord

variable {text : Bytes}

theorem short_renamed (record : ResourceRecord) (h : ShortText text) :
    (record.renamed text).body.Short :=
  { record.toResourceFields.short with name := h }

theorem reads_renamed (record : ResourceRecord) (h : ShortText text) :
    Reads ResourceRecordWire.codec.decode (ResourceRecordWire.codec.encode (record.renamed text))
      (record.renamed text) :=
  ResourceRecordWire.reads (record.short_renamed h)
    (show record.digest.asBytes.length < 2 ^ 64 by rw [record.digest.width]; omega)
    (show record.signature.asBytes.length < 2 ^ 64 by rw [record.signature.width]; omega)

theorem size_renamed (record : ResourceRecord) (h : text.length = record.wire.body.name.length) :
    (record.renamed text).toItem.size = record.wire.toItem.size := by
  unfold renamed
  generalize record.wire = wire at h
  simp only [ResourceRecordWire.toItem, ResourceBodyWire.items, List.cons_append, List.nil_append,
    Item.size, Item.sizeAll, List.length_cons, h]

/-- A wire form with another spelling of the name is accepted. -/
theorem decode_renamed (hhosts : FoldedHosts) {record : ResourceRecord} {bytes : Bytes}
    (h : record.encode = .ok bytes) (hshort : ShortText text)
    (hlength : text.length = record.name.asStr.length)
    (hname : ResourceName.parse text = .ok record.name) :
    decode (ResourceRecordWire.codec.encode (record.renamed text)) = .ok record := by
  have hfits : record.wire.toItem.size ≤ 16384 := by
    rw [record.encode_eq] at h
    by_contra hlarge
    rw [if_neg hlarge] at h
    cases h
  have hencode := ResourceRecordWire.encode_eq (record.short_renamed hshort)
  rw [if_pos ((record.size_renamed hlength).trans_le hfits)] at hencode
  have hstrict := decodeStrict_of_encodeCanonical "resource record canonical"
    (record.reads_renamed hshort) hencode
  have hfields : readFields (record.renamed text).body = .ok record.toResourceFields := by
    have hread := readFields_wire hhosts record.toResourceFields
    have hself : ResourceName.parse record.toResourceFields.wire.name = .ok record.name :=
      CategoryTag.parse_asStr hhosts (by decide) "resource name" record.name
    simp only [readFields, hself, Result.ok_bind] at hread
    simp only [readFields, renamed, hname, Result.ok_bind]
    exact hread
  exact decode_of_wire hstrict rfl rfl hfields

end ResourceRecord

omit [DnsName] in
/-- Two wire forms of one record, of which one has a capital in the host of the name. -/
theorem capital_host_accepted :
    letI := DnsName.hostNames
    ∃ (bytes other : Bytes) (record : ResourceRecord), ResourceRecord.decode bytes = .ok record ∧
      record.encode = .ok other ∧ other ≠ bytes := by
  let _ := DnsName.hostNames
  obtain ⟨record, bytes, hname, -, hencode⟩ := exists_sampleEncoding
  have hparse : ResourceName.parse (Bytes.utf8 "Example.com/resources/a") = .ok record.name := by
    rw [hname]
    decide
  have hlength : (Bytes.utf8 "Example.com/resources/a").length = record.name.asStr.length := by
    rw [hname]
    decide
  have hshort : ShortText (Bytes.utf8 "Example.com/resources/a") := ⟨by decide, by decide⟩
  have hdecode := record.decode_renamed foldedHosts_hostNames hencode hshort hlength hparse
  refine ⟨_, _, record, hdecode, hencode, fun heq => ?_⟩
  -- equal bytes would be read as one wire form
  have hread := record.reads []
  rw [← (encodeCanonical_eq_ok hencode).1, heq,
    record.reads_renamed hshort []] at hread
  have hwire := congrArg (fun read => read.1.body.name) (Option.some.inj hread)
  have hspelled : Bytes.utf8 "Example.com/resources/a" = record.name.asStr := hwire
  rw [hname] at hspelled
  exact absurd hspelled (by decide)

end Radiata
