import Radiata.Native.LocalDescriptor
import Radiata.Spec.LabelCorrect
import Radiata.Spec.PageCorrect

/-!
# Stored descriptors

A descriptor reads back from its record. Calls of `store_descriptor_ctx` that race each other
replace a record by a higher revision only, and a removal marker by a removal marker only.

## Key results

- `NodeDescriptor.decode_encode`: a descriptor reads back from its record
- `storeDescriptor_put`: what a put has checked
-/

namespace Radiata

open Cbor (Item)
open Reader (Reads)

section Descriptors

variable [DnsName]

/-! ## Records -/

theorem readLabels_texts (hhosts : FoldedHosts) (rest : List (LabelKey × LabelValue))
    (set : LabelSet) (previous : Option Bytes)
    (hprevious : ∀ text ∈ previous, ∀ entry ∈ rest, text < entry.1.asStr)
    (hsorted : (set.entries.toList ++ rest).Pairwise (·.1 < ·.1))
    (hlen : (set.entries.toList ++ rest).length ≤ labelSetMaxEntries) :
    ∃ after, readLabels previous set (LabelSet.texts rest) = .ok after ∧
      after.entries.toList = set.entries.toList ++ rest := by
  induction rest generalizing set previous with
  | nil => exact ⟨set, rfl, by simp⟩
  | cons entry rest ih =>
    obtain ⟨key, value⟩ := entry
    have hroom : set.entries.toList.length < labelSetMaxEntries := by
      rw [List.length_append, List.length_cons] at hlen
      omega
    obtain ⟨next, hinsert, hnext⟩ :=
      LabelSet.insert_of_lt value (LabelSet.lt_of_sorted hsorted) hroom
    have hlist : next.entries.toList ++ rest = set.entries.toList ++ (key, value) :: rest := by
      rw [hnext, List.append_assoc]
      rfl
    have hascending : ∀ text ∈ some key.asStr, ∀ entry ∈ rest, text < entry.1.asStr := by
      intro text htext entry hentry
      cases htext
      have hrest := (List.pairwise_append.mp hsorted).2.1
      exact CategoryTag.lt_iff_asStr_lt.mp ((List.pairwise_cons.mp hrest).1 entry hentry)
    obtain ⟨after, hafter, hentries⟩ := ih next _ hascending (hlist ▸ hsorted) (hlist ▸ hlen)
    have hkey : LabelKey.parse key.asStr = .ok key :=
      CategoryTag.parse_asStr hhosts (by decide) "label key" key
    have horder : ¬ previous.any (key.asStr ≤ ·) = true := by
      cases previous with
      | none => simp
      | some text =>
        have hlt := hprevious text rfl (key, value) (List.mem_cons_self ..)
        simpa using not_le.mpr hlt
    refine ⟨after, ?_, hentries.trans hlist⟩
    show readLabels previous set ((key.asStr, value.asStr) :: LabelSet.texts rest) = .ok after
    rw [readLabels, Except.rejectIf_of_not _ horder, Except.ok_bind_eq, hkey, LabelValue.parse,
      parseLabelText_asStr]
    show (set.insert key value >>= fun set => readLabels (some key.asStr) set _) = _
    rw [hinsert]
    exact hafter

theorem readLabels_pairs (hhosts : FoldedHosts) (set : LabelSet) :
    readLabels none .empty set.pairs = .ok set := by
  obtain ⟨after, hafter, hentries⟩ := readLabels_texts hhosts set.entries.toList .empty
    none (by simp) set.entries.sorted set.bounded
  rw [show set.pairs = LabelSet.texts set.entries.toList from rfl, hafter]
  refine congrArg Except.ok (LabelSet.ext_entries (SortedMap.ext_get fun key => ?_))
  rw [SortedMap.get, hentries]
  rfl

theorem readEndpoints_asStr (endpoints : List Endpoint) :
    readEndpoints (endpoints.map Endpoint.asStr) = .ok endpoints := by
  induction endpoints with
  | nil => rfl
  | cons endpoint rest ih =>
    unfold readEndpoints at ih ⊢
    rw [List.map_cons, List.mapM_cons, Endpoint.parse_asStr, ih]
    rfl

/-- The fields of a descriptor decode from its wire form. -/
theorem NodeDescriptor.decodeWire_wire (hhosts : FoldedHosts) (descriptor : NodeDescriptor) :
    NodeDescriptor.decodeWire descriptor.wire.fields (some descriptor.wire.labels) = .ok descriptor := by
  obtain ⟨node, publicKey, endpoints, labels, revision, removed, version, rfl⟩ := descriptor
  unfold NodeDescriptor.decodeWire NodeDescriptor.wire
  rw [Except.rejectIf_of_not _ (by simp)]
  simp only [Except.ok_bind_eq]
  rw [dif_neg (by simp), Except.rejectIf_of_not _ (by simp)]
  simp only [Except.ok_bind_eq, CanonicalId.parse_asStr, Except.mapError,
    ByteValue.fixedBytes_asBytes, readEndpoints_asStr, Option.getD_some, readLabels_pairs hhosts]
  rfl

/-- The items of the first fields. -/
theorem NodeDescriptor.reads_fields (descriptor : NodeDescriptor)
    (hsize : descriptor.wire.toItem.size ≤ 65536) :
    Reads DescriptorWireV1.decodeItems (Item.encodeAll descriptor.wire.fields.items)
      descriptor.wire.fields := by
  have hendpoints : (Item.array (descriptor.wire.fields.endpoints.map .text)).size ≤ 65536 := by
    have hmem : Item.array (descriptor.wire.fields.endpoints.map .text) ∈
        descriptor.wire.fields.items ++ [pairsItem descriptor.wire.labels] := by
      simp [DescriptorWireV1.items]
    have hle := Item.size_le_of_mem hmem
    simp only [DescriptorWire.toItem, Item.size] at hsize hle ⊢
    omega
  have htexts : ∀ text ∈ descriptor.wire.fields.endpoints, text.length < 2 ^ 64 ∧
      text.isUtf8 = true := by
    intro text htext
    have hsmall := Item.size_le_of_mem (List.mem_map_of_mem (f := Item.text) htext)
    simp only [Item.size] at hsmall hendpoints
    obtain ⟨endpoint, -, rfl⟩ := List.mem_map.mp htext
    exact ⟨by omega, endpoint.utf8⟩
  have hcount : descriptor.wire.fields.endpoints.length < 2 ^ 64 := by
    have hlen := Item.length_le_sizeAll (descriptor.wire.fields.endpoints.map Item.text)
    rw [List.length_map] at hlen
    simp only [Item.size] at hendpoints
    omega
  have hvec : Reads (Cbor.decodeVec Cbor.decodeStr)
      (Item.array (descriptor.wire.fields.endpoints.map .text)).encode
      descriptor.wire.fields.endpoints := by
    rw [Item.encode, Item.encodeAll_map, List.length_map]
    exact Cbor.reads_vec hcount fun text htext =>
      Cbor.reads_str (htexts text htext).1 (htexts text htext).2
  refine (Cbor.reads_str (show nodeDescriptorSchema.length < 2 ^ 64 by decide)
    (show nodeDescriptorSchema.isUtf8 = true by decide)).bind ?_
  refine (Cbor.reads_uintBelow (show (2 : UInt64) < 65536 by decide)).bind ?_
  refine (Cbor.reads_str (by show descriptor.node.asStr.length < _; rw [NodeId.length_asStr]; omega)
    descriptor.node.ascii.isUtf8).bind ?_
  refine (Cbor.reads_bytes (by show descriptor.publicKey.asBytes.length < _
                               rw [descriptor.publicKey.width]; omega)).bind ?_
  refine hvec.bind ?_
  refine (Cbor.reads_u64 descriptor.revision).bind ?_
  refine (Cbor.reads_bool descriptor.removed).bind ?_
  refine (Cbor.reads_uintBelow (by show descriptor.version < _; rw [descriptor.supported]; decide)).bind ?_
  exact Reads.pure _

/-- The record of a descriptor reads back. -/
theorem NodeDescriptor.reads (descriptor : NodeDescriptor)
    (hsize : descriptor.wire.toItem.size ≤ 65536) :
    Reads DescriptorWire.codec.decode (DescriptorWire.codec.encode descriptor.wire)
      descriptor.wire := by
  have hitem : DescriptorWire.codec.encode descriptor.wire = Cbor.encodeArray 9 ++
      (Item.encodeAll descriptor.wire.fields.items ++
        (pairsItem descriptor.wire.labels).encode) := by
    show (Item.array (descriptor.wire.fields.items ++ [pairsItem descriptor.wire.labels])).encode = _
    rw [Item.encode, Item.encodeAll_append]
    simp [Item.encodeAll, DescriptorWireV1.items]
  rw [hitem]
  refine Cbor.reads_fields (by decide) ?_
  refine (descriptor.reads_fields hsize).bind ?_
  exact descriptor.labels.reads_pairs.bind_nil (Reads.pure _)

/-- A descriptor reads back from its record. -/
theorem NodeDescriptor.decode_encode (hhosts : FoldedHosts) {descriptor : NodeDescriptor}
    {bytes : Bytes} (h : descriptor.encode = .ok bytes) : decodeDescriptor bytes = .ok descriptor := by
  obtain ⟨rfl, hsize, hvalid⟩ := encodeCanonical_eq_ok h
  have hreads := descriptor.reads (by
    rw [← Item.length_encode]
    exact hsize)
  have hdecode : decodeCanonical DescriptorWire.codec
      (DescriptorWire.codec.encode descriptor.wire) controlCborLimits = .ok descriptor.wire := by
    have hread : DescriptorWire.codec.decode (DescriptorWire.codec.encode descriptor.wire) =
        some (descriptor.wire, []) := by simpa using hreads []
    simp [decodeCanonical, hvalid, hread, decoding]
  have hcurrent : decodeCurrent (DescriptorWire.codec.encode descriptor.wire) =
      some descriptor.wire := by
    have hencode : encodeCanonical DescriptorWire.codec descriptor.wire controlCborLimits =
        .ok (DescriptorWire.codec.encode descriptor.wire) := h
    simp only [decodeCurrent, hdecode, hencode, if_true]
  unfold decodeDescriptor
  rw [hcurrent]
  exact NodeDescriptor.decodeWire_wire hhosts descriptor

/-! ## The decisions of the store -/

/-- What a put has checked. -/
structure Replaces (descriptor : NodeDescriptor) (entries : Entries) (key : EntryKey)
    (value : StoreValue) : Prop where
  own : descriptorKey descriptor.node = .ok key
  written : decodeDescriptor value.asBytes = .ok descriptor
  later : ∀ old, entries.get key = some old → ∃ existing,
    decodeDescriptor old.asBytes = .ok existing ∧ existing.revision < descriptor.revision ∧
      (existing.removed = true → descriptor.removed = true)
  first : entries.get key = none → descriptor.revision = 1 ∨ ∃ binding,
    identityBindingKey descriptor.node = .ok binding ∧ (entries.get binding).isSome = true

theorem descriptorConflict_eq_none {descriptor existing : NodeDescriptor}
    (h : descriptorConflict descriptor existing = none) :
    existing.revision < descriptor.revision ∧
      (existing.removed = true → descriptor.removed = true) := by
  unfold descriptorConflict at h
  split at h
  · cases h
  · rename_i hrevision
    split at h
    · cases h
    · rename_i hremoved
      rw [not_and, not_not] at hremoved
      exact ⟨UInt64.not_le.mp hrevision, hremoved⟩

theorem storeDescriptor_put (hhosts : FoldedHosts) {descriptor : NodeDescriptor}
    {entries : Entries} {key : EntryKey} {value : StoreValue}
    (h : storeDescriptor descriptor entries = .ok (.put key value)) :
    Replaces descriptor entries key value := by
  obtain ⟨key', hkey, h⟩ := Result.bind_eq_ok.mp h
  obtain ⟨conflict, hconflict, h⟩ := Result.bind_eq_ok.mp h
  cases conflict with
  | some error => cases h
  | none =>
    obtain ⟨bytes, hbytes, h⟩ := Result.bind_eq_ok.mp h
    cases h
    refine ⟨hkey, NodeDescriptor.decode_encode hhosts hbytes, fun old hold => ?_, fun hnone => ?_⟩
    · rw [storeConflict, hold] at hconflict
      obtain ⟨existing, hexisting, hconflict⟩ := Result.bind_eq_ok.mp hconflict
      cases hdecided : descriptorConflict descriptor existing with
      | some error => rw [hdecided] at hconflict; cases hconflict
      | none => exact ⟨existing, hexisting, descriptorConflict_eq_none hdecided⟩
    · simp only [storeConflict, hnone, firstConflict] at hconflict
      split at hconflict
      · rename_i hrevision
        exact Or.inl hrevision
      · obtain ⟨binding, hbinding, hconflict⟩ := Result.bind_eq_ok.mp hconflict
        cases hstored : (entries.get binding).isSome with
        | true => exact Or.inr ⟨binding, hbinding, hstored⟩
        | false => simp [hstored] at hconflict

/-! ## Runs -/

section Runs

variable {pinned : NodeId → Prop} {origin : ReferenceState} {s t : PageSystem NodeDescriptor Error}
  {node : NodeId} {key : EntryKey}

/-- A step leaves the record of a node alone or replaces it by a descriptor of the node that
    passes the checks on the present entries. -/
theorem descriptor_step (hhosts : FoldedHosts)
    (hs : (PageSystem.runs (descriptorCalls pinned) origin).Reachable s)
    (hstep : PageSystem.Step (descriptorCalls pinned) s t) (hkey : descriptorKey node = .ok key) :
    t.system.store.entries.get key = s.system.store.entries.get key ∨
      ∃ descriptor ∈ s.system.operations, ∃ value, descriptor.node = node ∧
        Replaces descriptor s.system.store.entries key value ∧
        t.system.store.entries.get key = some value := by
  have howned : (descriptorCalls pinned).owned key := Or.inl ⟨node, hkey⟩
  rcases hstep.effect (PageSystem.sound_of_reachable hs) with
    hsame | ⟨descriptor, hmem, key', value, hdecide, hputs⟩
  · exact Or.inl (hsame key howned)
  · have hreplaces := storeDescriptor_put hhosts hdecide
    have heffect := hputs key howned
    by_cases hsame : key = key'
    · subst hsame
      rw [if_pos rfl] at heffect
      exact Or.inr ⟨descriptor, hmem, value, descriptorKey_inj hreplaces.own hkey, hreplaces, heffect⟩
    · rw [if_neg hsame] at heffect
      exact Or.inl heffect

/-- The record of a node moves forward from one value to another. -/
def MovesForward (old new : StoreValue) : Prop :=
  new = old ∨ ∃ before after, decodeDescriptor old.asBytes = .ok before ∧
    decodeDescriptor new.asBytes = .ok after ∧ before.revision < after.revision ∧
    (before.removed = true → after.removed = true)

theorem MovesForward.trans {a b c : StoreValue} (hab : MovesForward a b) (hbc : MovesForward b c) :
    MovesForward a c := by
  rcases hab with rfl | ⟨first, second, hfirst, hsecond, hless, hremoved⟩
  · exact hbc
  · rcases hbc with rfl | ⟨second', third, hsecond', hthird, hless', hremoved'⟩
    · exact Or.inr ⟨first, second, hfirst, hsecond, hless, hremoved⟩
    · obtain rfl : second = second' := Except.ok.inj (hsecond.symm.trans hsecond')
      exact Or.inr ⟨first, third, hfirst, hthird, UInt64.lt_trans hless hless', fun h => hremoved' (hremoved h)⟩

/-- Along a run a record stays or moves forward. -/
theorem descriptor_path (hhosts : FoldedHosts)
    (hs : (PageSystem.runs (descriptorCalls pinned) origin).Reachable s)
    (hpath : (PageSystem.runs (descriptorCalls pinned) origin).Path s t)
    (hkey : descriptorKey node = .ok key) {old : StoreValue}
    (hold : s.system.store.entries.get key = some old) :
    ∃ new, t.system.store.entries.get key = some new ∧ MovesForward old new := by
  induction hpath with
  | refl => exact ⟨old, hold, Or.inl rfl⟩
  | @tail u v hpath hstep ih =>
    obtain ⟨middle, hmiddle, hforward⟩ := ih
    rcases descriptor_step hhosts (hs.path hpath) hstep hkey with
      hsame | ⟨descriptor, -, value, -, hreplaces, hafter⟩
    · exact ⟨middle, hsame.trans hmiddle, hforward⟩
    · obtain ⟨existing, hexisting, hless, hremoved⟩ := hreplaces.later middle hmiddle
      exact ⟨value, hafter, hforward.trans
        (Or.inr ⟨existing, descriptor, hexisting, hreplaces.written, hless, hremoved⟩)⟩

/-- Stored descriptors only move forward: between any two states of a run the record of a node
    is the same or has a higher revision and keeps a removal, and a first record of a node
    without a binding has revision 1. -/
theorem stored_descriptors_move_forward (hhosts : FoldedHosts)
    (hs : (PageSystem.runs (descriptorCalls fun _ => False) origin).Reachable s)
    (hkey : descriptorKey node = .ok key) :
    (∀ t, (PageSystem.runs (descriptorCalls fun _ => False) origin).Path s t →
      ∀ old, s.system.store.entries.get key = some old →
        ∃ new, t.system.store.entries.get key = some new ∧ MovesForward old new) ∧
    ∀ t, PageSystem.Step (descriptorCalls fun _ => False) s t →
      s.system.store.entries.get key = none →
      ∀ new, t.system.store.entries.get key = some new →
        ∃ descriptor, decodeDescriptor new.asBytes = .ok descriptor ∧ descriptor.node = node ∧
          ((∀ binding, identityBindingKey node = .ok binding →
              s.system.store.entries.get binding = none) → descriptor.revision = 1) := by
  refine ⟨fun t hpath old hold => descriptor_path hhosts hs hpath hkey hold, ?_⟩
  intro t hstep hnone new hnew
  rcases descriptor_step hhosts hs hstep hkey with hsame | ⟨descriptor, -, value, hnode, hreplaces, hafter⟩
  · rw [hsame, hnone] at hnew
    cases hnew
  · obtain rfl : value = new := Option.some.inj (hafter.symm.trans hnew)
    refine ⟨descriptor, hreplaces.written, hnode, fun hunbound => ?_⟩
    rcases hreplaces.first hnone with hone | ⟨binding, hbinding, hstored⟩
    · exact hone
    · rw [hnode] at hbinding
      rw [hunbound binding hbinding] at hstored
      cases hstored

end Runs

end Descriptors

def sampleNode : NodeId := .ofDigits 0 1

theorem exists_sampleKey : ∃ key, @descriptorKey .hostNames sampleNode = .ok key :=
  Result.exists_of_isSome_toOption (by decide)

def firstTransaction : TransactionId := ⟨Bytes.utf8 "txn_000000000000000000001", by decide⟩
def secondTransaction : TransactionId := ⟨Bytes.utf8 "txn_000000000000000000002", by decide⟩

/-- A descriptor of one node. -/
def sampleDescriptor (revision : UInt64) (removed : Bool) : @NodeDescriptor .hostNames :=
  let _ := DnsName.hostNames
  .new sampleNode (.fill 7) [] revision removed

theorem exists_sampleBytes : ∀ descriptor ∈ [sampleDescriptor 1 false,
    sampleDescriptor 2 true, sampleDescriptor 3 false], ∃ bytes,
      @NodeDescriptor.encode .hostNames descriptor = .ok bytes := by
  intro descriptor hmem
  simp only [List.mem_cons, List.not_mem_nil, or_false] at hmem
  rcases hmem with rfl | rfl | rfl <;> exact Result.exists_of_isSome_toOption (by decide +kernel)

/-- A node stores a descriptor and later its removal. -/
theorem fresh_descriptors_move_forward :
    letI := DnsName.hostNames
    ∃ (key : EntryKey) (s t : PageSystem NodeDescriptor Error) (old new : StoreValue),
      descriptorKey sampleNode = .ok key ∧
      (PageSystem.runs (descriptorCalls fun _ => False) (.fresh 0)).Reachable s ∧
      (PageSystem.runs (descriptorCalls fun _ => False) (.fresh 0)).Path s t ∧
      s.system.store.entries.get key = some old ∧
      decodeDescriptor old.asBytes = .ok (sampleDescriptor 1 false) ∧
      t.system.store.entries.get key = some new ∧
      decodeDescriptor new.asBytes = .ok (sampleDescriptor 2 true) ∧ MovesForward old new := by
  let _ := DnsName.hostNames
  obtain ⟨key, hkey⟩ := exists_sampleKey
  obtain ⟨internal, hinternal⟩ := exists_internalNamespace_hostNames
  obtain ⟨bytes, hbytes⟩ := exists_sampleBytes (sampleDescriptor 1 false) (by simp)
  obtain ⟨bytes', hbytes'⟩ := exists_sampleBytes (sampleDescriptor 2 true) (by simp)
  have hdecoded := NodeDescriptor.decode_encode foldedHosts_hostNames hbytes
  have hdecoded' := NodeDescriptor.decode_encode foldedHosts_hostNames hbytes'
  have hinit : (PageSystem.runs (descriptorCalls fun _ => False) (.fresh 0)).Reachable
      ⟨⟨.fresh 0, []⟩, []⟩ := .init rfl
  -- The first revision is stored.
  have hfirst : storeDescriptor (sampleDescriptor 1 false) (ReferenceState.fresh 0).entries =
      .ok (.put key ⟨bytes⟩) := by
    have hnone : (ReferenceState.fresh 0).entries.get key = none := rfl
    have hnode : descriptorKey (sampleDescriptor 1 false).node = .ok key := hkey
    simp only [storeDescriptor, hnode, Result.ok_bind, storeConflict, hnone, firstConflict, hbytes]
    rfl
  obtain ⟨receipt, after, -, hreached, hdone⟩ := PageSystem.exists_put hinit
    (fun _ _ => List.not_mem_nil) trivial hinternal
    (⟨rfl, rfl⟩ : PageSystem.Lacks (ReferenceState.fresh 0) internal firstTransaction)
    (show 0 + 1 < 2 ^ 64 by decide) hfirst
  -- Its removal replaces it.
  have hsecond : storeDescriptor (sampleDescriptor 2 true) after.entries =
      .ok (.put key ⟨bytes'⟩) := by
    have hnode : descriptorKey (sampleDescriptor 2 true).node = .ok key := hkey
    have hconflict : descriptorConflict (sampleDescriptor 2 true) (sampleDescriptor 1 false) =
        none := by decide +kernel
    simp only [storeDescriptor, hnode, Result.ok_bind, storeConflict, hdone.put, hdecoded,
      hconflict, hbytes']
    rfl
  obtain ⟨receipt', after', hpath, -, hdone'⟩ := PageSystem.exists_put hreached
    (PageSystem.Idle.finish (fun _ _ => List.not_mem_nil) after (sampleDescriptor 1 false)
      (.installed receipt)) trivial hinternal
    (hdone.ids secondTransaction (by decide) ⟨rfl, rfl⟩)
    (show after.generation.toNat + 1 < 2 ^ 64 by rw [hdone.generation]; decide) hsecond
  obtain ⟨new, hnew, hforward⟩ :=
    (stored_descriptors_move_forward foldedHosts_hostNames hreached hkey).1 _ hpath _ hdone.put
  obtain rfl : (⟨bytes'⟩ : StoreValue) = new := Option.some.inj (hdone'.put.symm.trans hnew)
  exact ⟨key, _, _, _, _, hkey, hreached, hpath, hdone.put, hdecoded, hdone'.put, hdecoded',
    hforward⟩

end Radiata
