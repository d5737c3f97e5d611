import Radiata.Native.OpenWire
import Radiata.Spec.CborGrammar
import Radiata.Spec.TagCorrect

/-!
# Open frames on the wire

An open frame is encoded if its chain is not longer than an array may be, and the bytes read back
as the frame if the receiver can tell the nodes of the chain apart and parse the metadata keys
again. In the other direction an accepted body is always encoded again, at the same length, and
to the same bytes if its tags are spelled as the frame keeps them.

## Key results

- `OpenPacket.encodeOpen_eq_ok_iff`: which frames are encoded, and to what
- `OpenPacket.decodeOpen_eq_ok_iff`: the previous shape accepts nothing more
- `OpenPacket.openFromWire_eq_ok_iff`: what a body says of the frame read from it
- `open_frame_round_trip`: which frames read back
- `accepted_open_respelled`: what an accepted body is encoded to again
-/

namespace Radiata

open Cbor (Item)
open Reader (Reads)

/-! ## The parts of a body -/

/-- A text that a frame carries. -/
def WireText (text : Bytes) : Prop := text.length < 2 ^ 64 ∧ text.isUtf8 = true

theorem reads_metadataEntry {entry : Bytes × Bytes} (hkey : WireText entry.1)
    (hvalue : entry.2.length < 2 ^ 64) :
    Reads decodeMetadataEntry (metadataItem entry).encode entry := by
  have hparts : Reads (do
      let key ← Cbor.decodeStr
      let value ← Cbor.decodeBytes
      return (key, value)) (Cbor.encodeStr entry.1 ++ Cbor.encodeBytes entry.2) entry :=
    (Cbor.reads_str hkey.1 hkey.2).bind ((Cbor.reads_bytes hvalue).bind_nil (Reads.pure _))
  have hitem : (metadataItem entry).encode =
      Cbor.encodeArray 2 ++ (Cbor.encodeStr entry.1 ++ Cbor.encodeBytes entry.2) := by
    simp [metadataItem, Item.encode, Item.encodeAll, Cbor.encodeArray, Cbor.encodeStr,
      Cbor.encodeBytes]
  rw [hitem]
  apply (Cbor.reads_array (by decide)).bind
  exact hparts

/-- The route of a frame has short texts. -/
structure RouteWire.Plain (wire : RouteWire) : Prop where
  current : WireText wire.current
  visited : ∀ node ∈ wire.visited, WireText node
  count : wire.visited.length < 2 ^ 64

theorem RouteWire.reads {wire : RouteWire} (h : wire.Plain) :
    Reads RouteWire.decode wire.toItem.encode wire := by
  apply Cbor.reads_fields (by omega)
  apply (Cbor.reads_str h.current.1 h.current.2).bind
  apply (Cbor.reads_items h.count fun node hnode =>
    Cbor.reads_str (h.visited node hnode).1 (h.visited node hnode).2).bind
  have hbound : wire.remainingHops.toUInt64 < 4294967296 := by
    rw [UInt64.lt_iff_toNat_lt]
    simpa using wire.remainingHops.toNat_lt
  apply (Cbor.reads_uintBelow hbound).bind
  rw [UInt32.toUInt32_toUInt64]
  exact Reads.pure _

/-- The shared elements of a frame have short texts. -/
structure OpenWireV1.Plain (wire : OpenWireV1) : Prop where
  traceId : WireText wire.traceId
  source : WireText wire.source
  destination : WireText wire.destination
  protocol : WireText wire.protocol
  metadata : ∀ entry ∈ wire.metadata, WireText entry.1 ∧ entry.2.length < 2 ^ 64
  count : wire.metadata.length < 2 ^ 64

theorem OpenWireV1.reads_items {wire : OpenWireV1} (h : wire.Plain) :
    Reads OpenWireV1.decodeItems (Item.encodeAll wire.items) wire := by
  apply (Cbor.reads_str h.traceId.1 h.traceId.2).bind
  apply (Cbor.reads_str h.source.1 h.source.2).bind
  apply (Cbor.reads_str h.destination.1 h.destination.2).bind
  apply (Cbor.reads_str h.protocol.1 h.protocol.2).bind
  apply (Cbor.reads_items h.count fun entry hentry =>
    reads_metadataEntry (h.metadata entry hentry).1 (h.metadata entry hentry).2).bind
  exact Reads.pure _

/-- A frame of short texts. -/
structure OpenWire.Plain (wire : OpenWire) : Prop where
  shared : wire.toOpenWireV1.Plain
  route : ∀ route ∈ wire.route, route.Plain

variable {wire : OpenWire}

theorem OpenWire.reads (h : wire.Plain) :
    Reads OpenWire.decode wire.toItem.encode wire := by
  obtain ⟨shared, route⟩ := wire
  have hshared := OpenWireV1.reads_items h.shared
  cases route with
  | none =>
    have hbody : (OpenWire.toItem ⟨shared, none⟩).encode =
        Cbor.encodeArray 5 ++ Item.encodeAll shared.items := by
      simp [OpenWire.toItem, Item.encode, OpenWireV1.items]
    rw [hbody]
    apply (Cbor.reads_array (by decide)).bind
    show Reads (decodeElements 5) _ _
    apply hshared.bind_nil
    exact (Reads.pure none).bind (Cbor.reads_skip_zero.bind_nil (Reads.pure _))
  | some route =>
    have hmajor : ∀ a : RouteWire, a.toItem.major ≠ 7 := by simp [RouteWire.toItem, Item.major]
    have hpresent : ∀ a ∈ some route, Reads RouteWire.decode a.toItem.encode a := by
      intro found hfound
      cases hfound
      exact RouteWire.reads (h.route route rfl)
    have hroute : Reads (Cbor.decodeOption RouteWire.decode) route.toItem.encode (some route) :=
      Cbor.reads_option (some route) hmajor hpresent
    have hbody : (OpenWire.toItem ⟨shared, some route⟩).encode =
        Cbor.encodeArray 6 ++ (Item.encodeAll shared.items ++ route.toItem.encode) := by
      simp [OpenWire.toItem, Item.encode, OpenWireV1.items, Item.encodeAll]
    rw [hbody]
    apply (Cbor.reads_array (by decide)).bind
    show Reads (decodeElements 6) _ _
    apply hshared.bind
    apply hroute.bind_nil
    exact Cbor.reads_skip_zero.bind_nil (Reads.pure _)

/-! ## Limits -/

/-- How many nodes the chain of a body has. -/
def OpenWire.chainLength (wire : OpenWire) : Nat :=
  wire.route.elim 0 fun route => route.visited.length

theorem OpenWire.chainLength_of_mem {route : RouteWire} (h : route ∈ wire.route) :
    wire.chainLength = route.visited.length := by
  rw [Option.mem_def] at h
  simp [chainLength, h]

/-- The chain and the metadata of a frame are arrays, and so are the frame and its route. -/
theorem OpenWire.fits (h : wire.Plain) {limits : CborLimits} (hdepth : 3 ≤ limits.maxDepth)
    (hitems : 6 ≤ limits.maxCollectionItems)
    (hmetadata : wire.metadata.length ≤ limits.maxCollectionItems)
    (hchain : wire.chainLength ≤ limits.maxCollectionItems) :
    Fits limits 0 wire.toItem := by
  have hentries : Fits limits 1 (.array (wire.metadata.map metadataItem)) := by
    simp only [Fits, fitsAll_iff, List.length_map, List.mem_map]
    refine ⟨by omega, hmetadata, ?_⟩
    rintro item ⟨entry, hentry, rfl⟩
    simp only [metadataItem, Fits, FitsAll, List.length_cons, List.length_nil, and_true]
    exact ⟨by omega, by omega, (h.shared.metadata entry hentry).1.2⟩
  have hroute : ∀ route ∈ wire.route, Fits limits 1 route.toItem := by
    intro route hmem
    have hplain := h.route route hmem
    rw [chainLength_of_mem hmem] at hchain
    have hvisited : Fits limits 2 (.array (route.visited.map .text)) := by
      simp only [Fits, fitsAll_iff, List.length_map, List.mem_map]
      refine ⟨by omega, hchain, ?_⟩
      rintro item ⟨node, hnode, rfl⟩
      exact (hplain.visited node hnode).2
    simp only [RouteWire.toItem, Fits, FitsAll, List.length_cons, List.length_nil, and_true]
    exact ⟨by omega, by omega, hplain.current.2, hvisited⟩
  have hlength : (wire.items ++ (wire.route.map RouteWire.toItem).toList).length ≤ 6 := by
    cases wire.route <;> simp [OpenWireV1.items]
  simp only [OpenWire.toItem, Fits, fitsAll_iff, List.mem_append]
  refine ⟨by omega, by omega, ?_⟩
  rintro item (hitem | hitem)
  · simp only [OpenWireV1.items, List.mem_cons, List.not_mem_nil, or_false] at hitem
    obtain rfl | rfl | rfl | rfl | rfl := hitem
    · exact h.shared.traceId.2
    · exact h.shared.source.2
    · exact h.shared.destination.2
    · exact h.shared.protocol.2
    · exact hentries
  · obtain ⟨route, hmem, rfl⟩ := Option.map_eq_some_iff.mp (Option.mem_toList.mp hitem)
    exact hroute route hmem

/-- A chain is an array inside the frame. -/
theorem OpenWire.chainLength_le (wire : OpenWire) :
    wire.chainLength ≤ (itemValue wire.toItem).width ∧ wire.chainLength ≤ wire.toItem.size := by
  cases hroute : wire.route with
  | none => simp [chainLength, hroute]
  | some route =>
    have hroutes : route.toItem ∈ wire.items ++ (wire.route.map RouteWire.toItem).toList := by
      simp [hroute]
    have hvisited : Item.array (route.visited.map Item.text) ∈ [.text route.current,
        .array (route.visited.map Item.text), .uint route.remainingHops.toUInt64] := by simp
    rw [chainLength_of_mem (Option.mem_def.mpr hroute)]
    constructor
    · calc route.visited.length
          ≤ (itemValue (.array (route.visited.map Item.text))).width := by
            have hlength := length_le_width (route.visited.map Item.text)
            rwa [List.length_map] at hlength
        _ ≤ (itemValue route.toItem).width := width_le_of_mem hvisited
        _ ≤ (itemValue wire.toItem).width := width_le_of_mem hroutes
    · calc route.visited.length
          ≤ (Item.array (route.visited.map Item.text)).size := by
            have hlength := Item.length_le_sizeAll (route.visited.map Item.text)
            rw [List.length_map] at hlength
            simp only [Item.size]
            omega
        _ ≤ route.toItem.size := (Item.size_le_of_mem hvisited).trans (Nat.le_add_left _ _)
        _ ≤ wire.toItem.size := (Item.size_le_of_mem hroutes).trans (Nat.le_add_left _ _)

/-- A body is canonical if and only if its chain is not longer than an array may be. -/
theorem OpenWire.encodeCanonical_eq_ok_iff (hplain : wire.chainLength < 2 ^ 64 → wire.Plain)
    (hmetadata : wire.metadata.length ≤ 256)
    (hsize : wire.chainLength ≤ 1024 → wire.toItem.size ≤ 65536) {body : Bytes} :
    encodeCanonical OpenWire.codec wire controlCborLimits = .ok body ↔
      wire.chainLength ≤ 1024 ∧ body = wire.toItem.encode := by
  constructor
  · intro h
    obtain ⟨hbody, hlength, hvalid⟩ := Radiata.encodeCanonical_eq_ok h
    change body = wire.toItem.encode at hbody
    have hroom : wire.toItem.size ≤ 65536 := by
      rw [← Item.length_encode, ← hbody]
      exact hlength
    obtain ⟨hwidth, hshort⟩ := wire.chainLength_le
    -- limits of no consequence, under which the frame is surely encoded
    have hfits : Fits ⟨3, 65536, 65536⟩ 0 wire.toItem :=
      OpenWire.fits (hplain (by omega)) (Nat.le_refl 3) (by decide) (by show _ ≤ 65536; omega)
        (by show _ ≤ 65536; omega)
    rw [hbody] at hvalid
    exact ⟨hwidth.trans (width_le_of_validateCanonical hfits (by omega) hvalid), hbody⟩
  · intro hparts
    obtain ⟨hchain, hbody⟩ := hparts
    have hfits : Fits controlCborLimits 0 wire.toItem :=
      OpenWire.fits (hplain (by omega)) (by decide) (by decide) (by show _ ≤ 1024; omega) hchain
    rw [encodeCanonical_item OpenWire.codec wire rfl (by decide) (by decide) hfits (by decide),
      if_pos, hbody]
    exact hsize hchain

theorem OpenPacket.routeWire_inj {a b : HopState} (ha : a.remainingHops < 2 ^ 32)
    (hb : b.remainingHops < 2 ^ 32) (h : OpenPacket.routeWire a = OpenPacket.routeWire b) : a = b := by
  obtain ⟨current, visited, hops⟩ := a
  obtain ⟨current', visited', hops'⟩ := b
  simp only [OpenPacket.routeWire, RouteWire.mk.injEq] at h
  obtain ⟨hcurrent, hvisited, hbudget⟩ := h
  have hhops : hops = hops' := by
    have hnat := congrArg UInt32.toNat hbudget
    rwa [UInt32.toNat_ofNat_of_lt' ha, UInt32.toNat_ofNat_of_lt' hb] at hnat
  have htexts : visited = visited' :=
    List.map_injective_iff.mpr (fun _ _ => CanonicalId.ext_asStr) hvisited
  rw [CanonicalId.ext_asStr hcurrent, htexts, hhops]

section Packets

variable [DnsName]

namespace OpenPacket

theorem wireText_node (node : NodeId) : WireText node.asStr :=
  ⟨by rw [node.length_asStr]; omega, node.ascii.isUtf8⟩

theorem wireText_tag (tag : QualifiedTag) : WireText tag.asStr :=
  ⟨by have := tag.length_asStr_le; omega, tag.ascii.isUtf8⟩

theorem length_metadataPairs (metadata : PacketMetadata) :
    (metadataPairs metadata).length ≤ 256 := by
  rw [metadataPairs, List.length_map]
  exact metadata.entriesFit

/-- The wire form of a frame has short texts. -/
theorem plain_wire (packet : OpenPacket) (hchain : packet.chain.length < 2 ^ 64) :
    packet.wire.Plain where
  shared :=
    { traceId := ⟨by
        show packet.frame.traceId.asStr.length < 2 ^ 64
        rw [TraceId.length_asStr]
        omega, packet.frame.traceId.ascii.isUtf8⟩
      source := wireText_node _
      destination := wireText_node _
      protocol := wireText_tag packet.frame.content.1.tag
      metadata := by
        intro entry hentry
        obtain ⟨⟨key, value⟩, hmem, rfl⟩ := List.mem_map.mp hentry
        refine ⟨wireText_tag key, ?_⟩
        have hbytes := packet.frame.content.2.bytesFit
        have hle : key.asStr.length + value.length ≤ packet.frame.content.2.totalBytes := by
          rw [packet.frame.content.2.counted, metadataBytes]
          exact List.single_le_sum (fun _ _ => Nat.zero_le _) _
            (List.mem_map.mpr ⟨(key, value), hmem, rfl⟩)
        simp only [metadataMaxBytes] at hbytes
        show value.length < 2 ^ 64
        omega
      count := by
        have := length_metadataPairs packet.frame.content.2
        show (metadataPairs packet.frame.content.2).length < 2 ^ 64
        omega }
  route := by
    intro route hroute
    obtain ⟨hop, hhop, rfl⟩ := Option.map_eq_some_iff.mp hroute
    have hvisited : packet.chain = hop.visited := by
      simp only [chain, hhop, Option.elim_some]
    exact
      { current := wireText_node _
        visited := by
          intro node hnode
          obtain ⟨id, -, rfl⟩ := List.mem_map.mp hnode
          exact wireText_node id
        count := by
          show (hop.visited.map CanonicalId.asStr).length < 2 ^ 64
          rw [List.length_map, ← hvisited]
          exact hchain }

/-- The room of the metadata. -/
theorem size_metadata (metadata : PacketMetadata) :
    (Item.array ((metadataPairs metadata).map metadataItem)).size ≤ 3 + 256 * 6 + 32768 := by
  have hcount := length_metadataPairs metadata
  have hhead : Cbor.headLen ((metadataPairs metadata).map metadataItem).length ≤ 3 :=
    Cbor.headLen_le_three (by rw [List.length_map]; omega)
  have hentry : ∀ entry ∈ metadata.entries.toList,
      (metadataItem (entry.1.asStr, entry.2)).size ≤
        6 + (entry.1.asStr.length + entry.2.length) := by
    intro entry hmem
    have hkey := entry.1.length_asStr_le
    have hbytes : entry.1.asStr.length + entry.2.length ≤ metadata.totalBytes := by
      rw [metadata.counted, metadataBytes]
      exact List.single_le_sum (fun _ _ => Nat.zero_le _) _ (List.mem_map.mpr ⟨entry, hmem, rfl⟩)
    have hfit := metadata.bytesFit
    simp only [metadataMaxBytes] at hfit
    have hkeyHead : Cbor.headLen entry.1.asStr.length ≤ 2 := Cbor.headLen_le_two (by omega)
    have hvalueHead : Cbor.headLen entry.2.length ≤ 3 := Cbor.headLen_le_three (by omega)
    simp only [metadataItem, Item.size, Item.sizeAll, List.length_cons, List.length_nil]
    rw [show Cbor.headLen (0 + 1 + 1) = 1 by decide]
    omega
  have hsum : Item.sizeAll ((metadataPairs metadata).map metadataItem) ≤
      metadata.entries.toList.length * 6 + metadata.totalBytes := by
    have hle := List.sum_le_sum hentry
    rw [List.sum_map_add, List.map_const', List.sum_replicate, Nat.nsmul_eq_mul] at hle
    rw [metadata.counted, metadataBytes, metadataPairs, List.map_map, Item.sizeAll_map]
    exact hle
  have hlength : metadata.entries.toList.length = (metadataPairs metadata).length := by
    rw [metadataPairs, List.length_map]
  have hfit := metadata.bytesFit
  simp only [metadataMaxBytes] at hfit
  simp only [Item.size]
  omega

/-- A frame takes 28 bytes for each node of its chain. -/
theorem size_wire (packet : OpenPacket) (hchain : packet.chain.length < 65536) :
    packet.wire.toItem.size ≤ 34570 + 28 * packet.chain.length := by
  have htrace : (Item.text packet.frame.traceId.asStr).size = 29 := by
    rw [Item.size, TraceId.length_asStr]
    decide
  have hnode : ∀ node : NodeId, (Item.text node.asStr).size = 28 := by
    intro node
    rw [Item.size, node.length_asStr]
    decide
  have hprotocol : (Item.text packet.frame.content.1.asStr).size ≤ 2 + 128 :=
    Item.size_text_le packet.frame.content.1.tag.length_asStr_le
  have hmetadata := size_metadata packet.frame.content.2
  have hshared : Item.sizeAll packet.wire.items ≤ 29 + 28 + 28 + 130 + 34307 := by
    simp only [OpenWireV1.items, wire, Item.sizeAll, htrace, hnode]
    omega
  cases hroute : packet.frame.route with
  | none =>
    have hsize : packet.wire.toItem.size = 1 + Item.sizeAll packet.wire.items := by
      simp only [OpenWire.toItem, wire, hroute, Option.map_none, Option.toList_none,
        List.append_nil, Item.size]
      rfl
    omega
  | some route =>
    have hvisited : packet.chain.length = route.visited.length := by
      simp only [chain, hroute, Option.elim_some]
    have hrouteSize : (routeWire route).toItem.size ≤ 1 + (28 + (3 + route.visited.length * 28) + 9) := by
      have hlist : (Item.array ((route.visited.map CanonicalId.asStr).map .text)).size ≤
          3 + route.visited.length * 28 := by
        have hhead : Cbor.headLen route.visited.length ≤ 3 :=
          Cbor.headLen_le_three (by omega)
        have hall : Item.sizeAll ((route.visited.map CanonicalId.asStr).map .text) ≤
            ((route.visited.map CanonicalId.asStr).map Item.text).length * 28 := by
          apply Item.sizeAll_le
          intro item hitem
          obtain ⟨text, htext, rfl⟩ := List.mem_map.mp hitem
          obtain ⟨node, -, rfl⟩ := List.mem_map.mp htext
          exact (hnode node).le
        simp only [List.length_map] at hall
        simp only [Item.size, List.length_map]
        omega
      have hbudget := Cbor.headLen_le_nine (UInt32.ofNat route.remainingHops).toUInt64.toNat
      simp only [routeWire, RouteWire.toItem, Item.size, Item.sizeAll, List.length_cons,
        List.length_nil] at hlist ⊢
      have hcurrent := hnode route.current
      simp only [Item.size] at hcurrent
      rw [show Cbor.headLen (0 + 1 + 1 + 1) = 1 by decide]
      omega
    have hsize : packet.wire.toItem.size =
        1 + (Item.sizeAll packet.wire.items + (routeWire route).toItem.size) := by
      simp only [OpenWire.toItem, Item.size, Item.sizeAll_append]
      simp only [wire, hroute, Option.map_some, Option.toList_some, Item.sizeAll]
      rfl
    omega

theorem chainLength_wire (packet : OpenPacket) : packet.wire.chainLength = packet.chain.length := by
  cases hroute : packet.frame.route <;> simp [OpenWire.chainLength, chain, wire, routeWire, hroute]

variable {body : Bytes}

/-- A frame is encoded if and only if its chain is not longer than an array may be. -/
theorem encodeOpen_eq_ok_iff (packet : OpenPacket) :
    packet.encodeOpen = .ok body ↔
      packet.chain.length ≤ 1024 ∧ body = packet.wire.toItem.encode := by
  have hchain := packet.chainLength_wire
  rw [← hchain]
  apply OpenWire.encodeCanonical_eq_ok_iff (fun hlong => packet.plain_wire (by omega))
  · exact length_metadataPairs packet.frame.content.2
  · intro hshort
    have hsize := packet.size_wire (by omega)
    omega

/-! ## Metadata read again -/

/-- What a pair of a body says of an entry. -/
def Spells (pair : Bytes × Bytes) (entry : QualifiedTag × Bytes) : Prop :=
  QualifiedTag.parse pair.1 = .ok entry.1 ∧ pair.2 = entry.2

/-- Metadata that was read holds one entry for each pair. -/
theorem readMetadata_eq_ok {metadata after : PacketMetadata} {pairs : List (Bytes × Bytes)}
    (h : readMetadata metadata pairs = .ok after) :
    ∃ entries, List.Forall₂ Spells pairs entries ∧
      after.entries.toList.Perm (entries ++ metadata.entries.toList) := by
  induction pairs generalizing metadata with
  | nil =>
    cases h
    exact ⟨[], .nil, .refl _⟩
  | cons pair rest ih =>
    obtain ⟨text, value⟩ := pair
    obtain ⟨key, hkey, h⟩ := Result.bind_eq_ok.mp h
    obtain ⟨next, hnext, h⟩ := Result.bind_eq_ok.mp h
    obtain ⟨entries, hentries, hperm⟩ := ih h
    refine ⟨(key, value) :: entries, .cons ⟨hkey, rfl⟩ hentries, ?_⟩
    have hinserted : next.entries.toList.Perm ((key, value) :: metadata.entries.toList) := by
      unfold PacketMetadata.insert at hnext
      split at hnext
      · cases hnext
      · rename_i hnew
        split at hnext
        · cases hnext
        · cases hnext
          exact PacketMetadata.perm_insert value hnew
    apply hperm.trans
    apply (hinserted.append_left entries).trans
    exact List.perm_middle

/-- A key above all keys of metadata with room for it is inserted at the end. -/
theorem insert_of_lt {metadata : PacketMetadata} {key : QualifiedTag} (value : Bytes)
    (hlt : ∀ entry ∈ metadata.entries.toList, entry.1 < key)
    (hcount : metadata.entries.toList.length < 256)
    (hbytes : metadata.totalBytes + (key.asStr.length + value.length) ≤ 32768) :
    ∃ after, metadata.insert key value = .ok after ∧
      after.entries.toList = metadata.entries.toList ++ [(key, value)] := by
  have hnew : ¬ metadata.entries.contains key = true := by
    intro hcontains
    obtain ⟨stored, hstored⟩ := (metadata.entries.contains_iff key).mp hcontains
    exact lt_irrefl key (hlt _ ((metadata.entries.mem_toList_iff key stored).mpr hstored))
  have hroom : ¬ (metadataMaxEntries ≤ metadata.entries.toList.length ∨
      metadataMaxBytes < metadata.totalBytes + (key.asStr.length + value.length)) := by
    simp only [metadataMaxEntries, metadataMaxBytes]
    omega
  unfold PacketMetadata.insert
  rw [dif_neg hnew, dif_neg hroom]
  exact ⟨_, rfl, metadata.entries.toList_insert_of_lt value hlt⟩

/-- The pairs of a list of entries. -/
def entryPairs (entries : List (QualifiedTag × Bytes)) : List (Bytes × Bytes) :=
  entries.map fun entry => (entry.1.asStr, entry.2)

theorem readMetadata_entryPairs (hhosts : FoldedHosts) (rest : List (QualifiedTag × Bytes))
    (metadata : PacketMetadata) (hsorted : (metadata.entries.toList ++ rest).Pairwise (·.1 < ·.1))
    (hcount : (metadata.entries.toList ++ rest).length ≤ 256)
    (hbytes : metadataBytes (metadata.entries.toList ++ rest) ≤ 32768)
    (hkeys : ∀ entry ∈ rest, ¬ entry.1.Reserved) :
    ∃ after, readMetadata metadata (entryPairs rest) = .ok after ∧
      after.entries.toList = metadata.entries.toList ++ rest := by
  induction rest generalizing metadata with
  | nil => exact ⟨metadata, rfl, by simp⟩
  | cons entry rest ih =>
    obtain ⟨key, value⟩ := entry
    have hlt : ∀ other ∈ metadata.entries.toList, other.1 < key :=
      fun other hother =>
        (List.pairwise_append.mp hsorted).2.2 other hother (key, value) (List.mem_cons_self ..)
    have hroom : metadata.entries.toList.length < 256 := by
      rw [List.length_append, List.length_cons] at hcount
      omega
    have hfit : metadata.totalBytes + (key.asStr.length + value.length) ≤ 32768 := by
      simp only [metadataBytes, List.map_append, List.map_cons, List.sum_append,
        List.sum_cons] at hbytes
      rw [metadata.counted, metadataBytes]
      omega
    obtain ⟨next, hinsert, hnext⟩ := insert_of_lt value hlt hroom hfit
    have hlist : next.entries.toList ++ rest = metadata.entries.toList ++ (key, value) :: rest := by
      rw [hnext, List.append_assoc, List.singleton_append]
    obtain ⟨after, hafter, hentries⟩ := ih next (hlist ▸ hsorted) (hlist ▸ hcount)
      (hlist ▸ hbytes) fun other hother => hkeys other (List.mem_cons_of_mem _ hother)
    have hkey : QualifiedTag.parse key.asStr = .ok key :=
      QualifiedTag.reparses_of_unreserved hhosts key (hkeys _ (List.mem_cons_self ..))
    refine ⟨after, ?_, hentries.trans hlist⟩
    show readMetadata metadata ((key.asStr, value) :: entryPairs rest) = .ok after
    rw [readMetadata, hkey, Result.ok_bind, hinsert, Result.ok_bind]
    exact hafter

/-- Metadata is rebuilt from its pairs if and only if no key is in the reserved namespace, and
    nothing else is built from them. -/
theorem readMetadata_metadataPairs (hhosts : FoldedHosts) (metadata after : PacketMetadata) :
    readMetadata .new (metadataPairs metadata) = .ok after ↔
      after = metadata ∧ ∀ entry ∈ metadata.entries.toList, ¬ entry.1.Reserved := by
  have hbytes : metadataBytes metadata.entries.toList ≤ 32768 := by
    rw [← metadata.counted]
    exact metadata.bytesFit
  have hrebuild : (∀ entry ∈ metadata.entries.toList, ¬ entry.1.Reserved) →
      readMetadata .new (metadataPairs metadata) = .ok metadata := by
    intro hkeys
    obtain ⟨built, hbuilt, hentries⟩ := readMetadata_entryPairs hhosts metadata.entries.toList
      .new metadata.entries.sorted metadata.entriesFit hbytes hkeys
    have hsame : built = metadata := by
      apply PacketMetadata.ext_entries
      apply SortedMap.ext_get
      intro key
      rw [SortedMap.get, hentries]
      rfl
    rw [← hsame, ← hbuilt, hsame]
    rfl
  constructor
  · intro h
    have hkeys : ∀ entry ∈ metadata.entries.toList, ¬ entry.1.Reserved := by
      obtain ⟨entries, hspells, -⟩ := readMetadata_eq_ok h
      intro entry hentry
      have hpair : (entry.1.asStr, entry.2) ∈ metadataPairs metadata :=
        List.mem_map.mpr ⟨entry, hentry, rfl⟩
      obtain ⟨found, -, hspell⟩ := hspells.flip.exists_of_mem_right hpair
      have hparse : QualifiedTag.parse entry.1.asStr = .ok found.1 := hspell.1
      have hsame : found.1 = entry.1 :=
        QualifiedTag.ext_asStr ((QualifiedTag.asStr_eq_iff hparse).mpr entry.1.uncapitalized)
      rw [← QualifiedTag.reparses_iff hhosts, QualifiedTag.Reparses, hparse, hsame]
    rw [hrebuild hkeys] at h
    exact ⟨(Except.ok.inj h).symm, hkeys⟩
  · intro hparts
    obtain ⟨hafter, hkeys⟩ := hparts
    rw [hafter]
    exact hrebuild hkeys

/-! ## Bodies read as frames -/

/-- What a body says of the frame that is read from it. -/
structure ReadsAs (wire : OpenWire) (packet : OpenPacket) : Prop where
  ordered : metadataOrdered wire.metadata = true
  metadata : readMetadata .new wire.metadata = .ok packet.frame.content.2
  route : wire.route = packet.frame.route.map routeWire
  chain : packet.chain.Nodup
  traceId : wire.traceId = packet.frame.traceId.asStr
  source : wire.source = packet.frame.source.asStr
  destination : wire.destination = packet.frame.destination.asStr
  protocol : ProtocolTag.parse wire.protocol = .ok packet.frame.content.1

theorem parse_visited {texts : List Bytes} {visited : List NodeId} :
    texts.mapM CanonicalId.parse = (.ok visited : Result (List NodeId)) ↔
      texts = visited.map CanonicalId.asStr := by
  rw [Except.mapM_eq_ok]
  constructor
  · intro h
    induction h with
    | nil => rfl
    | cons hnode _ ih => rw [List.map_cons, CanonicalId.asStr_of_parse hnode, ih]
  · intro h
    rw [h]
    clear h
    induction visited with
    | nil => exact .nil
    | cons node rest ih => exact .cons (CanonicalId.parse_asStr node) ih

/-- A route is read from its wire form, if its chain names no node twice. -/
theorem readRoute_eq_ok_iff {wire : RouteWire} {route : { route : HopState //
    route.remainingHops < 2 ^ 32 }} :
    readRoute wire = .ok route ↔ wire = routeWire route.val ∧ route.val.visited.Nodup := by
  constructor
  · intro h
    obtain ⟨current, hcurrent, h⟩ := Result.bind_eq_ok.mp h
    obtain ⟨visited, hvisited, h⟩ := Result.bind_eq_ok.mp h
    obtain ⟨_, hnodup, h⟩ := Result.bind_eq_ok.mp h
    rw [Except.rejectIf_eq_ok, not_not] at hnodup
    cases h
    have htexts := parse_visited.mp hvisited
    have htext := CanonicalId.asStr_of_parse hcurrent
    obtain ⟨_, _, hops⟩ := wire
    refine ⟨?_, hnodup⟩
    simp only [routeWire, RouteWire.mk.injEq, UInt32.ofNat_toNat, and_true]
    exact ⟨htext.symm, htexts⟩
  · intro hparts
    obtain ⟨hwire, hnodup⟩ := hparts
    obtain ⟨⟨current, visited, hops⟩, hbudget⟩ := route
    have hparse := parse_visited.mpr (rfl : visited.map CanonicalId.asStr = _)
    simp only [hwire, readRoute, routeWire, CanonicalId.parse_asStr, Result.ok_bind, hparse]
    rw [Except.rejectIf_of_not _ (not_not.mpr hnodup)]
    have hround : (UInt32.ofNat hops).toNat = hops := UInt32.toNat_ofNat_of_lt' hbudget
    simp only [hround]
    rfl

variable {packet : OpenPacket}

theorem openFromWire_eq_ok_iff {wire : OpenWire} :
    openFromWire wire = .ok packet ↔ ReadsAs wire packet := by
  constructor
  · intro h
    obtain ⟨_, hordered, h⟩ := Result.bind_eq_ok.mp h
    obtain ⟨metadata, hmetadata, h⟩ := Result.bind_eq_ok.mp h
    obtain ⟨route, hroute, h⟩ := Result.bind_eq_ok.mp h
    obtain ⟨traceId, htrace, h⟩ := Result.bind_eq_ok.mp h
    obtain ⟨source, hsource, h⟩ := Result.bind_eq_ok.mp h
    obtain ⟨destination, hdestination, h⟩ := Result.bind_eq_ok.mp h
    obtain ⟨protocol, hprotocol, h⟩ := Result.bind_eq_ok.mp h
    rw [Except.rejectIf_eq_ok, Bool.not_eq_false] at hordered
    cases h
    have hroutes : wire.route = (route.map Subtype.val).map routeWire ∧
        ((route.map Subtype.val).elim [] HopState.visited).Nodup := by
      have hread := Except.option_mapM_eq_ok.mp hroute
      generalize wire.route = sent at hread ⊢
      cases hread with
      | none => exact ⟨rfl, List.nodup_nil⟩
      | some hread =>
        obtain ⟨hsame, hnodup⟩ := readRoute_eq_ok_iff.mp hread
        exact ⟨congrArg some hsame, hnodup⟩
    exact
      { ordered := hordered
        metadata := hmetadata
        route := hroutes.1
        chain := hroutes.2
        traceId := (CanonicalId.asStr_of_parse htrace).symm
        source := (CanonicalId.asStr_of_parse hsource).symm
        destination := (CanonicalId.asStr_of_parse hdestination).symm
        protocol := hprotocol }
  · intro h
    obtain ⟨⟨traceId, source, destination, ⟨protocol, metadata⟩, route⟩, hbudget⟩ := packet
    have hroute : ∃ found : Option { route : HopState // route.remainingHops < 2 ^ 32 },
        wire.route.mapM readRoute = .ok found ∧ found.map Subtype.val = route := by
      have hwire := h.route
      have hchain := h.chain
      cases route with
      | none =>
        rw [hwire]
        exact ⟨none, rfl, rfl⟩
      | some route =>
        have hread : readRoute (routeWire route) = .ok ⟨route, hbudget route rfl⟩ :=
          readRoute_eq_ok_iff.mpr ⟨rfl, hchain⟩
        rw [hwire]
        exact ⟨some ⟨route, hbudget route rfl⟩, Except.option_mapM_eq_ok.mpr (.some hread), rfl⟩
    obtain ⟨found, hfound, hval⟩ := hroute
    unfold openFromWire
    rw [Except.rejectIf_of_not _ (by rw [h.ordered]; decide), Result.ok_bind, h.metadata,
      Result.ok_bind, hfound, Result.ok_bind, h.traceId, CanonicalId.parse_asStr, Result.ok_bind,
      h.source, CanonicalId.parse_asStr, Result.ok_bind, h.destination, CanonicalId.parse_asStr,
      Result.ok_bind, h.protocol, Result.ok_bind]
    apply congrArg Except.ok
    apply ext_frame
    simp only [hval]

/-! ## Accepted bodies -/

variable {limits : CborLimits}

/-- A body of the previous shape is one of the current shape without a route. -/
theorem decode_of_decodePrevious (h : decodePrevious body limits = .ok packet) :
    ∃ wire, decodeCanonical OpenWire.codec body limits = .ok wire ∧
      encodeCanonical OpenWire.codec wire controlCborLimits = .ok body := by
  obtain ⟨wire, hwire, h⟩ := Result.bind_eq_ok.mp h
  obtain ⟨_, hcanonical, -⟩ := Result.bind_eq_ok.mp h
  rw [Except.rejectIf_eq_ok, not_not] at hcanonical
  rw [Except.mapError_eq_ok] at hwire
  obtain ⟨hvalid, hread⟩ := decodeCanonical_eq_ok_iff.mp hwire
  have hencode : encodeCanonical OpenWireV1.codec wire controlCborLimits = .ok body := by
    cases hencoded : encodeCanonical OpenWireV1.codec wire controlCborLimits with
    | error e =>
      rw [hencoded] at hcanonical
      cases hcanonical
    | ok again =>
      rw [hencoded] at hcanonical
      exact congrArg Except.ok (Option.some.inj hcanonical)
  -- both shapes are written as an array of five
  have hsame : OpenWire.codec.encode ⟨wire, none⟩ = OpenWireV1.codec.encode wire := by
    simp [OpenWire.codec, OpenWireV1.codec, OpenWire.toItem, OpenWireV1.toItem]
  have hbody : body = Cbor.encodeArray 5 ++ Item.encodeAll wire.items := by
    rw [(encodeCanonical_eq_ok hencode).1]
    simp [OpenWireV1.codec, OpenWireV1.toItem, Item.encode, OpenWireV1.items]
  refine ⟨⟨wire, none⟩, decodeCanonical_eq_ok_iff.mpr ⟨hvalid, ?_⟩, ?_⟩
  · have harray : Cbor.decodeArray (Cbor.encodeArray 5 ++ Item.encodeAll wire.items) =
        some (some 5, Item.encodeAll wire.items) := Cbor.reads_array (by decide) _
    have hitems : OpenWireV1.decodeItems (Item.encodeAll wire.items) = some (wire, []) := by
      rw [hbody] at hread
      change (Cbor.decodeArray (Cbor.encodeArray 5 ++ Item.encodeAll wire.items) >>= fun _ => _) = _ at hread
      rw [harray] at hread
      change (OpenWireV1.decodeItems (Item.encodeAll wire.items) >>= fun _ => _) = _ at hread
      cases hitems : OpenWireV1.decodeItems (Item.encodeAll wire.items) with
      | none =>
        rw [hitems] at hread
        cases hread
      | some found =>
        obtain ⟨read, rest⟩ := found
        have hskip : Cbor.skip 0 rest = some ((), rest) := Cbor.reads_skip_zero rest
        rw [hitems] at hread
        change (Cbor.skip 0 rest >>= fun _ => _) = _ at hread
        rw [hskip] at hread
        exact hread
    rw [hbody]
    show (Cbor.decodeArray (Cbor.encodeArray 5 ++ Item.encodeAll wire.items) >>= fun _ => _) = _
    rw [harray]
    show (OpenWireV1.decodeItems (Item.encodeAll wire.items) >>= fun _ => _) = _
    rw [hitems]
    rfl
  · rw [← hencode]
    unfold encodeCanonical
    rw [hsame]

/-- An accepted body is the encoding of what is read from it, in the current shape. -/
theorem decodeOpen_eq_ok_iff :
    decodeOpen body limits = .ok packet ↔
      ∃ wire, decodeCanonical OpenWire.codec body limits = .ok wire ∧
        encodeCanonical OpenWire.codec wire controlCborLimits = .ok body ∧
        ReadsAs wire packet := by
  have hencoded : ∀ wire, (encodeCanonical OpenWire.codec wire controlCborLimits).toOption =
      some body ↔ encodeCanonical OpenWire.codec wire controlCborLimits = .ok body := by
    intro wire
    cases encodeCanonical OpenWire.codec wire controlCborLimits <;> simp [Except.toOption]
  constructor
  · intro h
    have hprevious : decodePrevious body limits = .ok packet →
        ∃ wire, decodeCanonical OpenWire.codec body limits = .ok wire ∧
          encodeCanonical OpenWire.codec wire controlCborLimits = .ok body :=
      decode_of_decodePrevious
    unfold decodeOpen at h
    cases hwire : decodeCanonical OpenWire.codec body limits with
    | error e =>
      rw [hwire] at h
      obtain ⟨wire, hfound, -⟩ := hprevious h
      rw [hwire] at hfound
      cases hfound
    | ok wire =>
      rw [hwire] at h
      dsimp only at h
      split at h
      · rename_i hsame
        exact ⟨wire, rfl, (hencoded wire).mp hsame, openFromWire_eq_ok_iff.mp h⟩
      · rename_i hother
        obtain ⟨found, hfound, hsame⟩ := hprevious h
        rw [hwire] at hfound
        cases hfound
        exact absurd ((hencoded wire).mpr hsame) hother
  · intro hparts
    obtain ⟨wire, hwire, hsame, hreads⟩ := hparts
    unfold decodeOpen
    rw [hwire]
    dsimp only
    rw [if_pos ((hencoded wire).mpr hsame)]
    exact openFromWire_eq_ok_iff.mpr hreads

theorem length_of_parse {text : Bytes} {tag : QualifiedTag} (h : QualifiedTag.parse text = .ok tag) :
    tag.asStr.length = text.length ∧ text.Ascii ∧ text.length ≤ 128 := by
  obtain ⟨host, category, name, c⟩ := QualifiedTag.components_of_parse h
  have hlength : tag.asStr.length = text.length := by
    rw [c.asStr_eq, c.text_eq]
    simp
  refine ⟨hlength, c.text_eq ▸ c.accepted.ascii, ?_⟩
  rw [← hlength]
  exact tag.length_asStr_le

/-- The tag inside a tag of a category. -/
theorem parse_of_parseCategory {category : Bytes} {context : String} {text : Bytes}
    {tag : CategoryTag category} (h : CategoryTag.parse context text = .ok tag) :
    QualifiedTag.parse text = .ok tag.tag := by
  obtain ⟨parsed, hparse, h⟩ := Result.bind_eq_ok.mp h
  split at h
  · cases h
    exact hparse
  · cases h

namespace ReadsAs

variable {wire : OpenWire} {packet : OpenPacket}

/-- A frame is read from its own wire form, and no other frame is, if the receiver can tell the
    nodes of its chain apart and parse its metadata keys. -/
theorem wire_iff (hhosts : FoldedHosts) {other : OpenPacket} :
    ReadsAs packet.wire other ↔ other = packet ∧ packet.chain.Nodup ∧
      ∀ entry ∈ packet.frame.content.2.entries.toList, ¬ entry.1.Reserved := by
  have hprotocol : ProtocolTag.parse packet.frame.content.1.asStr = .ok packet.frame.content.1 :=
    CategoryTag.parse_asStr hhosts (by decide) _ _
  have hordered : metadataOrdered packet.wire.metadata = true := by
    have hsorted : packet.wire.metadata.Pairwise (·.1 < ·.1) := by
      show (metadataPairs packet.frame.content.2).Pairwise _
      rw [metadataPairs, List.pairwise_map]
      exact packet.frame.content.2.entries.sorted
    rw [metadataOrdered, List.allAdjacent_iff_pairwise _ (by simpa using fun _ _ _ => lt_trans)]
    simpa using hsorted
  constructor
  · intro h
    obtain ⟨hmetadata, hkeys⟩ := (readMetadata_metadataPairs hhosts _ _).mp h.metadata
    have hsame : other = packet := by
      have htrace := CanonicalId.ext_asStr h.traceId
      have hsource := CanonicalId.ext_asStr h.source
      have hdestination := CanonicalId.ext_asStr h.destination
      have htag : other.frame.content.1 = packet.frame.content.1 :=
        Except.ok.inj (h.protocol.symm.trans hprotocol)
      have hroute : packet.frame.route = other.frame.route := by
        have hwire := h.route
        change packet.frame.route.map routeWire = _ at hwire
        cases hmine : packet.frame.route with
        | none =>
          rw [hmine] at hwire
          exact (Option.map_eq_none_iff.mp hwire.symm).symm
        | some route =>
          rw [hmine] at hwire
          obtain ⟨found, hfound, hwires⟩ := Option.map_eq_some_iff.mp hwire.symm
          rw [hfound, routeWire_inj (other.budget found hfound) (packet.budget route hmine) hwires]
      apply ext_frame
      obtain ⟨⟨_, _, _, ⟨_, _⟩, _⟩, _⟩ := packet
      obtain ⟨⟨_, _, _, ⟨_, _⟩, _⟩, _⟩ := other
      simp only at htrace hsource hdestination htag hroute hmetadata
      simp only [OpenFrame.mk.injEq, Prod.mk.injEq]
      exact ⟨htrace.symm, hsource.symm, hdestination.symm, ⟨htag, hmetadata⟩, hroute.symm⟩
    exact ⟨hsame, hsame ▸ h.chain, hkeys⟩
  · intro hparts
    obtain ⟨hsame, hchain, hkeys⟩ := hparts
    rw [hsame]
    exact
      { ordered := hordered
        metadata := (readMetadata_metadataPairs hhosts _ _).mpr ⟨rfl, hkeys⟩
        route := rfl
        chain := hchain
        traceId := rfl
        source := rfl
        destination := rfl
        protocol := hprotocol }

/-- The entries that the pairs of a body spell. -/
theorem exists_entries (h : ReadsAs wire packet) :
    ∃ entries, List.Forall₂ Spells wire.metadata entries ∧
      packet.frame.content.2.entries.toList.Perm entries := by
  obtain ⟨entries, hspells, hperm⟩ := readMetadata_eq_ok h.metadata
  have hempty : PacketMetadata.new.entries.toList = [] := rfl
  rw [hempty, List.append_nil] at hperm
  exact ⟨entries, hspells, hperm⟩

theorem size_of_spells {pairs : List (Bytes × Bytes)} {entries : List (QualifiedTag × Bytes)}
    (h : List.Forall₂ Spells pairs entries) :
    Item.sizeAll ((entryPairs entries).map metadataItem) = Item.sizeAll (pairs.map metadataItem) := by
  induction h with
  | nil => rfl
  | cons hspell _ ih =>
    rename_i pair entry _ _ _
    have hlength : entry.1.asStr.length = pair.1.length := (length_of_parse hspell.1).1
    have hhead : (metadataItem (entry.1.asStr, entry.2)).size = (metadataItem pair).size := by
      simp only [metadataItem, Item.size, Item.sizeAll, hlength, hspell.2, List.length_cons,
        List.length_nil]
    simp only [entryPairs, List.map_cons, Item.sizeAll, hhead] at ih ⊢
    rw [ih]

/-- A frame takes the room of the body it was read from. -/
theorem size_eq (h : ReadsAs wire packet) : packet.wire.toItem.size = wire.toItem.size := by
  obtain ⟨entries, hspells, hperm⟩ := h.exists_entries
  have hmetadata : Item.sizeAll ((metadataPairs packet.frame.content.2).map metadataItem) =
      Item.sizeAll (wire.metadata.map metadataItem) := by
    rw [← size_of_spells hspells, Item.sizeAll_map, Item.sizeAll_map]
    exact ((hperm.map _).map _).sum_nat
  have hcount : (metadataPairs packet.frame.content.2).length = wire.metadata.length := by
    rw [metadataPairs, List.length_map, hperm.length_eq, hspells.length_eq]
  have hprotocol : packet.frame.content.1.asStr.length = wire.protocol.length :=
    (length_of_parse (parse_of_parseCategory h.protocol)).1
  have hitems : Item.sizeAll packet.wire.items = Item.sizeAll wire.items := by
    simp only [OpenWireV1.items, OpenPacket.wire, Item.sizeAll, Item.size, List.length_map,
      h.traceId, h.source, h.destination, hprotocol, hmetadata, hcount]
  have hroute : packet.wire.route = wire.route := h.route.symm
  have hlength : packet.wire.items.length = wire.items.length := rfl
  simp only [OpenWire.toItem, Item.size, Item.sizeAll_append, List.length_append, hitems, hroute,
    hlength]

/-- An accepted body has short texts. -/
theorem plain (h : ReadsAs wire packet) (hchain : packet.chain.length < 2 ^ 64) : wire.Plain := by
  have hpacket := packet.plain_wire hchain
  obtain ⟨entries, hspells, hperm⟩ := h.exists_entries
  have htag : ∀ {text : Bytes} {tag : QualifiedTag}, QualifiedTag.parse text = .ok tag →
      WireText text := by
    intro text tag hparse
    obtain ⟨-, hascii, hlength⟩ := length_of_parse hparse
    exact ⟨by omega, hascii.isUtf8⟩
  exact
    { shared :=
        { traceId := h.traceId ▸ hpacket.shared.traceId
          source := h.source ▸ hpacket.shared.source
          destination := h.destination ▸ hpacket.shared.destination
          protocol := htag (parse_of_parseCategory h.protocol)
          metadata := by
            intro pair hpair
            obtain ⟨entry, hentry, hspell⟩ := hspells.flip.exists_of_mem_right hpair
            refine ⟨htag hspell.1, ?_⟩
            have hmem : (entry.1.asStr, entry.2) ∈ packet.wire.metadata :=
              List.mem_map.mpr ⟨entry, hperm.mem_iff.mpr hentry, rfl⟩
            rw [hspell.2]
            exact (hpacket.shared.metadata _ hmem).2
          count := by
            rw [hspells.length_eq, ← hperm.length_eq]
            have hfit : packet.frame.content.2.entries.toList.length ≤ 256 :=
              packet.frame.content.2.entriesFit
            omega }
      route := h.route ▸ hpacket.route }

/-- A frame is spelled like the body it was read from if its tags have no capital letters. -/
theorem wire_eq_iff (h : ReadsAs wire packet) :
    packet.wire = wire ↔
      Uncapitalized wire.protocol ∧ ∀ pair ∈ wire.metadata, Uncapitalized pair.1 := by
  obtain ⟨entries, hspells, hperm⟩ := h.exists_entries
  have hprotocol : packet.frame.content.1.asStr = wire.protocol ↔ Uncapitalized wire.protocol :=
    CategoryTag.asStr_eq_iff h.protocol
  have hpairs : entryPairs entries = wire.metadata ↔
      ∀ pair ∈ wire.metadata, Uncapitalized pair.1 := by
    apply hspells.map_eq_iff
    intro pair entry hspell
    rw [← QualifiedTag.asStr_eq_iff hspell.1, Prod.ext_iff]
    simp [hspell.2]
  constructor
  · intro hsame
    refine ⟨hprotocol.mp (congrArg (fun sent => sent.protocol) hsame), ?_⟩
    intro pair hpair
    rw [← hsame] at hpair
    obtain ⟨entry, -, hentry⟩ := List.mem_map.mp hpair
    rw [← hentry]
    exact entry.1.uncapitalized
  · intro hparts
    obtain ⟨htext, hkeys⟩ := hparts
    have htexts : entryPairs entries = wire.metadata := hpairs.mpr hkeys
    have hsorted : entries.Pairwise (·.1 < ·.1) := by
      have hordered := h.ordered
      rw [metadataOrdered, List.allAdjacent_iff_pairwise _ (by simpa using fun _ _ _ => lt_trans),
        ← htexts, entryPairs, List.pairwise_map] at hordered
      simpa [QualifiedTag.lt_iff_asStr_lt] using hordered
    have hlist : packet.frame.content.2.entries.toList = entries :=
      hperm.eq_of_pairwise (fun a b _ _ hab hba => absurd hab (lt_asymm hba))
        packet.frame.content.2.entries.sorted hsorted
    have hmetadata : metadataPairs packet.frame.content.2 = wire.metadata := by
      rw [metadataPairs, hlist]
      exact htexts
    obtain ⟨⟨_, _, _, _, _⟩, _⟩ := wire
    simp only [OpenPacket.wire, OpenWire.mk.injEq, OpenWireV1.mk.injEq]
    exact ⟨⟨h.traceId.symm, h.source.symm, h.destination.symm, hprotocol.mpr htext, hmetadata⟩,
      h.route.symm⟩

/-- A body with a chain that an array may hold is canonical, and no other is. -/
theorem encodeCanonical_eq_ok_iff (h : ReadsAs wire packet) {body : Bytes} :
    encodeCanonical OpenWire.codec wire controlCborLimits = .ok body ↔
      packet.chain.length ≤ 1024 ∧ body = wire.toItem.encode := by
  have hchain : wire.chainLength = packet.chain.length := by
    rw [← packet.chainLength_wire, OpenWire.chainLength, OpenWire.chainLength, h.route]
    rfl
  rw [← hchain]
  apply OpenWire.encodeCanonical_eq_ok_iff (fun hlong => h.plain (by omega))
  · obtain ⟨entries, hspells, hperm⟩ := h.exists_entries
    rw [hspells.length_eq, ← hperm.length_eq]
    exact packet.frame.content.2.entriesFit
  · intro hshort
    have hsize := packet.size_wire (by omega)
    rw [h.size_eq] at hsize
    omega

/-- The decoder accepts the body of such a frame. -/
theorem decodeOpen_encode (h : ReadsAs wire packet) (hchain : packet.chain.length ≤ 1024)
    {limits : CborLimits} (hvalid : validateCanonical wire.toItem.encode limits = .ok ()) :
    decodeOpen wire.toItem.encode limits = .ok packet := by
  have hread : OpenWire.codec.decode wire.toItem.encode = some (wire, []) := by
    have hreads := OpenWire.reads (h.plain (by omega)) []
    rwa [List.append_nil] at hreads
  exact decodeOpen_eq_ok_iff.mpr ⟨wire, decodeCanonical_eq_ok_iff.mpr ⟨hvalid, hread⟩,
    h.encodeCanonical_eq_ok_iff.mpr ⟨hchain, rfl⟩, h⟩

/-- The keys of the reserved namespace are spelled in the body. -/
theorem unreserved_iff (h : ReadsAs wire packet) :
    (∀ entry ∈ packet.frame.content.2.entries.toList, ¬ entry.1.Reserved) ↔
      ∀ pair ∈ wire.metadata, ¬ SpellsReserved pair.1 := by
  obtain ⟨entries, hspells, hperm⟩ := h.exists_entries
  constructor
  · intro hkeys pair hpair
    obtain ⟨entry, hentry, hspell⟩ := hspells.flip.exists_of_mem_right hpair
    rw [← QualifiedTag.reserved_iff_spells hspell.1]
    exact hkeys entry (hperm.mem_iff.mpr hentry)
  · intro hpairs entry hentry
    obtain ⟨pair, hpair, hspell⟩ := hspells.exists_of_mem_right (hperm.mem_iff.mp hentry)
    rw [QualifiedTag.reserved_iff_spells hspell.1]
    exact hpairs pair hpair

end ReadsAs

/-- What the decoder makes of an encoded frame. -/
theorem decodeOpen_encodeOpen (hhosts : FoldedHosts) {packet other : OpenPacket} {body : Bytes}
    {limits : CborLimits} (hbody : packet.encodeOpen = .ok body) :
    decodeOpen body limits = .ok other ↔
      other = packet ∧ validateCanonical body limits = .ok () ∧ packet.chain.Nodup ∧
        ∀ entry ∈ packet.frame.content.2.entries.toList, ¬ entry.1.Reserved := by
  obtain ⟨hchain, hencode⟩ := packet.encodeOpen_eq_ok_iff.mp hbody
  have hread : OpenWire.codec.decode body = some (packet.wire, []) := by
    have hreads := OpenWire.reads (packet.plain_wire (by omega)) []
    rw [List.append_nil] at hreads
    rw [hencode]
    exact hreads
  rw [decodeOpen_eq_ok_iff]
  constructor
  · intro hparts
    obtain ⟨wire, hwire, _, hreads⟩ := hparts
    obtain ⟨hvalid, hdecode⟩ := decodeCanonical_eq_ok_iff.mp hwire
    rw [hread] at hdecode
    cases hdecode
    obtain ⟨hsame, hnodup, hkeys⟩ := (ReadsAs.wire_iff hhosts).mp hreads
    exact ⟨hsame, hvalid, hnodup, hkeys⟩
  · intro hparts
    obtain ⟨hsame, hvalid, hnodup, hkeys⟩ := hparts
    exact ⟨packet.wire, decodeCanonical_eq_ok_iff.mpr ⟨hvalid, hread⟩, hbody,
      (ReadsAs.wire_iff hhosts).mpr ⟨hsame, hnodup, hkeys⟩⟩

/-- An accepted frame is encoded again, and takes the room it took. -/
theorem encodeOpen_decodeOpen (h : decodeOpen body limits = .ok packet) :
    ∃ wire, decodeCanonical OpenWire.codec body limits = .ok wire ∧ ReadsAs wire packet ∧
      body = wire.toItem.encode ∧ packet.encodeOpen = .ok packet.wire.toItem.encode ∧
      packet.wire.toItem.encode.length = body.length := by
  obtain ⟨wire, hwire, hbody, hreads⟩ := decodeOpen_eq_ok_iff.mp h
  obtain ⟨hchain, hencode⟩ := hreads.encodeCanonical_eq_ok_iff.mp hbody
  refine ⟨wire, hwire, hreads, hencode, packet.encodeOpen_eq_ok_iff.mpr ⟨hchain, rfl⟩, ?_⟩
  rw [hencode, Item.length_encode, Item.length_encode, hreads.size_eq]

end OpenPacket

open OpenPacket

/-! ## Main results -/

/-- A frame is encoded if its chain is not longer than an array may be. The decoder reads the
    frame back, and nothing else, if the limits admit the body, the chain names no node twice and
    no metadata key is in the reserved namespace. -/
theorem open_frame_round_trip (hhosts : FoldedHosts) (packet : OpenPacket) (limits : CborLimits) :
    ((∃ body, packet.encodeOpen = .ok body) ↔ packet.chain.length ≤ 1024) ∧
    ∀ body, packet.encodeOpen = .ok body → ∀ other, decodeOpen body limits = .ok other ↔
      other = packet ∧ validateCanonical body limits = .ok () ∧ packet.chain.Nodup ∧
        ∀ entry ∈ packet.frame.content.2.entries.toList, ¬ entry.1.Reserved := by
  constructor
  · constructor
    · intro hparts
      obtain ⟨body, hbody⟩ := hparts
      exact (packet.encodeOpen_eq_ok_iff.mp hbody).1
    · intro hchain
      exact ⟨_, packet.encodeOpen_eq_ok_iff.mpr ⟨hchain, rfl⟩⟩
  · intro body hbody other
    exact decodeOpen_encodeOpen hhosts hbody

/-- What was accepted is always encoded again, at the same length. It is spelled the same if its
    tags have no capital letters, and the next decoder accepts it if no metadata key spells the
    reserved namespace. -/
theorem accepted_open_respelled (hhosts : FoldedHosts) {body : Bytes} {limits : CborLimits}
    {packet : OpenPacket} (h : decodeOpen body limits = .ok packet) :
    ∃ wire again, decodeCanonical OpenWire.codec body limits = .ok wire ∧
      packet.encodeOpen = .ok again ∧ again.length = body.length ∧
      (again = body ↔ Uncapitalized wire.protocol ∧
        ∀ pair ∈ wire.metadata, Uncapitalized pair.1) ∧
      ∀ other, decodeOpen again controlCborLimits = .ok other ↔
        other = packet ∧ ∀ pair ∈ wire.metadata, ¬ SpellsReserved pair.1 := by
  obtain ⟨wire, hwire, hreads, hbody, hagain, hlength⟩ := encodeOpen_decodeOpen h
  have hchain := (packet.encodeOpen_eq_ok_iff.mp hagain).1
  refine ⟨wire, packet.wire.toItem.encode, hwire, hagain, hlength, ?_, ?_⟩
  · rw [← hreads.wire_eq_iff]
    constructor
    · intro hsame
      have hread := OpenWire.reads (packet.plain_wire (by omega)) []
      rw [List.append_nil, hsame] at hread
      have hdecode := (decodeCanonical_eq_ok_iff.mp hwire).2
      change OpenWire.decode body = _ at hdecode
      rw [hread] at hdecode
      cases hdecode
      rfl
    · intro hsame
      rw [hsame, hbody]
  · intro other
    have hvalid := (encodeCanonical_eq_ok hagain).2.2
    rw [decodeOpen_encodeOpen hhosts hagain, hreads.unreserved_iff]
    constructor
    · intro hparts
      obtain ⟨hsame, _, _, hkeys⟩ := hparts
      exact ⟨hsame, hkeys⟩
    · intro hparts
      obtain ⟨hsame, hkeys⟩ := hparts
      exact ⟨hsame, hvalid, hreads.chain, hkeys⟩

end Packets

/-! ## Samples -/

open OpenPacket

/-- A routed frame has come from its source. -/
def sampleHops : HopState := ⟨.ofDigits 0 2, [.ofDigits 0 1, .ofDigits 0 2], 6⟩

theorem budget_sampleHops : ∀ route ∈ some sampleHops, route.remainingHops < 2 ^ 32 := by
  intro route hroute
  cases hroute
  decide

/-- A routed frame of a protocol. -/
def sampleOpen [DnsName] (protocol : ProtocolTag) (metadata : PacketMetadata) : OpenPacket :=
  ⟨⟨.ofDigits 1 2, .ofDigits 0 1, .ofDigits 0 3, (protocol, metadata), some sampleHops⟩,
    budget_sampleHops⟩

/-- An entry whose key hides its reserved namespace behind a capital letter. -/
def hiddenPair : Bytes × Bytes := (Bytes.utf8 "Radiata.woooo.tech/crypto/grant", [7])

theorem exists_echoProtocol :
    letI := DnsName.hostNames
    ∃ protocol, ProtocolTag.parse (Bytes.utf8 "example.com/protocols/echo") = .ok protocol :=
  Result.exists_of_isSome_toOption (by decide)

theorem exists_hiddenMetadata :
    letI := DnsName.hostNames
    ∃ metadata, readMetadata .new [hiddenPair] = .ok metadata :=
  Result.exists_of_isSome_toOption (by decide)

/-- A frame without metadata whose chain names two nodes. -/
theorem sampleOpen_round_trip :
    letI := DnsName.hostNames
    ∃ protocol, ProtocolTag.parse (Bytes.utf8 "example.com/protocols/echo") = .ok protocol ∧
      ∃ packet body, packet.frame = ⟨.ofDigits 1 2, .ofDigits 0 1, .ofDigits 0 3, (protocol, .new),
          some sampleHops⟩ ∧
        packet.encodeOpen = .ok body ∧ decodeOpen body controlCborLimits = .ok packet := by
  let _ := DnsName.hostNames
  obtain ⟨protocol, hprotocol⟩ := exists_echoProtocol
  refine ⟨protocol, hprotocol, sampleOpen protocol .new, ?_⟩
  obtain ⟨hencodes, hreads⟩ := open_frame_round_trip foldedHosts_hostNames (sampleOpen protocol .new)
    controlCborLimits
  obtain ⟨body, hbody⟩ := hencodes.mpr (by show 2 ≤ 1024; decide)
  refine ⟨body, rfl, hbody, (hreads body hbody _).mpr ⟨rfl, (encodeCanonical_eq_ok hbody).2.2, ?_, ?_⟩⟩
  · show [(.ofDigits 0 1 : NodeId), .ofDigits 0 2].Nodup
    decide
  · intro entry hentry
    cases hentry

/-- The next decoder refuses a frame that this one accepted. -/
theorem hiddenKey_respelled :
    letI := DnsName.hostNames
    ∃ body packet again, decodeOpen body controlCborLimits = .ok packet ∧
      packet.encodeOpen = .ok again ∧ again.length = body.length ∧ again ≠ body ∧
      ∀ other, decodeOpen again controlCborLimits ≠ .ok other := by
  let _ := DnsName.hostNames
  obtain ⟨protocol, hprotocol⟩ := exists_echoProtocol
  obtain ⟨metadata, hmetadata⟩ := exists_hiddenMetadata
  let packet := sampleOpen protocol metadata
  let sent : OpenWire :=
    ⟨⟨packet.frame.traceId.asStr, packet.frame.source.asStr, packet.frame.destination.asStr,
      Bytes.utf8 "example.com/protocols/echo", [hiddenPair]⟩, some (routeWire sampleHops)⟩
  have hreads : ReadsAs sent packet :=
    { ordered := rfl
      metadata := hmetadata
      route := rfl
      chain := by
        show [(.ofDigits 0 1 : NodeId), .ofDigits 0 2].Nodup
        decide
      traceId := rfl
      source := rfl
      destination := rfl
      protocol := hprotocol }
  have hcanonical := hreads.encodeCanonical_eq_ok_iff.mpr ⟨by show 2 ≤ 1024; decide, rfl⟩
  have hdecode := hreads.decodeOpen_encode (by show 2 ≤ 1024; decide)
    (encodeCanonical_eq_ok hcanonical).2.2
  obtain ⟨wire, again, hwire, hagain, hlength, hsame, hnext⟩ :=
    accepted_open_respelled foldedHosts_hostNames hdecode
  have hsent : wire = sent := by
    have hread := OpenWire.reads (hreads.plain (by show 2 < 2 ^ 64; decide)) []
    rw [List.append_nil] at hread
    have hfound := (decodeCanonical_eq_ok_iff.mp hwire).2
    change OpenWire.decode _ = _ at hfound
    rw [hread] at hfound
    cases hfound
    rfl
  refine ⟨_, packet, again, hdecode, hagain, hlength, ?_, ?_⟩
  · intro heq
    have hkeys := (hsame.mp heq).2 hiddenPair (by rw [hsent]; exact List.mem_cons_self ..)
    have hcapital := hkeys 0x52 (by decide)
    exact absurd hcapital (by decide)
  · intro other hother
    have hkeys := ((hnext other).mp hother).2 hiddenPair (by rw [hsent]; exact List.mem_cons_self ..)
    exact hkeys ⟨Bytes.utf8 "Radiata.woooo.tech", Bytes.utf8 "grant", by decide, by decide⟩

end Radiata
