import Radiata.ForStd.Delimited
import Radiata.ForStd.List
import Radiata.Native.Opening

/-!
# What an opening digest separates

`opening_context_digest` writes the metadata with separators and does not escape them in the
values, and it writes the protocol directly in front of the first key. Two openings have the same
bytes where the entries of both are groupings of one list.

## Key results

- `OpeningContext.bytes_eq_iff`: the openings that have the same bytes
- `opening_separated_iff`: when the bytes of two openings tell them apart
-/

namespace Radiata

section Opening

variable [DnsName]

/-- The `domain` crate takes printable characters only. -/
def PrintableHosts : Prop := ∀ host, DnsName.parses host = true → ∀ b ∈ host, 0x20 ≤ b

theorem printable_of_validNameComponent {component : Bytes}
    (h : validNameComponent component = true) : ∀ b ∈ component, 0x20 ≤ b := by
  intro b hb
  unfold validNameComponent at h
  split at h
  · cases h
  · rw [Bool.and_eq_true, List.all_eq_true] at h
    have hbyte := h.2 b hb
    simp only [isAsciiLowercase, isAsciiDigit, Bool.or_eq_true, Bool.and_eq_true, decide_eq_true_eq,
      beq_iff_eq, UInt8.le_iff_toNat_le, UInt8.reduceToNat] at hbyte ⊢
    rcases hbyte with (hletter | hdigit) | rfl
    · omega
    · omega
    · decide

theorem toAsciiLowercase_printable {b : UInt8} (h : 0x20 ≤ b) : 0x20 ≤ toAsciiLowercase b := by
  unfold toAsciiLowercase
  split
  · rename_i hupper
    simp only [isAsciiUppercase, Bool.and_eq_true, decide_eq_true_eq, UInt8.le_iff_toNat_le,
      UInt8.reduceToNat] at hupper
    simp only [UInt8.le_iff_toNat_le, UInt8.toNat_add, UInt8.reduceToNat]
    omega
  · exact h

theorem QualifiedTag.printable (hhosts : PrintableHosts) (tag : QualifiedTag) :
    ∀ b ∈ tag.asStr, 0x20 ≤ b := by
  obtain ⟨host, category, name, hvalue, -, -, -, -, hhost, hcategory, hname⟩ := tag.value_eq
  intro b hb
  rw [asStr, hvalue] at hb
  simp only [List.mem_append, List.mem_cons, List.mem_map] at hb
  rcases hb with ⟨c, hc, rfl⟩ | rfl | hb | rfl | hb
  · exact toAsciiLowercase_printable (hhosts host hhost c hc)
  · decide
  · exact printable_of_validNameComponent hcategory b hb
  · decide
  · exact printable_of_validNameComponent hname b hb

theorem notMem_of_printable {text : Bytes} (h : ∀ b ∈ text, 0x20 ≤ b) : 1 ∉ text ∧ 2 ∉ text :=
  ⟨fun hmem => absurd (h 1 hmem) (by decide), fun hmem => absurd (h 2 hmem) (by decide)⟩

namespace OpeningContext

/-- The entries as texts, the protocol in front of the first key. -/
def textPairs (opening : OpeningContext) : List (Bytes × Bytes) :=
  match opening.metadata.entries.toList with
  | [] => []
  | entry :: rest =>
    (opening.protocol.asStr ++ entry.1.asStr, entry.2) :: rest.map (Prod.map QualifiedTag.asStr id)

/-- Two openings with the same end points whose entries are groupings of one list: where one of
    them has several entries, the other one may have them in the value of one entry, and the
    protocol and the first key may be divided in different places. -/
def Regrouped (opening other : OpeningContext) : Prop :=
  opening.source = other.source ∧ opening.destination = other.destination ∧
    ∃ pairs, pairs ≠ [] ∧ Bytes.Regroups 1 2 pairs opening.textPairs ∧
      Bytes.Regroups 1 2 pairs other.textPairs

/-- What the bytes have after the end points. -/
def content (opening : OpeningContext) : Bytes :=
  opening.protocol.asStr ++
    opening.metadata.entries.toList.flatMap fun entry => entry.1.asStr ++ 1 :: (entry.2 ++ [2])

variable {opening : OpeningContext}

theorem content_of_nil (h : opening.metadata.entries.toList = []) :
    opening.content = opening.protocol.asStr := by
  rw [content, h, List.flatMap_nil, List.append_nil]

theorem content_of_ne_nil (h : opening.metadata.entries.toList ≠ []) :
    opening.content = Bytes.delimited 1 2 opening.textPairs := by
  unfold content textPairs
  cases hentries : opening.metadata.entries.toList with
  | nil => exact absurd hentries h
  | cons entry rest =>
    simp [Bytes.delimited, List.flatMap_map]

theorem keysFree_textPairs (hhosts : PrintableHosts) (opening : OpeningContext) :
    Bytes.KeysFree 1 2 opening.textPairs := by
  unfold textPairs
  cases opening.metadata.entries.toList with
  | nil =>
    intro pair hpair
    cases hpair
  | cons entry rest =>
    have hfirst : ∀ b ∈ opening.protocol.asStr ++ entry.1.asStr, 0x20 ≤ b := by
      intro b hb
      cases List.mem_append.mp hb with
      | inl hb => exact opening.protocol.tag.printable hhosts b hb
      | inr hb => exact entry.1.printable hhosts b hb
    apply Bytes.KeysFree.cons (notMem_of_printable hfirst).1 (notMem_of_printable hfirst).2
    intro pair hpair
    obtain ⟨other, -, rfl⟩ := List.mem_map.mp hpair
    exact notMem_of_printable (other.1.printable hhosts)

variable {other : OpeningContext}

/-- Ids are of one length, so the bytes tell the end points apart. -/
theorem bytes_eq_iff_content :
    opening.bytes = other.bytes ↔ opening.source = other.source ∧
      opening.destination = other.destination ∧ opening.content = other.content := by
  unfold bytes
  constructor
  · intro h
    obtain ⟨hsource, h⟩ := List.append_inj h
      (by rw [NodeId.length_asStr, NodeId.length_asStr])
    obtain ⟨hdestination, h⟩ := List.append_inj (List.cons.inj h).2
      (by rw [NodeId.length_asStr, NodeId.length_asStr])
    exact ⟨CanonicalId.ext_asStr hsource, CanonicalId.ext_asStr hdestination,
      (List.cons.inj h).2⟩
  · intro ⟨hsource, hdestination, hcontent⟩
    rw [hsource, hdestination]
    exact congrArg (fun content => _ ++ 0 :: (_ ++ 0 :: content)) hcontent

theorem textPairs_eq_nil_iff :
    opening.textPairs = [] ↔ opening.metadata.entries.toList = [] := by
  unfold textPairs
  cases opening.metadata.entries.toList <;> simp

/-- An entry brings a separator, which no protocol has. -/
theorem content_ne_of_nil (hhosts : PrintableHosts) (h : opening.metadata.entries.toList = [])
    (hother : other.metadata.entries.toList ≠ []) :
    opening.content ≠ other.content := by
  intro heq
  have hfree := (notMem_of_printable (opening.protocol.tag.printable hhosts)).1
  obtain ⟨entry, rest, hentries⟩ := List.exists_cons_of_ne_nil hother
  have hmem : (1 : UInt8) ∈ other.content := by
    rw [content, hentries]
    simp
  rw [← heq, content_of_nil h] at hmem
  exact hfree hmem

theorem ext_of_nil (hsource : opening.source = other.source)
    (hdestination : opening.destination = other.destination)
    (hprotocol : opening.protocol = other.protocol) (h : opening.metadata.entries.toList = [])
    (hother : other.metadata.entries.toList = []) :
    opening = other := by
  have hentries : opening.metadata.entries = other.metadata.entries := by
    cases hleft : opening.metadata.entries
    cases hright : other.metadata.entries
    simp_all
  have hmetadata := PacketMetadata.ext_entries hentries
  cases opening
  cases other
  simp_all

/-- The openings that have the same bytes. -/
theorem bytes_eq_iff (hhosts : PrintableHosts) :
    opening.bytes = other.bytes ↔ opening = other ∨ opening.Regrouped other := by
  constructor
  · intro h
    obtain ⟨hsource, hdestination, hcontent⟩ := bytes_eq_iff_content.mp h
    by_cases hnil : opening.metadata.entries.toList = []
    · by_cases hother : other.metadata.entries.toList = []
      · left
        rw [content_of_nil hnil, content_of_nil hother] at hcontent
        exact ext_of_nil hsource hdestination (CategoryTag.ext_asStr hcontent) hnil hother
      · exact absurd hcontent (content_ne_of_nil hhosts hnil hother)
    · by_cases hother : other.metadata.entries.toList = []
      · exact absurd hcontent.symm (content_ne_of_nil hhosts hother hnil)
      · right
        rw [content_of_ne_nil hnil, content_of_ne_nil hother] at hcontent
        obtain ⟨pairs, hpairs, hpairs'⟩ := Bytes.exists_regroups (by decide)
          (keysFree_textPairs hhosts opening) (keysFree_textPairs hhosts other) hcontent
        refine ⟨hsource, hdestination, pairs, fun hempty => ?_, hpairs, hpairs'⟩
        exact hnil (textPairs_eq_nil_iff.mp (hpairs.nil_iff.mp hempty))
  · intro h
    cases h with
    | inl heq => rw [heq]
    | inr hregrouped =>
      obtain ⟨hsource, hdestination, pairs, hpairs, hopening, hother⟩ := hregrouped
      have hopening' : opening.metadata.entries.toList ≠ [] :=
        fun hnil => hpairs (hopening.nil_iff.mpr (textPairs_eq_nil_iff.mpr hnil))
      have hother' : other.metadata.entries.toList ≠ [] :=
        fun hnil => hpairs (hother.nil_iff.mpr (textPairs_eq_nil_iff.mpr hnil))
      rw [bytes_eq_iff_content, content_of_ne_nil hopening', content_of_ne_nil hother',
        ← hopening.delimited_eq, hother.delimited_eq]
      exact ⟨hsource, hdestination, rfl⟩

end OpeningContext

/-- The bytes of two openings tell them apart exactly if they are equal or their entries are not
    groupings of one list. -/
theorem opening_separated_iff (hhosts : PrintableHosts) (opening other : OpeningContext) :
    (opening.bytes = other.bytes → opening = other) ↔
      opening = other ∨ ¬ opening.Regrouped other := by
  rw [OpeningContext.bytes_eq_iff hhosts]
  tauto

end Opening

/-! ## Two entries in one value -/

theorem printableHosts_hostNames : @PrintableHosts .hostNames := by
  let _ := DnsName.hostNames
  intro host hhost b hb
  have hlabels := (Bool.and_eq_true_iff.mp hhost).2
  rw [List.all_eq_true] at hlabels
  have hjoin : [0x2E].intercalate (host.splitOn 0x2E) = host := List.intercalate_splitOn 0x2E
  rw [← hjoin] at hb
  rcases List.mem_intercalate_singleton hb with rfl | ⟨label, hlabel, hmem⟩
  · decide
  · have hall := hlabels label hlabel
    simp only [Bool.and_eq_true, List.all_eq_true] at hall
    have hbyte := hall.2 b hmem
    simp only [isAsciiAlphanumeric, isAsciiLowercase, isAsciiUppercase, isAsciiDigit,
      Bool.or_eq_true, Bool.and_eq_true, decide_eq_true_eq, beq_iff_eq, UInt8.le_iff_toNat_le,
      UInt8.reduceToNat] at hbyte ⊢
    rcases hbyte with ((h | h) | h) | rfl
    · omega
    · omega
    · omega
    · decide

section Samples

def sampleProtocol : @ProtocolTag .hostNames :=
  letI := DnsName.hostNames
  ⟨⟨Bytes.utf8 "example.org/protocols/echo", 11, 21, Bytes.utf8 "example.org/protocols/echo",
    by decide⟩, by decide⟩

/-- Two keys of a packet's metadata. -/
def firstKey : @QualifiedTag .hostNames :=
  letI := DnsName.hostNames
  ⟨Bytes.utf8 "example.org/labels/a", 11, 18, Bytes.utf8 "example.org/labels/a", by decide⟩

def secondKey : @QualifiedTag .hostNames :=
  letI := DnsName.hostNames
  ⟨Bytes.utf8 "example.org/labels/b", 11, 18, Bytes.utf8 "example.org/labels/b", by decide⟩

def openingNode : NodeId := ⟨Bytes.utf8 "node_000000000000000000001", by decide⟩

/-- An opening with two entries. -/
def twoEntries : @OpeningContext .hostNames :=
  letI := DnsName.hostNames
  ⟨openingNode, openingNode, sampleProtocol,
    ⟨⟨[(firstKey, [7]), (secondKey, [8])], by decide⟩, 42, by decide, by decide, by decide⟩⟩

/-- The opening with both entries in one value. -/
def oneEntry : @OpeningContext .hostNames :=
  letI := DnsName.hostNames
  ⟨openingNode, openingNode, sampleProtocol,
    ⟨⟨[(firstKey, [7, 2] ++ secondKey.asStr ++ [1, 8])], by decide⟩, 44, by decide, by decide,
      by decide⟩⟩

/-- The opening without the second entry. -/
def firstEntry : @OpeningContext .hostNames :=
  letI := DnsName.hostNames
  ⟨openingNode, openingNode, sampleProtocol,
    ⟨⟨[(firstKey, [7])], by decide⟩, 21, by decide, by decide, by decide⟩⟩

/-- Openings of different entries that the bytes tell apart. -/
theorem firstEntry_separated :
    letI := DnsName.hostNames
    firstEntry.bytes ≠ twoEntries.bytes ∧ ¬ firstEntry.Regrouped twoEntries := by
  let _ := DnsName.hostNames
  have hbytes : firstEntry.bytes ≠ twoEntries.bytes := by decide +kernel
  have hdifferent : firstEntry ≠ twoEntries := fun heq => hbytes (congrArg _ heq)
  have hseparated := (opening_separated_iff printableHosts_hostNames firstEntry twoEntries).mp
    fun heq => absurd heq hbytes
  exact ⟨hbytes, hseparated.resolve_left hdifferent⟩

/-- An entry in the value of another one has the bytes of both entries. -/
theorem oneEntry_confused :
    letI := DnsName.hostNames
    twoEntries.bytes = oneEntry.bytes ∧ twoEntries ≠ oneEntry := by
  let _ := DnsName.hostNames
  refine ⟨by decide +kernel, ?_⟩
  intro heq
  exact absurd (congrArg (fun opening => opening.metadata.totalBytes) heq) (by decide)

end Samples

end Radiata
