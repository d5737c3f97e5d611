import Radiata.Native.Tag

/-!
# Parsed tags are canonical

`QualifiedTag::parse` checks the text it is given and keeps the text with its
domain folded to lowercase. What it keeps is its own canonical spelling, except
for one kind of text: the reserved namespace is compared before the fold, so a
capital letter in the builtin domain hides it from the check.

## Key results

- `QualifiedTag.asStr_eq_iff`: the texts that are their own canonical spelling
- `reparses_iff`: the tags whose text parses to them again
- `canonicalTag_iff`: the texts whose tag is canonical
-/

namespace Radiata

section Reserved

variable [DnsName]

/-- The parser of DNS names ignores the case of letters. -/
def CaseInsensitiveHosts : Prop :=
  ∀ host, DnsName.parses (host.map toAsciiLowercase) = DnsName.parses host

theorem CaseInsensitiveHosts.folded (h : CaseInsensitiveHosts) : FoldedHosts := by
  intro host hparses
  rw [h host]
  exact hparses

/-- Two texts of tags that differ only in the case of their domains. -/
def SameButDomainCase (a b : Bytes) : Prop :=
  ∃ hostA hostB rest : Bytes, slash ∉ hostA ∧ slash ∉ hostB ∧
    a = hostA ++ slash :: rest ∧ b = hostB ++ slash :: rest ∧
    hostA.map toAsciiLowercase = hostB.map toAsciiLowercase

/-- What a caller relies on of the tag it parsed from a text. -/
structure CanonicalTag (text : Bytes) (tag : QualifiedTag) : Prop where
  /-- The tag reads back from its text, component by component. -/
  readsBack : ∃ again, QualifiedTag.parse tag.asStr = .ok again ∧ again = tag ∧
    again.domain = tag.domain ∧ again.category = tag.category ∧ again.name = tag.name
  /-- The case of the domain does not matter. -/
  caseless : ∀ other tag', SameButDomainCase text other →
    QualifiedTag.parse other = .ok tag' → tag' = tag
  /-- The tag is no signature domain. -/
  unreserved : ¬ tag.Reserved

/-- The texts of the reserved namespace, in any spelling of the builtin domain. -/
def SpellsReserved (text : Bytes) : Prop :=
  ∃ host name : Bytes, host.map toAsciiLowercase = builtinDomain ∧
    text = host ++ slash :: (categoryCrypto ++ slash :: name)

end Reserved

/-! ## Spellings that are kept -/

/-- A text without capital letters. -/
def Uncapitalized (text : Bytes) : Prop := ∀ b ∈ text, isAsciiUppercase b = false

theorem toAsciiLowercase_eq_self_iff {b : UInt8} :
    toAsciiLowercase b = b ↔ isAsciiUppercase b = false := by
  by_cases hupper : isAsciiUppercase b = true
  · rw [toAsciiLowercase, if_pos hupper, hupper]
    simp only [Bool.true_eq_false, iff_false]
    intro heq
    have hnat := congrArg UInt8.toNat heq
    simp only [UInt8.toNat_add, UInt8.reduceToNat] at hnat
    omega
  · rw [toAsciiLowercase, if_neg hupper]
    simpa using hupper

theorem map_toAsciiLowercase_eq_self_iff {text : Bytes} :
    text.map toAsciiLowercase = text ↔ Uncapitalized text := by
  induction text with
  | nil => simp [Uncapitalized]
  | cons b text ih =>
    simp only [Uncapitalized, List.map_cons, List.cons.injEq, List.forall_mem_cons,
      toAsciiLowercase_eq_self_iff] at ih ⊢
    rw [ih]

/-- Folding leaves a valid component as it is. -/
theorem map_of_validNameComponent {component : Bytes}
    (h : validNameComponent component = true) : component.map toAsciiLowercase = component := by
  rw [map_toAsciiLowercase_eq_self_iff]
  unfold validNameComponent at h
  split at h
  · cases h
  · simp only [Bool.and_eq_true, List.all_eq_true] at h
    intro b hb
    have hbyte := h.2 b hb
    simp only [isAsciiLowercase, isAsciiDigit, isAsciiUppercase, Bool.or_eq_true, Bool.and_eq_true,
      Bool.and_eq_false_iff, beq_iff_eq, decide_eq_true_eq, decide_eq_false_iff_not,
      UInt8.le_iff_toNat_le, UInt8.reduceToNat] at hbyte ⊢
    rcases hbyte with (hbyte | hbyte) | rfl
    · omega
    · omega
    · decide

section Spellings

variable [DnsName]

/-- A parsed tag keeps its text unless that has a capital letter. -/
theorem QualifiedTag.asStr_eq_iff {text : Bytes} {tag : QualifiedTag}
    (h : QualifiedTag.parse text = .ok tag) : tag.asStr = text ↔ Uncapitalized text := by
  obtain ⟨host, category, name, htext, hvalue, -, -, -, -, -, -, hcategory, hname, -⟩ :=
    parseTagFields_eq_ok (asStr_of_parse h)
  rw [← map_toAsciiLowercase_eq_self_iff, htext, hvalue]
  have hslash : toAsciiLowercase slash = slash := by decide
  simp only [List.map_append, List.map_cons, hslash, map_of_validNameComponent hcategory,
    map_of_validNameComponent hname]

theorem CategoryTag.asStr_eq_iff {category : Bytes} {context : String} {text : Bytes}
    {tag : CategoryTag category} (h : CategoryTag.parse context text = .ok tag) :
    tag.asStr = text ↔ Uncapitalized text := by
  obtain ⟨parsed, hparse, h⟩ := Result.bind_eq_ok.mp h
  split at h
  · cases h
    exact QualifiedTag.asStr_eq_iff hparse
  · cases h

/-- The text of a tag has no capital letters. -/
theorem QualifiedTag.uncapitalized (tag : QualifiedTag) : Uncapitalized tag.asStr := by
  obtain ⟨host, category, name, hvalue, -, -, -, -, -, hcategory, hname⟩ := tag.value_eq
  have hslash : toAsciiLowercase slash = slash := by decide
  have hidem : toAsciiLowercase ∘ toAsciiLowercase = toAsciiLowercase :=
    funext toAsciiLowercase_idem
  rw [← map_toAsciiLowercase_eq_self_iff, asStr, hvalue]
  simp only [List.map_append, List.map_cons, List.map_map, hslash, hidem,
    map_of_validNameComponent hcategory, map_of_validNameComponent hname]

end Spellings

/-- Folding neither adds nor removes the separator. -/
theorem slash_mem_map_toAsciiLowercase {host : Bytes} :
    slash ∈ host.map toAsciiLowercase ↔ slash ∈ host := by
  constructor
  · intro hmem
    obtain ⟨b, hb, hlow⟩ := List.mem_map.mp hmem
    exact eq_of_toAsciiLowercase_eq (by decide) hlow ▸ hb
  · intro hmem
    exact List.mem_map.mpr ⟨slash, hmem, by decide⟩

section Canonical

variable [DnsName]

namespace QualifiedTag

/-- The tags that do not read back are those of the reserved namespace. -/
theorem reparses_iff (hhosts : FoldedHosts) (tag : QualifiedTag) :
    tag.Reparses ↔ ¬ tag.Reserved := by
  constructor
  · intro hparse hreserved
    obtain ⟨host, category, name, c⟩ := components_of_parse hparse
    -- the text has no capital letter, so that the check sees the domain as the tag keeps it
    have hhost : host.map toAsciiLowercase = host := by
      rw [map_toAsciiLowercase_eq_self_iff]
      intro b hb
      apply tag.uncapitalized
      rw [c.text_eq]
      exact List.mem_append_left _ hb
    apply c.accepted.unreserved
    exact ⟨by rw [← hhost, ← c.domain_eq]; exact hreserved.1, c.category_eq.symm.trans hreserved.2⟩
  · exact reparses_of_unreserved hhosts tag

/-- Texts that differ only in the case of the domain give one tag. -/
theorem eq_of_sameButDomainCase {a b : Bytes} {s t : QualifiedTag} (hsame : SameButDomainCase a b)
    (hs : parse a = .ok s) (ht : parse b = .ok t) : t = s := by
  obtain ⟨hostA, hostB, rest, hbareA, hbareB, rfl, rfl, hfold⟩ := hsame
  obtain ⟨host, category, name, cs⟩ := components_of_parse hs
  obtain ⟨host', category', name', ct⟩ := components_of_parse ht
  obtain ⟨rfl, hrest⟩ := Bytes.append_cons_inj_of_notMem hbareA cs.hostBare cs.text_eq
  obtain ⟨rfl, hrest'⟩ := Bytes.append_cons_inj_of_notMem hbareB ct.hostBare ct.text_eq
  apply ext_asStr
  rw [cs.asStr_eq, ct.asStr_eq, hfold, ← hrest, ← hrest']

/-- The tags of the reserved namespace are those of its spellings. -/
theorem reserved_iff_spells {text : Bytes} {tag : QualifiedTag} (h : parse text = .ok tag) :
    tag.Reserved ↔ SpellsReserved text := by
  obtain ⟨host, category, name, c⟩ := components_of_parse h
  unfold Reserved SpellsReserved
  rw [c.domain_eq, c.category_eq]
  constructor
  · intro hreserved
    exact ⟨host, name, hreserved.1, by rw [c.text_eq, hreserved.2]⟩
  · intro hspells
    obtain ⟨host', name', hfold, htext⟩ := hspells
    have hbuiltin : slash ∉ builtinDomain := by decide
    have hbare : slash ∉ host' := by
      rw [← slash_mem_map_toAsciiLowercase, hfold]
      exact hbuiltin
    have hcrypto : slash ∉ categoryCrypto := by decide
    obtain ⟨rfl, hrest⟩ := Bytes.append_cons_inj_of_notMem c.hostBare hbare (c.text_eq ▸ htext)
    obtain ⟨rfl, -⟩ := Bytes.append_cons_inj_of_notMem c.categoryBare hcrypto hrest
    exact ⟨hfold, rfl⟩

end QualifiedTag

/-- A parsed tag is canonical exactly when the text it was parsed from does not
    spell the reserved namespace. -/
theorem canonicalTag_iff (hhosts : CaseInsensitiveHosts) (text : Bytes) (tag : QualifiedTag)
    (h : QualifiedTag.parse text = .ok tag) : CanonicalTag text tag ↔ ¬ SpellsReserved text := by
  rw [← QualifiedTag.reserved_iff_spells h]
  constructor
  · intro hcanonical
    exact hcanonical.unreserved
  · intro hunreserved
    have hreparses := QualifiedTag.reparses_of_unreserved hhosts.folded tag hunreserved
    exact
      { readsBack := ⟨tag, hreparses, rfl, rfl, rfl, rfl⟩
        caseless := fun _ _ hsame hother => QualifiedTag.eq_of_sameButDomainCase hsame h hother
        unreserved := hunreserved }

end Canonical

/-- Folding keeps a byte inside the alphabet of host names, or outside it. -/
theorem isHostByte_toAsciiLowercase (b : UInt8) :
    (isAsciiAlphanumeric (toAsciiLowercase b) || toAsciiLowercase b == 0x2D) =
      (isAsciiAlphanumeric b || b == 0x2D) := by
  by_cases hupper : isAsciiUppercase b = true
  · have hlower : isAsciiLowercase (b + 0x20) = true := by
      simp only [isAsciiUppercase, isAsciiLowercase, Bool.and_eq_true, decide_eq_true_eq,
        UInt8.le_iff_toNat_le, UInt8.toNat_add, UInt8.reduceToNat] at hupper ⊢
      omega
    rw [toAsciiLowercase, if_pos hupper]
    simp [isAsciiAlphanumeric, hlower, hupper]
  · rw [toAsciiLowercase, if_neg hupper]

/-- The sample grammar ignores the case of letters both ways. -/
theorem caseInsensitiveHosts_hostNames : @CaseInsensitiveHosts .hostNames := by
  intro host
  have hlabel : ∀ label : Bytes,
      (label.map toAsciiLowercase).all (fun b => isAsciiAlphanumeric b || b == 0x2D) =
        label.all (fun b => isAsciiAlphanumeric b || b == 0x2D) := by
    intro label
    rw [List.all_map]
    congr 1
    funext b
    exact isHostByte_toAsciiLowercase b
  simp only [DnsName.parses]
  rw [splitOn_map_toAsciiLowercase (by decide) (by decide), List.length_map, List.all_map]
  congr 2
  funext label
  simp only [Function.comp_apply, List.length_map, hlabel]

/-- A text with a capital in an ordinary domain. -/
theorem exampleTag_canonical :
    letI := DnsName.hostNames
    ∃ tag, QualifiedTag.parse (Bytes.utf8 "Example.com/features/work") = .ok tag ∧
      CanonicalTag (Bytes.utf8 "Example.com/features/work") tag := by
  let _ := DnsName.hostNames
  obtain ⟨tag, hparse, hvalue⟩ := QualifiedTag.parse_of_fields
    (show parseTagFields (Bytes.utf8 "Example.com/features/work") =
      .ok (Bytes.utf8 "example.com/features/work", 11, 20) by decide)
  refine ⟨tag, hparse, ?_⟩
  apply (canonicalTag_iff caseInsensitiveHosts_hostNames _ tag hparse).mpr
  intro hspells
  obtain ⟨host, name, hfold, htext⟩ := hspells
  -- The text is too short for the builtin domain and the reserved category.
  have hhost := congrArg List.length hfold
  have hlength := congrArg List.length htext
  have hbuiltin : builtinDomain.length = 18 := by decide
  have hcrypto : categoryCrypto.length = 6 := by decide
  have hshort : (Bytes.utf8 "Example.com/features/work").length = 25 := by decide
  rw [List.length_map] at hhost
  simp only [List.length_append, List.length_cons] at hlength
  omega

/-- A capital in the builtin domain gives a signature domain, and a tag whose own
    text is refused. -/
theorem capitalReserved_accepted :
    letI := DnsName.hostNames
    ∃ tag, QualifiedTag.parse (Bytes.utf8 "Radiata.woooo.tech/crypto/grant") = .ok tag ∧
      tag.Reserved ∧ (∀ again, QualifiedTag.parse tag.asStr ≠ .ok again) ∧
      ¬ CanonicalTag (Bytes.utf8 "Radiata.woooo.tech/crypto/grant") tag := by
  let _ := DnsName.hostNames
  obtain ⟨tag, hparse, hvalue⟩ := QualifiedTag.parse_of_fields
    (show parseTagFields (Bytes.utf8 "Radiata.woooo.tech/crypto/grant") =
      .ok (Bytes.utf8 "radiata.woooo.tech/crypto/grant", 18, 25) by decide)
  have hreserved : tag.Reserved := (QualifiedTag.reserved_iff_spells hparse).mpr
    ⟨Bytes.utf8 "Radiata.woooo.tech", Bytes.utf8 "grant", by decide, by decide⟩
  refine ⟨tag, hparse, hreserved, ?_, fun hcanonical => hcanonical.unreserved hreserved⟩
  intro again hagain
  have hfields := QualifiedTag.asStr_of_parse hagain
  rw [hvalue] at hfields
  have hrefused : parseTagFields (Bytes.utf8 "radiata.woooo.tech/crypto/grant") =
      .error (.invalidInput "qualified tag") := by decide
  rw [hrefused] at hfields
  cases hfields

end Radiata
