import Radiata.ForStd.Bytes
import Radiata.Native.Error
import Mathlib.Data.Prod.Lex

/-!
# Qualified tags

`src/protocol/tag.rs`: a qualified tag is `domain/category/name` with a DNS
hostname for the domain and lowercase components. The DNS grammar is owned by
the `domain` crate; the model takes its acceptance test as the parameter
`DnsName`.

A `QualifiedTag` can only be obtained from `QualifiedTag.parse`, so the structure
carries the text it was parsed from.
-/

namespace Radiata

/-- The DNS name grammar of the `domain` crate. -/
class DnsName where
  /-- `host.parse::<domain::base::name::Name<Vec<u8>>>().is_ok()` -/
  parses : Bytes → Bool

def minTagLen : Nat := 5
def maxTagLen : Nat := 128
def maxComponentLen : Nat := 63

/-- The builtin domain, whose `crypto` category is reserved. -/
def builtinDomain : Bytes := Bytes.utf8 "radiata.woooo.tech"
def categoryCrypto : Bytes := Bytes.utf8 "crypto"
def categoryMetadata : Bytes := Bytes.utf8 "metadata"
def categoryLimits : Bytes := Bytes.utf8 "limits"
def categoryFeatures : Bytes := Bytes.utf8 "features"
def categoryProtocols : Bytes := Bytes.utf8 "protocols"

/-- The character `/` between the components of a tag. -/
def slash : UInt8 := 0x2F

def isAsciiLowercase (b : UInt8) : Bool := 0x61 ≤ b && b ≤ 0x7A
def isAsciiUppercase (b : UInt8) : Bool := 0x41 ≤ b && b ≤ 0x5A
def isAsciiDigit (b : UInt8) : Bool := 0x30 ≤ b && b ≤ 0x39

def isAsciiAlphanumeric (b : UInt8) : Bool :=
  isAsciiLowercase b || isAsciiUppercase b || isAsciiDigit b

/-- A grammar to evaluate the model with: dot-separated labels of 1 to 63 letters,
    digits and hyphens. The crate accepts every such name, and further ones. -/
@[reducible] def DnsName.hostNames : DnsName where
  parses host := host.length ≤ 253 && (host.splitOn 0x2E).all fun label =>
    1 ≤ label.length && label.length ≤ 63 && label.all fun b => isAsciiAlphanumeric b || b == 0x2D

def toAsciiLowercase (b : UInt8) : UInt8 := if isAsciiUppercase b then b + 0x20 else b

/-- Folding produces nothing but lowercase letters. -/
theorem eq_of_toAsciiLowercase_eq {b c : UInt8} (hc : isAsciiLowercase c = false)
    (h : toAsciiLowercase b = c) : b = c := by
  by_cases hup : isAsciiUppercase b = true
  · rw [toAsciiLowercase, if_pos hup] at h
    simp only [isAsciiUppercase, Bool.and_eq_true, decide_eq_true_eq, UInt8.le_iff_toNat_le,
      UInt8.reduceToNat] at hup
    have hnat := congrArg UInt8.toNat h
    simp only [UInt8.toNat_add, UInt8.reduceToNat] at hnat
    simp only [isAsciiLowercase, Bool.and_eq_false_iff, decide_eq_false_iff_not,
      UInt8.le_iff_toNat_le, UInt8.reduceToNat] at hc
    omega
  · rwa [toAsciiLowercase, if_neg hup] at h

theorem toAsciiLowercase_lt {b : UInt8} (h : b < 0x80) : toAsciiLowercase b < 0x80 := by
  simp only [toAsciiLowercase]
  split
  · rename_i hupper
    simp only [isAsciiUppercase, Bool.and_eq_true, decide_eq_true_eq, UInt8.le_iff_toNat_le,
      UInt8.reduceToNat] at hupper
    simp only [UInt8.lt_iff_toNat_lt, UInt8.toNat_add, UInt8.reduceToNat]
    omega
  · exact h

section Grammar

variable [DnsName]

def validDnsHostname (host : Bytes) : Bool := !host.isEmpty && DnsName.parses host

def validNameComponent (component : Bytes) : Bool :=
  if component.isEmpty || component.length > maxComponentLen then false
  else
    component.head?.any isAsciiLowercase
      && component.getLast?.any isAsciiAlphanumeric
      && component.all (fun b => isAsciiLowercase b || isAsciiDigit b || b == 0x2D)

/-- `validate_tag`: the end offsets of the domain and of the category. -/
def validateTag (value : Bytes) : Result (Nat × Nat) :=
  if ¬ (minTagLen ≤ value.length ∧ value.length ≤ maxTagLen) ∨ ¬ value.all (· < 0x80) then
    .error (.invalidInput "qualified tag")
  else
    match value.splitOn slash with
    | [domain, category, name] =>
      if !validDnsHostname domain || !validNameComponent category || !validNameComponent name
          || (domain == builtinDomain && category == categoryCrypto) then
        .error (.invalidInput "qualified tag")
      else
        .ok (domain.length, domain.length + 1 + category.length)
    | _ => .error (.invalidInput "qualified tag")

/-- The fields `QualifiedTag::parse` computes: the text with its domain folded to
    lowercase, and the two offsets. -/
def parseTagFields (value : Bytes) : Result (Bytes × Nat × Nat) := do
  let (domainEnd, categoryEnd) ← validateTag value
  let domain := (value.take domainEnd).map toAsciiLowercase
  return (domain ++ value.drop domainEnd, domainEnd, categoryEnd)

end Grammar

/-- A parsed tag: the fields of some accepted text. -/
structure QualifiedTag [DnsName] where
  value : Bytes
  domainEnd : Nat
  categoryEnd : Nat
  parsed : ∃ text, parseTagFields text = .ok (value, domainEnd, categoryEnd)
  deriving DecidableEq

namespace QualifiedTag

variable [DnsName]

def parse (text : Bytes) : Result QualifiedTag :=
  match h : parseTagFields text with
  | .ok (value, domainEnd, categoryEnd) => .ok ⟨value, domainEnd, categoryEnd, text, h⟩
  | .error e => .error e

def asStr (tag : QualifiedTag) : Bytes := tag.value
def domain (tag : QualifiedTag) : Bytes := tag.value.take tag.domainEnd
def category (tag : QualifiedTag) : Bytes :=
  (tag.value.take tag.categoryEnd).drop (tag.domainEnd + 1)
def name (tag : QualifiedTag) : Bytes := tag.value.drop (tag.categoryEnd + 1)

/-! ## The shape of a parsed tag -/

/-- What `parse` accepts, and the fields it computes. -/
theorem parseTagFields_eq_ok {text value : Bytes} {domainEnd categoryEnd : Nat}
    (h : parseTagFields text = .ok (value, domainEnd, categoryEnd)) :
    ∃ host category name : Bytes,
      text = host ++ slash :: (category ++ slash :: name) ∧
      value = host.map toAsciiLowercase ++ slash :: (category ++ slash :: name) ∧
      domainEnd = host.length ∧ categoryEnd = host.length + 1 + category.length ∧
      slash ∉ host ∧ slash ∉ category ∧ slash ∉ name ∧
      DnsName.parses host = true ∧ validNameComponent category = true ∧
      validNameComponent name = true ∧ (∀ b ∈ text, b < 0x80) := by
  obtain ⟨⟨d, c⟩, hv, hfields⟩ := Result.bind_eq_ok.mp h
  simp only [Result.pure_eq_ok, Except.ok.injEq, Prod.mk.injEq] at hfields
  obtain ⟨rfl, rfl, rfl⟩ := hfields
  simp only [validateTag] at hv
  split at hv
  · cases hv
  · rename_i hlen
    split at hv
    · rename_i host category name hsplit
      split at hv
      · cases hv
      · rename_i hok
        simp only [Except.ok.injEq, Prod.mk.injEq] at hv
        obtain ⟨rfl, rfl⟩ := hv
        have htext : text = host ++ slash :: (category ++ slash :: name) := by
          have hjoin : [slash].intercalate (text.splitOn slash) = text :=
            List.intercalate_splitOn slash
          rw [hsplit] at hjoin
          simpa using hjoin.symm
        have hnotin : ∀ piece ∈ [host, category, name], slash ∉ piece := by
          intro piece hp
          exact Bytes.notMem_of_mem_splitOn (hsplit ▸ hp)
        simp only [Bool.or_eq_true, Bool.not_eq_true', validDnsHostname, Bool.and_eq_false_iff,
          not_or] at hok
        have hascii : ∀ b ∈ text, b < 0x80 := by
          have hall : text.all (· < 0x80) = true := by
            by_contra hne
            exact hlen (Or.inr hne)
          simpa using hall
        refine ⟨host, category, name, htext, ?_, rfl, rfl, hnotin _ (by simp), hnotin _ (by simp),
          hnotin _ (by simp), ?_, ?_, ?_, hascii⟩
        · rw [htext, List.take_left, List.drop_left]
        · simpa using hok.1.1.1.2
        · simpa using hok.1.1.2
        · simpa using hok.1.2
    · cases hv

/-- The components of a tag. -/
theorem value_eq (tag : QualifiedTag) :
    ∃ host category name : Bytes,
      tag.value = host.map toAsciiLowercase ++ slash :: (category ++ slash :: name) ∧
      tag.domainEnd = host.length ∧ tag.categoryEnd = host.length + 1 + category.length ∧
      slash ∉ host.map toAsciiLowercase ∧ slash ∉ category ∧
      DnsName.parses host = true ∧ validNameComponent category = true ∧
      validNameComponent name = true := by
  obtain ⟨text, h⟩ := tag.parsed
  obtain ⟨host, category, name, -, hvalue, hd, hc, hhost, hcat, -, hdns, hvc, hvn, -⟩ :=
    parseTagFields_eq_ok h
  refine ⟨host, category, name, hvalue, hd, hc, ?_, hcat, hdns, hvc, hvn⟩
  intro hmem
  obtain ⟨b, hb, hlow⟩ := List.mem_map.mp hmem
  exact hhost (eq_of_toAsciiLowercase_eq (by decide) hlow ▸ hb)

/-- A tag is determined by its text. -/
theorem ext_asStr {a b : QualifiedTag} (h : a.asStr = b.asStr) : a = b := by
  obtain ⟨ha, ca, na, hva, hda, hca, hsa, hsca, -⟩ := a.value_eq
  obtain ⟨hb, cb, nb, hvb, hdb, hcb, hsb, hscb, -⟩ := b.value_eq
  have hvalue : a.value = b.value := h
  rw [hva, hvb] at hvalue
  obtain ⟨hhost, hrest⟩ := Bytes.append_cons_inj_of_notMem hsa hsb hvalue
  obtain ⟨hcat, -⟩ := Bytes.append_cons_inj_of_notMem hsca hscb hrest
  have hlen : ha.length = hb.length := by simpa using congrArg List.length hhost
  have hd : a.domainEnd = b.domainEnd := by rw [hda, hdb, hlen]
  have hc : a.categoryEnd = b.categoryEnd := by rw [hca, hcb, hlen, hcat]
  cases a; cases b
  simp_all [asStr]

/-- The derived order of the source compares the text first and the offsets after
    it; the text determines the offsets, so it decides alone. -/
instance : LinearOrder QualifiedTag := LinearOrder.lift' QualifiedTag.asStr (fun _ _ => ext_asStr)

theorem lt_iff_asStr_lt {a b : QualifiedTag} : a < b ↔ a.asStr < b.asStr := Iff.rfl

/-- The text a parsed tag keeps. -/
theorem asStr_of_parse {text : Bytes} {tag : QualifiedTag} (h : parse text = .ok tag) :
    parseTagFields text = .ok (tag.asStr, tag.domainEnd, tag.categoryEnd) := by
  simp only [parse] at h
  split at h
  · rename_i value d c hfields
    cases h
    exact hfields
  · cases h

/-- A tag parsed from a text whose host has no capitals keeps the text. -/
theorem asStr_of_parse_lowercase {host rest : Bytes} {tag : QualifiedTag}
    (h : parse (host ++ slash :: rest) = .ok tag) (hhost : slash ∉ host)
    (hlower : host.map toAsciiLowercase = host) : tag.asStr = host ++ slash :: rest := by
  obtain ⟨host', category, name, htext, hvalue, -, -, hslash, -⟩ :=
    parseTagFields_eq_ok (asStr_of_parse h)
  obtain ⟨rfl, hrest⟩ := Bytes.append_cons_inj_of_notMem hhost hslash htext
  rw [hvalue, hlower, hrest]

theorem parse_of_fields {text value : Bytes} {d c : Nat}
    (h : parseTagFields text = .ok (value, d, c)) :
    ∃ tag, parse text = .ok tag ∧ tag.asStr = value := by
  simp only [parse]
  split
  · rename_i value' d' c' hfields
    rw [h] at hfields
    simp only [Except.ok.injEq, Prod.mk.injEq] at hfields
    exact ⟨_, rfl, hfields.1.symm⟩
  · rename_i e hfields
    rw [h] at hfields
    cases hfields

theorem ascii (tag : QualifiedTag) : tag.asStr.Ascii := by
  obtain ⟨text, hfields⟩ := tag.parsed
  obtain ⟨host, category, name, htext, hvalue, -, -, -, -, -, -, -, -, hascii⟩ :=
    parseTagFields_eq_ok hfields
  rw [htext] at hascii
  rw [asStr, hvalue]
  intro b hb
  rcases List.mem_append.mp hb with hb | hb
  · obtain ⟨c, hc, rfl⟩ := List.mem_map.mp hb
    exact toAsciiLowercase_lt (hascii c (List.mem_append_left _ hc))
  · exact hascii b (List.mem_append_right _ hb)

/-- A tag whose text parses to some tag with that text parses to itself. -/
def Reparses (tag : QualifiedTag) : Prop := parse tag.asStr = .ok tag

/-- The length of a tag. -/
theorem length_asStr_le (tag : QualifiedTag) : tag.asStr.length ≤ 128 := by
  obtain ⟨text, h⟩ := tag.parsed
  obtain ⟨host, category, name, htext, hvalue, -⟩ := parseTagFields_eq_ok h
  have hlen : text.length ≤ 128 := by
    obtain ⟨⟨d, c⟩, hv, -⟩ := Result.bind_eq_ok.mp h
    simp only [validateTag] at hv
    split at hv
    · cases hv
    · rename_i hbounds
      rw [not_or, not_not] at hbounds
      exact hbounds.1.2
  rw [asStr, hvalue]
  rw [htext] at hlen
  simpa using hlen

end QualifiedTag

/-! ## Reading a tag back -/

theorem toAsciiLowercase_idem (b : UInt8) :
    toAsciiLowercase (toAsciiLowercase b) = toAsciiLowercase b := by
  by_cases hupper : isAsciiUppercase b = true
  · have hlower : isAsciiUppercase (b + 0x20) = false := by
      simp only [isAsciiUppercase, Bool.and_eq_true, Bool.and_eq_false_iff, decide_eq_true_eq,
        decide_eq_false_iff_not, UInt8.le_iff_toNat_le, UInt8.toNat_add, UInt8.reduceToNat] at hupper ⊢
      omega
    rw [toAsciiLowercase, toAsciiLowercase, if_pos hupper, if_neg (by rw [hlower]; simp)]
  · rw [toAsciiLowercase, toAsciiLowercase, if_neg hupper, if_neg hupper]

section Reparse

variable [DnsName]

/-- Whether a host name is accepted does not change when its letters are folded. -/
def FoldedHosts : Prop :=
  ∀ host, DnsName.parses host = true → DnsName.parses (host.map toAsciiLowercase) = true

/-- What `validate_tag` checks of a text with its three components. -/
structure AcceptedComponents (host category name : Bytes) : Prop where
  lower : minTagLen ≤ (host ++ slash :: (category ++ slash :: name)).length
  upper : (host ++ slash :: (category ++ slash :: name)).length ≤ maxTagLen
  ascii : (host ++ slash :: (category ++ slash :: name)).Ascii
  hostValid : validDnsHostname host = true
  categoryValid : validNameComponent category = true
  nameValid : validNameComponent name = true
  unreserved : ¬ (host = builtinDomain ∧ category = categoryCrypto)

theorem validateTag_eq_ok_iff {host category name : Bytes} {ends : Nat × Nat} (hhost : slash ∉ host)
    (hcategory : slash ∉ category) (hname : slash ∉ name) :
    validateTag (host ++ slash :: (category ++ slash :: name)) = .ok ends ↔
      AcceptedComponents host category name ∧
        ends = (host.length, host.length + 1 + category.length) := by
  have hsplit : (host ++ slash :: (category ++ slash :: name)).splitOn slash =
      [host, category, name] := by
    have hjoin : [slash].intercalate [host, category, name] =
        host ++ slash :: (category ++ slash :: name) := by simp
    rw [← hjoin]
    exact List.splitOn_intercalate slash (by simp [hhost, hcategory, hname]) (by simp)
  constructor
  · intro h
    simp only [validateTag] at h
    split at h
    · cases h
    · rename_i hlen
      rw [not_or, not_not, not_not] at hlen
      simp only [hsplit] at h
      split at h
      · cases h
      · rename_i hok
        simp only [Bool.or_eq_true, Bool.not_eq_true', Bool.and_eq_true, beq_iff_eq, not_or,
          Bool.not_eq_false] at hok
        cases h
        exact ⟨⟨hlen.1.1, hlen.1.2, .of_all hlen.2, hok.1.1.1, hok.1.1.2, hok.1.2, hok.2⟩, rfl⟩
  · rintro ⟨hok, rfl⟩
    have hascii : (host ++ slash :: (category ++ slash :: name)).all (· < 0x80) = true := by
      rw [List.all_eq_true]
      intro b hb
      exact decide_eq_true (hok.ascii b hb)
    have hreserved : (host == builtinDomain && category == categoryCrypto) = false := by
      simpa using hok.unreserved
    simp only [validateTag]
    rw [if_neg (by rw [not_or, not_not, not_not]; exact ⟨⟨hok.lower, hok.upper⟩, hascii⟩), hsplit]
    simp [hok.hostValid, hok.categoryValid, hok.nameValid, hreserved]

/-- The namespace of signature domains. -/
def QualifiedTag.Reserved (tag : QualifiedTag) : Prop :=
  tag.domain = builtinDomain ∧ tag.category = categoryCrypto

namespace QualifiedTag

/-- The three components of an accepted text and of the tag parsed from it. -/
structure Components (text : Bytes) (tag : QualifiedTag) (host category name : Bytes) : Prop where
  text_eq : text = host ++ slash :: (category ++ slash :: name)
  asStr_eq : tag.asStr = host.map toAsciiLowercase ++ slash :: (category ++ slash :: name)
  domain_eq : tag.domain = host.map toAsciiLowercase
  category_eq : tag.category = category
  hostBare : slash ∉ host
  categoryBare : slash ∉ category
  nameBare : slash ∉ name
  accepted : AcceptedComponents host category name

theorem components_of_fields {text : Bytes} {tag : QualifiedTag}
    (hfields : parseTagFields text = .ok (tag.asStr, tag.domainEnd, tag.categoryEnd)) :
    ∃ host category name, Components text tag host category name := by
  obtain ⟨host, category, name, rfl, hvalue, hd, hc, hhost, hcat, hname, -⟩ :=
    parseTagFields_eq_ok hfields
  obtain ⟨ends, hvalidated, -⟩ := Result.bind_eq_ok.mp hfields
  obtain ⟨haccepted, -⟩ := (validateTag_eq_ok_iff hhost hcat hname).mp hvalidated
  have hdomain : tag.domain = host.map toAsciiLowercase := by
    rw [domain, show tag.value = _ from hvalue, hd]
    exact List.take_left' (by simp)
  have hcategory : tag.category = category := by
    rw [QualifiedTag.category, show tag.value = _ from hvalue, hd, hc]
    have hsplit : host.map toAsciiLowercase ++ slash :: (category ++ slash :: name) =
        ((host.map toAsciiLowercase ++ [slash]) ++ category) ++ slash :: name := by simp
    rw [hsplit, List.take_left' (by simp; omega), List.drop_left' (by simp)]
  exact ⟨host, category, name, rfl, hvalue, hdomain, hcategory, hhost, hcat, hname, haccepted⟩

theorem components_of_parse {text : Bytes} {tag : QualifiedTag} (h : parse text = .ok tag) :
    ∃ host category name, Components text tag host category name :=
  components_of_fields (asStr_of_parse h)

/-- A tag outside the reserved namespace reads back from its text: its folded
    domain passes every check of `validate_tag` again. -/
theorem reparses_of_unreserved (hhosts : FoldedHosts) (tag : QualifiedTag)
    (hunreserved : ¬ tag.Reserved) : tag.Reparses := by
  obtain ⟨text, hparsed⟩ := tag.parsed
  obtain ⟨host, category, name, c⟩ := components_of_fields hparsed
  have hbare : slash ∉ host.map toAsciiLowercase := by
    intro hmem
    obtain ⟨b, hb, hlow⟩ := List.mem_map.mp hmem
    exact c.hostBare (eq_of_toAsciiLowercase_eq (by decide) hlow ▸ hb)
  have hlower := c.accepted.lower
  have hupper := c.accepted.upper
  have hhostValid : validDnsHostname (host.map toAsciiLowercase) = true := by
    have hvalid := c.accepted.hostValid
    simp only [validDnsHostname, Bool.and_eq_true] at hvalid ⊢
    exact ⟨by simpa using hvalid.1, hhosts host hvalid.2⟩
  have haccepted : AcceptedComponents (host.map toAsciiLowercase) category name :=
    { lower := by simpa using hlower
      upper := by simpa using hupper
      ascii := c.asStr_eq ▸ tag.ascii
      hostValid := hhostValid
      categoryValid := c.accepted.categoryValid
      nameValid := c.accepted.nameValid
      unreserved := by
        intro hreserved
        exact hunreserved ⟨c.domain_eq.trans hreserved.1, c.category_eq.trans hreserved.2⟩ }
  have hvalidate := (validateTag_eq_ok_iff hbare c.categoryBare c.nameBare).mpr ⟨haccepted, rfl⟩
  have hidem : toAsciiLowercase ∘ toAsciiLowercase = toAsciiLowercase :=
    funext toAsciiLowercase_idem
  have hfields : parseTagFields tag.asStr =
      .ok (tag.asStr, host.length, host.length + 1 + category.length) := by
    rw [c.asStr_eq]
    simp only [parseTagFields, hvalidate, Result.ok_bind, List.length_map, List.map_map,
      List.take_left', List.drop_left', hidem]
    rfl
  obtain ⟨again, hagain, hvalue⟩ := parse_of_fields hfields
  unfold Reparses
  rw [hagain, ext_asStr hvalue]

/-- A tag outside the reserved category reads back from its text. -/
theorem reparses (hhosts : FoldedHosts) (tag : QualifiedTag)
    (hcategory : tag.category ≠ categoryCrypto) : tag.Reparses :=
  reparses_of_unreserved hhosts tag fun hreserved => hcategory hreserved.2

end QualifiedTag

end Reparse

/-- Folding keeps the separators of a text that are no letters. -/
theorem splitOn_map_toAsciiLowercase {c : UInt8} (hc : isAsciiLowercase c = false)
    (hc' : toAsciiLowercase c = c) (text : Bytes) :
    (text.map toAsciiLowercase).splitOn c = (text.splitOn c).map (List.map toAsciiLowercase) := by
  induction text with
  | nil => rfl
  | cons b text ih =>
    have hsep : (toAsciiLowercase b == c) = (b == c) := by
      rw [Bool.eq_iff_iff, beq_iff_eq, beq_iff_eq]
      exact ⟨eq_of_toAsciiLowercase_eq hc, fun h => by rw [h, hc']⟩
    rw [List.map_cons, List.splitOn, List.splitOnP_cons_eq_if_modifyHead, hsep, List.splitOn,
      List.splitOnP_cons_eq_if_modifyHead]
    by_cases hb : (b == c) = true
    · rw [if_pos hb, if_pos hb, List.map_cons]
      exact congrArg _ ih
    · rw [if_neg hb, if_neg hb]
      show ((text.map toAsciiLowercase).splitOn c).modifyHead _ = _
      rw [ih]
      show _ = ((text.splitOn c).modifyHead _).map _
      cases text.splitOn c <;> rfl

/-- The sample grammar ignores the case of letters. -/
theorem foldedHosts_hostNames : @FoldedHosts .hostNames := by
  intro host h
  simp only [DnsName.parses, Bool.and_eq_true, List.all_eq_true, decide_eq_true_eq] at h ⊢
  rw [splitOn_map_toAsciiLowercase (by decide) (by decide), List.length_map]
  refine ⟨h.1, ?_⟩
  intro label hlabel
  obtain ⟨source, hsource, rfl⟩ := List.mem_map.mp hlabel
  obtain ⟨hlen, hbytes⟩ := h.2 source hsource
  rw [List.length_map]
  refine ⟨hlen, ?_⟩
  intro b hb
  obtain ⟨c, hc, rfl⟩ := List.mem_map.mp hb
  have hkept := hbytes c hc
  by_cases hupper : isAsciiUppercase c = true
  · have hlower : isAsciiLowercase (c + 0x20) = true := by
      simp only [isAsciiUppercase, isAsciiLowercase, Bool.and_eq_true, decide_eq_true_eq,
        UInt8.le_iff_toNat_le, UInt8.toNat_add, UInt8.reduceToNat] at hupper ⊢
      omega
    rw [toAsciiLowercase, if_pos hupper, isAsciiAlphanumeric, hlower]
    simp
  · rw [toAsciiLowercase, if_neg hupper]
    exact hkept

/-! ## Tags of one category -/

/-- `category_tag!`: a qualified tag of one category. -/
structure CategoryTag [DnsName] (category : Bytes) where
  tag : QualifiedTag
  inCategory : tag.category = category
  deriving DecidableEq

namespace CategoryTag

variable [DnsName] {category : Bytes}

def parse (context : String) (text : Bytes) : Result (CategoryTag category) := do
  let tag ← QualifiedTag.parse text
  if h : tag.category = category then return ⟨tag, h⟩
  else throw (.invalidInput context)

def asStr (tag : CategoryTag category) : Bytes := tag.tag.asStr
def domain (tag : CategoryTag category) : Bytes := tag.tag.domain

theorem ext_tag {a b : CategoryTag category} (h : a.tag = b.tag) : a = b := by
  cases a; cases b; simp_all

theorem ext_asStr {a b : CategoryTag category} (h : a.asStr = b.asStr) : a = b :=
  ext_tag (QualifiedTag.ext_asStr h)

instance : LinearOrder (CategoryTag category) :=
  LinearOrder.lift' CategoryTag.asStr (fun _ _ => ext_asStr)

instance : LawfulBEq (CategoryTag category) := inferInstance

instance : IsTrans (CategoryTag category) fun a b => a ≤ b := inferInstance

instance : Std.Antisymm fun a b : CategoryTag category => a ≤ b := inferInstance

instance : Std.Total fun a b : CategoryTag category => a ≤ b := inferInstance

theorem lt_iff_asStr_lt {a b : CategoryTag category} : a < b ↔ a.asStr < b.asStr := Iff.rfl

/-- A tag reads back from its text. -/
theorem parse_asStr (hhosts : FoldedHosts) (hcategory : category ≠ categoryCrypto)
    (context : String) (tag : CategoryTag category) : parse context tag.asStr = .ok tag := by
  have hreparses : QualifiedTag.parse tag.asStr = .ok tag.tag :=
    tag.tag.reparses hhosts (by rw [tag.inCategory]; exact hcategory)
  simp only [parse, hreparses, Result.ok_bind, dif_pos tag.inCategory]
  rfl

end CategoryTag

/-- A feature label. -/
abbrev FeatureTag [DnsName] := CategoryTag categoryFeatures

/-- The tag of a protocol handler. -/
abbrev ProtocolTag [DnsName] := CategoryTag categoryProtocols

def FeatureTag.parse [DnsName] (text : Bytes) : Result FeatureTag :=
  CategoryTag.parse "feature tag" text

def ProtocolTag.parse [DnsName] (text : Bytes) : Result ProtocolTag :=
  CategoryTag.parse "protocol tag" text

end Radiata
