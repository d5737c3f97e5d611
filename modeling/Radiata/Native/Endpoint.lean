import Radiata.ForStd.Net
import Radiata.Native.Tag

/-!
# Endpoints

`src/transport/endpoint.rs`: the canonical address `wss://host:port`. The structure carries
the text it was parsed from, and `parse_asStr` says that its canonical text parses to it
again.
-/

namespace Radiata

open Bytes (stripStart splitOnce decimal ofDecimal)
open Except (rejectIf okOr)
open Net (colon)

def endpointScheme : Bytes := Bytes.utf8 "wss://"
def defaultPort : UInt16 := 443
def maxHostLen : Nat := 253

def openBracket : UInt8 := 0x5B
def closeBracket : UInt8 := 0x5D
def percent : UInt8 := 0x25

def endpointError : Error := .invalidInput "endpoint"

def isAsciiWhitespace (b : UInt8) : Bool :=
  b == 0x20 || b == 0x09 || b == 0x0A || b == 0x0C || b == 0x0D

/-- The characters no authority has: `/`, `?`, `#`, `@` and white space. -/
def isForbidden (b : UInt8) : Bool :=
  b == 0x2F || b == 0x3F || b == 0x23 || b == 0x40 || isAsciiWhitespace b

/-- The host, whether it stands in brackets, and the port of an authority. -/
structure Authority where
  host : Bytes
  bracketed : Bool
  port : Option Bytes

/-- `split_authority` -/
def splitAuthority (authority : Bytes) : Result Authority :=
  match stripStart [openBracket] authority with
  | some rest =>
    match splitOnce closeBracket rest with
    | none => .error endpointError
    | some (host, after) =>
      if host.count colon < 2 ∨ percent ∈ host then .error endpointError
      else
        match stripStart [colon] after with
        | some port => .ok ⟨host, true, some port⟩
        | none => if after = [] then .ok ⟨host, true, none⟩ else .error endpointError
  | none =>
    match authority.count colon with
    | 0 => .ok ⟨authority, false, none⟩
    | 1 =>
      match splitOnce colon authority with
      | some (host, port) => .ok ⟨host, false, some port⟩
      | none => .error endpointError
    -- An IPv6 address outside brackets.
    | _ => .error endpointError

/-- `parse_port` -/
def parsePort (text : Bytes) : Result UInt16 := do
  rejectIf (text = [] ∨ text.all Bytes.isDigit = false ∨ (1 < text.length ∧ text.head? = some 0x30))
    endpointError
  rejectIf (65536 ≤ ofDecimal text) endpointError
  return UInt16.ofNat (ofDecimal text)

/-- The port of an authority, or the default one. -/
def readPort : Option Bytes → Result UInt16
  | some text => parsePort text
  | none => .ok defaultPort

/-- A port reads back from its numeral. -/
theorem parsePort_decimal (port : UInt16) : parsePort (decimal port.toNat) = .ok port := by
  have hnonempty : decimal port.toNat ≠ [] := by simp [decimal]
  have hdigits : (decimal port.toNat).all Bytes.isDigit = true :=
    List.all_eq_true.mpr fun b hb => Bytes.isDigit_of_mem_decimal hb
  have hhead : ¬ (1 < (decimal port.toNat).length ∧ (decimal port.toNat).head? = some 0x30) :=
    fun h => Bytes.decimal_head h.1 h.2
  have hbound : ¬ 65536 ≤ ofDecimal (decimal port.toNat) := by
    rw [Bytes.ofDecimal_decimal]
    exact Nat.not_le.mpr port.toNat_lt
  rw [parsePort, Except.rejectIf_of_not _ (by simp [hnonempty, hdigits, hhead]),
    Except.ok_bind_eq, Except.rejectIf_of_not _ hbound, Except.ok_bind_eq,
    Bytes.ofDecimal_decimal, UInt16.ofNat_toNat]
  rfl

/-- What a split authority has. -/
structure Authority.Wellformed (split : Authority) : Prop where
  clean : ∀ b ∈ split.host, isForbidden b = false
  bracketed : split.bracketed = true →
    closeBracket ∉ split.host ∧ 2 ≤ split.host.count colon ∧ percent ∉ split.host
  plain : split.bracketed = false → colon ∉ split.host ∧ split.host.head? ≠ some openBracket

theorem splitAuthority_wellformed {authority : Bytes} {split : Authority}
    (h : splitAuthority authority = .ok split) (hclean : ∀ b ∈ authority, isForbidden b = false) :
    split.Wellformed := by
  unfold splitAuthority at h
  split at h
  · rename_i rest hstrip
    have hauthority := Bytes.stripStart_eq_some hstrip
    split at h
    · cases h
    rename_i host after hsplit
    obtain ⟨hrest, hclose⟩ := Bytes.splitOnce_eq_some hsplit
    have hhost : ∀ b ∈ host, isForbidden b = false := by
      intro b hb
      exact hclean b (by rw [hauthority, hrest]; simp [hb])
    split at h
    · cases h
    rename_i hcheck
    rw [not_or] at hcheck
    have hwellformed : ∀ port, Authority.Wellformed ⟨host, true, port⟩ := fun port =>
      ⟨hhost, fun _ => ⟨hclose, Nat.not_lt.mp hcheck.1, hcheck.2⟩, nofun⟩
    split at h
    · cases h
      exact hwellformed _
    · split at h
      · cases h
        exact hwellformed _
      · cases h
  · rename_i hstrip
    have hhead : authority.head? ≠ some openBracket := by
      intro hhead
      obtain ⟨rest, rfl⟩ := List.head?_eq_some_iff.mp hhead
      rw [show openBracket :: rest = [openBracket] ++ rest from rfl, Bytes.stripStart_append] at hstrip
      cases hstrip
    split at h
    · rename_i hcount
      cases h
      exact ⟨hclean, nofun, fun _ => ⟨List.count_eq_zero.mp hcount, hhead⟩⟩
    · split at h
      · rename_i host port hsplit
        cases h
        obtain ⟨rfl, hcolon⟩ := Bytes.splitOnce_eq_some hsplit
        refine ⟨fun b hb => hclean b (by simp [hb]), nofun, fun _ => ⟨hcolon, ?_⟩⟩
        intro hbracket
        exact hhead (by simp [hbracket])
      · cases h
    · cases h

/-- An authority written out in full splits into its parts. -/
theorem splitAuthority_format {split : Authority} (h : split.Wellformed) {port : Bytes}
    (hport : colon ∉ port) :
    splitAuthority ((if split.bracketed then openBracket :: (split.host ++ [closeBracket])
        else split.host) ++ colon :: port) = .ok ⟨split.host, split.bracketed, some port⟩ := by
  obtain ⟨host, bracketed, written⟩ := split
  cases bracketed with
  | true =>
    obtain ⟨hclose, hcount, hpercent⟩ := h.bracketed rfl
    have htext : openBracket :: (host ++ [closeBracket]) ++ colon :: port =
        [openBracket] ++ (host ++ closeBracket :: ([colon] ++ port)) := by simp
    have hok : ¬ (host.count colon < 2 ∨ percent ∈ host) := by
      rw [not_or]
      exact ⟨Nat.not_lt.mpr hcount, hpercent⟩
    rw [if_pos rfl, splitAuthority, htext, Bytes.stripStart_append]
    simp only [Bytes.splitOnce_append hclose, Bytes.stripStart_append, if_neg hok]
  | false =>
    obtain ⟨hcolon, hhead⟩ := h.plain rfl
    have hstrip : stripStart [openBracket] (host ++ colon :: port) = none := by
      cases host with
      | nil => rfl
      | cons b host =>
        have hb : b ≠ openBracket := fun hb => hhead (by rw [hb]; rfl)
        simp [stripStart, List.cons_prefix_cons, hb.symm]
    have hcount : (host ++ colon :: port).count colon = 1 := by
      rw [List.count_append, List.count_cons_self, List.count_eq_zero.mpr hcolon,
        List.count_eq_zero.mpr hport]
    simp only [Bool.false_eq_true, if_false]
    rw [splitAuthority, hstrip]
    simp only [hcount, Bytes.splitOnce_append hcolon]

/-- Folding the letters of the host changes nothing of this. -/
theorem Authority.Wellformed.fold {split : Authority} (h : split.Wellformed) :
    Authority.Wellformed { split with host := split.host.map toAsciiLowercase } := by
  have hmem : ∀ c, isAsciiLowercase c = false → c ∈ split.host.map toAsciiLowercase →
      c ∈ split.host := by
    intro c hc hmem
    obtain ⟨b, hb, hfold⟩ := List.mem_map.mp hmem
    exact eq_of_toAsciiLowercase_eq hc hfold ▸ hb
  refine ⟨fun b hb => ?_, fun hbracketed => ?_, fun hplain => ?_⟩
  · by_cases hlower : isAsciiLowercase b = true
    · revert hlower
      simp only [isAsciiLowercase, isForbidden, isAsciiWhitespace, Bool.and_eq_true,
        decide_eq_true_eq, UInt8.le_iff_toNat_le, Bool.or_eq_false_iff, beq_eq_false_iff_ne, ne_eq,
        ← UInt8.toNat_inj, UInt8.reduceToNat]
      omega
    · exact h.clean b (hmem b (by simpa using hlower) hb)
  · obtain ⟨hclose, hcount, hpercent⟩ := h.bracketed hbracketed
    refine ⟨fun hb => hclose (hmem _ (by decide) hb), ?_, fun hb => hpercent (hmem _ (by decide) hb)⟩
    have hcolons : (split.host.map toAsciiLowercase).count colon = split.host.count colon := by
      rw [List.count_eq_countP, List.countP_map, List.count_eq_countP]
      apply List.countP_congr
      intro b _
      simp only [Function.comp_apply, beq_iff_eq]
      exact ⟨eq_of_toAsciiLowercase_eq (by decide), fun hb => by rw [hb]; decide⟩
    exact hcolons ▸ hcount
  · obtain ⟨hcolon, hhead⟩ := h.plain hplain
    refine ⟨fun hb => hcolon (hmem _ (by decide) hb), fun hb => hhead ?_⟩
    rw [List.head?_map, Option.map_eq_some_iff] at hb
    obtain ⟨b, hb, hfold⟩ := hb
    rw [hb, eq_of_toAsciiLowercase_eq (by decide) hfold]

variable [DnsName]

/-- `validate_host` -/
def validateHost (host : Bytes) : Result Unit := do
  rejectIf (host = [] ∨ maxHostLen < host.length) endpointError
  rejectIf (¬ if host.all (fun b => Bytes.isDigit b || b == Net.dot) then Net.isIpv4 host
    else if colon ∈ host then Net.isIpv6 host
    else validDnsHostname host) endpointError

/-- The canonical text of an address. -/
def formatEndpoint (host : Bytes) (bracketed : Bool) (port : UInt16) : Bytes :=
  endpointScheme ++ ((if bracketed then openBracket :: (host ++ [closeBracket]) else host) ++
    colon :: decimal port.toNat)

/-- The canonical text, the host and the port of an endpoint. -/
def parseEndpointFields (text : Bytes) : Result (Bytes × Bytes × UInt16) := do
  let authority ← okOr endpointError (stripStart endpointScheme text)
  rejectIf (authority = [] ∨ authority.any isForbidden = true) endpointError
  let split ← splitAuthority authority
  -- DNS names are case-insensitive: the host is folded before it is checked.
  let host := split.host.map toAsciiLowercase
  validateHost host
  let port ← readPort split.port
  return (formatEndpoint host split.bracketed port, host, port)

/-- `Endpoint`. A text is UTF-8 by its type. -/
structure Endpoint where
  canonical : Bytes
  host : Bytes
  port : UInt16
  parsed : ∃ text, parseEndpointFields text = .ok (canonical, host, port)
  utf8 : canonical.isUtf8 = true
  deriving DecidableEq

namespace Endpoint

def parse (text : Bytes) : Result Endpoint :=
  match h : parseEndpointFields text with
  | .error error => .error error
  | .ok (canonical, host, port) =>
    if hutf8 : canonical.isUtf8 = true then .ok ⟨canonical, host, port, ⟨text, h⟩, hutf8⟩
    else .error endpointError

def asStr (endpoint : Endpoint) : Bytes := endpoint.canonical

end Endpoint

/-- The fields of an endpoint parse again from its canonical text. -/
theorem parseEndpointFields_idem {text canonical host : Bytes} {port : UInt16}
    (h : parseEndpointFields text = .ok (canonical, host, port)) :
    parseEndpointFields canonical = .ok (canonical, host, port) := by
  obtain ⟨authority, -, h⟩ := Result.bind_eq_ok.mp h
  obtain ⟨hclean, h⟩ := Except.seq_eq_ok.mp h
  obtain ⟨split, hsplit, h⟩ := Result.bind_eq_ok.mp h
  obtain ⟨hvalid, h⟩ := Except.seq_eq_ok.mp h
  obtain ⟨number, -, h⟩ := Result.bind_eq_ok.mp h
  cases h
  have hauthority : ∀ b ∈ authority, isForbidden b = false := by
    have hany := (not_or.mp (Except.rejectIf_eq_ok.mp hclean)).2
    simpa using hany
  have hwellformed := (splitAuthority_wellformed hsplit hauthority).fold
  have hcolon : colon ∉ decimal port.toNat := fun hmem =>
    absurd (Bytes.isDigit_of_mem_decimal hmem) (by decide)
  have hdigits : ∀ b ∈ decimal port.toNat, isForbidden b = false := by
    intro b hb
    have hdigit := Bytes.isDigit_of_mem_decimal hb
    revert hdigit
    simp only [Bytes.isDigit, isForbidden, isAsciiWhitespace, Bool.and_eq_true, decide_eq_true_eq,
      UInt8.le_iff_toNat_le, Bool.or_eq_false_iff, beq_eq_false_iff_ne, ne_eq, ← UInt8.toNat_inj,
      UInt8.reduceToNat]
    omega
  have hforbidden : ∀ b ∈ (if split.bracketed then
      openBracket :: (split.host.map toAsciiLowercase ++ [closeBracket])
      else split.host.map toAsciiLowercase) ++ colon :: decimal port.toNat, isForbidden b = false := by
    intro b hb
    rcases List.mem_append.mp hb with hhost | hport
    · split at hhost
      · rcases List.mem_cons.mp hhost with rfl | hhost
        · rfl
        rcases List.mem_append.mp hhost with hhost | hclose
        · exact hwellformed.clean b hhost
        · rw [List.mem_singleton.mp hclose]
          rfl
      · exact hwellformed.clean b hhost
    · rcases List.mem_cons.mp hport with rfl | hport
      · rfl
      · exact hdigits b hport
  have hfold : (split.host.map toAsciiLowercase).map toAsciiLowercase =
      split.host.map toAsciiLowercase := by
    rw [List.map_map]
    exact List.map_congr_left fun b _ => toAsciiLowercase_idem b
  have hauthority' : ¬ ((if split.bracketed then
      openBracket :: (split.host.map toAsciiLowercase ++ [closeBracket])
      else split.host.map toAsciiLowercase) ++ colon :: decimal port.toNat = [] ∨
      ((if split.bracketed then openBracket :: (split.host.map toAsciiLowercase ++ [closeBracket])
      else split.host.map toAsciiLowercase) ++ colon :: decimal port.toNat).any isForbidden = true) := by
    rw [not_or]
    refine ⟨by simp, ?_⟩
    rw [List.any_eq_true]
    rintro ⟨b, hb, hbad⟩
    rw [hforbidden b hb] at hbad
    cases hbad
  rw [formatEndpoint, parseEndpointFields, Bytes.stripStart_append]
  simp only [Except.okOr, Except.ok_bind_eq, Except.rejectIf_of_not _ hauthority',
    splitAuthority_format hwellformed hcolon, hfold, hvalid, readPort, parsePort_decimal]
  rfl

/-- An endpoint parses from its canonical text. -/
@[simp] theorem Endpoint.parse_asStr (endpoint : Endpoint) :
    Endpoint.parse endpoint.asStr = .ok endpoint := by
  obtain ⟨text, htext⟩ := endpoint.parsed
  have hidem := parseEndpointFields_idem htext
  unfold Endpoint.parse Endpoint.asStr
  split
  · rename_i error herror
    rw [hidem] at herror
    cases herror
  · rename_i canonical host port hfields
    rw [hidem] at hfields
    cases hfields
    rw [dif_pos endpoint.utf8]

end Radiata
