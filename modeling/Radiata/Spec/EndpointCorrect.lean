import Radiata.Native.SocketAddress

/-!
# Canonical endpoints

An endpoint keeps the host as its text spells it, up to the case of letters. For DNS names and for
IPv4 addresses, which have one spelling, equal endpoints are equal addresses. An IPv6 address has
many spellings, which the standard parser accepts and the endpoint keeps apart; the endpoint of a
bound listener has the spelling of the standard library.

## Key results

- `denotes_of_parse`: an accepted text stands for a host and a port
- `endpoints_canonical_iff`: two texts for one address give one endpoint exactly if an IPv6 address
  is spelled as it is printed
- `loopback_spellings_differ`: two spellings of the IPv6 loopback address
-/

namespace Radiata

open Bytes (stripStart)
open Except (rejectIf okOr)
open Net (colon Ipv6Addr)

/-! ## Hosts -/

/-- Folding the case of letters changes no address literal. -/
theorem keepsLiterals_toAsciiLowercase : Net.KeepsLiterals toAsciiLowercase := by
  have hall : ∀ n < 256, Net.hexValue (toAsciiLowercase (UInt8.ofNat n)) =
      Net.hexValue (UInt8.ofNat n) ∧
      Bytes.isDigit (toAsciiLowercase (UInt8.ofNat n)) = Bytes.isDigit (UInt8.ofNat n) ∧
      (Bytes.isDigit (UInt8.ofNat n) = true → toAsciiLowercase (UInt8.ofNat n) = UInt8.ofNat n) ∧
      (toAsciiLowercase (UInt8.ofNat n) = colon ↔ UInt8.ofNat n = colon) ∧
      (toAsciiLowercase (UInt8.ofNat n) = Net.dot ↔ UInt8.ofNat n = Net.dot) := by
    decide +kernel
  have hbyte := fun b : UInt8 => hall b.toNat b.toNat_lt
  simp only [UInt8.ofNat_toNat] at hbyte
  exact ⟨fun b => (hbyte b).1, fun b => (hbyte b).2.1, fun b => (hbyte b).2.2.1,
    fun b => (hbyte b).2.2.2.1, fun b => (hbyte b).2.2.2.2⟩

/-- A host stands for the same whatever the case of its letters. -/
theorem hostAddress_fold (host : Bytes) :
    hostAddress (host.map toAsciiLowercase) = hostAddress host := by
  have hkeeps := keepsLiterals_toAsciiLowercase
  have hdotted : (host.map toAsciiLowercase).all (fun b => Bytes.isDigit b || b == Net.dot) =
      host.all fun b => Bytes.isDigit b || b == Net.dot := by
    rw [List.all_map]
    congr 1
    funext b
    have hdot : (toAsciiLowercase b == Net.dot) = (b == Net.dot) := by
      rw [Bool.eq_iff_iff, beq_iff_eq, beq_iff_eq]
      exact hkeeps.dot b
    simp only [Function.comp_apply, hkeeps.isDigit, hdot]
  have hcolon : colon ∈ host.map toAsciiLowercase ↔ colon ∈ host := by
    rw [List.mem_map]
    constructor
    · intro ⟨b, hb, heq⟩
      rwa [← (hkeeps.colon b).mp heq]
    · intro hmem
      exact ⟨colon, hmem, (hkeeps.colon colon).mpr rfl⟩
  have hidem : (host.map toAsciiLowercase).map toAsciiLowercase = host.map toAsciiLowercase := by
    rw [List.map_map]
    exact List.map_congr_left fun b _ => toAsciiLowercase_idem b
  unfold hostAddress
  simp only [hdotted, hcolon, Net.parseIpv4_map hkeeps, Net.parseIpv6_map hkeeps, hidem]

/-- What a host stands for: only an IPv6 address leaves its spelling open. -/
theorem hostAddress_cases {host : Bytes} {address : HostAddress}
    (h : hostAddress host = some address) :
    (∃ ip, address = .ip (.v4 ip) ∧ host.map toAsciiLowercase = ip.text ∧ colon ∉ host) ∨
      (∃ ip, address = .ip (.v6 ip) ∧ colon ∈ host) ∨
      address = .dns (host.map toAsciiLowercase) ∧ colon ∉ host := by
  unfold hostAddress at h
  split at h
  · rename_i hdotted
    rw [List.all_eq_true] at hdotted
    obtain ⟨ip, hip, rfl⟩ := Option.map_eq_some_iff.mp h
    refine Or.inl ⟨ip, rfl, ?_, fun hmem => absurd (hdotted colon hmem) (by decide)⟩
    rw [← Net.text_of_parseIpv4 hip]
    conv => rhs; rw [← List.map_id host]
    apply List.map_congr_left
    intro b hb
    rcases Bool.or_eq_true_iff.mp (hdotted b hb) with hdigit | hdot
    · exact keepsLiterals_toAsciiLowercase.digit b hdigit
    · rw [beq_iff_eq.mp hdot]
      rfl
  · split at h
    · rename_i hcolon
      obtain ⟨ip, -, rfl⟩ := Option.map_eq_some_iff.mp h
      exact Or.inr (Or.inl ⟨ip, rfl, hcolon⟩)
    · rename_i hcolon
      exact Or.inr (Or.inr ⟨(Option.some.inj h).symm, hcolon⟩)

section Endpoints

variable [DnsName]

/-- A valid host stands for a name or for an address. -/
theorem exists_hostAddress {host : Bytes} (h : validateHost host = .ok ()) :
    ∃ address, hostAddress host = some address := by
  obtain ⟨-, h⟩ := Except.seq_eq_ok.mp h
  have hvalid := not_not.mp (Except.rejectIf_eq_ok.mp h)
  unfold hostAddress
  split at hvalid
  · rename_i hdotted
    rw [Net.isIpv4_eq, Option.isSome_iff_exists] at hvalid
    obtain ⟨ip, hip⟩ := hvalid
    exact ⟨_, by rw [if_pos hdotted, hip]; rfl⟩
  · rename_i hdotted
    split at hvalid
    · rename_i hcolon
      rw [Net.isIpv6_eq, Option.isSome_iff_exists] at hvalid
      obtain ⟨ip, hip⟩ := hvalid
      exact ⟨_, by rw [if_neg hdotted, if_pos hcolon, hip]; rfl⟩
    · rename_i hcolon
      exact ⟨_, by rw [if_neg hdotted, if_neg hcolon]⟩

/-! ## Accepted texts -/

/-- What an accepted text has been read as. -/
structure ReadAs (text : Bytes) (endpoint : Endpoint) (split : Authority) : Prop where
  parts : Endpoint.parts text = some (split.host, endpoint.port)
  wellformed : split.Wellformed
  valid : validateHost (split.host.map toAsciiLowercase) = .ok ()
  host : endpoint.host = split.host.map toAsciiLowercase
  canonical : endpoint.canonical = formatEndpoint endpoint.host split.bracketed endpoint.port

variable {endpoint : Endpoint}

variable {text : Bytes}

theorem exists_readAs (h : Endpoint.parse text = .ok endpoint) :
    ∃ split, ReadAs text endpoint split := by
  have hfields : parseEndpointFields text =
      .ok (endpoint.canonical, endpoint.host, endpoint.port) := by
    unfold Endpoint.parse at h
    split at h
    · cases h
    · rename_i hfields
      split at h
      · cases h
        exact hfields
      · cases h
  obtain ⟨authority, hstrip, hfields⟩ := Result.bind_eq_ok.mp hfields
  obtain ⟨hclean, hfields⟩ := Except.seq_eq_ok.mp hfields
  obtain ⟨split, hsplit, hfields⟩ := Result.bind_eq_ok.mp hfields
  obtain ⟨hvalid, hfields⟩ := Except.seq_eq_ok.mp hfields
  obtain ⟨number, hport, hfields⟩ := Result.bind_eq_ok.mp hfields
  obtain ⟨hcanonical, hhost, hnumber⟩ : formatEndpoint (split.host.map toAsciiLowercase)
      split.bracketed number = endpoint.canonical ∧
      split.host.map toAsciiLowercase = endpoint.host ∧ number = endpoint.port := by
    simpa [Prod.ext_iff] using Except.ok.inj hfields
  have hforbidden : ∀ b ∈ authority, isForbidden b = false := by
    have hany := (not_or.mp (Except.rejectIf_eq_ok.mp hclean)).2
    simpa using hany
  refine ⟨split, ?_, splitAuthority_wellformed hsplit hforbidden, hvalid, hhost.symm, ?_⟩
  · unfold Endpoint.parts
    rw [Except.okOr_eq_ok.mp hstrip, ← hnumber]
    simp [hsplit, hport, Except.toOption]
  · rw [← hcanonical, hhost, hnumber]

variable {split : Authority}

/-- An accepted text stands for a host and a port. -/
theorem denotes_of_parse (h : ReadAs text endpoint split) :
    ∃ address, Endpoint.denotes text = some (address, endpoint.port) ∧
      hostAddress split.host = some address := by
  obtain ⟨address, haddress⟩ := exists_hostAddress h.valid
  rw [hostAddress_fold] at haddress
  refine ⟨address, ?_, haddress⟩
  unfold Endpoint.denotes
  rw [h.parts]
  simp [haddress]

theorem spelling_of_parse (h : ReadAs text endpoint split) :
    Endpoint.spelling text = some endpoint.host := by
  rw [Endpoint.spelling, h.parts, h.host]
  rfl

/-- The brackets are those of the host. -/
theorem bracketed_iff (h : ReadAs text endpoint split) :
    split.bracketed = true ↔ colon ∈ split.host := by
  cases hbracketed : split.bracketed with
  | true =>
    obtain ⟨-, hcount, -⟩ := h.wellformed.bracketed hbracketed
    simp only [true_iff]
    exact List.count_pos_iff.mp (by omega)
  | false =>
    obtain ⟨hcolon, -⟩ := h.wellformed.plain hbracketed
    simp [hcolon]

/-- An endpoint is given by its host and its port. -/
theorem endpoint_eq {a b : Bytes} {first second : Endpoint} {split' : Authority}
    (h : ReadAs a first split) (h' : ReadAs b second split') (hhost : first.host = second.host)
    (hport : first.port = second.port) : first = second := by
  have hbracketed : split.bracketed = split'.bracketed := by
    rw [Bool.eq_iff_iff, bracketed_iff h, bracketed_iff h']
    have hfold : ∀ host : Bytes, colon ∈ host ↔ colon ∈ host.map toAsciiLowercase := by
      intro host
      rw [List.mem_map]
      constructor
      · intro hmem
        exact ⟨colon, hmem, by decide⟩
      · intro ⟨b, hb, heq⟩
        rwa [← (keepsLiterals_toAsciiLowercase.colon b).mp heq]
    rw [hfold split.host, hfold split'.host, ← h.host, ← h'.host, hhost]
  have hcanonical : first.canonical = second.canonical := by
    rw [h.canonical, h'.canonical, hhost, hport, hbracketed]
  cases first
  cases second
  simp_all

/-- The endpoint of a socket address, for a text that stands for it. -/
theorem fromSocketAddr_eq (h : ReadAs text endpoint split) {address : SocketAddr}
    (haddress : hostAddress split.host = some (.ip address.ip))
    (hport : endpoint.port = address.port)
    (hspelling : ∀ ip, address.ip = .v6 ip → endpoint.host = ip.text) :
    Endpoint.fromSocketAddr address = (endpoint.canonical, endpoint.host, endpoint.port) := by
  obtain ⟨ip, port⟩ := address
  have hbracketed := bracketed_iff h
  rw [h.canonical, hport]
  rcases hostAddress_cases haddress with ⟨v4, heq, htext, hcolon⟩ | ⟨v6, heq, hcolon⟩ | ⟨heq, -⟩
  · cases heq
    have hplain : split.bracketed = false := by simpa [hcolon] using hbracketed
    rw [Endpoint.fromSocketAddr, hplain, h.host, htext]
  · cases heq
    rw [Endpoint.fromSocketAddr, hbracketed.mpr hcolon, hspelling v6 rfl]
  · cases heq

/-- Endpoints are canonical exactly but for the spelling of IPv6 addresses: two accepted texts for
    one host and port give one endpoint, which is also that of the socket address, if and only if
    an IPv6 address is spelled in both of them as it is printed, up to the case of letters. -/
theorem endpoints_canonical_iff {a b : Bytes} {first second : Endpoint}
    (ha : Endpoint.parse a = .ok first) (hb : Endpoint.parse b = .ok second)
    (hsame : Endpoint.denotes a = Endpoint.denotes b) :
    (Endpoint.parse first.asStr = .ok first ∧ first = second ∧ first.asStr = second.asStr ∧
        ∀ address : SocketAddr, Endpoint.denotes a = some (.ip address.ip, address.port) →
          Endpoint.fromSocketAddr address = (first.canonical, first.host, first.port)) ↔
      ∀ ip port, Endpoint.denotes a = some (.ip (.v6 ip), port) →
        Endpoint.spelling a = some ip.text ∧ Endpoint.spelling b = some ip.text := by
  obtain ⟨split, hfirst⟩ := exists_readAs ha
  obtain ⟨split', hsecond⟩ := exists_readAs hb
  obtain ⟨address, hdenotes, haddress⟩ := denotes_of_parse hfirst
  obtain ⟨address', hdenotes', haddress'⟩ := denotes_of_parse hsecond
  have hboth : address = address' ∧ first.port = second.port := by
    rw [hdenotes, hdenotes', Option.some.injEq, Prod.mk.injEq] at hsame
    exact hsame
  obtain ⟨rfl, hport⟩ := hboth
  rw [spelling_of_parse hfirst, spelling_of_parse hsecond]
  constructor
  · intro ⟨_, heq, _, hsocket⟩ ip port hv6
    have hfields := hsocket ⟨.v6 ip, port⟩ hv6
    have hhost : ip.text = first.host := congrArg (fun fields => fields.2.1) hfields
    rw [← heq, hhost]
    exact ⟨rfl, rfl⟩
  · intro hspelled
    -- The two spellings of a name or an IPv4 address agree in any case.
    have hhost : first.host = second.host := by
      rcases hostAddress_cases haddress with ⟨v4, rfl, htext, _⟩ | ⟨v6, rfl, _⟩ | ⟨rfl, _⟩
      · rcases hostAddress_cases haddress' with ⟨_, heq, htext', _⟩ | ⟨_, heq, _⟩ | ⟨heq, _⟩
        · cases heq
          rw [hfirst.host, hsecond.host, htext, htext']
        · cases heq
        · cases heq
      · obtain ⟨hspelling, hspelling'⟩ := hspelled v6 first.port hdenotes
        exact Option.some.inj (hspelling.trans hspelling'.symm)
      · rcases hostAddress_cases haddress' with ⟨_, heq, _⟩ | ⟨_, heq, _⟩ | ⟨heq, _⟩
        · cases heq
        · cases heq
        · rw [hfirst.host, hsecond.host]
          exact HostAddress.dns.inj heq
    have heq := endpoint_eq hfirst hsecond hhost hport
    refine ⟨Endpoint.parse_asStr first, heq, congrArg Endpoint.asStr heq, ?_⟩
    intro socket hsocket
    have hip : address = .ip socket.ip ∧ first.port = socket.port := by
      rw [hdenotes, Option.some.injEq, Prod.mk.injEq] at hsocket
      exact hsocket
    apply fromSocketAddr_eq hfirst (hip.1 ▸ haddress) hip.2
    intro ip hv6
    have hspelling := (hspelled ip first.port (by rw [hdenotes, hip.1, hv6])).1
    exact Option.some.inj hspelling

end Endpoints

/-- A name in two cases, once with its port. -/
theorem relay_names_agree :
    letI := DnsName.hostNames
    ∃ first second, Endpoint.parse (Bytes.utf8 "wss://Relay.example") = .ok first ∧
      Endpoint.parse (Bytes.utf8 "wss://relay.EXAMPLE:443") = .ok second ∧ first = second := by
  let _ := DnsName.hostNames
  obtain ⟨first, hfirst⟩ := Result.exists_of_isSome_toOption
    (show (Endpoint.parse (Bytes.utf8 "wss://Relay.example")).toOption.isSome = true by
      decide +kernel)
  obtain ⟨second, hsecond⟩ := Result.exists_of_isSome_toOption
    (show (Endpoint.parse (Bytes.utf8 "wss://relay.EXAMPLE:443")).toOption.isSome = true by
      decide +kernel)
  have hname : Endpoint.denotes (Bytes.utf8 "wss://Relay.example") =
      some (.dns (Bytes.utf8 "relay.example"), 443) := by decide +kernel
  have hcanonical := (endpoints_canonical_iff hfirst hsecond (by decide +kernel)).mpr
    (by simp [hname])
  exact ⟨first, second, hfirst, hsecond, hcanonical.2.1⟩

/-- Two accepted spellings of the loopback address with the same port. -/
theorem loopback_spellings_differ :
    letI := DnsName.hostNames
    ∃ first second, Endpoint.parse (Bytes.utf8 "wss://[::1]:9000") = .ok first ∧
      Endpoint.parse (Bytes.utf8 "wss://[0:0:0:0:0:0:0:1]:9000") = .ok second ∧
      Endpoint.denotes (Bytes.utf8 "wss://[::1]:9000") =
        Endpoint.denotes (Bytes.utf8 "wss://[0:0:0:0:0:0:0:1]:9000") ∧ first ≠ second := by
  let _ := DnsName.hostNames
  obtain ⟨first, hfirst, hshort⟩ := Result.exists_of_any_toOption
    (show (Endpoint.parse (Bytes.utf8 "wss://[::1]:9000")).toOption.any
      (fun endpoint => endpoint.host = Bytes.utf8 "::1") = true by decide +kernel)
  obtain ⟨second, hsecond, hlong⟩ := Result.exists_of_any_toOption
    (show (Endpoint.parse (Bytes.utf8 "wss://[0:0:0:0:0:0:0:1]:9000")).toOption.any
      (fun endpoint => endpoint.host = Bytes.utf8 "0:0:0:0:0:0:0:1") = true by decide +kernel)
  refine ⟨first, second, hfirst, hsecond, by decide +kernel, fun heq => ?_⟩
  rw [decide_eq_true_eq] at hshort hlong
  rw [heq, hlong] at hshort
  exact absurd hshort (by decide)

end Radiata
