import Radiata.ForStd.Address
import Radiata.Native.Endpoint

/-!
# Socket addresses

`src/transport/endpoint.rs` builds the endpoint of a bound listener from its socket address, and
`Endpoint::parse` takes address literals. `Endpoint.denotes` is the host and the port a text
stands for, whatever its spelling.
-/

namespace Radiata

open Bytes (stripStart)
open Net (Ipv4Addr Ipv6Addr colon)

/-- `IpAddr` -/
inductive IpAddr where
  | v4 (ip : Ipv4Addr)
  | v6 (ip : Ipv6Addr)
  deriving DecidableEq

/-- `SocketAddr` without a scope id. -/
structure SocketAddr where
  ip : IpAddr
  port : UInt16
  deriving DecidableEq

/-- `Endpoint::from_socket_addr`: the canonical text, the host and the port. -/
def Endpoint.fromSocketAddr (address : SocketAddr) : Bytes × Bytes × UInt16 :=
  let (host, bracketed) :=
    match address.ip with
    | .v4 ip => (ip.text, false)
    | .v6 ip => (ip.text, true)
  (formatEndpoint host bracketed address.port, host, address.port)

/-! ## What a text stands for -/

/-- A host: a DNS name, whose case does not count, or an address. -/
inductive HostAddress where
  | dns (name : Bytes)
  | ip (address : IpAddr)
  deriving DecidableEq

/-- The host that a text stands for. -/
def hostAddress (host : Bytes) : Option HostAddress :=
  if host.all (fun b => Bytes.isDigit b || b == Net.dot) then
    (Net.parseIpv4 host).map fun ip => .ip (.v4 ip)
  else if colon ∈ host then (Net.parseIpv6 host).map fun ip => .ip (.v6 ip)
  else some (.dns (host.map toAsciiLowercase))

namespace Endpoint

/-- The host as a text spells it, and the port, which is 443 unless it is given. -/
def parts (text : Bytes) : Option (Bytes × UInt16) := do
  let authority ← stripStart endpointScheme text
  let split ← (splitAuthority authority).toOption
  let port ← (readPort split.port).toOption
  return (split.host, port)

/-- The host as a text spells it, up to the case of letters. -/
def spelling (text : Bytes) : Option Bytes :=
  (parts text).map fun part => part.1.map toAsciiLowercase

/-- The host and the port a text stands for. -/
def denotes (text : Bytes) : Option (HostAddress × UInt16) := do
  let (host, port) ← parts text
  let address ← hostAddress host
  return (address, port)

end Endpoint

end Radiata
