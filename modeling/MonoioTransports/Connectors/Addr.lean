/-
Addresses from URIs (src/connectors/l4_connector.rs and
src/connectors/tls_connector.rs): the three conversions `try_from`.

# Reading the model

- A `Uri` is what its accessors answer. `host` answers an IPv6 literal
  with its brackets.
- Strings are lists of characters.
- Name resolution and the server names of rustls are the environment: a
  `Resolver` is what the system answers for a name and a port, a
  `ServerNameParser` is `ServerName::try_from`, whose error says nothing
  more.
- `toSocketAddrs` is the standard library's, on a host and a port: a
  literal is an address, and only another host is resolved.

The rustls backend is modelled (the default).
-/
import MonoioTransports.Lib.Net

namespace MonoioTransports.Connectors

open Lib.Net

variable {ι : Type}

-- ==================================================================== URIs

/-- `http::uri::Scheme`. -/
inductive Scheme
  | http
  | https
  | other (name : List Char)
  deriving DecidableEq, Repr

/-- The parts of an `http::Uri` that the addresses are made of. A host that
is an IPv6 literal has its brackets. -/
structure Uri where
  scheme : Option Scheme
  host : Option (List Char)
  portU16 : Option UInt16
  deriving DecidableEq, Repr

/-- `FromUriError`. -/
inductive FromUriError (ι : Type)
  | invalidDnsName
  | unsupportScheme
  | noAuthority
  | resolve (e : ι)
  | noResolve
  deriving DecidableEq, Repr

-- ========================================================= the environment

/-- The system's name resolution. -/
abbrev Resolver (ι : Type) : Type :=
  List Char → UInt16 → Except ι (List SocketAddr)

/-- `ServerName` of rustls. -/
inductive ServerName
  | dnsName (name : List Char)
  | ipAddress (ip : IpAddr)
  deriving DecidableEq, Repr

/-- `ServerName::try_from` of rustls. -/
abbrev ServerNameParser : Type := List Char → Option ServerName

/-- `(host, port).to_socket_addrs()`. -/
def toSocketAddrs (resolver : Resolver ι) (host : List Char)
    (port : UInt16) : Except ι (List SocketAddr) :=
  match Ipv4Addr.parse host with
  | some ip => .ok [{ ip := .v4 ip, port := port }]
  | none =>
      match Ipv6Addr.parse host with
      | some ip => .ok [{ ip := .v6 ip, port := port }]
      | none => resolver host port

-- =============================================================== addresses

/-- `UnifiedL4Addr`; a TCP address is resolved already. -/
inductive UnifiedL4Addr
  | tcp (addr : SocketAddr)
  | unix (path : List Char)
  deriving DecidableEq, Repr

/-- `TcpTlsAddr`; it is resolved at `connect`. -/
structure TcpTlsAddr where
  host : List Char
  port : UInt16
  sn : ServerName
  deriving DecidableEq, Repr

/-- `UnifiedAddr`: with a server name, TLS is spoken over the rest. -/
structure UnifiedAddr where
  addr : UnifiedL4Addr
  sn : Option ServerName
  deriving DecidableEq, Repr

/-- `UnifiedL4Addr::try_from`. -/
def UnifiedL4Addr.tryFrom (resolver : Resolver ι) (uri : Uri) :
    Except (FromUriError ι) UnifiedL4Addr :=
  match uri.host with
  | none => .error .noAuthority
  | some host =>
      let defaultPort := match uri.scheme with
        | some .http => 80
        | some .https => 443
        | _ => 0
      let port := uri.portU16.getD defaultPort
      match toSocketAddrs resolver host port with
      | .error e => .error (.resolve e)
      | .ok [] => .error .noResolve
      | .ok (addr :: _) => .ok (.tcp addr)

/-- `(tls, default_port)`, in the two conversions that know of TLS. -/
def tlsAndPort (scheme : Option Scheme) : Bool × UInt16 :=
  match scheme with
  | some .http => (false, 80)
  | some .https => (true, 443)
  | _ => (false, 0)

/-- `TcpTlsAddr::try_from`. -/
def TcpTlsAddr.tryFrom (parser : ServerNameParser) (uri : Uri) :
    Except (FromUriError ι) TcpTlsAddr :=
  match uri.host with
  | none => .error .noAuthority
  | some host =>
      let (tls, defaultPort) := tlsAndPort uri.scheme
      if !tls then .error .unsupportScheme
      else
        let port := uri.portU16.getD defaultPort
        match parser host with
        | none => .error .invalidDnsName
        | some sn => .ok { host := host, port := port, sn := sn }

/-- `UnifiedAddr::try_from`. -/
def UnifiedAddr.tryFrom (resolver : Resolver ι)
    (parser : ServerNameParser) (uri : Uri) :
    Except (FromUriError ι) UnifiedAddr :=
  match uri.host with
  | none => .error .noAuthority
  | some host =>
      let (tls, defaultPort) := tlsAndPort uri.scheme
      let port := uri.portU16.getD defaultPort
      match toSocketAddrs resolver host port with
      | .error e => .error (.resolve e)
      | .ok [] => .error .noResolve
      | .ok (addr :: _) =>
          if tls then
            match parser host with
            | none => .error .invalidDnsName
            | some sn => .ok { addr := .tcp addr, sn := some sn }
          else .ok { addr := .tcp addr, sn := none }

end MonoioTransports.Connectors
