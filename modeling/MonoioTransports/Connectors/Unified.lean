/-
The connectors under an HTTP connector (src/connectors/l4_connector.rs
and src/connectors/tls_connector.rs): TCP or a Unix socket, and TLS over
either.

# Reading the model

- The network is the environment: what `TcpStream::connect` makes of
  what its argument resolves to, what a Unix socket's makes of a path,
  and what a TLS handshake with a server name over a stream comes to. A
  handshake's own failure and an I/O error are both `TlsError`s.
- `TcpConnector` sets `TCP_NODELAY` if it was told to, and ignores
  whether that worked.
- A TLS stream is the same whatever the stream below.
- `connect` awaits the network only, so each is a function of it.
-/
import MonoioTransports.Connectors.Addr

namespace MonoioTransports.Connectors

open Lib.Net

variable {ι S σ ε τ A : Type}

-- ========================================================= the environment

/-- What the network and the TLS library do. -/
structure Network (ι S σ ε τ : Type) where
  tcp : Except ι (List SocketAddr) → Except ε S
  unix : List Char → Except ε S
  setNodelay : S → S
  handshake : ServerName → S → Except τ σ
  /-- `TlsError::from` of an I/O error. -/
  ofIo : ε → τ

-- =============================================================== layer four

/-- `TcpConnector`. -/
structure TcpConnector where
  noDelay : Bool
  deriving DecidableEq, Repr

/-- `TcpConnector::default`. -/
def TcpConnector.default : TcpConnector := { noDelay := true }

/-- `TcpConnector::connect`, to what its key resolves to. -/
def TcpConnector.connect (self : TcpConnector) (net : Network ι S σ ε τ)
    (key : Except ι (List SocketAddr)) : Except ε S :=
  (net.tcp key).map fun io => if self.noDelay then net.setNodelay io else io

/-- `UnixConnector::connect`. -/
def unixConnect (net : Network ι S σ ε τ) (key : List Char) : Except ε S :=
  net.unix key

/-- `UnifiedL4Stream`. -/
inductive UnifiedL4Stream (S : Type)
  | tcp (stream : S)
  | unix (stream : S)
  deriving DecidableEq, Repr

/-- The stream inside, of either kind. -/
def UnifiedL4Stream.io : UnifiedL4Stream S → S
  | .tcp stream => stream
  | .unix stream => stream

/-- `UnifiedL4Connector`; the connector for Unix sockets has no fields. -/
structure UnifiedL4Connector where
  tcp : TcpConnector
  deriving DecidableEq, Repr

/-- `UnifiedL4Connector::default`. -/
def UnifiedL4Connector.default : UnifiedL4Connector :=
  { tcp := TcpConnector.default }

/-- `UnifiedL4Connector::connect`; an address resolves to itself. -/
def UnifiedL4Connector.connect (self : UnifiedL4Connector)
    (net : Network ι S σ ε τ) (key : UnifiedL4Addr) :
    Except ε (UnifiedL4Stream S) :=
  match key with
  | .tcp addr => (self.tcp.connect net (.ok [addr])).map .tcp
  | .unix path => (unixConnect net path).map .unix

-- ===================================================================== TLS

/-- `TlsConnector::connect`: the inner connector's `connect`, then the
handshake with the key's server name. -/
def tlsConnect (net : Network ι S σ ε τ) (inner : A → Except ε S)
    (asRef : A → ServerName) (key : A) : Except τ σ :=
  match inner key with
  | .error e => .error (net.ofIo e)
  | .ok stream => net.handshake (asRef key) stream

/-- `to_socket_addrs` of a `TcpTlsAddr`. -/
def TcpTlsAddr.toSocketAddrs (self : TcpTlsAddr) (resolver : Resolver ι) :
    Except ι (List SocketAddr) :=
  Connectors.toSocketAddrs resolver self.host self.port

/-- `TlsConnector<TcpConnector>` on a `TcpTlsAddr`. -/
def tlsTcpConnect (tcp : TcpConnector) (net : Network ι S σ ε τ)
    (resolver : Resolver ι) (key : TcpTlsAddr) : Except τ σ :=
  tlsConnect net (fun key => tcp.connect net (key.toSocketAddrs resolver))
    TcpTlsAddr.sn key

-- ================================================================= unified

/-- `UnifiedStream`. -/
inductive UnifiedStream (S σ : Type)
  | l4 (stream : UnifiedL4Stream S)
  | tls (stream : σ)
  deriving DecidableEq, Repr

/-- `UnifiedError`. -/
inductive UnifiedError (ε τ : Type)
  | l4 (e : ε)
  | tls (e : τ)
  deriving DecidableEq, Repr

/-- `UnifiedConnector`; what it knows of TLS is in the network. -/
structure UnifiedConnector where
  innerConnector : UnifiedL4Connector
  deriving DecidableEq, Repr

/-- `UnifiedTlsAddr`. -/
structure UnifiedTlsAddr where
  addr : UnifiedL4Addr
  sn : ServerName
  deriving DecidableEq, Repr

/-- `UnifiedConnector::connect`, to an address that has a server name. -/
def UnifiedConnector.connectTls (self : UnifiedConnector)
    (net : Network ι S σ ε τ) (key : UnifiedTlsAddr) : Except τ σ :=
  match self.innerConnector.connect net key.addr with
  | .error e => .error (net.ofIo e)
  | .ok stream => net.handshake key.sn stream.io

/-- `UnifiedConnector::connect`, to an address that may have one. -/
def UnifiedConnector.connect (self : UnifiedConnector)
    (net : Network ι S σ ε τ) (key : UnifiedAddr) :
    Except (UnifiedError ε τ) (UnifiedStream S σ) :=
  match key.sn with
  | some sn =>
      match self.innerConnector.connect net key.addr with
      | .error e => .error (.tls (net.ofIo e))
      | .ok stream =>
          match net.handshake sn stream.io with
          | .error e => .error (.tls e)
          | .ok tlsStream => .ok (.tls tlsStream)
  | none =>
      match self.innerConnector.connect net key.addr with
      | .error e => .error (.l4 e)
      | .ok stream => .ok (.l4 stream)

end MonoioTransports.Connectors
