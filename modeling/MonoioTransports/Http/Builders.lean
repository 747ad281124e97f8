/-
The ways to build an `HttpConnector` (src/http/connector.rs), and what
its inner connector offers in ALPN (src/connectors/tls_connector.rs,
src/connectors/l4_connector.rs).

# Reading the model

- Of an inner connector only what a transport can report matters here:
  a TCP stream reports nothing, and a TLS client is told a protocol it
  offered, or nothing. That the server picks from the offer is ALPN's,
  not this repository's, so it is a condition on the runs (`Obeys`).
- `build_tls_http1_only` and `build_tls_http2_only` leave the protocol
  at its default and rely on the offer.
- Once built, the mode is left alone.
-/
import MonoioTransports.Http.Connector

namespace MonoioTransports.Http

open Lib Pool

variable {K C π δ ε : Type}

/-- `b"http/1.1"`. -/
def http11Bytes : List UInt8 := [104, 116, 116, 112, 47, 49, 46, 49]

-- ====================================================== inner connectors

/-- `TlsConnector`, as far as ALPN goes. -/
structure TlsConnector where
  alpnProtocols : List (List UInt8)
  deriving DecidableEq, Repr

/-- `TlsConnector::new_with_tls_default`. -/
def TlsConnector.newWithTlsDefault (alpn : Option (List (List UInt8))) :
    TlsConnector where
  alpnProtocols := alpn.getD []

/-- `TlsConnector::default`. -/
def TlsConnector.default : TlsConnector :=
  TlsConnector.newWithTlsDefault (some [h2Bytes, http11Bytes])

/-- The connector below. -/
inductive Inner
  | tcp
  | tls (connector : TlsConnector)
  deriving DecidableEq, Repr

/-- What a transport of the connector can report. -/
def Inner.Reports : Inner → Option (List UInt8) → Prop
  | .tcp, alpn => alpn = none
  | .tls connector, alpn =>
      ∀ p, alpn = some p → p ∈ connector.alpnProtocols

-- =============================================================== builders

/-- What the builders choose; they agree in the rest. -/
structure Built where
  connector : Inner
  protocol : Protocol
  deriving DecidableEq, Repr

/-- `HttpConnector::new`; `Protocol::default()` is automatic. -/
def newConnector (connector : Inner) : Built where
  connector := connector
  protocol := .auto

/-- `build_tcp_http1_only`. -/
def buildTcpHttp1Only : Built where
  connector := .tcp
  protocol := .http11

/-- `build_tcp_http2_only`. -/
def buildTcpHttp2Only : Built where
  connector := .tcp
  protocol := .http2

/-- `build_tls_http1_only`: the mode stays automatic, ALPN decides. -/
def buildTlsHttp1Only : Built where
  connector := .tls (TlsConnector.newWithTlsDefault (some [http11Bytes]))
  protocol := .auto

/-- `build_tls_http2_only`: likewise. -/
def buildTlsHttp2Only : Built where
  connector := .tls (TlsConnector.newWithTlsDefault (some [h2Bytes]))
  protocol := .auto

/-- `HttpConnector::<TlsConnector<_>>::default`. -/
def defaultTls : Built := newConnector (.tls TlsConnector.default)

/-- Transports report what their connector can, and nobody changes the
mode. -/
def Built.Obeys (b : Built) (_ : HttpConnector K C π δ) :
    ConnectorAction K C π δ ε → Prop
  | .transport _ (some (_, alpn)) => b.connector.Reports alpn
  | .setHttp1Only => False
  | .setHttp2Only => False
  | _ => True

/-- The runs of a connector built so. -/
def Built.machine [DecidableEq K] [DecidableEq C] (b : Built) :
    Machine (HttpConnector K C π δ) (ConnectorAction K C π δ ε) :=
  HttpConnector.machine b.protocol

end MonoioTransports.Http
