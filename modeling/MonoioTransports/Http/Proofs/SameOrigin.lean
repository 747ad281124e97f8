/-
An `HttpConnector` over TLS whose keys are URIs (src/http/connector.rs
over src/connectors/tls_connector.rs).

# The stack

`HttpConnector<TlsConnector<TcpConnector>>` with `TcpTlsAddr` for its
keys, each converted from a URI. A new transport is what the TLS
connector comes to on the key of the call (`Dials`), in the network as
it is for that call.

# The argument

- A key is an origin: the conversion looks at nothing but the origin of
  a URI, and two origins have two keys (`origin_eq_of_tryFrom`).
- A connection returned for a key runs over a transport dialled for it
  (Origin.lean), and no other key's.
- A transport dialled for a key is a TLS stream to the key's host, under
  the key's server name (`madeFor_of_dialled`).
-/
import MonoioTransports.Connectors.Proofs.Literal
import MonoioTransports.Connectors.Proofs.Unified
import MonoioTransports.Http.Proofs.Origin

namespace MonoioTransports.Connectors

variable {ι : Type}

-- ================================================================= origins

/-- Scheme, host and port, as the URI spells the host. -/
def Uri.origin (uri : Uri) : Option Scheme × Option (List Char) × UInt16 :=
  (uri.scheme, uri.host, uri.expectedPort)

/-- What a conversion that succeeds says of the URI. -/
theorem tcpTlsAddr_eq_ok {parser : ServerNameParser} {uri : Uri}
    {key : TcpTlsAddr}
    (h : TcpTlsAddr.tryFrom (ι := ι) parser uri = .ok key) :
    uri.origin = (some .https, some key.host, key.port)
      ∧ parser key.host = some key.sn := by
  unfold TcpTlsAddr.tryFrom at h
  split at h
  next => cases h
  next host hhost =>
    dsimp only at h
    split at h
    next => cases h
    next htls =>
      split at h
      next => cases h
      next sn hsn =>
        cases h
        have hscheme : uri.scheme = some .https :=
          (tls_iff_https _).mp (by simpa using htls)
        refine ⟨?_, hsn⟩
        simp [Uri.origin, Uri.expectedPort, hhost, hscheme, tlsAndPort]

/-- The conversion looks at the origin of the URI. -/
theorem tryFrom_congr (parser : ServerNameParser) {uri uri' : Uri}
    (h : uri'.origin = uri.origin) {key : TcpTlsAddr}
    (hkey : TcpTlsAddr.tryFrom (ι := ι) parser uri = .ok key) :
    TcpTlsAddr.tryFrom (ι := ι) parser uri' = .ok key := by
  obtain ⟨horigin, hsn⟩ := tcpTlsAddr_eq_ok hkey
  rw [horigin] at h
  obtain ⟨hscheme, hrest⟩ := Prod.ext_iff.mp h
  obtain ⟨hhost, hport⟩ := Prod.ext_iff.mp hrest
  dsimp only [Uri.origin] at hscheme hhost hport
  simp only [Uri.expectedPort, hscheme, if_true] at hport
  simp [TcpTlsAddr.tryFrom, hhost, hscheme, tlsAndPort, hsn, hport]

/-- And two origins have two keys. -/
theorem origin_eq_of_tryFrom {parser : ServerNameParser} {uri uri' : Uri}
    {key : TcpTlsAddr}
    (h : TcpTlsAddr.tryFrom (ι := ι) parser uri = .ok key)
    (h' : TcpTlsAddr.tryFrom (ι := ι) parser uri' = .ok key) :
    uri'.origin = uri.origin := by
  rw [(tcpTlsAddr_eq_ok h).1, (tcpTlsAddr_eq_ok h').1]

end MonoioTransports.Connectors

namespace MonoioTransports.Http

open Lib Lib.Net Pool Connectors

variable {ι S C π δ ε ε' τ : Type} [DecidableEq C]

-- =============================================================== the stack

/-- What the await on a transport resolves to is what the TLS connector
comes to on the key of the call, in the network as it is for the
call. -/
def Dials (tcp : TcpConnector) (net : Nat → Network ι S C ε' τ)
    (resolver : Nat → Resolver ι) (s : HttpConnector TcpTlsAddr C π δ) :
    ConnectorAction TcpTlsAddr C π δ ε → Prop
  | .transport t result => ∀ key, s.calls t = some (.transport key) →
      result.map Prod.fst
        = (tlsTcpConnect tcp (net t) (resolver t) key).toOption
  | _ => True

/-- A TLS stream to the host and the port of an `https` URI, under the
server name of the host. -/
def MadeFor (tcp : TcpConnector) (net : Nat → Network ι S C ε' τ)
    (resolver : Nat → Resolver ι) (parser : ServerNameParser) (uri : Uri)
    (c : C) : Prop :=
  uri.scheme = some .https
    ∧ ∃ host sn t io, uri.host = some host ∧ parser host = some sn
      ∧ tcp.connect (net t)
        (toSocketAddrs (resolver t) host uri.expectedPort) = .ok io
      ∧ (net t).handshake sn io = .ok c

namespace HttpConnector

variable {tcp : TcpConnector} {net : Nat → Network ι S C ε' τ}
  {resolver : Nat → Resolver ι} {protocol : Protocol}

/-- What was dialled for a key is what the TLS connector came to on it,
for some call. -/
theorem made_of_dialled
    {r : Recorded (HttpConnector TcpTlsAddr C π δ)
      (ConnectorEvent TcpTlsAddr C)}
    (hr : (recorded (ε := ε) protocol).ReachableUnder
      (fun r a => Dials tcp net resolver r.state a) r)
    {key : TcpTlsAddr} {c : C} (h : .dialled key c ∈ r.history) :
    ∃ t, tlsTcpConnect tcp (net t) (resolver t) key = .ok c := by
  refine Machine.recorded_invariant (C := fun s a =>
      Dials tcp net resolver s a)
    (I := fun _ history => ∀ key c, .dialled key c ∈ history →
      ∃ t, tlsTcpConnect tcp (net t) (resolver t) key = .ok c)
    ?_ ?_ hr key c h
  · exact fun _ _ _ _ h => (by cases h)
  · intro s history a s' _ ih hdials _ key c h
    rcases List.mem_append.mp h with h | h
    · obtain ⟨t, alpn, rfl, hcall⟩ := mem_events_dialled h
      have hmade := hdials key hcall
      refine ⟨t, ?_⟩
      cases htls : tlsTcpConnect tcp (net t) (resolver t) key with
      | error e =>
          rw [htls] at hmade
          cases hmade
      | ok c' =>
          rw [htls] at hmade
          cases hmade
          rfl
    · exact ih key c h

/-- A transport dialled for the key of a URI was made for the URI. -/
theorem madeFor_of_dialled {parser : ServerNameParser}
    {r : Recorded (HttpConnector TcpTlsAddr C π δ)
      (ConnectorEvent TcpTlsAddr C)}
    (hr : (recorded (ε := ε) protocol).ReachableUnder
      (fun r a => Dials tcp net resolver r.state a) r)
    {uri : Uri} {key : TcpTlsAddr}
    (hkey : TcpTlsAddr.tryFrom (ι := ι) parser uri = .ok key) {c : C}
    (h : .dialled key c ∈ r.history) :
    MadeFor tcp net resolver parser uri c := by
  obtain ⟨horigin, hsn⟩ := tcpTlsAddr_eq_ok hkey
  obtain ⟨hscheme, hrest⟩ := Prod.ext_iff.mp horigin
  obtain ⟨hhost, hport⟩ := Prod.ext_iff.mp hrest
  obtain ⟨t, htls⟩ := made_of_dialled hr h
  unfold tlsTcpConnect tlsConnect at htls
  split at htls
  next => cases htls
  next io hio =>
    refine ⟨hscheme, key.host, key.sn, t, io, hhost, hsn, ?_, htls⟩
    rw [show uri.expectedPort = key.port from hport]
    exact hio

end HttpConnector

-- ============================================================ the promise

open HttpConnector in
/-- Connections keep to their origin: what a caller is returned for a
URI runs over a TLS stream made for that URI; whoever else was returned
a connection over the same stream asked for a URI of the same origin;
and a URI of the same origin has the same key. -/
theorem connections_keep_origin {tcp : TcpConnector}
    {net : Nat → Network ι S C ε' τ} {resolver : Nat → Resolver ι}
    {parser : ServerNameParser} {protocol : Protocol}
    {r : Recorded (HttpConnector TcpTlsAddr C π δ)
      (ConnectorEvent TcpTlsAddr C)}
    (hr : (recorded (ε := ε) protocol).ReachableUnder
      (fun r a => Dials tcp net resolver r.state a) r)
    {uri : Uri} {key : TcpTlsAddr}
    (hkey : TcpTlsAddr.tryFrom (ι := ι) parser uri = .ok key)
    {conn : HttpConnection C} (hret : .returned key conn ∈ r.history) :
    MadeFor tcp net resolver parser uri conn.transport
      ∧ (∀ uri' key' conn',
        TcpTlsAddr.tryFrom (ι := ι) parser uri' = .ok key' →
        .returned key' conn' ∈ r.history →
        conn'.transport = conn.transport → uri'.origin = uri.origin)
      ∧ ∀ uri', uri'.origin = uri.origin →
        TcpTlsAddr.tryFrom (ι := ι) parser uri' = .ok key := by
  have hreach : (recorded (ε := ε) protocol).Reachable r := hr.reachable
  have hs := sourced_of_recorded hreach
  have hdial := hs.dialled_of_returned hret
  refine ⟨madeFor_of_dialled hr hkey hdial, ?_,
    fun uri' h => tryFrom_congr parser h hkey⟩
  intro uri' key' conn' hkey' hret' htx
  have hdial' := hs.dialled_of_returned hret'
  rw [htx] at hdial'
  obtain rfl := hs.dialled_unique hdial hdial'
  exact origin_eq_of_tryFrom hkey hkey'

/-- A network in which the stream of a call is its number. -/
def numbered (t : Nat) : Network Unit Nat Nat Unit Unit where
  tcp := fun _ => .ok t
  unix := fun _ => .ok t
  setNodelay := id
  handshake := fun _ io => .ok io
  ofIo := id

open HttpConnector in
/-- `https://a`, asked for twice: one TLS stream, to port 443 of `a`. -/
theorem connections_keep_origin_twice :
    ∃ r : Recorded (HttpConnector TcpTlsAddr Nat Unit Unit)
        (ConnectorEvent TcpTlsAddr Nat),
      (recorded (ε := Unit) .auto).run ⟨new 0 .auto, []⟩
          [.connect ⟨['a'], 443, .dnsName ['a']⟩,
            .transport 0 (some (0, some h2Bytes)), .acquired 0 true,
            .handshake 0 true,
            .connect ⟨['a'], 443, .dnsName ['a']⟩] = some r
        ∧ r.state.returned = some (.http2 ⟨0⟩)
        ∧ MadeFor TcpConnector.default numbered (fun _ _ _ => .ok [])
          (fun host => some (.dnsName host)) ⟨some .https, some ['a'], none⟩
          0 := by
  obtain ⟨r, hrun, hret, hmem⟩ :
      ∃ r : Recorded (HttpConnector TcpTlsAddr Nat Unit Unit)
          (ConnectorEvent TcpTlsAddr Nat),
        (recorded (ε := Unit) .auto).run ⟨new 0 .auto, []⟩
            [.connect ⟨['a'], 443, .dnsName ['a']⟩,
              .transport 0 (some (0, some h2Bytes)), .acquired 0 true,
              .handshake 0 true,
              .connect ⟨['a'], 443, .dnsName ['a']⟩] = some r
          ∧ r.state.returned = some (.http2 ⟨0⟩)
          ∧ .returned ⟨['a'], 443, .dnsName ['a']⟩ (.http2 ⟨0⟩)
            ∈ r.history := ⟨_, rfl, rfl, List.mem_cons_self⟩
  have hr : (recorded (ε := Unit) .auto).ReachableUnder
      (fun r a => Dials TcpConnector.default numbered
        (fun _ _ _ => .ok []) r.state a) r := by
    refine .along (.init ⟨⟨0, rfl⟩, rfl⟩) ?_ hrun
    exact ⟨trivial, fun _ _ => ⟨fun _ _ => rfl, fun _ _ => ⟨trivial,
      fun _ _ => ⟨trivial, fun _ _ => ⟨trivial, fun _ _ => trivial⟩⟩⟩⟩⟩
  have hkey : TcpTlsAddr.tryFrom (ι := Unit)
      (fun host => some (.dnsName host))
      ⟨some .https, some ['a'], none⟩
        = .ok ⟨['a'], 443, .dnsName ['a']⟩ := rfl
  exact ⟨r, hrun, hret, (connections_keep_origin hr hkey hmem).1⟩

end MonoioTransports.Http
