/-
URIs whose host is an IP literal.

An IPv6 literal stands in a URI within brackets, and the three
conversions pass the host on as it stands: the standard library takes
it for a name and asks the resolver, rustls finds no server name in it
(`bracketed_fails`). An IPv4 literal is written alike everywhere, so the
conversions do what they should exactly for those
(`convertsLiteral_iff`).
-/
import MonoioTransports.Connectors.Addr

namespace MonoioTransports.Connectors

open Lib.Net

variable {ι : Type}

-- ========================================================= the environment

/-- A string in brackets. -/
def bracketed (inner : List Char) : List Char := '[' :: (inner ++ [']'])

/-- A bracketed string is no name. -/
def Resolver.Lawful (resolver : Resolver ι) : Prop :=
  ∀ inner port addrs, resolver (bracketed inner) port = .ok addrs →
    addrs = []

/-- An IP literal is the server name of its address; a bracketed string
is none. -/
structure ServerNameParser.Lawful (parser : ServerNameParser) : Prop where
  ipv4 : ∀ host ip, Ipv4Addr.parse host = some ip →
    parser host = some (.ipAddress (.v4 ip))
  ipv6 : ∀ host ip, Ipv6Addr.parse host = some ip →
    parser host = some (.ipAddress (.v6 ip))
  bracketed : ∀ inner, parser (bracketed inner) = none

/-- The host of a URI, as an IP literal. -/
inductive HostLiteral : List Char → IpAddr → Prop
  | v4 (host : List Char) (ip : Ipv4Addr)
      (h : Ipv4Addr.parse host = some ip) : HostLiteral host (.v4 ip)
  | v6 (inner : List Char) (ip : Ipv6Addr)
      (h : Ipv6Addr.parse inner = some ip) :
      HostLiteral (bracketed inner) (.v6 ip)

/-- The explicit port, or that of the scheme. -/
def Uri.expectedPort (uri : Uri) : UInt16 :=
  uri.portU16.getD (if uri.scheme = some .https then 443 else 80)

-- ============================================================ conversions

/-- An IPv4 literal is an address; nothing is resolved. -/
theorem toSocketAddrs_ipv4 (resolver : Resolver ι) {host : List Char}
    {ip : Ipv4Addr} (h : Ipv4Addr.parse host = some ip) (port : UInt16) :
    toSocketAddrs resolver host port
      = .ok [{ ip := .v4 ip, port := port }] := by
  rw [toSocketAddrs, h]

/-- A bracketed string is resolved, as a name. -/
theorem toSocketAddrs_bracketed (resolver : Resolver ι)
    (inner : List Char) (port : UInt16) :
    toSocketAddrs resolver (bracketed inner) port
      = resolver (bracketed inner) port := by
  obtain ⟨h4, h6⟩ := parse_bracket (inner ++ [']'])
  rw [toSocketAddrs, bracketed, h4, h6]

/-- So it has no address. -/
theorem toSocketAddrs_lawful {resolver : Resolver ι}
    (h : resolver.Lawful) (inner : List Char) (port : UInt16) :
    (∃ e, toSocketAddrs resolver (bracketed inner) port = .error e)
      ∨ toSocketAddrs resolver (bracketed inner) port = .ok [] := by
  rw [toSocketAddrs_bracketed]
  cases hres : resolver (bracketed inner) port with
  | error e => exact Or.inl ⟨e, rfl⟩
  | ok addrs => exact Or.inr (by rw [h inner port addrs hres])

section Conversions

variable {resolver : Resolver ι} {parser : ServerNameParser} {uri : Uri}
  {host inner : List Char} {ip : Ipv4Addr}

theorem l4_of_ipv4 (resolver : Resolver ι)
    (hscheme : uri.scheme = some .http ∨ uri.scheme = some .https)
    (hhost : uri.host = some host) (h : Ipv4Addr.parse host = some ip) :
    UnifiedL4Addr.tryFrom resolver uri
      = .ok (.tcp { ip := .v4 ip, port := uri.expectedPort }) := by
  rcases hscheme with hs | hs
  · simp [UnifiedL4Addr.tryFrom, hhost, hs, toSocketAddrs_ipv4 resolver h,
      Uri.expectedPort]
  · simp [UnifiedL4Addr.tryFrom, hhost, hs, toSocketAddrs_ipv4 resolver h,
      Uri.expectedPort]

theorem unified_http (resolver : Resolver ι) (parser : ServerNameParser)
    (hs : uri.scheme = some .http) (hhost : uri.host = some host)
    (h : Ipv4Addr.parse host = some ip) :
    UnifiedAddr.tryFrom resolver parser uri
      = .ok { addr := .tcp { ip := .v4 ip, port := uri.expectedPort }
              sn := none } := by
  simp [UnifiedAddr.tryFrom, hhost, hs, tlsAndPort,
    toSocketAddrs_ipv4 resolver h, Uri.expectedPort]

theorem unified_https (resolver : Resolver ι) (hparser : parser.Lawful)
    (hs : uri.scheme = some .https) (hhost : uri.host = some host)
    (h : Ipv4Addr.parse host = some ip) :
    UnifiedAddr.tryFrom resolver parser uri
      = .ok { addr := .tcp { ip := .v4 ip, port := uri.expectedPort }
              sn := some (.ipAddress (.v4 ip)) } := by
  simp [UnifiedAddr.tryFrom, hhost, hs, tlsAndPort,
    toSocketAddrs_ipv4 resolver h, Uri.expectedPort, hparser.ipv4 host ip h]

theorem tls_https (hparser : parser.Lawful)
    (hs : uri.scheme = some .https) (hhost : uri.host = some host)
    (h : Ipv4Addr.parse host = some ip) :
    TcpTlsAddr.tryFrom (ι := ι) parser uri
      = .ok { host := host, port := uri.expectedPort
              sn := .ipAddress (.v4 ip) } := by
  simp [TcpTlsAddr.tryFrom, hhost, hs, tlsAndPort, Uri.expectedPort,
    hparser.ipv4 host ip h]

/-- With an IPv6 literal for its host no conversion of a URI succeeds. -/
theorem bracketed_fails (hresolver : resolver.Lawful)
    (hparser : parser.Lawful) (hhost : uri.host = some (bracketed inner)) :
    (∀ addr, UnifiedL4Addr.tryFrom resolver uri ≠ .ok addr)
      ∧ (∀ addr, UnifiedAddr.tryFrom resolver parser uri ≠ .ok addr)
      ∧ ∀ addr, TcpTlsAddr.tryFrom (ι := ι) parser uri ≠ .ok addr := by
  have haddrs := toSocketAddrs_lawful hresolver inner
  refine ⟨fun addr => ?_, fun addr => ?_, fun addr => ?_⟩
  · simp only [UnifiedL4Addr.tryFrom, hhost]
    generalize uri.portU16.getD _ = port
    rcases haddrs port with ⟨e, he⟩ | hnil
    · simp [he]
    · simp [hnil]
  · simp only [UnifiedAddr.tryFrom, hhost]
    generalize uri.portU16.getD _ = port
    rcases haddrs port with ⟨e, he⟩ | hnil
    · simp [he]
    · simp [hnil]
  · simp only [TcpTlsAddr.tryFrom, hhost, hparser.bracketed]
    split
    next => exact nofun
    next => exact nofun

end Conversions

-- ============================================================ the promise

/-- The URI converts to the address of its literal. -/
structure ConvertsLiteral (resolver : Resolver ι)
    (parser : ServerNameParser) (uri : Uri) (ip : IpAddr) : Prop where
  l4 : UnifiedL4Addr.tryFrom resolver uri
    = .ok (.tcp { ip := ip, port := uri.expectedPort })
  unified : ∃ sn, UnifiedAddr.tryFrom resolver parser uri
    = .ok { addr := .tcp { ip := ip, port := uri.expectedPort }
            sn := sn }
  /-- Another resolver would have made no difference. -/
  unresolved : ∀ resolver' : Resolver ι,
    UnifiedL4Addr.tryFrom resolver' uri
        = UnifiedL4Addr.tryFrom resolver uri
      ∧ UnifiedAddr.tryFrom resolver' parser uri
        = UnifiedAddr.tryFrom resolver parser uri
  /-- Both that know of TLS agree, on the server name of the address. -/
  tls : uri.scheme = some .https →
    (∃ host, TcpTlsAddr.tryFrom (ι := ι) parser uri
        = .ok { host := host, port := uri.expectedPort
                sn := .ipAddress ip })
      ∧ UnifiedAddr.tryFrom resolver parser uri
        = .ok { addr := .tcp { ip := ip, port := uri.expectedPort }
                sn := some (.ipAddress ip) }

/-- An `http` or `https` URI with an IP literal for its host converts to
that address exactly when it is an IPv4 literal. -/
theorem convertsLiteral_iff {resolver : Resolver ι}
    {parser : ServerNameParser} (hresolver : resolver.Lawful)
    (hparser : parser.Lawful) {uri : Uri} {host : List Char}
    {ip : IpAddr}
    (hscheme : uri.scheme = some .http ∨ uri.scheme = some .https)
    (hhost : uri.host = some host) (hliteral : HostLiteral host ip) :
    ConvertsLiteral resolver parser uri ip
      ↔ (Ipv4Addr.parse host).isSome = true := by
  cases hliteral with
  | v6 inner ip h =>
      have h4 : Ipv4Addr.parse (bracketed inner) = none :=
        (parse_bracket _).1
      rw [h4]
      refine ⟨fun hc => ?_, fun hf => absurd hf Bool.false_ne_true⟩
      exact absurd hc.l4 ((bracketed_fails hresolver hparser hhost).1 _)
  | v4 host ip h =>
      rw [h]
      refine ⟨fun _ => rfl, fun _ => ⟨l4_of_ipv4 resolver hscheme hhost h,
        ?_, fun resolver' => ⟨?_, ?_⟩, fun hs => ⟨⟨host, ?_⟩, ?_⟩⟩⟩
      · rcases hscheme with hs | hs
        · exact ⟨_, unified_http resolver parser hs hhost h⟩
        · exact ⟨_, unified_https resolver hparser hs hhost h⟩
      · rw [l4_of_ipv4 resolver' hscheme hhost h,
          l4_of_ipv4 resolver hscheme hhost h]
      · rcases hscheme with hs | hs
        · rw [unified_http resolver' parser hs hhost h,
            unified_http resolver parser hs hhost h]
        · rw [unified_https resolver' hparser hs hhost h,
            unified_https resolver hparser hs hhost h]
      · exact tls_https hparser hs hhost h
      · exact unified_https resolver hparser hs hhost h

/-- Server names that are IP literals, and no others. -/
def literalServerName : ServerNameParser := fun host =>
  match Ipv4Addr.parse host with
  | some ip => some (.ipAddress (.v4 ip))
  | none => (Ipv6Addr.parse host).map fun ip => .ipAddress (.v6 ip)

theorem literalServerName_lawful : literalServerName.Lawful where
  ipv4 := by
    intro host ip h
    rw [literalServerName, h]
  ipv6 := by
    intro host ip h
    cases h4 : Ipv4Addr.parse host with
    | some ip4 =>
        rw [parse_ipv6_of_ipv4 h4] at h
        cases h
    | none =>
        rw [literalServerName, h4, h]
        rfl
  bracketed := by
    intro inner
    obtain ⟨h4, h6⟩ := parse_bracket (inner ++ [']'])
    rw [literalServerName, bracketed, h4, h6]
    rfl

theorem lawful_error {e : ι} :
    Resolver.Lawful fun _ _ => (.error e : Except ι (List SocketAddr)) := by
  intro inner port addrs h
  cases h

/-- `https://127.0.0.1` converts to port 443 of that address. -/
theorem convertsLiteral_loopback :
    ConvertsLiteral (fun _ _ => .error ()) literalServerName
      { scheme := some .https, portU16 := none
        host := some (Ipv4Addr.display ⟨127, 0, 0, 1⟩) }
      (.v4 ⟨127, 0, 0, 1⟩) := by
  have hparse := parse_display ⟨127, 0, 0, 1⟩
  refine (convertsLiteral_iff lawful_error literalServerName_lawful
    (Or.inr rfl) rfl (.v4 _ _ hparse)).mpr ?_
  rw [hparse]
  rfl

/-- `http://[::1]` does not convert. -/
theorem not_convertsLiteral :
    ¬ ∀ (resolver : Resolver Unit) (parser : ServerNameParser) (uri : Uri)
        (host : List Char) (ip : IpAddr),
      resolver.Lawful → parser.Lawful →
      uri.scheme = some .http ∨ uri.scheme = some .https →
      uri.host = some host → HostLiteral host ip →
      ConvertsLiteral resolver parser uri ip := by
  intro h
  have hparse : Ipv6Addr.parse [':', ':', '1']
      = some ⟨#v[0, 0, 0, 0, 0, 0, 0, 1]⟩ := by
    decide
  have hc := h (fun _ _ => .error ()) literalServerName
    { scheme := some .http, portU16 := none
      host := some (bracketed [':', ':', '1']) }
    (bracketed [':', ':', '1']) _ lawful_error literalServerName_lawful
    (Or.inl rfl) rfl (.v6 _ _ hparse)
  exact absurd hc.l4 (by decide)

end MonoioTransports.Connectors
