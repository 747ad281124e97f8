/-
The unified address and connector against the narrower ones
(src/connectors/tls_connector.rs, src/connectors/l4_connector.rs).

`UnifiedAddr::try_from` does over again what `UnifiedL4Addr::try_from`
and `TcpTlsAddr::try_from` do, and `UnifiedConnector` what
`UnifiedL4Connector` and `TlsConnector` do. A URI opened with the former
is opened as with the latter: the same stream, or the same error, and
where both conversions fail it is layer four's (`open_unified_eq`). So a
stream over TLS is what an `https` URI comes to, and no other URI.
-/
import MonoioTransports.Connectors.Unified

namespace MonoioTransports.Connectors

open Lib.Net

variable {ι S σ ε τ : Type}

-- ============================================================ conversions

/-- Layer four's conversion, with the port that the others take. -/
theorem l4Addr_eq (resolver : Resolver ι) (uri : Uri) :
    UnifiedL4Addr.tryFrom resolver uri
      = match uri.host with
        | none => .error .noAuthority
        | some host =>
            match toSocketAddrs resolver host
                (uri.portU16.getD (tlsAndPort uri.scheme).2) with
            | .error e => .error (.resolve e)
            | .ok [] => .error .noResolve
            | .ok (addr :: _) => .ok (.tcp addr) := by
  unfold UnifiedL4Addr.tryFrom tlsAndPort
  rcases uri.scheme with _ | (_ | _ | name) <;> rfl

theorem tls_iff_https (scheme : Option Scheme) :
    (tlsAndPort scheme).1 = true ↔ scheme = some .https := by
  rcases scheme with _ | (_ | _ | name) <;> simp [tlsAndPort]

/-- The unified conversion: layer four's, then for `https` the server
name that TLS's has. -/
theorem unifiedAddr_eq (resolver : Resolver ι) (parser : ServerNameParser)
    (uri : Uri) :
    UnifiedAddr.tryFrom resolver parser uri
      = (UnifiedL4Addr.tryFrom resolver uri).bind fun addr =>
        if uri.scheme = some .https then
          (TcpTlsAddr.tryFrom parser uri).map fun key =>
            { addr := addr, sn := some key.sn }
        else .ok { addr := addr, sn := none } := by
  rw [l4Addr_eq]
  unfold UnifiedAddr.tryFrom
  cases hhost : uri.host with
  | none => rfl
  | some host =>
      dsimp only
      have htls := tls_iff_https uri.scheme
      cases toSocketAddrs resolver host
          (uri.portU16.getD (tlsAndPort uri.scheme).2) with
      | error e => rfl
      | ok addrs =>
          cases addrs with
          | nil => rfl
          | cons addr rest =>
              -- the scheme alone says whether a server name is wanted
              by_cases hscheme : uri.scheme = some .https
              · simp only [hscheme, if_true, TcpTlsAddr.tryFrom, hhost]
                cases parser host with
                | none => rfl
                | some sn => rfl
              · simp only [mt htls.mp hscheme, hscheme, if_false]
                rfl

/-- A server name is there for `https` only, and is the host's. -/
theorem sn_of_unifiedAddr {resolver : Resolver ι}
    {parser : ServerNameParser} {uri : Uri} {key : UnifiedAddr}
    (h : UnifiedAddr.tryFrom resolver parser uri = .ok key) :
    if uri.scheme = some .https then
      ∃ host sn, uri.host = some host ∧ parser host = some sn
        ∧ key.sn = some sn
    else key.sn = none := by
  unfold UnifiedAddr.tryFrom at h
  have htls := tls_iff_https uri.scheme
  split at h
  next => cases h
  next host hhost =>
    dsimp only at h
    split at h
    next => cases h
    next => cases h
    next =>
      split at h
      next hyes =>
        rw [if_pos (htls.mp hyes)]
        split at h
        next => cases h
        next sn hsn =>
          cases h
          exact ⟨host, sn, hhost, hsn, rfl⟩
      next hno =>
        rw [if_neg (mt htls.mpr hno)]
        cases h
        rfl

-- ============================================================= connecting

/-- With a server name `UnifiedConnector` is a `TlsConnector` over layer
four. -/
theorem connectTls_eq (self : UnifiedConnector) (net : Network ι S σ ε τ)
    (key : UnifiedTlsAddr) :
    self.connectTls net key
      = tlsConnect net (fun key =>
          (self.innerConnector.connect net key.addr).map
            UnifiedL4Stream.io) UnifiedTlsAddr.sn key := by
  unfold UnifiedConnector.connectTls tlsConnect
  dsimp only
  cases self.innerConnector.connect net key.addr with
  | error e => rfl
  | ok stream => rfl

/-- What comes of connecting, kinds and errors told apart. -/
theorem connect_eq (self : UnifiedConnector) (net : Network ι S σ ε τ)
    (key : UnifiedAddr) :
    self.connect net key
      = match key.sn with
        | some sn =>
            ((self.connectTls net { addr := key.addr, sn := sn }).map
              UnifiedStream.tls).mapError UnifiedError.tls
        | none =>
            ((self.innerConnector.connect net key.addr).map
              UnifiedStream.l4).mapError UnifiedError.l4 := by
  unfold UnifiedConnector.connect UnifiedConnector.connectTls
  dsimp only
  cases key.sn with
  | none => cases self.innerConnector.connect net key.addr <;> rfl
  | some sn =>
      cases self.innerConnector.connect net key.addr with
      | error e => rfl
      | ok stream =>
          dsimp only
          cases net.handshake sn stream.io <;> rfl

-- ============================================================ the promise

/-- `UnifiedAddr::try_from`, then `UnifiedConnector::connect`. -/
def openUnified (self : UnifiedConnector) (net : Network ι S σ ε τ)
    (resolver : Resolver ι) (parser : ServerNameParser) (uri : Uri) :
    Except (FromUriError ι)
      (Except (UnifiedError ε τ) (UnifiedStream S σ)) :=
  (UnifiedAddr.tryFrom resolver parser uri).map (self.connect net)

/-- The narrower conversions, and the narrower connectors: layer four's,
and for `https` TLS over it. -/
def openNarrow (self : UnifiedConnector) (net : Network ι S σ ε τ)
    (resolver : Resolver ι) (parser : ServerNameParser) (uri : Uri) :
    Except (FromUriError ι)
      (Except (UnifiedError ε τ) (UnifiedStream S σ)) :=
  (UnifiedL4Addr.tryFrom resolver uri).bind fun addr =>
    if uri.scheme = some .https then
      (TcpTlsAddr.tryFrom parser uri).map fun key =>
        ((tlsConnect net (fun _ =>
            (self.innerConnector.connect net addr).map
              UnifiedL4Stream.io) TcpTlsAddr.sn key).map
          UnifiedStream.tls).mapError UnifiedError.tls
    else
      .ok (((self.innerConnector.connect net addr).map
        UnifiedStream.l4).mapError UnifiedError.l4)

/-- A URI opened with the unified address and connector is opened as
with the narrower ones, to the same stream or the same error; TLS is
what `https` comes to and nothing else, with the server name of the
host. -/
theorem open_unified_eq (self : UnifiedConnector)
    (net : Network ι S σ ε τ) (resolver : Resolver ι)
    (parser : ServerNameParser) (uri : Uri) :
    openUnified self net resolver parser uri
        = openNarrow self net resolver parser uri
      ∧ ∀ stream, openUnified self net resolver parser uri
          = .ok (.ok stream) →
        if uri.scheme = some .https then
          ∃ host sn below tls, uri.host = some host
            ∧ parser host = some sn ∧ net.handshake sn below = .ok tls
            ∧ stream = .tls tls
        else ∃ l4, stream = .l4 l4 := by
  refine ⟨?_, ?_⟩
  · rw [openUnified, openNarrow, unifiedAddr_eq]
    cases UnifiedL4Addr.tryFrom resolver uri with
    | error e => rfl
    | ok addr =>
        show Except.map _ (if _ then _ else _) = if _ then _ else _
        split
        next =>
          cases TcpTlsAddr.tryFrom (ι := ι) parser uri with
          | error e => rfl
          | ok key =>
              rw [show Except.map (self.connect net) (Except.map _ _)
                = Except.ok (self.connect net
                  { addr := addr, sn := some key.sn }) from rfl,
                connect_eq]
              dsimp only
              rw [connectTls_eq]
              rfl
        next =>
          show Except.ok (self.connect net _) = _
          rw [connect_eq]
  · intro stream h
    unfold openUnified at h
    cases haddr : UnifiedAddr.tryFrom resolver parser uri with
    | error e =>
        rw [haddr] at h
        cases h
    | ok key =>
        rw [haddr] at h
        have hconn : self.connect net key = .ok stream :=
          Except.ok.inj h
        have hsn := sn_of_unifiedAddr haddr
        unfold UnifiedConnector.connect at hconn
        split at hsn
        next hscheme =>
          rw [if_pos hscheme]
          obtain ⟨host, sn, hhost, hparse, hkey⟩ := hsn
          rw [hkey] at hconn
          dsimp only at hconn
          split at hconn
          next => cases hconn
          next below _ =>
            split at hconn
            next => cases hconn
            next tls htls =>
              cases hconn
              exact ⟨host, sn, below.io, tls, hhost, hparse, htls, rfl⟩
        next hscheme =>
          rw [if_neg hscheme]
          rw [hsn] at hconn
          dsimp only at hconn
          split at hconn
          next => cases hconn
          next l4 _ =>
            cases hconn
            exact ⟨l4, rfl⟩

end MonoioTransports.Connectors
