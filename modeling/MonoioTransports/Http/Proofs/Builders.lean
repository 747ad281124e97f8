/-
What each way to build an `HttpConnector` comes to.

# The two ways to one kind

A connector is for one kind of connection because its mode says so, or
because its transports never report the other: `build_tls_http1_only`
offers h2 to nobody, so its automatic mode never meets it. Either way
the other half of the connector stays as it was built (`OnlyHttp1`,
`OnlyHttp2`): no lock is made and nothing rests in the HTTP/2 pool, or
nothing ever enters the HTTP/1.1 pool.

`build_tls_http2_only` is neither. It offers h2 alone, and a server that
ignores ALPN gets an HTTP/1.1 connection from it.
-/
import MonoioTransports.Http.Builders
import MonoioTransports.Http.Proofs.Negotiation

namespace MonoioTransports.Http

open Lib Pool

variable {K C π δ ε : Type} [DecidableEq K] [DecidableEq C]
  {s s' : HttpConnector K C π δ} {b : Built}

-- ============================================================= the mode

omit [DecidableEq C] in
/-- A look-up leaves the mode. -/
private theorem protocol_tryGet {s s₁ : HttpConnector K C π δ} {key : K}
    {r : Option (Http2Connection C)} (h : s.tryGet key = (s₁, r)) :
    s₁.protocol = s.protocol := by
  rw [(HttpConnector.tryGet_eq h).1]

/-- Nothing but `set_http1_only` and `set_http2_only` changes the mode. -/
theorem protocol_of_step {a : ConnectorAction K C π δ ε}
    (h : s.step a = some s') (ha : b.Obeys s a) :
    s'.protocol = s.protocol := by
  cases a with
  | connect key =>
      simp only [HttpConnector.step, HttpConnector.connect] at h
      split at h
      next => cases h
      next =>
        split at h
        next s₁ conn hlook =>
          cases h
          split at hlook
          next => exact (protocol_tryGet hlook).trans rfl
          next => cases hlook
        next s₁ hlook =>
          have hmode : s₁.protocol = s.protocol := by
            split at hlook
            next => exact (protocol_tryGet hlook).trans rfl
            next =>
              cases hlook
              rfl
          split at h
          next =>
            cases h
            exact hmode
          next =>
            cases h
            exact hmode
          next => cases h
  | transport t result =>
      simp only [HttpConnector.step, HttpConnector.transport] at h
      split at h
      next =>
        cases h
        rfl
      next =>
        split at h
        next => cases h
        next =>
          split at h
          next =>
            cases h
            rfl
          next =>
            obtain ⟨h1, -, rfl⟩ := Option.map_eq_some_iff.mp h
            rfl
      next => cases h
  | acquired t ok =>
      simp only [HttpConnector.step, HttpConnector.acquired] at h
      split at h
      next =>
        split at h
        next =>
          cases h
          rfl
        next =>
          split at h
          next => cases h
          next =>
            split at h
            next hlook =>
              cases h
              exact (protocol_tryGet hlook).trans rfl
            next hlook =>
              cases h
              exact (protocol_tryGet hlook).trans rfl
      next => cases h
  | handshake t ok =>
      simp only [HttpConnector.step, HttpConnector.handshake] at h
      split at h
      next => split at h <;> (cases h; rfl)
      next => cases h
  | cancel t =>
      simp only [HttpConnector.step, HttpConnector.cancel] at h
      split at h
      next =>
        cases h
        rfl
      next =>
        cases h
        rfl
      next => cases h
  | connErr c =>
      simp only [HttpConnector.step] at h
      split at h
      next =>
        cases h
        rfl
      next => cases h
  | setHttp1Only => exact ha.elim
  | setHttp2Only => exact ha.elim
  | h1 a =>
      simp only [HttpConnector.step] at h
      split at h
      next =>
        obtain ⟨h1, -, rfl⟩ := Option.map_eq_some_iff.mp h
        rfl
      next => cases h
  | dropConnector =>
      simp only [HttpConnector.step] at h
      split at h
      next =>
        obtain ⟨h1, -, rfl⟩ := Option.map_eq_some_iff.mp h
        rfl
      next => cases h

/-- In every run of a connector its mode is the one it was built with. -/
theorem protocol_of_reachable
    (hr : (b.machine (ε := ε)).ReachableUnder b.Obeys s) :
    s.protocol = b.protocol := by
  refine hr.invariant (I := fun s => s.protocol = b.protocol) ?_ ?_
  · intro s hinit
    obtain ⟨now, rfl⟩ := hinit
    rfl
  · intro s a s' _ ih ha h
    exact (protocol_of_step h ha).trans ih

-- ========================================================== HTTP/1.1 only

/-- The HTTP/2 half of the connector is as it was built. -/
structure HttpConnector.OnlyHttp1 (s : HttpConnector K C π δ) : Prop where
  pool : ∀ k, s.h2Pool.queue k = []
  locks : s.connecting = LockTable.empty
  calls : ∀ t call, s.calls t = some call → ∃ key, call = .transport key
  returned : ∀ conn, s.returned = some conn → ∃ h c, conn = .http1 h c

omit [DecidableEq C] in
/-- The calls when one goes to another await before the lock, or ends. -/
theorem HttpConnector.OnlyHttp1.move (ho : s.OnlyHttp1) {t : Nat}
    {call : Option (Connect K C)}
    (hcall : ∀ call', call = some call' → ∃ key, call' = .transport key)
    {h1 : H1World K C π δ} {pool : PoolInner K (Http2Connection C)}
    (hpool : pool = s.h2Pool ∨ ∃ key, pool = s.retained key)
    {used : List C} {negotiated : C → Option (List UInt8)} {n : Nat}
    {returned : Option (HttpConnection C)}
    (hret : ∀ conn, returned = some conn → ∃ h c, conn = .http1 h c) :
    HttpConnector.OnlyHttp1 { s with
      h1 := h1, h2Pool := pool, used := used, negotiated := negotiated
      calls := Function.update s.calls t call
      nextCall := n, returned := returned } where
  pool := by
    intro k
    rcases hpool with rfl | ⟨key, rfl⟩
    · exact ho.pool k
    · have hsub := HttpConnector.retained_sublist s key k
      rw [ho.pool k] at hsub
      exact List.sublist_nil.mp hsub
  locks := ho.locks
  calls := by
    intro t' call' h
    by_cases ht : t' = t
    · rw [ht] at h
      simp only [Function.update_self] at h
      exact hcall call' h
    · simp only [Function.update_of_ne ht] at h
      exact ho.calls t' call' h
  returned := hret

/-- In a mode that takes no transport for HTTP/2, no step meets it. -/
theorem HttpConnector.OnlyHttp1.step (ho : s.OnlyHttp1)
    (hmode : s.protocol ≠ .http2)
    (hno : ∀ alpn, b.connector.Reports alpn → alpn ≠ some h2Bytes)
    {a : ConnectorAction K C π δ ε} (ha : b.Obeys s a)
    (h : s.step a = some s') : s'.OnlyHttp1 := by
  have hlocked : ∀ {t key l c}, s.calls t = some (.acquire key l c) →
      False := by
    intro t key l c hcall
    obtain ⟨key', heq⟩ := ho.calls t _ hcall
    cases heq
  have hshaking : ∀ {t key l c}, s.calls t = some (.handshake key l c) →
      False := by
    intro t key l c hcall
    obtain ⟨key', heq⟩ := ho.calls t _ hcall
    cases heq
  have hempty : ∀ {key conn}, (s.tryGet key).2 = some conn → False := by
    intro key conn hget
    obtain ⟨⟨e, he, -⟩, -⟩ := HttpConnector.tryGet_some hget
    rw [ho.pool key] at he
    cases he
  have hnone : ∀ call', (none : Option (Connect K C)) = some call' →
      ∃ key, call' = .transport key := fun _ h => nomatch h
  have hsilent : ∀ conn, (none : Option (HttpConnection C)) = some conn →
      ∃ h c, conn = .http1 h c := fun _ h => nomatch h
  cases transition_step h with
  | hit2 key conn hm hget => exact (hempty hget).elim
  | hit1 key h1 p pool hpool hm hget =>
      exact ho.move hnone (hpool.imp_right fun h => ⟨key, h⟩)
        fun conn heq => ⟨_, _, (Option.some.inj heq).symm⟩
  | miss key h1 pool hpool hget =>
      exact ho.move (fun call' heq => ⟨key, (Option.some.inj heq).symm⟩)
        (hpool.imp_right fun h => ⟨key, h⟩) hsilent
  | leave a t hcall => exact ho.move hnone (Or.inl rfl) hsilent
  | toLock t key c alpn hcall hnew hh2 =>
      rcases hh2 with hh2 | hh2
      · simp [HttpConnector.isConfigH2, hmode] at hh2
      · exact absurd ((isAlpnH2_iff alpn).mp hh2) (hno alpn ha)
  | linked t key c alpn h1 hcall hnew hh1 hlink =>
      exact ho.move hnone (Or.inl rfl)
        fun conn heq => ⟨_, _, (Option.some.inj heq).symm⟩
  | hitLocked t key l c tbl conn hcall hlock hget =>
      exact (hlocked hcall).elim
  | toHandshake t key l c tbl hcall hlock hget =>
      exact (hlocked hcall).elim
  | unlock a t key l c hcall => exact (hshaking hcall).elim
  | established t key l c hcall => exact (hshaking hcall).elim
  | connErr c hopen => exact ⟨ho.pool, ho.locks, ho.calls, hsilent⟩
  | setMode a p hquiet hp => exact ⟨ho.pool, ho.locks, ho.calls, hsilent⟩
  | h1 a h1 hcallers hs => exact ⟨ho.pool, ho.locks, ho.calls, hsilent⟩
  | dropped h1 hs =>
      exact ⟨fun k => queue_new none k, ho.locks, ho.calls, hsilent⟩

/-- Nor does any run. -/
theorem onlyHttp1_of_reachable (hmode : b.protocol ≠ .http2)
    (hno : ∀ alpn, b.connector.Reports alpn → alpn ≠ some h2Bytes)
    (hr : (b.machine (ε := ε)).ReachableUnder b.Obeys s) :
    s.OnlyHttp1 := by
  apply hr.invariant
  · intro s hinit
    obtain ⟨now, rfl⟩ := hinit
    refine ⟨fun k => queue_new none k, rfl, ?_, ?_⟩
    · intro t call h
      cases h
    · intro conn h
      cases h
  · intro s a s' hr ho ha h
    refine ho.step ?_ hno ha h
    rw [protocol_of_reachable hr]
    exact hmode

-- ============================================================ HTTP/2 only

/-- Nothing ever entered the HTTP/1.1 half of the connector. -/
structure HttpConnector.OnlyHttp2 (s : HttpConnector K C π δ) : Prop where
  entered : s.h1.world.entered = []
  returned : ∀ conn, s.returned = some conn → ∃ c, conn = .http2 c

/-- In HTTP/2-only mode no step lets anything enter there. -/
theorem HttpConnector.OnlyHttp2.step (ho : s.OnlyHttp2)
    (hmode : s.protocol = .http2) {a : ConnectorAction K C π δ ε}
    (h : s.step a = some s') : s'.OnlyHttp2 := by
  have hsilent : ∀ conn, (none : Option (HttpConnection C)) = some conn →
      ∃ c, conn = .http2 c := fun _ h => nomatch h
  have hsome : ∀ {c : Http2Connection C} (conn : HttpConnection C),
      some (HttpConnection.http2 c) = some conn → ∃ c, conn = .http2 c :=
    fun _ heq => ⟨_, (Option.some.inj heq).symm⟩
  cases transition_step h with
  | hit2 key conn hm hget => exact ⟨ho.entered, hsome⟩
  | hit1 key h1 p pool hpool hm hget =>
      simp [HttpConnector.isConfigAuto, HttpConnector.isConfigH1, hmode]
        at hm
  | miss key h1 pool hpool hget =>
      refine ⟨?_, hsilent⟩
      rcases hget with rfl | hget
      · exact ho.entered
      · exact (H1World.entered_get hget).trans ho.entered
  | leave | toLock | toHandshake | unlock | connErr | setMode =>
      exact ⟨ho.entered, hsilent⟩
  | linked t key c alpn h1 hcall hnew hh1 hlink =>
      simp [HttpConnector.isConfigH2, hmode] at hh1
  | hitLocked | established => exact ⟨ho.entered, hsome⟩
  | h1 a h1 hcallers hs =>
      exact ⟨(entered_of_callers hcallers hs).trans ho.entered, hsilent⟩
  | dropped h1 hs =>
      obtain ⟨-, w, hw, rfl⟩ := H1World.pool_eq_some hs
      obtain ⟨pool, -, rfl⟩ := World.dropPool_eq_some hw
      exact ⟨ho.entered, hsilent⟩

/-- Nor does any run. -/
theorem onlyHttp2_of_reachable (hmode : b.protocol = .http2)
    (hr : (b.machine (ε := ε)).ReachableUnder b.Obeys s) :
    s.OnlyHttp2 := by
  apply hr.invariant
  · intro s hinit
    obtain ⟨now, rfl⟩ := hinit
    exact ⟨rfl, fun _ h => nomatch h⟩
  · intro s a s' hr ho _ h
    exact ho.step ((protocol_of_reachable hr).trans hmode) h

-- ========================================================= automatic mode

/-- A transport may always report nothing. -/
theorem reports_none (connector : Inner) : connector.Reports none := by
  cases connector with
  | tcp => rfl
  | tls connector =>
      intro p h
      cases h

theorem Inner.tcp_no_h2 {alpn : Option (List UInt8)}
    (h : Inner.tcp.Reports alpn) : alpn ≠ some h2Bytes := by
  have h : alpn = none := h
  rw [h]
  exact fun h => nomatch h

/-- Every transport negotiated what its connector offers, or nothing. -/
theorem reports_of_reachable
    (hr : (b.machine (ε := ε)).ReachableUnder b.Obeys s) (c : C) :
    b.connector.Reports (s.negotiated c) := by
  refine hr.invariant
    (I := fun s => ∀ c, b.connector.Reports (s.negotiated c)) ?_ ?_ c
  · intro s hinit c
    obtain ⟨now, rfl⟩ := hinit
    exact reports_none b.connector
  · intro s a s' _ ih ha h c
    have hnew : ∀ (d : C) (alpn : Option (List UInt8)),
        b.connector.Reports alpn →
        b.connector.Reports (Function.update s.negotiated d alpn c) := by
      intro d alpn hd
      by_cases hc : c = d
      · rw [hc, Function.update_self]
        exact hd
      · rw [Function.update_of_ne hc]
        exact ih c
    cases transition_step h with
    | toLock t key d alpn => exact hnew d alpn ha
    | linked t key d alpn => exact hnew d alpn ha
    | hit2 | hit1 | miss | leave | hitLocked | toHandshake | unlock
    | established | connErr | setMode | h1 | dropped => exact ih c

/-- In automatic mode the transport underneath decides the kind. -/
theorem kind_of_reachable (hmode : b.protocol = .auto)
    (hr : (b.machine (ε := ε)).ReachableUnder b.Obeys s)
    {conn : HttpConnection C} (hret : s.returned = some conn) :
    (∃ c, conn = .http2 c)
      ↔ s.negotiated conn.transport = some h2Bytes := by
  cases hr with
  | init hinit =>
      obtain ⟨now, rfl⟩ := hinit
      cases hret
  | @step s₀ _ a hr ha h =>
      have hr' : (HttpConnector.machine (ε := ε) b.protocol).Reachable s₀ :=
        hr.reachable
      have hkind := (HttpConnector.typed_of_reachable hr').byAlpn
        (HttpConnector.world_reachable hr') h hret
      have hauto : s.protocol = .auto := by
        rw [protocol_of_step h ha, protocol_of_reachable hr, hmode]
      unfold HttpConnector.ByAlpn at hkind
      rw [hauto] at hkind
      exact hkind

-- ============================================================ the promise

/-- The builders. -/
inductive Builder
  | tcpHttp1Only
  | tcpHttp2Only
  | tlsHttp1Only
  | tlsHttp2Only
  | defaultTls
  deriving DecidableEq, Repr

/-- What each of them builds. -/
def Builder.built : Builder → Built
  | .tcpHttp1Only => buildTcpHttp1Only
  | .tcpHttp2Only => buildTcpHttp2Only
  | .tlsHttp1Only => buildTlsHttp1Only
  | .tlsHttp2Only => buildTlsHttp2Only
  | .defaultTls => Http.defaultTls

/-- What a connector built so is for. -/
def Builder.Promise (builder : Builder) (s : HttpConnector K C π δ) :
    Prop :=
  match builder with
  | .tcpHttp1Only => s.OnlyHttp1
  | .tcpHttp2Only => s.OnlyHttp2
  | .tlsHttp1Only => s.OnlyHttp1
  -- HTTP/2, but for a server that ignores ALPN
  | .tlsHttp2Only => ∀ conn, s.returned = some conn →
      ((∃ c, conn = .http2 c)
          ↔ s.negotiated conn.transport = some h2Bytes)
        ∧ ((∃ h c, conn = .http1 h c)
          ↔ s.negotiated conn.transport = none)
  | .defaultTls => ∀ conn, s.returned = some conn →
      ((∃ c, conn = .http2 c)
          ↔ s.negotiated conn.transport = some h2Bytes)
        ∧ ((∃ h c, conn = .http1 h c)
          ↔ s.negotiated conn.transport = none
            ∨ s.negotiated conn.transport = some http11Bytes)

omit [DecidableEq K] [DecidableEq C] in
/-- A connection is of one kind. -/
theorem http1_iff_not_http2 (conn : HttpConnection C) :
    (∃ h c, conn = .http1 h c) ↔ ¬ ∃ c, conn = .http2 c := by
  cases conn with
  | http1 h c => simp
  | http2 c => simp

/-- In every run of a connector that `builder` built, it is for that. -/
theorem builders_keep_their_promise {builder : Builder}
    (hr : (builder.built.machine (ε := ε)).ReachableUnder
      builder.built.Obeys s) : builder.Promise s := by
  cases builder with
  | tcpHttp1Only =>
      exact onlyHttp1_of_reachable (by decide)
        (fun _ => Inner.tcp_no_h2) hr
  | tcpHttp2Only => exact onlyHttp2_of_reachable rfl hr
  | tlsHttp1Only =>
      refine onlyHttp1_of_reachable (by decide) ?_ hr
      intro alpn hoffer halpn
      have hmem := hoffer h2Bytes halpn
      revert hmem
      decide
  | tlsHttp2Only =>
      intro conn hret
      have hkind := kind_of_reachable
        (show Builder.tlsHttp2Only.built.protocol = .auto from rfl) hr hret
      refine ⟨hkind, ?_⟩
      rw [http1_iff_not_http2, hkind]
      have hoffer := reports_of_reachable hr conn.transport
      cases halpn : s.negotiated conn.transport with
      | none => simp
      | some p =>
          have hmem : p ∈ [h2Bytes] := hoffer p halpn
          simpa using hmem
  | defaultTls =>
      intro conn hret
      have hkind := kind_of_reachable
        (show Builder.defaultTls.built.protocol = .auto from rfl) hr hret
      refine ⟨hkind, ?_⟩
      rw [http1_iff_not_http2, hkind]
      have hoffer := reports_of_reachable hr conn.transport
      cases halpn : s.negotiated conn.transport with
      | none => simp
      | some p =>
          have hmem : p ∈ [h2Bytes, http11Bytes] := hoffer p halpn
          have hne : http11Bytes ≠ h2Bytes := by decide
          simp only [List.mem_cons, List.not_mem_nil, or_false] at hmem
          rcases hmem with rfl | rfl
          · simp [hne.symm]
          · simp [hne]

/-- A connector built for HTTP/2 over TLS, and a server that ignores
ALPN. -/
theorem builders_keep_their_promise_fallback :
    ∃ s : HttpConnector Nat Nat Unit Unit,
      (Builder.tlsHttp2Only.built.machine (ε := Unit)).run
          (HttpConnector.new 0 .auto)
          [.connect 7, .transport 0 (some (1, none))] = some s
        ∧ s.returned = some (.http1 0 1)
        ∧ Builder.tlsHttp2Only.Promise s := by
  obtain ⟨s, hrun, hret⟩ : ∃ s : HttpConnector Nat Nat Unit Unit,
      (Builder.tlsHttp2Only.built.machine (ε := Unit)).run
          (HttpConnector.new 0 .auto)
          [.connect 7, .transport 0 (some (1, none))] = some s
        ∧ s.returned = some (.http1 0 1) := ⟨_, rfl, rfl⟩
  have hr : (Builder.tlsHttp2Only.built.machine (ε := Unit)).ReachableUnder
      Builder.tlsHttp2Only.built.Obeys s := by
    refine .along (.init ⟨0, rfl⟩) ?_ hrun
    exact ⟨trivial, fun _ _ =>
      ⟨reports_none Builder.tlsHttp2Only.built.connector, fun _ _ => trivial⟩⟩
  exact ⟨s, hrun, hret, builders_keep_their_promise hr⟩

end MonoioTransports.Http
