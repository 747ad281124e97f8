/-
The kind of connection `connect` returns, against the configured
protocol and the ALPN result of the transport underneath.

# Where the mode is read

The two look-ups before the transport are gated by the mode. The choice
after it is not: `is_config_h2() || is_alpn_h2()` is true for a
transport that negotiated h2 whatever the mode. So HTTP/2-only mode
overrides ALPN, and in HTTP/1.1-only mode, which is documented for
transports without ALPN, a call whose own transport negotiated h2
returns an HTTP/2 connection and any other an HTTP/1.1 one.

# The invariant

Outside HTTP/2-only mode every call beyond the choice stands on a
transport that negotiated h2. In automatic mode, which is never entered
again once left, so does everything in the HTTP/2 pool, and nothing that
ever entered the HTTP/1.1 pool does.
-/
import MonoioTransports.Http.Proofs.Abandoned
import MonoioTransports.Http.Proofs.Multiplex

namespace MonoioTransports.Http

open Lib Pool

variable {K C π δ ε : Type}

-- ================================================================== ALPN

/-- A transport is taken for HTTP/2 exactly when it negotiated h2. -/
theorem isAlpnH2_iff (alpn : Option (List UInt8)) :
    (getConnMetadata alpn).isAlpnH2 = true ↔ alpn = some h2Bytes := by
  cases alpn with
  | none => simp [getConnMetadata, TransportConnMeta.setAlpn,
      TransportConnMeta.isAlpnH2]
  | some p =>
      by_cases hp : p = h2Bytes <;>
        simp [getConnMetadata, TransportConnMeta.setAlpn,
          TransportConnMeta.isAlpnH2, hp]

theorem alpn_of_http1 {alpn : Option (List UInt8)}
    (h : (getConnMetadata alpn).isAlpnH2 = false) :
    alpn ≠ some h2Bytes := by
  intro halpn
  rw [(isAlpnH2_iff alpn).mpr halpn] at h
  cases h

-- ============================================================ statements

/-- The protocol, and in automatic mode ALPN, decide the kind. -/
def HttpConnector.ByProtocol (s : HttpConnector K C π δ)
    (conn : HttpConnection C) : Prop :=
  match s.protocol with
  | .http11 => ∃ h c, conn = .http1 h c
  | .http2 => ∃ c, conn = .http2 c
  | .auto =>
      (∃ c, conn = .http2 c)
        ↔ s.negotiated conn.transport = some h2Bytes

/-- What the transport of the call that takes this step negotiated; a
call that ends at its first look-ups has none. -/
def HttpConnector.reported (s : HttpConnector K C π δ) :
    ConnectorAction K C π δ ε → Option (List UInt8)
  | .transport _ (some (_, alpn)) => alpn
  | .acquired t _ => (Connect.carries (s.calls t)).bind s.negotiated
  | .handshake t _ => (Connect.carries (s.calls t)).bind s.negotiated
  | _ => none

/-- The same, but in HTTP/1.1-only mode ALPN decides too. -/
def HttpConnector.ByAlpn (s : HttpConnector K C π δ)
    (reported : Option (List UInt8)) (conn : HttpConnection C) : Prop :=
  match s.protocol with
  | .http11 => (∃ c, conn = .http2 c) ↔ reported = some h2Bytes
  | .http2 => ∃ c, conn = .http2 c
  | .auto =>
      (∃ c, conn = .http2 c)
        ↔ s.negotiated conn.transport = some h2Bytes

-- ========================================================= the invariant

variable [DecidableEq K] {s s' : HttpConnector K C π δ}

/-- As far as the mode goes by ALPN, a transport is used as it reported:
one carried to the lock, or in an HTTP/2 queue, reported HTTP/2, and one
under an HTTP/1.1 connection did not. What is pooled was dialled. -/
structure HttpConnector.Typed (s : HttpConnector K C π δ) : Prop where
  calls : s.protocol ≠ .http2 → ∀ t c,
    Connect.carries (s.calls t) = some c → s.negotiated c = some h2Bytes
  auto_pool : s.protocol = .auto → ∀ k, ∀ e ∈ s.h2Pool.queue k,
    s.negotiated e.conn.tx = some h2Bytes
  auto_h1 : s.protocol = .auto → ∀ k c, (k, c) ∈ s.h1.world.entered →
    s.negotiated c ≠ some h2Bytes
  used_pool : ∀ k, ∀ e ∈ s.h2Pool.queue k, e.conn.tx ∈ s.used
  used_h1 : ∀ k c, (k, c) ∈ s.h1.world.entered → c ∈ s.used

theorem HttpConnector.typed_new (now : Nat) (protocol : Protocol) :
    (HttpConnector.new now protocol : HttpConnector K C π δ).Typed := by
  have hq : ∀ k e, e ∉ (HttpConnector.new now protocol
      : HttpConnector K C π δ).h2Pool.queue k := by
    intro k e
    simp [HttpConnector.new]
  refine ⟨?_, ?_, ?_, ?_, ?_⟩
  · intro _ t c h
    cases h
  · exact fun _ k e he => absurd he (hq k e)
  · intro _ k c h
    cases h
  · exact fun k e he => absurd he (hq k e)
  · intro k c h
    cases h

section Steps

variable [DecidableEq C]

/-- What the callers do lets nothing enter. -/
theorem entered_of_callers {h h' : H1World K C π δ}
    {b : H1Action K C π δ ε} (hb : callers b = true)
    (hs : h.step b = some h') : h'.world.entered = h.world.entered := by
  cases b with
  | pool p =>
      obtain ⟨-, w, hw, rfl⟩ := H1World.pool_eq_some hs
      cases p with
      | tick dt =>
          cases hw
          rfl
      | _ => cases hb
  | sendRequest hd =>
      obtain ⟨p, -, -, rfl⟩ := H1World.sendRequest_eq_some hs
      rfl
  | resume hd ev =>
      obtain ⟨p, conn, st, -, -, rfl⟩ := H1World.resume_eq_some hs
      rfl
  | cancel hd =>
      obtain ⟨p, -, -, rfl⟩ := H1World.cancel_eq_some hs
      rfl
  | dropHandle hd =>
      obtain ⟨p, w, -, hw, rfl⟩ := H1World.dropHandle_eq_some hs
      rcases entered_step hw with ⟨-, heq⟩ | ⟨k, c, hent, -⟩
      · exact heq
      · cases hent

omit [DecidableEq C] in
/-- The invariant when calls end or wait for a transport, the queues
lose entries, and nothing enters the HTTP/1.1 pool. -/
theorem HttpConnector.Typed.shrink (ht : s.Typed)
    {h1 : H1World K C π δ} {pool : PoolInner K (Http2Connection C)}
    (hsub : ∀ k, (pool.queue k).Sublist (s.h2Pool.queue k))
    (hent : h1.world.entered = s.h1.world.entered)
    {call : Option (Connect K C)}
    (hcall : ∀ c, Connect.carries call ≠ some c)
    {tbl : LockTable K} {t n : Nat} {returned : Option (HttpConnection C)} :
    HttpConnector.Typed { s with
      h1 := h1, h2Pool := pool, connecting := tbl
      calls := Function.update s.calls t call
      nextCall := n, returned := returned } where
  calls := fun hp t' c hc =>
    ht.calls hp t' c
      (carries_of_update (fun c hc => absurd hc (hcall c)) hc)
  auto_pool := fun hp k e he => ht.auto_pool hp k e ((hsub k).subset he)
  auto_h1 := fun hp k c hc => ht.auto_h1 hp k c (hent ▸ hc)
  used_pool := fun k e he => ht.used_pool k e ((hsub k).subset he)
  used_h1 := fun k c hc => ht.used_h1 k c (hent ▸ hc)

/-- `get` lets nothing enter. -/
theorem H1World.entered_get {h h' : H1World K C π δ} {k : K}
    {r : Option (Pooled K C)} (hget : h.get k = some (h', r)) :
    h'.world.entered = h.world.entered := by
  obtain ⟨⟨w, r'⟩, hw, heq⟩ := Option.map_eq_some_iff.mp hget
  cases heq
  obtain ⟨pool, hg⟩ := World.get_eq_some hw
  exact hg.entered

omit [DecidableEq K] in
/-- `link` lets its connection enter. -/
theorem H1World.entered_link {h h' : H1World K C π δ} {k : K} {c : C}
    (hlink : h.link k c = some h') :
    h'.world.entered = (k, c) :: h.world.entered := by
  obtain ⟨w, hw, rfl⟩ := Option.map_eq_some_iff.mp hlink
  obtain ⟨-, rfl⟩ := World.link_eq_some hw
  rfl

omit [DecidableEq K] in
/-- A new transport leaves what the others negotiated. -/
theorem HttpConnector.negotiated_of_used {c : C} (hnew : c ∉ s.used)
    (alpn : Option (List UInt8)) : ∀ d ∈ s.used,
      Function.update s.negotiated c alpn d = s.negotiated d := by
  intro d hd
  have hne : d ≠ c := by
    intro heq
    subst heq
    exact hnew hd
  exact Function.update_of_ne hne ..

/-- The invariant when a new transport is used up: the call it goes to,
or the HTTP/1.1 pool, fits what it negotiated. -/
theorem HttpConnector.Typed.use (ht : s.Typed) (hi : s.Inv) {c : C}
    (hnew : c ∉ s.used) {alpn : Option (List UInt8)}
    {h1 : H1World K C π δ} {tbl : LockTable K} {t : Nat}
    {call : Option (Connect K C)} {returned : Option (HttpConnection C)}
    (hcall : ∀ d, Connect.carries call = some d →
      d = c ∧ (s.protocol ≠ .http2 → alpn = some h2Bytes))
    (hent : ∀ k d, (k, d) ∈ h1.world.entered →
      (k, d) ∈ s.h1.world.entered ∨ d = c ∧ alpn ≠ some h2Bytes) :
    HttpConnector.Typed { s with
      h1 := h1, connecting := tbl, used := c :: s.used
      negotiated := Function.update s.negotiated c alpn
      calls := Function.update s.calls t call
      returned := returned } := by
  have hold := HttpConnector.negotiated_of_used hnew alpn
  have hself : Function.update s.negotiated c alpn c = alpn :=
    Function.update_self ..
  refine ⟨?_, ?_, ?_, ?_, ?_⟩
  · intro hp t' d hd
    by_cases htt : t' = t
    · simp only [htt, Function.update_self] at hd
      obtain ⟨rfl, hkind⟩ := hcall d hd
      exact hself.trans (hkind hp)
    · simp only [Function.update_of_ne htt] at hd
      exact (hold d (hi.carried.mem_used t' d hd)).trans
        (ht.calls hp t' d hd)
  · intro hp k e he
    exact (hold _ (ht.used_pool k e he)).trans (ht.auto_pool hp k e he)
  · intro hp k d hd heq
    rcases hent k d hd with hd | ⟨rfl, hkind⟩
    · exact ht.auto_h1 hp k d hd
        ((hold d (ht.used_h1 k d hd)).symm.trans heq)
    · exact hkind (hself.symm.trans heq)
  · exact fun k e he => List.mem_cons_of_mem _ (ht.used_pool k e he)
  · intro k d hd
    rcases hent k d hd with hd | ⟨rfl, -⟩
    · exact List.mem_cons_of_mem _ (ht.used_h1 k d hd)
    · exact List.mem_cons_self

omit [DecidableEq C] in
/-- The invariant when a handshake ends and its connection is put into
the pool. -/
theorem HttpConnector.Typed.established (ht : s.Typed) (hi : s.Inv)
    {t l : Nat} {key : K} {c : C}
    (hcall : s.calls t = some (.handshake key l c)) :
    HttpConnector.Typed ({ s with
      connecting := s.connecting.release l
      h2Pool := (s.h2Pool.put s.h1.world.now key
        (Http2Connection.new c)).pool
      opened := c :: s.opened }.finish t
        (.http2 (Http2Connection.new c))) := by
  have hc : Connect.carries (s.calls t) = some c := by
    rw [hcall]
    rfl
  have hput : ∀ k, ∀ e ∈ (s.h2Pool.put s.h1.world.now key
      (Http2Connection.new c)).pool.queue k,
      e ∈ s.h2Pool.queue k ∨ e.conn.tx = c := by
    intro k e he
    rcases mem_insertIdle he with he | ⟨-, rfl⟩
    · exact Or.inl he
    · exact Or.inr rfl
  refine ⟨?_, ?_, ht.auto_h1, ?_, ht.used_h1⟩
  · exact fun hp t' d hd =>
      ht.calls hp t' d (carries_of_update (by nofun) hd)
  · intro hp k e he
    rcases hput k e he with he | rfl
    · exact ht.auto_pool hp k e he
    · refine ht.calls ?_ t _ hc
      intro (hp' : s.protocol = .http2)
      rw [show s.protocol = .auto from hp] at hp'
      cases hp'
  · intro k e he
    rcases hput k e he with he | rfl
    · exact ht.used_pool k e he
    · exact hi.carried.mem_used t _ hc

/-- Every step keeps the invariant. -/
theorem HttpConnector.Typed.step (ht : s.Typed) (hi : s.Inv)
    {a : ConnectorAction K C π δ ε} (h : s.step a = some s') :
    s'.Typed := by
  have hsame : ∀ k, (s.h2Pool.queue k).Sublist (s.h2Pool.queue k) :=
    fun k => List.Sublist.refl _
  cases transition_step h with
  | hit2 key conn hmode hget =>
      exact ht.shrink (HttpConnector.retained_sublist s key) rfl (by nofun)
  | hit1 key h1 p pool hpool hmode hget =>
      exact ht.shrink (HttpConnector.sublist_of_look hpool)
        (H1World.entered_get hget) (by nofun)
  | miss key h1 pool hpool hget =>
      refine ht.shrink (HttpConnector.sublist_of_look hpool) ?_
        (by nofun)
      rcases hget with rfl | hget
      · rfl
      · exact H1World.entered_get hget
  | leave a t hcall => exact ht.shrink hsame rfl (by nofun)
  | hitLocked t key l c tbl conn hcall hlock hget =>
      exact ht.shrink (HttpConnector.retained_sublist s key) rfl (by nofun)
  | unlock a t key l c hcall => exact ht.shrink hsame rfl (by nofun)
  | toLock t key c alpn hcall hnew hh2 =>
      refine ht.use hi hnew ?_ fun k d hd => Or.inl hd
      intro d hd
      cases hd
      refine ⟨rfl, fun hp => ?_⟩
      rcases hh2 with hh2 | hh2
      · simp [HttpConnector.isConfigH2, hp] at hh2
      · exact (isAlpnH2_iff alpn).mp hh2
  | linked t key c alpn h1 hcall hnew hh1 hlink =>
      refine ht.use hi hnew (by nofun) fun k d hd => ?_
      rw [H1World.entered_link hlink] at hd
      rcases List.mem_cons.mp hd with hd | hd
      · cases hd
        exact Or.inr ⟨rfl, alpn_of_http1 hh1.2⟩
      · exact Or.inl hd
  | toHandshake t key l c tbl hcall hlock hget =>
      have hsub := HttpConnector.retained_sublist s key
      have hcarry : ∀ t' d, Connect.carries (Function.update s.calls t
          (some (.handshake key l c)) t') = some d →
          Connect.carries (s.calls t') = some d :=
        fun t' d hd => carries_of_update (by rw [hcall]; exact fun _ h => h)
          hd
      refine ⟨?_, ?_, ht.auto_h1, ?_, ht.used_h1⟩
      · exact fun hp t' d hd => ht.calls hp t' d (hcarry t' d hd)
      · exact fun hp k e he => ht.auto_pool hp k e ((hsub k).subset he)
      · exact fun k e he => ht.used_pool k e ((hsub k).subset he)
  | established t key l c hcall => exact ht.established hi hcall
  | connErr c hopen =>
      exact ⟨ht.calls, ht.auto_pool, ht.auto_h1, ht.used_pool,
        ht.used_h1⟩
  | setMode a p hquiet hp =>
      -- no call is in flight, and the mode left is not entered again
      refine ⟨?_, fun he => absurd he hp, fun he => absurd he hp,
        ht.used_pool, ht.used_h1⟩
      intro _ t c hcall
      have hnone : s.calls t = none := by
        by_cases hlt : t < s.nextCall
        · exact Option.isNone_iff_eq_none.mp (hquiet t hlt)
        · exact hi.fresh t (Nat.le_of_not_lt hlt)
      dsimp only at hcall
      rw [hnone] at hcall
      cases hcall
  | h1 b h1 hcallers hs =>
      have hent := entered_of_callers hcallers hs
      exact ⟨ht.calls, ht.auto_pool,
        fun hp k c hd => ht.auto_h1 hp k c (hent ▸ hd), ht.used_pool,
        fun k c hd => ht.used_h1 k c (hent ▸ hd)⟩
  | dropped h1 hs =>
      have hent : h1.world.entered = s.h1.world.entered := by
        obtain ⟨-, w, hw, rfl⟩ := H1World.pool_eq_some hs
        obtain ⟨pool, -, rfl⟩ := World.dropPool_eq_some hw
        rfl
      have hnil : ∀ k e, e ∉ (PoolInner.new none
          : PoolInner K (Http2Connection C)).queue k := by
        intro k e
        simp
      exact ⟨ht.calls, fun _ k e he => absurd he (hnil k e),
        fun hp k c hd => ht.auto_h1 hp k c (hent ▸ hd),
        fun k e he => absurd he (hnil k e),
        fun k c hd => ht.used_h1 k c (hent ▸ hd)⟩

theorem HttpConnector.typed_of_reachable {protocol : Protocol}
    (hr : (HttpConnector.machine (ε := ε) protocol).Reachable s) :
    s.Typed := by
  apply hr.invariant
  · intro s hinit
    obtain ⟨now, rfl⟩ := hinit
    exact HttpConnector.typed_new now protocol
  · exact fun s a s' hr ht _ h =>
      ht.step (HttpConnector.inv_of_reachable hr) h

-- ======================================================= what is returned

omit [DecidableEq K] [DecidableEq C] in
/-- An HTTP/1.1 connection is right outside HTTP/2-only mode, unless
ALPN says otherwise. -/
theorem HttpConnector.byAlpn_http1 {reported : Option (List UInt8)}
    {h : Nat} {c : C} (hp : s.protocol ≠ .http2)
    (hplain : s.protocol = .http11 → reported ≠ some h2Bytes)
    (hauto : s.protocol = .auto → s.negotiated c ≠ some h2Bytes) :
    s.ByAlpn reported (.http1 h c) := by
  have hno : ¬ ∃ c', HttpConnection.http1 h c = .http2 c' := by
    intro hex
    obtain ⟨c', hc'⟩ := hex
    cases hc'
  unfold HttpConnector.ByAlpn
  split
  next heq => exact iff_of_false hno (hplain heq)
  next heq => exact absurd heq hp
  next heq => exact iff_of_false hno (hauto heq)

omit [DecidableEq K] [DecidableEq C] in
/-- An HTTP/2 connection is right when ALPN says so, and always in
HTTP/2-only mode. -/
theorem HttpConnector.byAlpn_http2 {reported : Option (List UInt8)}
    {conn : Http2Connection C}
    (hplain : s.protocol = .http11 → reported = some h2Bytes)
    (hauto : s.protocol = .auto →
      s.negotiated conn.tx = some h2Bytes) :
    s.ByAlpn reported (.http2 conn) := by
  unfold HttpConnector.ByAlpn
  split
  next heq => exact iff_of_true ⟨conn, rfl⟩ (hplain heq)
  next => exact ⟨conn, rfl⟩
  next heq => exact iff_of_true ⟨conn, rfl⟩ (hauto heq)

omit [DecidableEq C] in
/-- In HTTP/1.1-only mode the transport a call carries was told h2. -/
theorem HttpConnector.Typed.carried (ht : s.Typed) {t : Nat}
    {call : Connect K C} {c : C} (hcall : s.calls t = some call)
    (hc : Connect.carries (some call) = some c)
    (hp : s.protocol = .http11) :
    (Connect.carries (s.calls t)).bind s.negotiated = some h2Bytes := by
  rw [← hcall] at hc
  rw [hc, Option.bind_some]
  refine ht.calls ?_ t c hc
  rw [hp]
  decide

/-- What a step returns is of the right kind. -/
theorem HttpConnector.Typed.byAlpn (ht : s.Typed)
    (hw : (World.machine none none).Reachable s.h1.world)
    {a : ConnectorAction K C π δ ε} (h : s.step a = some s')
    {conn : HttpConnection C} (hret : s'.returned = some conn) :
    s'.ByAlpn (s.reported a) conn := by
  have hpool : s.protocol = .auto →
      ∀ {key : K} {conn : Http2Connection C},
        (s.tryGet key).2 = some conn →
        s.negotiated conn.tx = some h2Bytes := by
    intro hp key conn hget
    obtain ⟨⟨e, he, rfl⟩, -⟩ := HttpConnector.tryGet_some hget
    exact ht.auto_pool hp key e he
  cases transition_step h with
  | leave | toLock | toHandshake | unlock | miss =>
      simp [HttpConnector.goTo] at hret
  | connErr | setMode | h1 | dropped => simp at hret
  | hit2 key conn' hmode hget =>
      cases hret
      refine HttpConnector.byAlpn_http2 ?_ fun hp => hpool hp hget
      intro (hp : s.protocol = .http11)
      simp [HttpConnector.isConfigAuto, HttpConnector.isConfigH2,
        hp] at hmode
  | hit1 key h1 p pool hlook hmode hget =>
      cases hret
      refine HttpConnector.byAlpn_http1 ?_
        (fun _ => Option.some_ne_none _ ∘ Eq.symm) fun hp => ?_
      · intro (hp : s.protocol = .http2)
        simp [HttpConnector.isConfigAuto, HttpConnector.isConfigH1,
          hp] at hmode
      · obtain ⟨⟨w, r⟩, hget', heq⟩ := Option.map_eq_some_iff.mp hget
        cases heq
        obtain ⟨pool', hg⟩ := World.get_eq_some hget'
        obtain ⟨l, hl, t⟩ := exists_custody hw
        exact ht.auto_h1 hp key _
          (t.entered_of_idle (Custody.orderly_of_reachable hl) hg.rested)
  | linked t key c alpn h1 hcall hnew hh1 hlink =>
      cases hret
      have halpn : alpn ≠ some h2Bytes := alpn_of_http1 hh1.2
      have hself : Function.update s.negotiated c alpn c = alpn :=
        Function.update_self ..
      refine HttpConnector.byAlpn_http1 ?_ (fun _ => halpn) fun _ heq =>
        halpn (hself.symm.trans heq)
      intro (hp : s.protocol = .http2)
      simp [HttpConnector.isConfigH2, hp] at hh1
  | hitLocked t key l c tbl conn' hcall hlock hget =>
      cases hret
      exact HttpConnector.byAlpn_http2 (ht.carried hcall rfl)
        fun hp => hpool hp hget
  | established t key l c hcall =>
      cases hret
      refine HttpConnector.byAlpn_http2 (ht.carried hcall rfl)
        fun (hp : s.protocol = .auto) => ht.calls ?_ t c ?_
      · rw [hp]
        decide
      · rw [hcall]
        rfl

end Steps

-- ============================================================ the promise

variable [DecidableEq C]

/-- Whatever `connect` returns, at whatever point of its run: in
HTTP/2-only mode it is an HTTP/2 connection, in automatic mode exactly
when the transport underneath negotiated h2, and in HTTP/1.1-only mode
exactly when the transport the call itself opened did. -/
theorem kind_by_alpn {protocol : Protocol}
    (hr : (HttpConnector.machine (ε := ε) protocol).Reachable s)
    {a : ConnectorAction K C π δ ε} (h : s.step a = some s')
    {conn : HttpConnection C} (hret : s'.returned = some conn) :
    s'.ByAlpn (s.reported a) conn :=
  (HttpConnector.typed_of_reachable hr).byAlpn
    (HttpConnector.world_reachable hr) h hret

/-- In HTTP/1.1-only mode, a transport that negotiated h2 and one that
did not. -/
theorem kind_by_alpn_http11 :
    (∃ s s' : HttpConnector Nat Nat Unit Unit, s.protocol = .http11
      ∧ HttpConnector.step (ε := Unit) s (.handshake 0 true) = some s'
      ∧ s'.returned = some (.http2 ⟨1⟩)
      ∧ s'.ByAlpn (some h2Bytes) (.http2 ⟨1⟩))
    ∧ ∃ s s' : HttpConnector Nat Nat Unit Unit, s.protocol = .http11
      ∧ HttpConnector.step (ε := Unit) s (.transport 0 (some (1, none)))
        = some s'
      ∧ s'.returned = some (.http1 0 1)
      ∧ s'.ByAlpn none (.http1 0 1) := by
  constructor
  · obtain ⟨s, hrun, hp, s', hs, hret, hrep⟩ :
        ∃ s : HttpConnector Nat Nat Unit Unit,
        (HttpConnector.machine (ε := Unit) .http11).run
            (HttpConnector.new 0 .http11)
            [.connect 7, .transport 0 (some (1, some h2Bytes)),
              .acquired 0 true] = some s
          ∧ s.protocol = .http11
          ∧ ∃ s', HttpConnector.step (ε := Unit) s (.handshake 0 true)
              = some s'
            ∧ s'.returned = some (.http2 ⟨1⟩)
            ∧ HttpConnector.reported (ε := Unit) s (.handshake 0 true)
              = some h2Bytes := ⟨_, rfl, rfl, _, rfl, rfl, rfl⟩
    have hk := kind_by_alpn
      (Machine.Reachable.run (.init ⟨0, rfl⟩) hrun) hs hret
    rw [hrep] at hk
    exact ⟨s, s', hp, hs, hret, hk⟩
  · obtain ⟨s, hrun, hp, s', hs, hret⟩ :
        ∃ s : HttpConnector Nat Nat Unit Unit,
        (HttpConnector.machine (ε := Unit) .http11).run
            (HttpConnector.new 0 .http11) [.connect 7] = some s
          ∧ s.protocol = .http11
          ∧ ∃ s', HttpConnector.step (ε := Unit) s
              (.transport 0 (some (1, none))) = some s'
            ∧ s'.returned = some (.http1 0 1) :=
      ⟨_, rfl, rfl, _, rfl, rfl⟩
    exact ⟨s, s', hp, hs, hret, kind_by_alpn
      (Machine.Reachable.run (.init ⟨0, rfl⟩) hrun) hs hret⟩

/-- The protocol alone does not decide: an HTTP/1.1-only connector over
a transport that negotiated h2 returns an HTTP/2 connection. -/
theorem not_kind_by_protocol :
    ¬ ∀ s : HttpConnector Nat Nat Unit Unit,
      (HttpConnector.machine (ε := Unit) .http11).Reachable s →
      ∀ conn, s.returned = some conn → s.ByProtocol conn := by
  intro hkind
  obtain ⟨s, hrun, hp, hret⟩ : ∃ s : HttpConnector Nat Nat Unit Unit,
      (HttpConnector.machine (ε := Unit) .http11).run
          (HttpConnector.new 0 .http11)
          [.connect 7, .transport 0 (some (1, some h2Bytes)),
            .acquired 0 true, .handshake 0 true] = some s
        ∧ s.protocol = .http11
        ∧ s.returned = some (.http2 ⟨1⟩) := ⟨_, rfl, rfl, rfl⟩
  have hk := hkind s (Machine.Reachable.run (.init ⟨0, rfl⟩) hrun) _ hret
  unfold HttpConnector.ByProtocol at hk
  rw [hp] at hk
  obtain ⟨h, c, heq⟩ := hk
  cases heq

end MonoioTransports.Http
