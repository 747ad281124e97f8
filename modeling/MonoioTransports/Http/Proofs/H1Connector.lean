/-
`HttpConnector` takes the place of `H1Connector` (src/http/connector.rs,
"retained for backwards compatibility").

# What agrees

A connector that is not for HTTP/2 only, and whose transports negotiate
no h2, does what an `H1Connector` over the same kind of pool does: its
look-up of the HTTP/2 pool finds nothing, its locks are never asked for,
and what is left of `connect` is a `get`, the inner connector, a `link`.
The states are then the same but for how they say which calls are at the
inner connector (`Agrees`).

# Both ways

Each step of the one is a step of the other, or of neither (`forth`,
`back`); so the runs of the `H1Connector` are those that the steps of
the `HttpConnector` come to (`legacy`), and no others.

# What it is good for

What holds of a pool whose connections come in through `connect` alone
holds of the pool in an `HttpConnector`, which uses `get` and `link`:
here that it opens no more connections than are needed at once.
-/
import MonoioTransports.Http.H1Connector
import MonoioTransports.Http.Proofs.Beside
import MonoioTransports.Http.Proofs.Builders
import MonoioTransports.Http.Proofs.Origin
import MonoioTransports.Http.Proofs.Progress

namespace MonoioTransports.Http

open Lib Pool

variable {K C π δ ε : Type} [DecidableEq K] [DecidableEq C]

-- ========================================================= the plain mode

/-- The calls of a connector at the inner connector for a key. -/
def Connect.dials (key : K) : Option (Connect K C) → Nat
  | some (.transport k) => if k = key then 1 else 0
  | _ => 0

namespace HttpConnector

variable {s s' : HttpConnector K C π δ} {b : Built}

/-- The calls at the inner connector for a key. -/
def dialling (s : HttpConnector K C π δ) (key : K) : Nat :=
  tally (Connect.dials key) s.calls s.nextCall

/-- Only the HTTP/1.1 half of the connector is used: its pool has no
calls and no idle task of its own, and every transport dialled entered
it. -/
structure Plain (s : HttpConnector K C π δ) : Prop where
  mode : s.protocol ≠ .http2
  only : s.OnlyHttp1
  inv : s.Inv
  connecting : s.h1.world.connecting = []
  noTask : s.h1.world.idleTask = none
  used : ∀ c ∈ s.used, ¬ s.h1.world.Fresh c

/-- A step on the pool leaves the calls of others and the idle task. -/
theorem frame_of_uses {w w' : World K C} {a : Action K C}
    (ha : HttpConnector.uses a = true ∨ a = .dropPool)
    (h : w.step a = some w') :
    w'.connecting = w.connecting ∧ w'.idleTask = w.idleTask := by
  cases a with
  | tick dt =>
      cases h
      exact ⟨rfl, rfl⟩
  | get k =>
      obtain ⟨⟨w₁, r⟩, hget, rfl⟩ := Option.map_eq_some_iff.mp h
      unfold World.get at hget
      split at hget
      next pool hpool =>
        dsimp only at hget
        split at hget <;> cases hget <;> exact ⟨rfl, rfl⟩
      next => cases hget
  | link k c =>
      obtain ⟨-, rfl⟩ := World.link_eq_some h
      exact ⟨rfl, rfl⟩
  | drop hd isOpen =>
      obtain ⟨p, -, rfl⟩ := World.drop_eq_some h
      exact ⟨rfl, rfl⟩
  | dropPool =>
      obtain ⟨pool, -, rfl⟩ := World.dropPool_eq_some h
      exact ⟨rfl, rfl⟩
  | put | clearExpired | pollIdle | connect | connected | connectFailed =>
      rcases ha with ha | ha <;> cases ha

/-- No step leaves the plain half. -/
theorem Plain.step (hp : s.Plain) (hmode : s'.protocol ≠ .http2)
    (honly : s'.OnlyHttp1) (hinv : s'.Inv)
    {a : ConnectorAction K C π δ ε} (h : s.step a = some s') :
    s'.Plain := by
  have hframe : s'.h1.world.connecting = s.h1.world.connecting
      ∧ s'.h1.world.idleTask = s.h1.world.idleTask := by
    rcases world_step h with heq | ⟨b, hb, hwhy⟩
    · rw [heq]
      exact ⟨rfl, rfl⟩
    · exact frame_of_uses (hwhy.imp_right And.left) hb
  refine ⟨hmode, honly, hinv, hframe.1.trans hp.connecting,
    hframe.2.trans hp.noTask, ?_⟩
  obtain ⟨hgrow, -⟩ := entered_of_step h
  have hold : ∀ c, ¬ s.h1.world.Fresh c → ¬ s'.h1.world.Fresh c :=
    fun c hc hfresh => hc fun k hk => hfresh k (hgrow hk)
  cases transition_step h with
  | toLock t key c alpn hcall hnew hh2 =>
      -- the call would now be at a lock
      obtain ⟨key', heq⟩ := honly.calls t _ (Function.update_self ..)
      cases heq
  | linked t key c alpn h1 hcall hnew hh1 hlink =>
      intro d hd
      rcases List.mem_cons.mp hd with rfl | hd
      · intro hfresh
        refine hfresh key ?_
        show (key, d) ∈ h1.world.entered
        rw [H1World.entered_link hlink]
        exact List.mem_cons_self
      · exact hold d (hp.used d hd)
  | _ => exact fun d hd => hold d (hp.used d hd)

theorem plain_of_reachable (hmode : b.protocol ≠ .http2)
    (hno : ∀ alpn, b.connector.Reports alpn → alpn ≠ some h2Bytes)
    (hr : (b.machine (ε := ε)).ReachableUnder b.Obeys s) : s.Plain := by
  have hstands : ∀ {s : HttpConnector K C π δ},
      (b.machine (ε := ε)).ReachableUnder b.Obeys s →
      s.protocol ≠ .http2 ∧ s.OnlyHttp1 ∧ s.Inv := by
    intro s hr
    have hreach : (machine (ε := ε) b.protocol).Reachable s := hr.reachable
    exact ⟨fun h => hmode ((protocol_of_reachable hr).symm.trans h),
      onlyHttp1_of_reachable hmode hno hr, inv_of_reachable hreach⟩
  apply hr.invariant
  · intro s hinit
    obtain ⟨hm, honly, hinv⟩ := hstands (.init hinit)
    obtain ⟨now, rfl⟩ := hinit
    exact ⟨hm, honly, hinv, rfl, rfl, fun c hc => (by cases hc)⟩
  · intro s a s' hr hp ha h
    obtain ⟨hm, honly, hinv⟩ := hstands (hr.step ha h)
    exact hp.step hm honly hinv h

-- ============================================================ step by step

omit [DecidableEq C] in
/-- The first look-up, of an empty pool. -/
theorem look_plain (hempty : ∀ k, s.h2Pool.queue k = []) (key : K) :
    ∃ pool, (if s.isConfigAuto || s.isConfigH2 then s.tryGet key
      else (s, none)) = ({ s with h2Pool := pool }, none) := by
  split
  next =>
    have hnone : (s.tryGet key).2 = none := by
      rw [(tryGet_spec s key).1, hempty key]
      rfl
    exact ⟨_, Prod.ext rfl hnone⟩
  next => exact ⟨s.h2Pool, rfl⟩

omit [DecidableEq K] [DecidableEq C] in
theorem takes_http1 (hmode : s.protocol ≠ .http2) :
    (s.isConfigAuto || s.isConfigH1) = true := by
  unfold isConfigAuto isConfigH1
  cases hp : s.protocol with
  | http2 => exact absurd hp hmode
  | http11 => rfl
  | auto => rfl

/-- What the two look-ups of `connect` come to. -/
theorem connect_plain (hempty : ∀ k, s.h2Pool.queue k = [])
    (hmode : s.protocol ≠ .http2)
    (key : K) : ∃ pool, s.connect key = (s.h1.get key).map fun r =>
      match r.2 with
      | some p =>
          { s with h2Pool := pool, h1 := r.1
                   nextCall := s.nextCall + 1 }.finish s.nextCall
            (.http1 s.h1.world.nextHandle p.value)
      | none =>
          { s with h2Pool := pool, h1 := r.1
                   nextCall := s.nextCall + 1 }.goTo s.nextCall
            (some (.transport key)) := by
  obtain ⟨pool, hlook⟩ := look_plain
    (s := { s with nextCall := s.nextCall + 1 }) hempty key
  refine ⟨pool, ?_⟩
  unfold connect
  by_cases hpool : s.h1.world.pool.isNone = true
  · rw [if_pos hpool]
    unfold H1World.get World.get
    rw [Option.isNone_iff_eq_none.mp hpool]
    rfl
  · rw [if_neg hpool]
    dsimp only
    rw [hlook]
    dsimp only
    rw [if_pos (takes_http1
      (s := { s with nextCall := s.nextCall + 1, h2Pool := pool }) hmode)]
    cases s.h1.get key with
    | none => rfl
    | some r =>
      obtain ⟨h1, p⟩ := r
      cases p <;> rfl

/-- A new transport is linked. -/
theorem transport_plain (hmode : s.protocol ≠ .http2) {t : Nat} {key : K}
    (hcall : s.calls t = some (.transport key)) {c : C}
    (hnew : c ∉ s.used) {alpn : Option (List UInt8)}
    (halpn : alpn ≠ some h2Bytes) :
    s.transport t (some (c, alpn)) = (s.h1.link key c).map fun h1 =>
      { s with used := c :: s.used
               negotiated := Function.update s.negotiated c alpn
               h1 := h1 }.finish t
        (.http1 s.h1.world.nextHandle c) := by
  have hh1 : ¬ (s.isConfigH2 || (getConnMetadata alpn).isAlpnH2) = true := by
    intro h
    rcases Bool.or_eq_true_iff.mp h with h | h
    · simp [isConfigH2, hmode] at h
    · exact halpn ((isAlpnH2_iff alpn).mp h)
  unfold transport
  rw [hcall]
  dsimp only
  rw [if_neg hnew]
  exact if_neg hh1

-- ========================================================= the agreement

/-- What a step is to an `H1Connector`. -/
def legacy (s : HttpConnector K C π δ) :
    ConnectorAction K C π δ ε → List (H1Action K C π δ ε)
  | .connect key => [.pool (.connect key)]
  | .transport t (some (c, _)) =>
      (s.calls t).toList.map fun call => .pool (.connected call.key c)
  | .transport t none =>
      (s.calls t).toList.map fun call => .pool (.connectFailed call.key)
  | .cancel t =>
      (s.calls t).toList.map fun call => .pool (.connectFailed call.key)
  | .h1 b => [b]
  | .dropConnector => [.pool .dropPool]
  | _ => []

/-- The two connectors are in the same state, and what the one returned
is the handle that the other gave out last. -/
structure Agrees (s : HttpConnector K C π δ) (t : H1World K C π δ) :
    Prop where
  same : t = s.h1.beside t.world.connecting
  dialling : ∀ key, t.world.connecting.count key = s.dialling key
  returned : ∀ conn, s.returned = some conn →
    ∃ h p, conn = .http1 h p.value ∧ t.world.handles h = some p
      ∧ t.world.nextHandle = h + 1

variable {t : H1World K C π δ} {l : List K}

omit [DecidableEq C] in
/-- A call that leaves the inner connector was one of those there. -/
theorem dialling_leave {n : Nat} {key : K}
    (hn : n < s.nextCall) (hcall : s.calls n = some (.transport key))
    (k : K) :
    tally (Connect.dials k) (Function.update s.calls n none) s.nextCall
      = s.dialling k - if key = k then 1 else 0 := by
  have hsum := tally_update (Connect.dials k) s.calls hn none
  rw [hcall] at hsum
  simp only [Connect.dials, Nat.add_zero] at hsum
  rw [dialling]
  omega

omit [DecidableEq C] in
theorem mem_of_dialling (hl : ∀ key, l.count key = s.dialling key)
    {n : Nat} {key : K} (hn : n < s.nextCall)
    (hcall : s.calls n = some (.transport key)) : key ∈ l := by
  have hsum := tally_update (Connect.dials key) s.calls hn none
  rw [hcall] at hsum
  simp only [Connect.dials, if_true, Nat.add_zero] at hsum
  apply List.count_pos_iff.mp
  rw [hl, dialling]
  omega

omit [DecidableEq C] in
/-- The call before the last state, when nothing else changed. -/
theorem agrees_leave (hl : ∀ key, l.count key = s.dialling key)
    {n : Nat} {key : K} (hn : n < s.nextCall)
    (hcall : s.calls n = some (.transport key))
    (hcalls : s'.calls = Function.update s.calls n none)
    (hnext : s'.nextCall = s.nextCall)
    (hret : ∀ conn, s'.returned = some conn →
      ∃ h p, conn = .http1 h p.value ∧ s'.h1.world.handles h = some p
        ∧ s'.h1.world.nextHandle = h + 1) :
    Agrees s' (s'.h1.beside (l.erase key)) where
  same := rfl
  dialling := by
    intro k
    show (l.erase key).count k = s'.dialling k
    rw [dialling, hcalls, hnext, dialling_leave hn hcall, List.count_erase,
      hl]
    simp only [beq_iff_eq]
  returned := hret

/-- `connect` looked up the pool. -/
theorem agrees_connect (hl : ∀ key, l.count key = s.dialling key)
    {key : K} {h1 : H1World K C π δ} {r : Option (Pooled K C)}
    (hget : s.h1.get key = some (h1, r))
    {pool : PoolInner K (Http2Connection C)} :
    Agrees (match r with
      | some p =>
          { s with h2Pool := pool, h1 := h1
                   nextCall := s.nextCall + 1 }.finish s.nextCall
            (.http1 s.h1.world.nextHandle p.value)
      | none =>
          { s with h2Pool := pool, h1 := h1
                   nextCall := s.nextCall + 1 }.goTo s.nextCall
            (some (.transport key)))
      (h1.beside (if r.isSome then l else key :: l)) := by
  cases r with
  | some p =>
      obtain ⟨hheld, hnext⟩ := H1World.get_issues hget
      refine ⟨rfl, fun k => ?_, fun conn hret => ?_⟩
      · show l.count k = tally (Connect.dials k)
          (Function.update s.calls s.nextCall none) (s.nextCall + 1)
        rw [tally_update_next, hl]
        rfl
      · cases hret
        exact ⟨_, p, rfl, hheld, hnext⟩
  | none =>
      refine ⟨rfl, fun k => ?_, fun conn hret => (by cases hret)⟩
      show (key :: l).count k = tally (Connect.dials k)
        (Function.update s.calls s.nextCall (some (.transport key)))
        (s.nextCall + 1)
      rw [tally_update_next, List.count_cons, hl]
      simp only [Connect.dials, beq_iff_eq, dialling]

omit [DecidableEq C] in
/-- The calls stay at their awaits. -/
theorem agrees_stay (hl : ∀ key, l.count key = s.dialling key)
    (hcalls : s'.calls = s.calls) (hnext : s'.nextCall = s.nextCall)
    (hret : s'.returned = none) : Agrees s' (s'.h1.beside l) where
  same := rfl
  dialling := by
    intro k
    rw [dialling, hcalls, hnext]
    exact hl k
  returned := by
    intro conn h
    rw [hret] at h
    cases h

omit [DecidableEq C] in
/-- No call is at the inner connector exactly when none is in flight. -/
theorem quiet_iff_nil (ho : s.OnlyHttp1)
    (hl : ∀ key, l.count key = s.dialling key) : s.Quiet ↔ l = [] := by
  constructor
  · intro hquiet
    refine List.eq_nil_iff_forall_not_mem.mpr fun key hkey => ?_
    have hpos : 0 < s.dialling key := by
      rw [← hl]
      exact List.count_pos_iff.mpr hkey
    obtain ⟨n, hn, hw⟩ := exists_of_tally_pos hpos
    rw [Option.isNone_iff_eq_none.mp (hquiet n hn)] at hw
    cases hw
  · intro hnil n hn
    cases hcall : s.calls n with
    | none => rfl
    | some call =>
        obtain ⟨key, rfl⟩ := ho.calls n call hcall
        have := mem_of_dialling hl hn hcall
        rw [hnil] at this
        cases this

omit [DecidableEq K] [DecidableEq C] in
theorem takes_of_callers {a : H1Action K C π δ ε}
    (ha : callers a = true) : H1Connector.takes a = true := by
  cases a with
  | pool p =>
      cases p with
      | tick dt => rfl
      | _ => cases ha
  | _ => rfl

/-- One step of the other connector. -/
theorem run_of_step {a : H1Action K C π δ ε} {t' : H1World K C π δ}
    (ha : H1Connector.takes a = true) (h : t.step a = some t') :
    (H1Connector.machine false).run t [a] = some t' :=
  Machine.run_singleton ((if_pos ha).trans h)

-- ============================================================ both at once

/-- A call fails at the inner connector, or is cancelled there. -/
theorem both_failed (hp : s.Plain)
    (hl : ∀ key, l.count key = s.dialling key) {n : Nat} {key : K}
    (hcall : s.calls n = some (.transport key)) :
    (H1Connector.machine (ε := ε) false).run (s.h1.beside l)
        [.pool (.connectFailed key)] = some (s.h1.beside (l.erase key))
      ∧ Agrees (s.goTo n none) (s.h1.beside (l.erase key)) := by
  have hn := hp.inv.lt_next hcall
  refine ⟨run_of_step rfl ?_,
    agrees_leave hl hn hcall rfl rfl fun _ h => (by cases h)⟩
  rw [H1World.step_connectFailed, if_pos (mem_of_dialling hl hn hcall)]

/-- A call comes back with a transport. -/
theorem both_linked (hp : s.Plain)
    (hl : ∀ key, l.count key = s.dialling key) {n : Nat} {key : K}
    (hcall : s.calls n = some (.transport key)) {c : C}
    {h1 : H1World K C π δ} (hlink : s.h1.link key c = some h1)
    {used : List C} {negotiated : C → Option (List UInt8)} :
    (H1Connector.machine (ε := ε) false).run (s.h1.beside l)
        [.pool (.connected key c)] = some (h1.beside (l.erase key))
      ∧ Agrees ({ s with used := used, negotiated := negotiated
                         h1 := h1 }.finish n
          (.http1 s.h1.world.nextHandle c)) (h1.beside (l.erase key)) := by
  have hn := hp.inv.lt_next hcall
  refine ⟨run_of_step rfl ?_, agrees_leave hl hn hcall rfl rfl ?_⟩
  · rw [H1World.step_connected, if_pos (mem_of_dialling hl hn hcall),
      hlink]
    rfl
  · intro conn hret
    cases hret
    obtain ⟨hheld, hnext⟩ := H1World.link_issues hlink
    exact ⟨_, _, rfl, hheld, hnext⟩

/-- A task uses its handle, or time passes. -/
theorem both_callers (hl : ∀ key, l.count key = s.dialling key)
    {a : H1Action K C π δ ε} (ha : callers a = true)
    {h1 : H1World K C π δ} (hs : s.h1.step a = some h1) :
    (H1Connector.machine false).run (s.h1.beside l) [a]
        = some (h1.beside l)
      ∧ Agrees { s with h1 := h1, returned := none } (h1.beside l) := by
  refine ⟨run_of_step (takes_of_callers ha) ?_, agrees_stay hl rfl rfl rfl⟩
  rw [H1World.step_callers _ _ ha, hs]
  rfl

/-- The connector is dropped. -/
theorem both_dropped (hp : s.Plain)
    (hl : ∀ key, ([] : List K).count key = s.dialling key)
    {h1 : H1World K C π δ}
    (hs : s.h1.step (.pool .dropPool : H1Action K C π δ ε) = some h1) :
    (H1Connector.machine (ε := ε) false).run (s.h1.beside [])
        [.pool .dropPool] = some h1
      ∧ Agrees { s with h1 := h1, h2Pool := PoolInner.new none
                        returned := none } h1 := by
  have hnil : h1.world.connecting = [] := by
    obtain ⟨-, w, hw, rfl⟩ := H1World.pool_eq_some hs
    exact (frame_of_uses (Or.inr rfl) hw).1.trans hp.connecting
  have hstay : Agrees { s with h1 := h1, h2Pool := PoolInner.new none
                               returned := none } (h1.beside []) :=
    agrees_stay hl rfl rfl rfl
  rw [H1World.beside_self hnil] at hstay
  rw [H1World.beside_self hp.connecting]
  exact ⟨run_of_step rfl hs, hstay⟩

omit [DecidableEq C] in
/-- A call at the inner connector for a key is one of the calls. -/
theorem call_of_mem (ho : s.OnlyHttp1)
    (hl : ∀ key, l.count key = s.dialling key) {key : K} (hkey : key ∈ l) :
    ∃ n, s.calls n = some (.transport key) := by
  have hpos : 0 < s.dialling key := by
    rw [← hl]
    exact List.count_pos_iff.mpr hkey
  obtain ⟨n, hn, hw⟩ := exists_of_tally_pos hpos
  refine ⟨n, ?_⟩
  cases hcall : s.calls n with
  | none =>
      rw [hcall] at hw
      cases hw
  | some call =>
      obtain ⟨key', rfl⟩ := ho.calls n call hcall
      rw [hcall] at hw
      simp only [Connect.dials] at hw
      split at hw
      next heq => rw [heq]
      next => cases hw

/-- What a call is resumed with at the inner connector. -/
theorem transport_eq_some (ho : s.OnlyHttp1) {n : Nat}
    {result : Option (C × Option (List UInt8))}
    (h : s.transport n result = some s') :
    ∃ key, s.calls n = some (.transport key)
      ∧ (result = none ∧ s' = s.goTo n none
        ∨ ∃ c alpn, result = some (c, alpn) ∧ c ∉ s.used) := by
  cases hcall : s.calls n with
  | none =>
      unfold transport at h
      rw [hcall] at h
      cases h
  | some call =>
      obtain ⟨key, rfl⟩ := ho.calls n call hcall
      refine ⟨key, rfl, ?_⟩
      unfold transport at h
      rw [hcall] at h
      cases result with
      | none =>
          cases h
          exact Or.inl ⟨rfl, rfl⟩
      | some result =>
          refine Or.inr ⟨_, _, rfl, fun hused => ?_⟩
          dsimp only at h
          rw [if_pos hused] at h
          cases h

/-- Every step is one of the other connector, or none. -/
theorem Agrees.forth (hagree : Agrees s t) (hp : s.Plain)
    (hno : ∀ alpn, b.connector.Reports alpn → alpn ≠ some h2Bytes)
    {a : ConnectorAction K C π δ ε} (ha : b.Obeys s a)
    (h : s.step a = some s') :
    ∃ t', (H1Connector.machine false).run t (s.legacy a) = some t'
      ∧ Agrees s' t' := by
  obtain ⟨hsame, hl, -⟩ := hagree
  generalize t.world.connecting = l at hsame hl
  subst hsame
  cases a with
  | connect key =>
      obtain ⟨pool, heq⟩ := connect_plain hp.only.pool hp.mode key
      have h := heq.symm.trans h
      obtain ⟨⟨h1, r⟩, hget, rfl⟩ := Option.map_eq_some_iff.mp h
      refine ⟨_, run_of_step rfl ?_, agrees_connect hl hget⟩
      rw [H1World.step_connect, hget]
      rfl
  | transport n result =>
      have h : s.transport n result = some s' := h
      obtain ⟨key, hcall, hwhy⟩ := transport_eq_some hp.only h
      rcases hwhy with ⟨rfl, rfl⟩ | ⟨c, alpn, rfl, hnew⟩
      · rw [legacy, hcall]
        exact ⟨_, both_failed hp hl hcall⟩
      · rw [transport_plain hp.mode hcall hnew (hno alpn ha)] at h
        obtain ⟨h1, hlink, rfl⟩ := Option.map_eq_some_iff.mp h
        rw [legacy, hcall]
        exact ⟨_, both_linked hp hl hcall hlink⟩
  | acquired n ok =>
      have h : s.acquired n ok = some s' := h
      unfold acquired at h
      split at h
      next key l' c hcall =>
        obtain ⟨key', heq⟩ := hp.only.calls n _ hcall
        cases heq
      next => cases h
  | handshake n ok =>
      have h : s.handshake n ok = some s' := h
      unfold handshake at h
      split at h
      next key l' c hcall =>
        obtain ⟨key', heq⟩ := hp.only.calls n _ hcall
        cases heq
      next => cases h
  | cancel n =>
      have h : s.cancel n = some s' := h
      unfold cancel at h
      split at h
      next key l' c hcall =>
        obtain ⟨key', heq⟩ := hp.only.calls n _ hcall
        cases heq
      next call hother hcall =>
        cases h
        obtain ⟨key, rfl⟩ := hp.only.calls n call hcall
        rw [legacy, hcall]
        exact ⟨_, both_failed hp hl hcall⟩
      next => cases h
  | connErr c =>
      simp only [step] at h
      split at h
      next =>
        cases h
        exact ⟨_, rfl, agrees_stay hl rfl rfl rfl⟩
      next => cases h
  | setHttp1Only => cases ha
  | setHttp2Only => cases ha
  | h1 a =>
      simp only [step] at h
      split at h
      next hcallers =>
        obtain ⟨h1, hs, rfl⟩ := Option.map_eq_some_iff.mp h
        exact ⟨_, both_callers hl hcallers hs⟩
      next => cases h
  | dropConnector =>
      simp only [step] at h
      split at h
      next hquiet =>
        obtain ⟨h1, hs, rfl⟩ := Option.map_eq_some_iff.mp h
        have hnil := (quiet_iff_nil hp.only hl).mp hquiet
        subst hnil
        exact ⟨_, both_dropped hp hl hs⟩
      next => cases h

/-- Every step of the other connector is one of this. -/
theorem Agrees.back (hagree : Agrees s t) (hp : s.Plain)
    (hno : ∀ alpn, b.connector.Reports alpn → alpn ≠ some h2Bytes)
    {a : H1Action K C π δ ε} {t' : H1World K C π δ}
    (hstep : (H1Connector.machine false).step t a = some t') :
    ∃ (x : ConnectorAction K C π δ ε) (s' : HttpConnector K C π δ),
      b.Obeys s x ∧ s.step x = some s' ∧ s.legacy x = [a]
        ∧ Agrees s' t' := by
  obtain ⟨hsame, hl, -⟩ := hagree
  generalize t.world.connecting = l at hsame hl
  subst hsame
  obtain ⟨htakes, h⟩ : H1Connector.takes a = true
      ∧ (s.h1.beside l).step a = some t' := by
    have h : (if H1Connector.takes a then (s.h1.beside l).step a else none)
      = some t' := hstep
    split at h
    next htakes => exact ⟨htakes, h⟩
    next => cases h
  have hcallers : callers a = true → ∃ (x : ConnectorAction K C π δ ε)
      (s' : HttpConnector K C π δ), b.Obeys s x ∧ s.step x = some s'
        ∧ s.legacy x = [a] ∧ Agrees s' t' := by
    intro ha
    rw [H1World.step_callers _ _ ha] at h
    obtain ⟨h1, hs, rfl⟩ := Option.map_eq_some_iff.mp h
    refine ⟨.h1 a, { s with h1 := h1, returned := none }, trivial, ?_, rfl,
      (both_callers hl ha hs).2⟩
    simp only [step]
    rw [if_pos ha, hs]
    rfl
  cases a with
  | pool p =>
      cases p with
      | tick dt => exact hcallers rfl
      | link | put | get | drop | clearExpired => cases htakes
      | connect key =>
          rw [H1World.step_connect] at h
          obtain ⟨⟨h1, r⟩, hget, rfl⟩ := Option.map_eq_some_iff.mp h
          obtain ⟨pool, heq⟩ := connect_plain hp.only.pool hp.mode key
          rw [hget] at heq
          exact ⟨.connect key, _, trivial, heq, rfl,
            agrees_connect hl hget⟩
      | connected key c =>
          rw [H1World.step_connected] at h
          split at h
          next hkey =>
            obtain ⟨h1, hlink, rfl⟩ := Option.map_eq_some_iff.mp h
            obtain ⟨n, hcall⟩ := call_of_mem hp.only hl hkey
            have hnew : c ∉ s.used := by
              intro hc
              obtain ⟨w, hw, -⟩ := Option.map_eq_some_iff.mp hlink
              exact hp.used c hc (World.link_eq_some hw).1
            have heq := transport_plain hp.mode hcall hnew
              (hno none (reports_none _))
            rw [hlink] at heq
            refine ⟨.transport n (some (c, none)), _,
              reports_none b.connector, heq, ?_,
              (both_linked (ε := ε) hp hl hcall hlink).2⟩
            rw [legacy, hcall]
            rfl
          next => cases h
      | connectFailed key =>
          rw [H1World.step_connectFailed] at h
          split at h
          next hkey =>
            cases h
            obtain ⟨n, hcall⟩ := call_of_mem hp.only hl hkey
            refine ⟨.cancel n, s.goTo n none, trivial, ?_, ?_,
              (both_failed (ε := ε) hp hl hcall).2⟩
            · show s.cancel n = _
              unfold cancel
              rw [hcall]
            · rw [legacy, hcall]
              rfl
          next => cases h
      | pollIdle ticks =>
          obtain ⟨-, w, hw, -⟩ := H1World.pool_eq_some h
          obtain ⟨task, htask, -⟩ := World.pollIdle_eq_some hw
          have htask : s.h1.world.idleTask = some task := htask
          rw [hp.noTask] at htask
          cases htask
      | dropPool =>
          obtain ⟨-, w, hw, -⟩ := H1World.pool_eq_some h
          obtain rfl : l = [] := World.connecting_of_dropPool hw
          rw [H1World.beside_self hp.connecting] at h
          refine ⟨.dropConnector, { s with h1 := t'
                                           h2Pool := PoolInner.new none
                                           returned := none },
            trivial, ?_, rfl, (both_dropped hp hl h).2⟩
          simp only [step]
          rw [if_pos ((quiet_iff_nil hp.only hl).mpr rfl), h]
          rfl
  | sendRequest | resume | cancel | dropHandle => exact hcallers rfl

-- ============================================================= whole runs

/-- A connector beside what its steps are to an `H1Connector`. -/
abbrev alongside (b : Built) :
    Machine (Recorded (HttpConnector K C π δ) (H1Action K C π δ ε))
      (ConnectorAction K C π δ ε) :=
  b.machine.recording fun s a _ => (s.legacy a).reverse

theorem follows_of_recorded (hmode : b.protocol ≠ .http2)
    (hno : ∀ alpn, b.connector.Reports alpn → alpn ≠ some h2Bytes)
    {r : Recorded (HttpConnector K C π δ) (H1Action K C π δ ε)}
    (hr : (alongside b).ReachableUnder (fun r a => b.Obeys r.state a) r) :
    ∃ now t, (H1Connector.machine false).run
        (H1Connector.withDefaultPool now false) r.history.reverse = some t
      ∧ Agrees r.state t := by
  refine hr.invariant (I := fun r => ∃ now t, (H1Connector.machine
    false).run (H1Connector.withDefaultPool now false) r.history.reverse
      = some t ∧ Agrees r.state t) ?_ ?_
  · intro r hinit
    obtain ⟨⟨now, hstate⟩, hhistory⟩ := hinit
    rw [hstate, hhistory]
    exact ⟨now, _, rfl, rfl, fun key => rfl, fun _ h => (by cases h)⟩
  · intro r a r' hr ih ha h
    obtain ⟨now, t, hrun, hagree⟩ := ih
    obtain ⟨s', hs, rfl⟩ := Machine.recording_step_eq_some.mp h
    obtain ⟨t', hrun', hagree'⟩ :=
      hagree.forth (plain_of_reachable hmode hno hr.forget) hno ha hs
    refine ⟨now, t', ?_, hagree'⟩
    rw [List.reverse_append, List.reverse_reverse]
    exact Machine.run_append hrun hrun'

theorem recorded_of_follows (hmode : b.protocol ≠ .http2)
    (hno : ∀ alpn, b.connector.Reports alpn → alpn ≠ some h2Bytes)
    {r : Recorded (HttpConnector K C π δ) (H1Action K C π δ ε)}
    (hr : (alongside b).ReachableUnder (fun r a => b.Obeys r.state a) r)
    {t t' : H1World K C π δ} {as : List (H1Action K C π δ ε)}
    (hagree : Agrees r.state t)
    (hrun : (H1Connector.machine false).run t as = some t') :
    ∃ r', (alongside b).ReachableUnder (fun r a => b.Obeys r.state a) r'
      ∧ r'.history.reverse = r.history.reverse ++ as
      ∧ Agrees r'.state t' := by
  induction as generalizing r t with
  | nil =>
      cases hrun
      exact ⟨r, hr, (List.append_nil _).symm, hagree⟩
  | cons a as ih =>
      obtain ⟨t₁, hstep, hrest⟩ := Machine.run_cons_eq_some.mp hrun
      obtain ⟨x, s', hx, hs, hone, hagree'⟩ :=
        hagree.back (plain_of_reachable hmode hno hr.forget) hno hstep
      obtain ⟨r', hr', hhistory, hlast⟩ := ih
        (.step hr hx (Machine.recording_step_eq_some.mpr ⟨s', hs, rfl⟩))
        hagree' hrest
      refine ⟨r', hr', ?_, hlast⟩
      rw [hhistory, List.reverse_append, List.reverse_reverse, hone,
        List.append_assoc]
      rfl

end HttpConnector

-- ============================================================ the promise

open HttpConnector in
/-- Where no h2 is negotiated and HTTP/2 is not asked for, the runs of an
`HttpConnector` are those of an `H1Connector`: what its steps are to the
other is a run of that one, which ends in the same state, and each run
of the other comes about so. -/
theorem http1_takes_over {b : Built} (hmode : b.protocol ≠ .http2)
    (hno : ∀ alpn, b.connector.Reports alpn → alpn ≠ some h2Bytes) :
    (∀ r : Recorded (HttpConnector K C π δ) (H1Action K C π δ ε),
      (alongside b).ReachableUnder (fun r a => b.Obeys r.state a) r →
      ∃ now t, (H1Connector.machine false).run
          (H1Connector.withDefaultPool now false) r.history.reverse = some t
        ∧ Agrees r.state t)
      ∧ ∀ (now : Nat) (as : List (H1Action K C π δ ε)) t,
        (H1Connector.machine false).run
          (H1Connector.withDefaultPool now false) as = some t →
        ∃ r, (alongside b).ReachableUnder (fun r a => b.Obeys r.state a) r
          ∧ r.history.reverse = as ∧ Agrees r.state t := by
  refine ⟨fun r hr => follows_of_recorded hmode hno hr,
    fun now as t hrun => ?_⟩
  have hagree : Agrees
      (HttpConnector.new now b.protocol : HttpConnector K C π δ)
      (H1Connector.withDefaultPool now false) :=
    ⟨rfl, fun key => rfl, fun _ h => (by cases h)⟩
  exact recorded_of_follows (r := ⟨HttpConnector.new now b.protocol, []⟩) hmode
    hno (.init ⟨⟨now, rfl⟩, rfl⟩) hagree hrun

open HttpConnector in
/-- A connection over TCP, given back and asked for again. -/
theorem http1_takes_over_tcp :
    ∃ (r : Recorded (HttpConnector Nat Nat Unit Unit)
        (H1Action Nat Nat Unit Unit Unit)) (now : Nat)
        (t : H1World Nat Nat Unit Unit),
      (alongside (newConnector .tcp)).run ⟨new 0 .auto, []⟩
          [.connect 7, .transport 0 (some (1, none)), .h1 (.dropHandle 0),
            .connect 7] = some r
        ∧ r.state.returned = some (.http1 1 1)
        ∧ (H1Connector.machine (ε := Unit) false).run
          (H1Connector.withDefaultPool now false)
          [.pool (.connect 7), .pool (.connected 7 1), .dropHandle 0,
            .pool (.connect 7)] = some t
        ∧ Agrees r.state t := by
  obtain ⟨r, hrun, hret, hhistory⟩ :
      ∃ r : Recorded (HttpConnector Nat Nat Unit Unit)
          (H1Action Nat Nat Unit Unit Unit),
        (alongside (newConnector .tcp)).run ⟨new 0 .auto, []⟩
            [.connect 7, .transport 0 (some (1, none)),
              .h1 (.dropHandle 0), .connect 7] = some r
          ∧ r.state.returned = some (.http1 1 1)
          ∧ r.history.reverse = [.pool (.connect 7),
            .pool (.connected 7 1), .dropHandle 0, .pool (.connect 7)] :=
    ⟨_, rfl, rfl, rfl⟩
  obtain ⟨hfollows, -⟩ := http1_takes_over (K := Nat) (C := Nat)
    (π := Unit) (δ := Unit) (ε := Unit) (b := newConnector .tcp)
    (by decide) fun _ => Inner.tcp_no_h2
  obtain ⟨now, t, ht, hagree⟩ := hfollows r (by
    refine .along (.init ⟨⟨0, rfl⟩, rfl⟩) ?_ hrun
    exact ⟨trivial, fun _ _ => ⟨reports_none Inner.tcp, fun _ _ =>
      ⟨trivial, fun _ _ => ⟨trivial, fun _ _ => trivial⟩⟩⟩⟩)
  rw [hhistory] at ht
  exact ⟨r, now, t, hrun, hret, ht, hagree⟩

-- ======================================================= supply and demand

namespace HttpConnector

variable {s s' : HttpConnector K C π δ} {b : Built} {t : H1World K C π δ}

/-- The HTTP/1.1 connections of a key that are wanted at once: lent, or
at the inner connector. -/
def demand (s : HttpConnector K C π δ) (key : K) : Nat :=
  s.h1.world.lentFor key + s.dialling key

omit [DecidableEq C] in
theorem Agrees.demand_eq (hagree : Agrees s t) (key : K) :
    t.world.demand key = s.demand key := by
  have hlent : t.world.lentFor key = s.h1.world.lentFor key := by
    rw [hagree.same]
    rfl
  rw [World.demand, hlent, hagree.dialling]
  rfl

omit [DecidableEq C] in
theorem Agrees.queue_eq (hagree : Agrees s t) (key : K) :
    t.world.queue key = s.h1.world.queue key := by
  rw [hagree.same]
  rfl

omit [DecidableEq K] [DecidableEq C] in
/-- A step of this connector is one of the other at most. -/
theorem legacy_one (s : HttpConnector K C π δ)
    (a : ConnectorAction K C π δ ε) :
    s.legacy a = [] ∨ ∃ x, s.legacy a = [x] := by
  have hcall : ∀ (n : Nat) (f : Connect K C → H1Action K C π δ ε),
      (s.calls n).toList.map f = []
        ∨ ∃ x, (s.calls n).toList.map f = [x] := by
    intro n f
    cases s.calls n with
    | none => exact Or.inl rfl
    | some call => exact Or.inr ⟨_, rfl⟩
  cases a with
  | connect key => exact Or.inr ⟨_, rfl⟩
  | transport n result =>
      cases result with
      | none => exact hcall n _
      | some result => exact hcall n _
  | cancel n => exact hcall n _
  | h1 a => exact Or.inr ⟨_, rfl⟩
  | dropConnector => exact Or.inr ⟨_, rfl⟩
  | acquired | handshake | connErr | setHttp1Only | setHttp2Only =>
      exact Or.inl rfl

/-- A step of an `H1Connector` leaves its pool, or lets connections in
through `connect` alone. -/
theorem viaConnect_of_step {a : H1Action K C π δ ε} {t' : H1World K C π δ}
    (h : (H1Connector.machine false).step t a = some t') :
    t'.world = t.world
      ∨ ∃ x, t.world.step x = some t'.world ∧ x.viaConnect = true := by
  have h : (if H1Connector.takes a then t.step a else none) = some t' := h
  split at h
  next htakes =>
    rcases H1World.world_step_of h with heq | ⟨x, hx, hwhy⟩
    · exact Or.inl heq
    · refine Or.inr ⟨x, hx, ?_⟩
      rcases hwhy with rfl | ⟨hd, isOpen, rfl⟩
      · cases x with
        | link | put | get => cases htakes
        | _ => rfl
      · rfl
  next => cases h

end HttpConnector

open HttpConnector in
/-- So such a connector opens no more than it needs: while no more than
`peak` connections of a key are lent or dialled at once, no more than
`peak` are ever idle, lent or dialled. -/
theorem http1_supply_le_peak {b : Built} (hmode : b.protocol ≠ .http2)
    (hno : ∀ alpn, b.connector.Reports alpn → alpn ≠ some h2Bytes)
    {peak : Nat} {key : K} {s : HttpConnector K C π δ}
    (hr : (b.machine (ε := ε)).ReachableUnder (fun s a => b.Obeys s a
      ∧ ∀ s', s.step a = some s' → s'.demand key ≤ peak) s) :
    (s.h1.world.queue key).length + s.demand key ≤ peak := by
  obtain ⟨t, hagree, -, hsupply⟩ : ∃ t : H1World K C π δ, Agrees s t
      ∧ (World.machine none none).Reachable t.world
      ∧ t.world.supply key ≤ peak := by
    refine hr.invariant (I := fun s => ∃ t : H1World K C π δ, Agrees s t
      ∧ (World.machine none none).Reachable t.world
      ∧ t.world.supply key ≤ peak) ?_ ?_
    · intro s hinit
      obtain ⟨now, rfl⟩ := hinit
      refine ⟨H1Connector.withDefaultPool now false,
        ⟨rfl, fun key => rfl, fun _ h => (by cases h)⟩,
        .init ⟨now, rfl⟩, ?_⟩
      exact Nat.le_trans (Nat.le_of_eq (supply_new now none none key))
        (Nat.zero_le _)
    · intro s a s' hrs ih hc h
      obtain ⟨t, hagree, hrt, hsupply⟩ := ih
      have hp := plain_of_reachable hmode hno
        (hrs.mono fun _ _ hc => hc.1)
      obtain ⟨t', hrun, hagree'⟩ := hagree.forth hp hno hc.1 h
      rcases s.legacy_one a with hnone | ⟨x, hone⟩
      · rw [hnone] at hrun
        cases hrun
        exact ⟨t, hagree', hrt, hsupply⟩
      · rw [hone] at hrun
        obtain ⟨t₁, hstep, hrest⟩ := Machine.run_cons_eq_some.mp hrun
        cases hrest
        refine ⟨t', hagree', ?_⟩
        rcases viaConnect_of_step hstep with heq | ⟨x', hx', hvia⟩
        · rw [heq]
          exact ⟨hrt, hsupply⟩
        · refine ⟨hrt.step trivial hx', supply_le_of_step hrt hvia hx'
            hsupply ?_⟩
          rw [hagree'.demand_eq]
          exact hc.2 s' h
  rw [World.supply, hagree.queue_eq, hagree.demand_eq] at hsupply
  exact hsupply

open HttpConnector in
/-- One at a time, over TCP: there is one connection. -/
theorem http1_supply_le_peak_one :
    ∃ s : HttpConnector Nat Nat Unit Unit,
      ((newConnector .tcp).machine (ε := Unit)).run (new 0 .auto)
          [.connect 7, .transport 0 (some (1, none)), .h1 (.dropHandle 0),
            .connect 7] = some s
        ∧ s.demand 7 = 1 ∧ (s.h1.world.queue 7).length + s.demand 7 ≤ 1 := by
  obtain ⟨s, hrun, hdemand, hr⟩ : ∃ s : HttpConnector Nat Nat Unit Unit,
      ((newConnector .tcp).machine (ε := Unit)).run (new 0 .auto)
          [.connect 7, .transport 0 (some (1, none)), .h1 (.dropHandle 0),
            .connect 7] = some s
        ∧ s.demand 7 = 1
        ∧ ((newConnector .tcp).machine (ε := Unit)).ReachableUnder
          (fun s a => (newConnector .tcp).Obeys s a
            ∧ ∀ s', s.step a = some s' → s'.demand 7 ≤ 1) s := by
    refine ⟨_, rfl, rfl, ?_⟩
    refine .step (a := .connect 7) (.step (a := .h1 (.dropHandle 0))
      (.step (a := .transport 0 (some (1, none)))
        (.step (a := .connect 7) (.init ⟨0, rfl⟩) ?_ rfl) ?_ rfl) ?_ rfl)
          ?_ rfl
    all_goals
      refine ⟨by trivial, fun s' h => ?_⟩
      cases h
      decide
  exact ⟨s, hrun, hdemand,
    http1_supply_le_peak (by decide) (fun _ => Inner.tcp_no_h2) hr⟩

end MonoioTransports.Http
