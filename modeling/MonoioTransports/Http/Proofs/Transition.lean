/-
What one step can do to an `HttpConnector`, said once.

`Transition` lists the states a step may leave, one constructor per
await and outcome, with the guards the code checked on the way.
`transition_step` is the inversion of the step function in these terms;
the invariants of the connector are case analyses of `Transition`.
-/
import MonoioTransports.Http.Connector
import MonoioTransports.Pool.Queues

namespace MonoioTransports.Http

open Lib Pool

variable {K C π δ ε : Type}

-- ================================================================ try_get

namespace HttpConnector

variable [DecidableEq K] {s s' : HttpConnector K C π δ}

/-- The pool of HTTP/2 connections after `try_get!`. -/
def retained (s : HttpConnector K C π δ) (key : K) :
    PoolInner K (Http2Connection C) :=
  (s.tryGet key).1.h2Pool

/-- A look-up leaves its pool, and nothing else is changed. -/
theorem tryGet_eq {s s₁ : HttpConnector K C π δ} {key : K}
    {r : Option (Http2Connection C)} (h : s.tryGet key = (s₁, r)) :
    s₁ = { s with h2Pool := s.retained key } ∧ (s.tryGet key).2 = r := by
  rw [h]
  exact ⟨(congrArg Prod.fst h).symm, rfl⟩

/-- `try_get!` filters the queue of its key and looks at the front. -/
theorem tryGet_spec (s : HttpConnector K C π δ) (key : K) :
    (s.tryGet key).2
        = (((s.h2Pool.queue key).filter
            fun idle => !s.connError idle.conn.tx).head?.map
              fun idle => idle.conn)
      ∧ ∀ k, (s.retained key).queue k
        = if k = key then
            (s.h2Pool.queue key).filter
              fun idle => !s.connError idle.conn.tx
          else s.h2Pool.queue k := by
  obtain ⟨-, hres, hq⟩ := andThenMut_eq s.h2Pool key ()
    (f := fun _ conns => ((), retainFront s.connError conns)) rfl
  exact ⟨hres, hq⟩

/-- What is returned was in the queue, error-free. -/
theorem tryGet_some {key : K} {conn : Http2Connection C}
    (h : (s.tryGet key).2 = some conn) :
    (∃ e ∈ s.h2Pool.queue key, e.conn = conn)
      ∧ s.connError conn.tx = false := by
  rw [(tryGet_spec s key).1] at h
  obtain ⟨e, he, rfl⟩ := Option.map_eq_some_iff.mp h
  obtain ⟨hmem, hok⟩ := List.mem_filter.mp (List.mem_of_mem_head? he)
  exact ⟨⟨e, hmem, rfl⟩, by simpa using hok⟩

/-- When nothing is returned, nothing error-free was there. -/
theorem tryGet_none {key : K} (h : (s.tryGet key).2 = none) :
    (s.retained key).queue key = []
      ∧ ∀ e ∈ s.h2Pool.queue key, s.connError e.conn.tx = true := by
  obtain ⟨hres, hq⟩ := tryGet_spec s key
  rw [hres] at h
  have hnil := List.head?_eq_none_iff.mp (Option.map_eq_none_iff.mp h)
  refine ⟨by rw [hq, if_pos rfl, hnil], fun e he => ?_⟩
  have := List.filter_eq_nil_iff.mp hnil e he
  simpa using this

/-- `try_get!` only removes entries. -/
theorem retained_sublist (s : HttpConnector K C π δ) (key k : K) :
    ((s.retained key).queue k).Sublist (s.h2Pool.queue k) := by
  rw [(tryGet_spec s key).2]
  split
  next hk =>
    rw [hk]
    exact List.filter_sublist
  next => exact List.Sublist.refl _

end HttpConnector

-- =========================================================== transitions

section Transitions

variable [DecidableEq K] [DecidableEq C]

open HttpConnector

/-- The states a step with this action may leave. -/
inductive Transition (s : HttpConnector K C π δ) :
    ConnectorAction K C π δ ε → HttpConnector K C π δ → Prop
  /-- The first look-up finds an HTTP/2 connection. -/
  | hit2 (key : K) (conn : Http2Connection C)
      (hmode : s.isConfigAuto = true ∨ s.isConfigH2 = true)
      (hget : (s.tryGet key).2 = some conn) :
      Transition s (.connect key)
        ({ s with h2Pool := s.retained key
                  nextCall := s.nextCall + 1 }.finish s.nextCall
          (.http2 conn))
  /-- The second finds an HTTP/1.1 connection. -/
  | hit1 (key : K) (h1 : H1World K C π δ) (p : Pooled K C)
      (pool : PoolInner K (Http2Connection C))
      (hpool : pool = s.h2Pool ∨ pool = s.retained key)
      (hmode : s.isConfigAuto = true ∨ s.isConfigH1 = true)
      (hget : s.h1.get key = some (h1, some p)) :
      Transition s (.connect key)
        ({ s with h2Pool := pool, h1 := h1
                  nextCall := s.nextCall + 1 }.finish s.nextCall
          (.http1 s.h1.world.nextHandle p.value))
  /-- Neither finds one. -/
  | miss (key : K) (h1 : H1World K C π δ)
      (pool : PoolInner K (Http2Connection C))
      (hpool : pool = s.h2Pool ∨ pool = s.retained key)
      (hget : h1 = s.h1 ∨ s.h1.get key = some (h1, none)) :
      Transition s (.connect key)
        ({ s with h2Pool := pool, h1 := h1
                  nextCall := s.nextCall + 1 }.goTo s.nextCall
          (some (.transport key)))
  /-- A call without the lock ends with an error, or is cancelled. -/
  | leave (a : ConnectorAction K C π δ ε) (t : Nat)
      (hcall : (∃ key, s.calls t = some (.transport key))
        ∨ ∃ key l c, s.calls t = some (.acquire key l c)) :
      Transition s a (s.goTo t none)
  /-- The transport is for HTTP/2. -/
  | toLock (t : Nat) (key : K) (c : C) (alpn : Option (List UInt8))
      (hcall : s.calls t = some (.transport key)) (hnew : c ∉ s.used)
      (hh2 : s.isConfigH2 = true
        ∨ (getConnMetadata alpn).isAlpnH2 = true) :
      Transition s (.transport t (some (c, alpn)))
        ({ s with used := c :: s.used
                  negotiated := Function.update s.negotiated c alpn
                  connecting := (s.connecting.entry key).1 }.goTo t
          (some (.acquire key (s.connecting.entry key).2 c)))
  /-- The transport is for HTTP/1.1. -/
  | linked (t : Nat) (key : K) (c : C) (alpn : Option (List UInt8))
      (h1 : H1World K C π δ)
      (hcall : s.calls t = some (.transport key)) (hnew : c ∉ s.used)
      (hh1 : s.isConfigH2 = false
        ∧ (getConnMetadata alpn).isAlpnH2 = false)
      (hlink : s.h1.link key c = some h1) :
      Transition s (.transport t (some (c, alpn)))
        ({ s with used := c :: s.used
                  negotiated := Function.update s.negotiated c alpn
                  h1 := h1 }.finish t
          (.http1 s.h1.world.nextHandle c))
  /-- Under the lock another call's connection is found. -/
  | hitLocked (t : Nat) (key : K) (l : Nat) (c : C)
      (tbl : LockTable K) (conn : Http2Connection C)
      (hcall : s.calls t = some (.acquire key l c))
      (hlock : s.connecting.acquire l t = some tbl)
      (hget : (s.tryGet key).2 = some conn) :
      Transition s (.acquired t true)
        ({ s with h2Pool := s.retained key
                  connecting := tbl.release l }.finish t (.http2 conn))
  /-- Under the lock none is found. -/
  | toHandshake (t : Nat) (key : K) (l : Nat) (c : C)
      (tbl : LockTable K)
      (hcall : s.calls t = some (.acquire key l c))
      (hlock : s.connecting.acquire l t = some tbl)
      (hget : (s.tryGet key).2 = none) :
      Transition s (.acquired t true)
        ({ s with h2Pool := s.retained key, connecting := tbl }.goTo t
          (some (.handshake key l c)))
  /-- A call with the lock ends with an error, or is cancelled. -/
  | unlock (a : ConnectorAction K C π δ ε) (t : Nat) (key : K) (l : Nat)
      (c : C) (hcall : s.calls t = some (.handshake key l c)) :
      Transition s a
        ({ s with connecting := s.connecting.release l }.goTo t none)
  /-- The handshake is done. -/
  | established (t : Nat) (key : K) (l : Nat) (c : C)
      (hcall : s.calls t = some (.handshake key l c)) :
      Transition s (.handshake t true)
        ({ s with
            connecting := s.connecting.release l
            h2Pool := (s.h2Pool.put s.h1.world.now key
              (Http2Connection.new c)).pool
            opened := c :: s.opened }.finish t
          (.http2 (Http2Connection.new c)))
  | connErr (c : C) (hopen : c ∈ s.opened) :
      Transition s (.connErr c)
        { s with connError := Function.update s.connError c true
                 returned := none }
  | setMode (a : ConnectorAction K C π δ ε) (p : Protocol)
      (hquiet : s.Quiet) (hp : p ≠ .auto) :
      Transition s a { s with protocol := p, returned := none }
  | h1 (a : H1Action K C π δ ε) (h1 : H1World K C π δ)
      (hcallers : callers a = true) (hs : s.h1.step a = some h1) :
      Transition s (.h1 a) { s with h1 := h1, returned := none }
  | dropped (h1 : H1World K C π δ)
      (hs : s.h1.step (.pool .dropPool : H1Action K C π δ ε) = some h1) :
      Transition s .dropConnector
        { s with h1 := h1, h2Pool := PoolInner.new none, returned := none }

variable {s s' : HttpConnector K C π δ}

private theorem transition_connect {key : K}
    (h : s.connect key = some s') :
    Transition s (.connect key : ConnectorAction K C π δ ε) s' := by
  unfold HttpConnector.connect at h
  split at h
  next => cases h
  dsimp only at h
  split at h
  next s₁ conn hlook =>
    split at hlook
    next hmode =>
      cases h
      obtain ⟨rfl, hget⟩ := tryGet_eq hlook
      exact .hit2 key conn (Bool.or_eq_true_iff.mp hmode) hget
    next => cases hlook
  next s₁ hlook =>
    obtain ⟨pool, hpool, rfl⟩ : ∃ pool,
        (pool = s.h2Pool ∨ pool = s.retained key)
          ∧ s₁ = { s with h2Pool := pool, nextCall := s.nextCall + 1 } := by
      split at hlook
      next =>
        exact ⟨_, Or.inr rfl, (tryGet_eq hlook).1⟩
      next =>
        cases hlook
        exact ⟨_, Or.inl rfl, rfl⟩
    dsimp only at h
    split at h
    next h1 p hget =>
      cases h
      split at hget
      next hmode =>
        exact .hit1 key h1 p pool hpool (Bool.or_eq_true_iff.mp hmode) hget
      next => cases hget
    next h1 hget =>
      cases h
      refine .miss key h1 pool hpool ?_
      split at hget
      next => exact Or.inr hget
      next =>
        cases hget
        exact Or.inl rfl
    next => cases h

private theorem transition_transport {t : Nat}
    {result : Option (C × Option (List UInt8))}
    (h : s.transport t result = some s') :
    Transition s (.transport t result : ConnectorAction K C π δ ε) s' := by
  unfold HttpConnector.transport at h
  split at h
  next key hcall =>
    cases h
    exact .leave _ t (Or.inl ⟨key, hcall⟩)
  next key c alpn hcall =>
    split at h
    next => cases h
    next hnew =>
      dsimp only at h
      split at h
      next hh2 =>
        cases h
        exact .toLock t key c alpn hcall hnew (Bool.or_eq_true_iff.mp hh2)
      next hh1 =>
        obtain ⟨h1, hlink, rfl⟩ := Option.map_eq_some_iff.mp h
        exact .linked t key c alpn h1 hcall hnew
          (Bool.or_eq_false_iff.mp (Bool.eq_false_iff.mpr hh1)) hlink
  next => cases h

private theorem transition_acquired {t : Nat} {ok : Bool}
    (h : s.acquired t ok = some s') :
    Transition s (.acquired t ok : ConnectorAction K C π δ ε) s' := by
  unfold HttpConnector.acquired at h
  split at h
  next key l c hcall =>
    cases ok with
    | false =>
        cases h
        exact .leave _ t (Or.inr ⟨key, l, c, hcall⟩)
    | true =>
        simp only [Bool.not_true, Bool.false_eq_true, if_false] at h
        split at h
        next => cases h
        next tbl hlock =>
          split at h
          next s₁ conn hlook =>
            cases h
            obtain ⟨rfl, hget⟩ := tryGet_eq hlook
            exact .hitLocked t key l c tbl conn hcall hlock hget
          next s₁ hlook =>
            cases h
            obtain ⟨rfl, hget⟩ := tryGet_eq hlook
            exact .toHandshake t key l c tbl hcall hlock hget
  next => cases h

private theorem transition_handshake {t : Nat} {ok : Bool}
    (h : s.handshake t ok = some s') :
    Transition s (.handshake t ok : ConnectorAction K C π δ ε) s' := by
  unfold HttpConnector.handshake at h
  split at h
  next key l c hcall =>
    cases ok with
    | false =>
        cases h
        exact .unlock _ t key l c hcall
    | true =>
        cases h
        exact .established t key l c hcall
  next => cases h

private theorem transition_cancel {t : Nat} (h : s.cancel t = some s') :
    Transition s (.cancel t : ConnectorAction K C π δ ε) s' := by
  unfold HttpConnector.cancel at h
  split at h
  next key l c hcall =>
    cases h
    exact .unlock _ t key l c hcall
  next call hnot hcall =>
    cases h
    refine .leave _ t ?_
    cases call with
    | transport key => exact Or.inl ⟨key, hcall⟩
    | acquire key l c => exact Or.inr ⟨key, l, c, hcall⟩
    | handshake key l c => exact absurd rfl (hnot key l c)
  next => cases h

/-- Every step is one of these. -/
theorem transition_step {a : ConnectorAction K C π δ ε}
    (h : s.step a = some s') : Transition s a s' := by
  cases a with
  | connect key => exact transition_connect h
  | transport t result => exact transition_transport h
  | acquired t ok => exact transition_acquired h
  | handshake t ok => exact transition_handshake h
  | cancel t => exact transition_cancel h
  | connErr c =>
      simp only [HttpConnector.step] at h
      split at h
      next hopen =>
        cases h
        exact .connErr c hopen
      next => cases h
  | setHttp1Only =>
      simp only [HttpConnector.step] at h
      split at h
      next hquiet =>
        cases h
        exact .setMode _ .http11 hquiet (by decide)
      next => cases h
  | setHttp2Only =>
      simp only [HttpConnector.step] at h
      split at h
      next hquiet =>
        cases h
        exact .setMode _ .http2 hquiet (by decide)
      next => cases h
  | h1 a =>
      simp only [HttpConnector.step] at h
      split at h
      next hcallers =>
        obtain ⟨h1, hs, rfl⟩ := Option.map_eq_some_iff.mp h
        exact .h1 a h1 hcallers hs
      next => cases h
  | dropConnector =>
      simp only [HttpConnector.step] at h
      split at h
      next =>
        obtain ⟨h1, hs, rfl⟩ := Option.map_eq_some_iff.mp h
        exact .dropped h1 hs
      next => cases h

end Transitions

end MonoioTransports.Http
