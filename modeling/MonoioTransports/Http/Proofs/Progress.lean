/-
Calls of `connect` end: no interleaving comes to a deadlock, and none
keeps a call for ever.

# What a call may wait for

A call waits for the environment (a transport, a handshake, `ready`) or
for the lock of its key. A lock is held only by a call that waits for
the environment, so waiting does not chain: when every call the
environment owes an answer gets one, the lock comes free.

# The measure

A call has at most three awaits before it. Resuming it takes one away,
whatever the await resolved to, so the number of resumptions is bounded
by three for every call outstanding. `HyperH1Connector` may come back to
the same await, but only for a pooled connection that it has thrown
away: there the idle connections count too.
-/
import MonoioTransports.Lib.Progress
import MonoioTransports.Http.Proofs.Abandoned
import MonoioTransports.Http.Proofs.Held
import MonoioTransports.Http.Proofs.Negotiation
import MonoioTransports.Http.Proofs.SingleFlight
import MonoioTransports.Pool.Proofs.Counting

namespace MonoioTransports.Http

open Lib Pool

variable {K C π δ ε : Type}

-- ========================================================== HttpConnector

/-- The awaits before a call. -/
def Connect.awaits : Option (Connect K C) → Nat
  | some (.transport _) => 3
  | some (.acquire ..) => 2
  | some (.handshake ..) => 1
  | none => 0

/-- The calls in flight. -/
def HttpConnector.outstanding (s : HttpConnector K C π δ) : Nat :=
  tally (fun call => if call.isSome then 1 else 0) s.calls s.nextCall

/-- The awaits before all calls. -/
def HttpConnector.awaits (s : HttpConnector K C π δ) : Nat :=
  tally Connect.awaits s.calls s.nextCall

/-- A call is resumed at its await: with any outcome of the transport
and of the handshake, with the lock once it is free. -/
def Resumes : ConnectorAction K C π δ ε → Prop
  | .transport .. => True
  | .acquired _ ok => ok = true
  | .handshake .. => True
  | _ => False

theorem Connect.awaits_eq_zero {call : Option (Connect K C)} :
    Connect.awaits call = 0 ↔ call = none := by
  cases call with
  | none => exact iff_of_true rfl rfl
  | some call => cases call <;> simp [Connect.awaits]

/-- Three awaits a call, at most. -/
theorem HttpConnector.awaits_le (s : HttpConnector K C π δ) :
    s.awaits ≤ 3 * s.outstanding := by
  refine tally_le_mul 3 fun call => ?_
  cases call with
  | none => exact Nat.zero_le _
  | some call => cases call <;> simp [Connect.awaits]

/-- No await is left exactly when no call is in flight. -/
theorem HttpConnector.awaits_eq_zero {s : HttpConnector K C π δ} :
    s.awaits = 0 ↔ s.Quiet := by
  refine tally_eq_zero_iff.trans (forall_congr' fun t => ?_)
  refine imp_congr_right fun _ => ?_
  rw [Connect.awaits_eq_zero, Option.isNone_iff_eq_none]

/-- A lock is held at the handshake. -/
theorem HttpConnector.handshake_of_holding {s : HttpConnector K C π δ}
    {t l : Nat} {key : K} (h : s.phase t = .holding key l) :
    ∃ c, s.calls t = some (.handshake key l c) := by
  rw [HttpConnector.phase, Function.comp_apply] at h
  cases hcall : s.calls t with
  | none =>
      rw [hcall] at h
      cases h
  | some call =>
      rw [hcall] at h
      cases call with
      | transport key => cases h
      | acquire key l c => cases h
      | handshake key l c =>
          cases h
          exact ⟨c, rfl⟩

section Connectors

variable [DecidableEq K] [DecidableEq C] {s s' : HttpConnector K C π δ}

/-- While a call is in flight, the pool of HTTP/1.1 connections is
there. -/
def HttpConnector.Served (s : HttpConnector K C π δ) : Prop :=
  ∀ t, s.calls t ≠ none → s.h1.world.Alive (resolveMaxIdle none)

/-- A connector that takes a call has its pool. -/
theorem HttpConnector.pool_of_connect {key : K}
    (h : s.connect key = some s') :
    ∃ pool, s.h1.world.pool = some pool := by
  unfold HttpConnector.connect at h
  split at h
  next => cases h
  next hsome =>
    cases hpool : s.h1.world.pool with
    | none => simp [hpool] at hsome
    | some pool => exact ⟨pool, rfl⟩

/-- The steps of the pool's world that a step of its user may be: the
one it names, or the drop of a handle. -/
theorem H1World.world_step_of {h h' : H1World K C π δ}
    {b : H1Action K C π δ ε} (hs : h.step b = some h') :
    h'.world = h.world ∨ ∃ a, h.world.step a = some h'.world
      ∧ (b = .pool a ∨ ∃ hd isOpen, a = .drop hd isOpen) := by
  cases b with
  | pool a =>
      obtain ⟨-, w, hw, rfl⟩ := H1World.pool_eq_some hs
      exact Or.inr ⟨a, hw, Or.inl rfl⟩
  | sendRequest hd =>
      obtain ⟨p, -, -, rfl⟩ := H1World.sendRequest_eq_some hs
      exact Or.inl rfl
  | resume hd ev =>
      obtain ⟨p, conn, st, -, -, rfl⟩ := H1World.resume_eq_some hs
      exact Or.inl rfl
  | cancel hd =>
      obtain ⟨p, -, -, rfl⟩ := H1World.cancel_eq_some hs
      exact Or.inl rfl
  | dropHandle hd =>
      obtain ⟨p, w, -, hw, rfl⟩ := H1World.dropHandle_eq_some hs
      exact Or.inr ⟨_, hw, Or.inr ⟨hd, _, rfl⟩⟩

/-- What a connector and its callers do to its pool of HTTP/1.1
connections, until the connector is dropped. -/
def HttpConnector.uses : Action K C → Bool
  | .tick _ => true
  | .get _ => true
  | .link .. => true
  | .drop .. => true
  | _ => false

/-- A step of a connector is at most one such step, or its end. -/
theorem HttpConnector.world_step {a : ConnectorAction K C π δ ε}
    (h : s.step a = some s') :
    s'.h1.world = s.h1.world ∨ ∃ b, s.h1.world.step b = some s'.h1.world
      ∧ (HttpConnector.uses b = true
        ∨ b = .dropPool ∧ a = .dropConnector) := by
  have hpool : ∀ {b : Action K C} {h1 : H1World K C π δ},
      s.h1.step (.pool b : H1Action K C π δ ε) = some h1 →
      HttpConnector.uses b = true →
      h1.world = s.h1.world ∨ ∃ b, s.h1.world.step b = some h1.world
        ∧ (HttpConnector.uses b = true
          ∨ b = .dropPool ∧ a = .dropConnector) := by
    intro b h1 hs hb
    obtain ⟨-, w, hw, rfl⟩ := H1World.pool_eq_some hs
    exact Or.inr ⟨b, hw, Or.inl hb⟩
  cases transition_step h with
  | hit2 | leave | toLock | hitLocked | toHandshake | unlock
    | established | connErr | setMode => exact Or.inl rfl
  | hit1 key h1 p pool hlook hmode hget =>
      exact hpool (H1World.step_get hget) rfl
  | miss key h1 pool hlook hget =>
      rcases hget with rfl | hget
      · exact Or.inl rfl
      · exact hpool (H1World.step_get hget) rfl
  | linked t key c alpn h1 hcall hnew hh1 hlink =>
      exact hpool (H1World.step_link hlink) rfl
  | h1 b h1 hcallers hs =>
      rcases H1World.world_step_of hs with heq | ⟨b', hw, hwhy⟩
      · exact Or.inl heq
      · refine Or.inr ⟨b', hw, Or.inl ?_⟩
        rcases hwhy with rfl | ⟨hd, isOpen, rfl⟩
        · cases b' with
          | tick dt => rfl
          | _ => cases hcallers
        · rfl
  | dropped h1 hs =>
      obtain ⟨-, w, hw, rfl⟩ := H1World.pool_eq_some hs
      exact Or.inr ⟨.dropPool, hw, Or.inr ⟨rfl, rfl⟩⟩

/-- Only dropping the connector takes the pool away. -/
theorem HttpConnector.alive_of_step {m : Nat}
    (hw : s.h1.world.Alive m) {a : ConnectorAction K C π δ ε}
    (ha : a ≠ .dropConnector) (h : s.step a = some s') :
    s'.h1.world.Alive m := by
  rcases HttpConnector.world_step h with heq | ⟨b, hb, hwhy⟩
  · rw [heq]
    exact hw
  · refine Pool.alive_of_step hb ?_ hw
    intro hdrop
    rcases hwhy with huses | ⟨-, hend⟩
    · rw [hdrop] at huses
      cases huses
    · exact ha hend

/-- Dropping the connector waits until no call is in flight. -/
theorem HttpConnector.quiet_of_drop
    (h : s.step (.dropConnector : ConnectorAction K C π δ ε) = some s') :
    s.Quiet ∧ s'.calls = s.calls ∧ s'.nextCall = s.nextCall := by
  simp only [HttpConnector.step] at h
  split at h
  next hquiet =>
    obtain ⟨h1, -, rfl⟩ := Option.map_eq_some_iff.mp h
    exact ⟨hquiet, rfl, rfl⟩
  next => cases h

/-- A call in flight was so before the step, or the step began one. -/
theorem HttpConnector.calls_of_step {a : ConnectorAction K C π δ ε}
    (h : s.step a = some s') {t : Nat} (ht : s'.calls t ≠ none) :
    (∃ t', s.calls t' ≠ none) ∨ ∃ key, a = .connect key := by
  have hmoved : ∀ {t₀ : Nat} {call : Option (Connect K C)},
      s.calls t₀ = call → call ≠ none → ∃ t', s.calls t' ≠ none :=
    fun {t₀ _} hcall hne => ⟨t₀, hcall ▸ hne⟩
  cases transition_step h with
  | hit2 key | hit1 key | miss key => exact Or.inr ⟨key, rfl⟩
  | connErr | setMode | h1 | dropped => exact Or.inl ⟨t, ht⟩
  | leave a t₀ hcall =>
      rcases hcall with ⟨key, hcall⟩ | ⟨key, l, c, hcall⟩
      · exact Or.inl (hmoved hcall (by simp))
      · exact Or.inl (hmoved hcall (by simp))
  | toLock t₀ key c alpn hcall => exact Or.inl (hmoved hcall (by simp))
  | linked t₀ key c alpn h1 hcall =>
      exact Or.inl (hmoved hcall (by simp))
  | hitLocked t₀ key l c tbl conn hcall =>
      exact Or.inl (hmoved hcall (by simp))
  | toHandshake t₀ key l c tbl hcall =>
      exact Or.inl (hmoved hcall (by simp))
  | unlock a t₀ key l c hcall => exact Or.inl (hmoved hcall (by simp))
  | established t₀ key l c hcall =>
      exact Or.inl (hmoved hcall (by simp))

theorem HttpConnector.served_of_reachable {protocol : Protocol}
    (hr : (HttpConnector.machine (ε := ε) protocol).Reachable s) :
    s.Served := by
  refine hr.invariant (I := HttpConnector.Served) ?_ ?_
  · intro s hinit t ht
    obtain ⟨now, rfl⟩ := hinit
    exact absurd rfl ht
  · intro s a s' hrs ih _ h t ht
    have hi := HttpConnector.inv_of_reachable hrs
    by_cases hdrop : a = .dropConnector
    · subst hdrop
      -- the connector goes, but no call is in flight
      obtain ⟨hquiet, hcalls, -⟩ := HttpConnector.quiet_of_drop h
      rw [hcalls] at ht
      have hlt : t < s.nextCall := by
        by_contra hle
        exact ht (hi.fresh t (Nat.le_of_not_lt hle))
      exact absurd (Option.isNone_iff_eq_none.mp (hquiet t hlt)) ht
    · refine HttpConnector.alive_of_step ?_ hdrop h
      -- a call that was in flight had its pool; one that begins finds it
      rcases HttpConnector.calls_of_step h ht with ⟨t', ht'⟩ | ⟨key, rfl⟩
      · exact ih t' ht'
      · obtain ⟨pool, hpool⟩ := HttpConnector.pool_of_connect h
        obtain ⟨hmax, hdur⟩ := limits_of_reachable
          (HttpConnector.world_reachable hrs) pool hpool
        exact ⟨pool, hpool, hmax, hdur⟩

-- =============================================== what a resumption does

omit [DecidableEq K] in
/-- A new connection of the HTTP/1.1 pool can be linked. -/
theorem H1World.link_isSome {h : H1World K C π δ} {m : Nat}
    (hw : h.world.Alive m) (key : K) {c : C} (hc : h.world.Fresh c) :
    ∃ h', h.link key c = some h' := by
  obtain ⟨pool, hpool, -, -⟩ := hw
  unfold H1World.link World.link
  rw [if_pos ⟨by rw [hpool]; rfl, hc⟩]
  exact ⟨_, rfl⟩

/-- A call at its transport takes any outcome. -/
theorem HttpConnector.transport_isSome (hs : s.Served) (ht : s.Typed)
    {t : Nat} {key : K} (hcall : s.calls t = some (.transport key))
    (result : Option (C × Option (List UInt8)))
    (hnew : ∀ c alpn, result = some (c, alpn) → c ∉ s.used) :
    ∃ s', s.transport t result = some s' := by
  have halive := hs t (by rw [hcall]; simp)
  unfold HttpConnector.transport
  cases result with
  | none => simp [hcall]
  | some r =>
      obtain ⟨c, alpn⟩ := r
      have hc := hnew c alpn rfl
      have hfresh : s.h1.world.Fresh c :=
        fun k hmem => hc (ht.used_h1 k c hmem)
      -- an HTTP/1.1 connection over it can enter: its transport is new
      obtain ⟨h1, hlink⟩ := H1World.link_isSome halive key hfresh
      simp only [hcall, hc, if_false]
      split
      next => exact ⟨_, rfl⟩
      next =>
        rw [hlink]
        exact ⟨_, rfl⟩

omit [DecidableEq C] in
/-- A call at a free lock takes it. -/
theorem HttpConnector.acquired_isSome {t l : Nat} {key : K} {c : C}
    (hcall : s.calls t = some (.acquire key l c))
    (hfree : s.connecting.holder l = none) :
    ∃ s', s.acquired t true = some s' := by
  unfold HttpConnector.acquired LockTable.acquire
  simp only [hcall, hfree, Bool.not_true, Bool.false_eq_true, if_false]
  split
  next => exact ⟨_, rfl⟩
  next => exact ⟨_, rfl⟩

omit [DecidableEq C] in
/-- A call at its handshake takes any outcome. -/
theorem HttpConnector.handshake_isSome {t l : Nat} {key : K} {c : C}
    (hcall : s.calls t = some (.handshake key l c)) (ok : Bool) :
    ∃ s', s.handshake t ok = some s' := by
  unfold HttpConnector.handshake
  cases ok with
  | false => simp [hcall]
  | true => simp [hcall]

omit [DecidableEq K] [DecidableEq C] in
/-- A call moves to an await nearer its end, or ends. -/
theorem HttpConnector.tally_lt {n : Nat} {calls : Nat → Option (Connect K C)}
    {t : Nat} {call : Option (Connect K C)} (ht : t < n)
    (hlt : Connect.awaits call < Connect.awaits (calls t)) :
    tally Connect.awaits (Function.update calls t call) n
      < tally Connect.awaits calls n := by
  have := tally_update Connect.awaits calls ht call
  omega

/-- What is resumed is in flight. -/
theorem HttpConnector.not_quiet_of_resumes (hi : s.Inv)
    {a : ConnectorAction K C π δ ε} (ha : Resumes a)
    (h : s.step a = some s') : ¬ s.Quiet := by
  have hcall : ∃ t call, s.calls t = some call := by
    cases a with
    | transport t result =>
        simp only [HttpConnector.step, HttpConnector.transport] at h
        split at h
        next hcall => exact ⟨t, _, hcall⟩
        next hcall => exact ⟨t, _, hcall⟩
        next => cases h
    | acquired t ok =>
        simp only [HttpConnector.step, HttpConnector.acquired] at h
        split at h
        next hcall => exact ⟨t, _, hcall⟩
        next => cases h
    | handshake t ok =>
        simp only [HttpConnector.step, HttpConnector.handshake] at h
        split at h
        next hcall => exact ⟨t, _, hcall⟩
        next => cases h
    | connect | cancel | connErr | setHttp1Only | setHttp2Only | h1
      | dropConnector => exact ha.elim
  -- `Quiet` looks at the calls begun so far, and this one is among them
  obtain ⟨t, call, hcall⟩ := hcall
  intro hquiet
  have hnone := Option.isNone_iff_eq_none.mp (hquiet t (hi.lt_next hcall))
  rw [hcall] at hnone
  cases hnone

/-- A resumption takes an await away. -/
theorem HttpConnector.awaits_lt (hi : s.Inv)
    {a : ConnectorAction K C π δ ε} (ha : Resumes a)
    (h : s.step a = some s') : s'.awaits < s.awaits := by
  cases transition_step h with
  | hit2 | hit1 | miss | connErr | h1 | dropped => exact ha.elim
  -- the mode is set while all is quiet, and then nothing is resumed
  | setMode a p hquiet hp =>
      exact absurd hquiet (HttpConnector.not_quiet_of_resumes hi ha h)
  -- every other resumption moves its call on, or ends it
  | leave a t hcall =>
      rcases hcall with ⟨key, hcall⟩ | ⟨key, l, c, hcall⟩
      · exact HttpConnector.tally_lt (hi.lt_next hcall)
          (by simp [hcall, Connect.awaits])
      · exact HttpConnector.tally_lt (hi.lt_next hcall)
          (by simp [hcall, Connect.awaits])
  | toLock t key c alpn hcall =>
      exact HttpConnector.tally_lt (hi.lt_next hcall)
        (by simp [hcall, Connect.awaits])
  | linked t key c alpn h1 hcall =>
      exact HttpConnector.tally_lt (hi.lt_next hcall)
        (by simp [hcall, Connect.awaits])
  | hitLocked t key l c tbl conn hcall =>
      exact HttpConnector.tally_lt (hi.lt_next hcall)
        (by simp [hcall, Connect.awaits])
  | toHandshake t key l c tbl hcall =>
      exact HttpConnector.tally_lt (hi.lt_next hcall)
        (by simp [hcall, Connect.awaits])
  | unlock a t key l c hcall =>
      exact HttpConnector.tally_lt (hi.lt_next hcall)
        (by simp [hcall, Connect.awaits])
  | established t key l c hcall =>
      exact HttpConnector.tally_lt (hi.lt_next hcall)
        (by simp [hcall, Connect.awaits])

/-- The states from which `HttpConnector` works its calls off. -/
theorem HttpConnector.workedOff (protocol : Protocol) :
    WorkedOff
      (HttpConnector.machine protocol :
        Machine (HttpConnector K C π δ) (ConnectorAction K C π δ ε))
      (HttpConnector.machine (ε := ε) protocol).Reachable
      (fun _ a => Resumes a) (fun s => 0 < s.awaits)
      HttpConnector.awaits where
  keeps := fun s a s' hr _ h => hr.step trivial h
  lowers := fun s a s' hr ha h =>
    HttpConnector.awaits_lt (HttpConnector.inv_of_reachable hr) ha h
  enabled := by
    intro s hr hpos
    have hi := HttpConnector.inv_of_reachable hr
    obtain ⟨t, -, hcall⟩ := exists_of_tally_pos hpos
    have hhandshake : ∀ {t l : Nat} {key : K} {c : C},
        s.calls t = some (.handshake key l c) →
        ∃ (a : ConnectorAction K C π δ ε) (s' : HttpConnector K C π δ),
          Resumes a ∧ s.step a = some s' := by
      intro t l key c hcall
      obtain ⟨s', h⟩ := HttpConnector.handshake_isSome hcall true
      exact ⟨.handshake t true, s', trivial, h⟩
    cases hc : s.calls t with
    | none => simp [hc, Connect.awaits] at hcall
    | some call =>
        cases call with
        | transport key =>
            obtain ⟨s', h⟩ := HttpConnector.transport_isSome
              (HttpConnector.served_of_reachable hr)
              (HttpConnector.typed_of_reachable hr) hc none nofun
            exact ⟨.transport t none, s', trivial, h⟩
        | acquire key l c =>
            -- the lock is free, or the call that holds it can be resumed
            rcases hi.coherent.free_or_held (HttpConnector.phase_eq hc)
              with hfree | ⟨t', hheld⟩
            · obtain ⟨s', h⟩ := HttpConnector.acquired_isSome hc hfree
              exact ⟨.acquired t true, s', rfl, h⟩
            · obtain ⟨c', hc'⟩ := HttpConnector.handshake_of_holding hheld
              exact hhandshake hc'
        | handshake key l c => exact hhandshake hc

/-- The calls of an `HttpConnector` end. A call at the lock can take it,
or a call of its key is at its handshake; the other calls take whatever
the environment answers; resumptions are bounded by three a call; and
some of them end every call, with every lock free. -/
theorem calls_end {protocol : Protocol}
    (hr : (HttpConnector.machine (ε := ε) protocol).Reachable s) :
    (∀ t key l c, s.calls t = some (.acquire key l c) →
        (∃ s', s.acquired t true = some s')
          ∨ ∃ t' c', s.calls t' = some (.handshake key l c'))
      ∧ (∀ t key result, s.calls t = some (.transport key) →
        (∀ c alpn, result = some (c, alpn) → c ∉ s.used) →
        ∃ s', s.transport t result = some s')
      ∧ (∀ t key l c ok, s.calls t = some (.handshake key l c) →
        ∃ s', s.handshake t ok = some s')
      ∧ (∀ (as : List (ConnectorAction K C π δ ε)) s',
        (HttpConnector.machine protocol).run s as = some s' →
        (HttpConnector.machine protocol).Along (fun _ a => Resumes a) s
          as →
        as.length ≤ 3 * s.outstanding)
      ∧ ∃ (as : List (ConnectorAction K C π δ ε))
          (s' : HttpConnector K C π δ),
        (HttpConnector.machine protocol).run s as = some s'
          ∧ (HttpConnector.machine protocol).Along (fun _ a => Resumes a) s
            as
          ∧ s'.Quiet ∧ ∀ l, s'.connecting.holder l = none := by
  have hi := HttpConnector.inv_of_reachable hr
  refine ⟨?_, ?_, ?_, ?_, ?_⟩
  · intro t key l c hcall
    rcases hi.coherent.free_or_held (HttpConnector.phase_eq hcall) with
      hfree | ⟨t', hheld⟩
    · exact Or.inl (HttpConnector.acquired_isSome hcall hfree)
    · exact Or.inr ⟨t', HttpConnector.handshake_of_holding hheld⟩
  · intro t key result hcall hnew
    exact HttpConnector.transport_isSome
      (HttpConnector.served_of_reachable hr)
      (HttpConnector.typed_of_reachable hr) hcall result hnew
  · intro t key l c ok hcall
    exact HttpConnector.handshake_isSome hcall ok
  · intro as s' hrun halong
    -- each resumption takes one away of three for every call
    have hle := (HttpConnector.workedOff protocol).length_le hr hrun halong
    have hawaits := s.awaits_le
    omega
  · obtain ⟨as, s', hrun, halong, hr', hzero⟩ :=
      (HttpConnector.workedOff (ε := ε) protocol).completes hr
    have hquiet := HttpConnector.awaits_eq_zero.mp
      (Nat.eq_zero_of_not_pos hzero)
    have hi' := HttpConnector.inv_of_reachable hr'
    refine ⟨as, s', hrun, halong, hquiet, hi'.coherent.all_free ?_⟩
    -- a lock still held would be held by a call in flight
    intro t key l hheld
    obtain ⟨c, hcall⟩ := HttpConnector.handshake_of_holding hheld
    have hnone :=
      Option.isNone_iff_eq_none.mp (hquiet t (hi'.lt_next hcall))
    rw [hcall] at hnone
    cases hnone

/-- Two calls race for a key: after at most six resumptions both have
ended. -/
theorem calls_end_race :
    ∃ s : HttpConnector Nat Nat Unit Unit,
      (HttpConnector.machine (ε := Unit) .auto).run
          (HttpConnector.new 0 .auto) [.connect 7, .connect 7] = some s
        ∧ ∀ (as : List (ConnectorAction Nat Nat Unit Unit Unit)) s',
          (HttpConnector.machine .auto).run s as = some s' →
          (HttpConnector.machine .auto).Along (fun _ a => Resumes a) s
            as →
          as.length ≤ 6 := by
  obtain ⟨s, hrun, hout⟩ : ∃ s : HttpConnector Nat Nat Unit Unit,
      (HttpConnector.machine (ε := Unit) .auto).run
          (HttpConnector.new 0 .auto) [.connect 7, .connect 7] = some s
        ∧ s.outstanding = 2 := ⟨_, rfl, rfl⟩
  obtain ⟨-, -, -, hbound, -⟩ :=
    calls_end (Machine.Reachable.run (.init ⟨0, rfl⟩) hrun)
  refine ⟨s, hrun, fun as s' has halong => ?_⟩
  have hle := hbound as s' has halong
  rw [hout] at hle
  exact hle

end Connectors

-- ======================================================= HyperH2Connector

/-- The awaits before a call. -/
def HyperConnect.awaits : Option (HyperConnect K) → Nat
  | some (.lock ..) => 3
  | some (.underlying ..) => 2
  | some (.handshake ..) => 1
  | none => 0

/-- A call is resumed at its await: with the lock once it is free, with
any outcome of the underlying connector and of the handshake. -/
def HyperResumes : HyperAction K → Prop
  | .locked _ => True
  | .connected .. => True
  | .handshake .. => True
  | _ => False

namespace HyperH2Connector

/-- The calls in flight. -/
def outstanding (s : HyperH2Connector K) : Nat :=
  tally (fun call => if call.isSome then 1 else 0) s.calls s.nextCall

/-- The awaits before all calls. -/
def awaits (s : HyperH2Connector K) : Nat :=
  tally HyperConnect.awaits s.calls s.nextCall

theorem awaits_le (s : HyperH2Connector K) :
    s.awaits ≤ 3 * s.outstanding := by
  refine tally_le_mul 3 fun call => ?_
  cases call with
  | none => exact Nat.zero_le _
  | some call => cases call <;> simp [HyperConnect.awaits]

theorem awaits_eq_zero {s : HyperH2Connector K} :
    s.awaits = 0 ↔ ∀ t, t < s.nextCall → s.calls t = none := by
  refine tally_eq_zero_iff.trans (forall_congr' fun t => ?_)
  refine imp_congr_right fun _ => ?_
  cases s.calls t with
  | none => exact iff_of_true rfl rfl
  | some call => cases call <;> simp [HyperConnect.awaits]

theorem tally_lt {n t : Nat} {calls : Nat → Option (HyperConnect K)}
    {call : Option (HyperConnect K)} (ht : t < n)
    (hlt : HyperConnect.awaits call < HyperConnect.awaits (calls t)) :
    tally HyperConnect.awaits (Function.update calls t call) n
      < tally HyperConnect.awaits calls n := by
  have := tally_update HyperConnect.awaits calls ht
    call
  omega

variable [DecidableEq K] {s s' : HyperH2Connector K}

/-- A call that started is not new. -/
theorem Locked.lt_next (hl : s.Locked) {t : Nat} {call : HyperConnect K}
    (h : s.calls t = some call) : t < s.nextCall := by
  by_contra hle
  rw [hl.fresh t (Nat.le_of_not_lt hle)] at h
  cases h

/-- A call at a free lock takes it. -/
theorem locked_isSome {t l : Nat} {key : K}
    (hcall : s.calls t = some (.lock key l))
    (hfree : s.connecting.holder l = none) :
    ∃ s', s.locked t = some s' := by
  unfold locked LockTable.acquire
  simp only [hcall, hfree]
  split
  next => exact ⟨_, rfl⟩
  next => exact ⟨_, rfl⟩

omit [DecidableEq K] in
/-- A call at the underlying connector takes any outcome. -/
theorem connected_isSome {t l : Nat} {key : K}
    (hcall : s.calls t = some (.underlying key l)) (ok : Bool) :
    ∃ s', s.connected t ok = some s' := by
  unfold connected
  cases ok with
  | false => simp [hcall]
  | true => simp [hcall]

/-- A call at its handshake takes any outcome. -/
theorem handshake_isSome {t l : Nat} {key : K}
    (hcall : s.calls t = some (.handshake key l)) (ok : Bool) :
    ∃ s', s.handshake t ok = some s' := by
  unfold handshake
  cases ok with
  | false => simp [hcall]
  | true => simp [hcall]

/-- A call that opens a connection takes an answer. -/
theorem resumable_of_opening {t : Nat} {key : K} (h : s.Opening t key) :
    ∃ a s', HyperResumes a ∧ s.step a = some s' := by
  obtain ⟨l, hcall | hcall⟩ := h
  · obtain ⟨s', h⟩ := connected_isSome hcall true
    exact ⟨.connected t true, s', trivial, h⟩
  · obtain ⟨s', h⟩ := handshake_isSome hcall true
    exact ⟨.handshake t true, s', trivial, h⟩

/-- A resumption takes an await away. -/
theorem awaits_lt (hl : s.Locked) {a : HyperAction K}
    (ha : HyperResumes a) (h : s.step a = some s') :
    s'.awaits < s.awaits := by
  cases hyper_transition h with
  | tick | hit | wait | leave | cloned | droppedHandle | closed | swept =>
      exact ha.elim
  | hitLocked t key l tbl conn hcall hlock hhit =>
      exact tally_lt (hl.lt_next hcall) (by simp [hcall, HyperConnect.awaits])
  | begin t key l tbl hcall hlock hmiss =>
      exact tally_lt (hl.lt_next hcall) (by simp [hcall, HyperConnect.awaits])
  | connected t key l hcall =>
      exact tally_lt (hl.lt_next hcall) (by simp [hcall, HyperConnect.awaits])
  | unlock a t key l ha' hcall =>
      rcases hcall with hcall | hcall
      · exact tally_lt (hl.lt_next hcall)
          (by simp [hcall, HyperConnect.awaits])
      · exact tally_lt (hl.lt_next hcall)
          (by simp [hcall, HyperConnect.awaits])
  | established t key l cn e hcall hcn he =>
      exact tally_lt (hl.lt_next hcall) (by simp [hcall, HyperConnect.awaits])

/-- The states from which `HyperH2Connector` works its calls off. -/
theorem workedOff (idleInterval maxIdle limit : Option Nat) :
    WorkedOff
      (machine idleInterval maxIdle limit :
        Machine (HyperH2Connector K) (HyperAction K))
      (machine idleInterval maxIdle limit).Reachable
      (fun _ a => HyperResumes a) (fun s => 0 < s.awaits) awaits where
  keeps := fun s a s' hr _ h => hr.step trivial h
  lowers := fun s a s' hr ha h => awaits_lt (locked_of_reachable hr) ha h
  enabled := by
    intro s hr hpos
    have hl := locked_of_reachable hr
    obtain ⟨t, -, hcall⟩ := exists_of_tally_pos hpos
    cases hc : s.calls t with
    | none => simp [hc, HyperConnect.awaits] at hcall
    | some call =>
        cases call with
        | lock key l =>
            -- the lock is free, or the call that opens under it can be resumed
            rcases hl.coherent.free_or_held (phase_eq hc) with
              hfree | ⟨t', hheld⟩
            · obtain ⟨s', h⟩ := locked_isSome hc hfree
              exact ⟨.locked t, s', trivial, h⟩
            · exact resumable_of_opening (opening_iff.mpr ⟨l, hheld⟩)
        | underlying key l =>
            exact resumable_of_opening ⟨l, Or.inl hc⟩
        | handshake key l => exact resumable_of_opening ⟨l, Or.inr hc⟩

end HyperH2Connector

open HyperH2Connector in
/-- The calls of a `HyperH2Connector` end: as for `HttpConnector`, with
the underlying connector under the lock too. -/
theorem hyper_calls_end [DecidableEq K]
    {idleInterval maxIdle limit : Option Nat} {s : HyperH2Connector K}
    (hr : (machine idleInterval maxIdle limit).Reachable s) :
    (∀ t key l, s.calls t = some (.lock key l) →
        (∃ s', s.locked t = some s') ∨ ∃ t', s.Opening t' key)
      ∧ (∀ t key l ok, s.calls t = some (.underlying key l) →
        ∃ s', s.connected t ok = some s')
      ∧ (∀ t key l ok, s.calls t = some (.handshake key l) →
        ∃ s', s.handshake t ok = some s')
      ∧ (∀ as s', (machine idleInterval maxIdle limit).run s as = some s' →
        (machine idleInterval maxIdle limit).Along
          (fun _ a => HyperResumes a) s as →
        as.length ≤ 3 * s.outstanding)
      ∧ ∃ as s', (machine idleInterval maxIdle limit).run s as = some s'
          ∧ (machine idleInterval maxIdle limit).Along
            (fun _ a => HyperResumes a) s as
          ∧ (∀ t, s'.calls t = none)
          ∧ ∀ l, s'.connecting.holder l = none := by
  have hl := locked_of_reachable hr
  refine ⟨?_, ?_, ?_, ?_, ?_⟩
  · intro t key l hcall
    rcases hl.coherent.free_or_held (phase_eq hcall) with
      hfree | ⟨t', hheld⟩
    · exact Or.inl (locked_isSome hcall hfree)
    · exact Or.inr ⟨t', opening_iff.mpr ⟨l, hheld⟩⟩
  · intro t key l ok hcall
    exact connected_isSome hcall ok
  · intro t key l ok hcall
    exact handshake_isSome hcall ok
  · intro as s' hrun halong
    have hle := (workedOff idleInterval maxIdle limit).length_le hr hrun
      halong
    have hawaits := s.awaits_le
    omega
  · obtain ⟨as, s', hrun, halong, hr', hzero⟩ :=
      (workedOff idleInterval maxIdle limit).completes hr
    have hl' := locked_of_reachable hr'
    have hnone : ∀ t, s'.calls t = none := by
      intro t
      by_cases ht : t < s'.nextCall
      · exact awaits_eq_zero.mp (Nat.eq_zero_of_not_pos hzero) t ht
      · exact hl'.fresh t (Nat.le_of_not_lt ht)
    refine ⟨as, s', hrun, halong, hnone, hl'.coherent.all_free ?_⟩
    -- a lock still held would be held by a call in flight
    intro t key l hheld
    rw [phase_eq (hnone t)] at hheld
    cases hheld

open HyperH2Connector in
/-- Two calls race for a key: after at most six resumptions both have
ended. -/
theorem hyper_calls_end_race :
    ∃ s : HyperH2Connector Nat,
      (machine none none (some 3)).run (newWithPool 0 none none (some 3))
          [.connect 7, .connect 7] = some s
        ∧ ∀ as s', (machine none none (some 3)).run s as = some s' →
          (machine none none (some 3)).Along (fun _ a => HyperResumes a) s
            as →
          as.length ≤ 6 := by
  obtain ⟨s, hrun, hout⟩ : ∃ s : HyperH2Connector Nat,
      (machine none none (some 3)).run (newWithPool 0 none none (some 3))
          [.connect 7, .connect 7] = some s
        ∧ s.outstanding = 2 := ⟨_, rfl, rfl⟩
  obtain ⟨-, -, -, hbound, -⟩ :=
    hyper_calls_end (Machine.Reachable.run (.init ⟨0, rfl⟩) hrun)
  refine ⟨s, hrun, fun as s' has halong => ?_⟩
  have hle := hbound as s' has halong
  rw [hout] at hle
  exact hle

-- ======================================================= HyperH1Connector

/-- The awaits before a call, when no pooled connection fails it. -/
def HyperH1Connect.awaits : Option (HyperH1Connect K) → Nat
  | some (.ready ..) => 3
  | some (.underlying _) => 2
  | some (.handshake _) => 1
  | none => 0

/-- A call is resumed at its await with any outcome; `ready` fails on a
closed connection only, as hyper promises. -/
def HyperH1Resumes (s : HyperH1Connector K C) : HyperH1Action K C → Prop
  | .ready t ok => ok = false → ∀ key h p,
      s.calls t = some (.ready key h) → s.world.handles h = some p →
      s.closed p.value = true
  | .connected .. => True
  | .handshake .. => True
  | _ => False

namespace HyperH1Connector

/-- The calls in flight. -/
def outstanding (s : HyperH1Connector K C) : Nat :=
  tally (fun call => if call.isSome then 1 else 0) s.calls s.nextCall

/-- What may still have to be done: the awaits before the calls, and the
idle connections a call may come upon. -/
def rest (s : HyperH1Connector K C) : Nat :=
  tally HyperH1Connect.awaits s.calls s.nextCall + s.world.idleCount

theorem rest_le (s : HyperH1Connector K C) :
    s.rest ≤ 3 * s.outstanding + s.world.idleCount := by
  refine Nat.add_le_add_right (tally_le_mul 3 fun call => ?_) _
  cases call with
  | none => exact Nat.zero_le _
  | some call => cases call <;> simp [HyperH1Connect.awaits]

variable {s s' : HyperH1Connector K C}

/-- A call moves to an await nearer its end. -/
theorem rest_lt (hh : s.Held) {w : World K C} {t : Nat}
    {call : HyperH1Connect K} (hcall : s.calls t = some call)
    {call' : Option (HyperH1Connect K)} {returned : Option Nat}
    (hlt : HyperH1Connect.awaits call' < HyperH1Connect.awaits (some call))
    (hle : w.idleCount ≤ s.world.idleCount) :
    rest { s with world := w, returned := returned
                  calls := Function.update s.calls t call' } < s.rest := by
  have hsum := tally_update HyperH1Connect.awaits s.calls
    (hh.lt_next hcall) call'
  rw [hcall] at hsum
  show tally HyperH1Connect.awaits (Function.update s.calls t call')
      s.nextCall + w.idleCount
    < tally HyperH1Connect.awaits s.calls s.nextCall + s.world.idleCount
  omega

/-- A call stays at its await, with fewer connections before it. -/
theorem rest_lt_again (hh : s.Held) {w : World K C} {t : Nat}
    {call : HyperH1Connect K} (hcall : s.calls t = some call)
    {call' : Option (HyperH1Connect K)} {returned : Option Nat}
    (hle : HyperH1Connect.awaits call' ≤ HyperH1Connect.awaits (some call))
    (hlt : w.idleCount < s.world.idleCount) :
    rest { s with world := w, returned := returned
                  calls := Function.update s.calls t call' } < s.rest := by
  have hsum := tally_update HyperH1Connect.awaits s.calls
    (hh.lt_next hcall) call'
  rw [hcall] at hsum
  show tally HyperH1Connect.awaits (Function.update s.calls t call')
      s.nextCall + w.idleCount
    < tally HyperH1Connect.awaits s.calls s.nextCall + s.world.idleCount
  omega

variable [DecidableEq K]

/-- The loop takes connections out, at least the one it stops at. -/
theorem idleCount_of_scanned {closed : C → Bool} {key : K} {w : World K C}
    {m : Nat} (hw : w.Alive m) {r : Drained K C}
    (hr : Scanned closed key w r) :
    (r.pooled = none ∧ r.world.idleCount ≤ w.idleCount)
      ∨ (r.pooled ≠ none ∧ r.world.idleCount < w.idleCount) := by
  cases hr.drains with
  | empty hall hpass hnone hnil =>
      -- its queue is empty now
      refine Or.inl ⟨hnone, idleCount_le hw (hpass.alive m hw) fun k => ?_⟩
      by_cases hk : k = key
      · rw [hk, hnil]
        exact Nat.zero_le _
      · rw [hpass.others k hk]
  | found pre idle post h hq hpre hidle hpass hpooled hge hheld hpost =>
      -- its queue lost at least the one the loop stopped at
      have hlen : (r.world.queue key).length < (w.queue key).length := by
        rw [hpost, hq]
        simp only [List.length_append, List.length_cons]
        omega
      refine Or.inr ⟨by rw [hpooled]; simp, idleCount_lt hw
        (hpass.alive m hw) (fun k => ?_) hlen⟩
      by_cases hk : k = key
      · rw [hk]
        exact Nat.le_of_lt hlen
      · rw [hpass.others k hk]

/-- Dropping a connection that is not open leaves what is idle. -/
theorem idleCount_of_drop {w w' : World K C} {h : Nat}
    (hs : w.drop h false = some w') : w'.idleCount = w.idleCount := by
  obtain ⟨p, -, rfl⟩ := World.drop_eq_some hs
  rfl

variable [DecidableEq C]

/-- A resumption brings the calls nearer their ends. -/
theorem rest_lt_of_resumes (hh : s.Held) {m : Nat}
    (hw : s.world.Alive m) {a : HyperH1Action K C}
    (ha : HyperH1Resumes s a) (h : s.step a = some s') :
    s'.rest < s.rest := by
  cases hyperH1_transition hw h with
  | connect | giveUp | closed | dropHandle | pool => exact ha.elim
  | reused t key hd hcall =>
      exact rest_lt hh hcall (by simp [HyperH1Connect.awaits])
        (Nat.le_refl _)
  | again t key hd p w r hcall hp hdrop hr =>
      -- the connection whose `ready` failed is closed, so it does not come
      -- back; the loop then stops at another one, or finds none
      have hclosed : s.closed p.value = true := ha rfl key hd p hcall hp
      have hopen : s.isOpen p.value = false := by
        simp [HyperH1Connector.isOpen, hclosed]
      rw [hopen] at hdrop
      have hsame := idleCount_of_drop hdrop
      have hw' : w.Alive m := Pool.alive_of_step (a := .drop hd false)
        hdrop (by simp) hw
      rcases idleCount_of_scanned hw' hr with ⟨hnone, hle⟩ | ⟨-, hlt⟩
      · refine rest_lt hh hcall ?_ (hsame ▸ hle)
        rw [hnone]
        simp [HyperH1Connect.after, HyperH1Connect.awaits]
      · refine rest_lt_again hh hcall ?_ (hsame ▸ hlt)
        cases r.pooled <;>
          simp [HyperH1Connect.after, HyperH1Connect.awaits]
  | connected t key hcall =>
      exact rest_lt hh hcall (by simp [HyperH1Connect.awaits])
        (Nat.le_refl _)
  | leave a t key ha' hcall =>
      rcases hcall with hcall | hcall
      · exact rest_lt hh hcall (by simp [HyperH1Connect.awaits])
          (Nat.le_refl _)
      · exact rest_lt hh hcall (by simp [HyperH1Connect.awaits])
          (Nat.le_refl _)
  | linked t key c w hcall hlink =>
      obtain ⟨-, rfl⟩ := World.link_eq_some hlink
      exact rest_lt hh hcall (by simp [HyperH1Connect.awaits])
        (Nat.le_refl _)

/-- `ready` may resolve to either outcome. -/
theorem ready_isSome (hr : s.Held) {m : Nat} (hw : s.world.Alive m)
    {t : Nat} {key : K} {hd : Nat} (hcall : s.calls t = some (.ready key hd))
    (ok : Bool) : ∃ s', s.ready t ok = some s' := by
  cases ok with
  | true => exact ⟨s.finish t hd, by simp [ready, hcall]⟩
  | false =>
      obtain ⟨c, hp⟩ := hr.owned t key hd hcall
      obtain ⟨w, hdrop⟩ : ∃ w, s.world.drop hd (s.isOpen c) = some w := by
        unfold World.drop
        rw [hp]
        exact ⟨_, rfl⟩
      -- wherever the loop goes from here, it comes to an await
      have hw' : w.Alive m := Pool.alive_of_step (a := .drop hd (s.isOpen c))
        hdrop (by simp) hw
      obtain ⟨r, -, hscan⟩ :=
        scan_spec (s := { s with world := w }) hw' t key
      refine ⟨({ s with world := r.world } : HyperH1Connector K C).goTo t
        (some (.after key r.pooled)), ?_⟩
      unfold ready
      simp only [hcall, hp, Bool.false_eq_true, if_false, Pooled.new, hdrop]
      exact hscan

omit [DecidableEq K] [DecidableEq C] in
theorem connected_isSome {t : Nat} {key : K}
    (hcall : s.calls t = some (.underlying key)) (ok : Bool) :
    ∃ s', s.connected t ok = some s' := by
  cases ok <;> exact ⟨_, by simp only [connected, hcall]; rfl⟩

omit [DecidableEq K] in
/-- A handshake may fail, or come to a connection that is new. -/
theorem handshake_isSome {m : Nat} (hw : s.world.Alive m) {t : Nat}
    {key : K} (hcall : s.calls t = some (.handshake key))
    (result : Option C)
    (hnew : ∀ c, result = some c → s.world.Fresh c) :
    ∃ s', s.handshake t result = some s' := by
  cases result with
  | none => exact ⟨s.goTo t none, by simp [handshake, hcall]⟩
  | some c =>
      have hpool : s.world.pool.isSome = true := by
        obtain ⟨pool, hpool, -⟩ := hw
        rw [hpool]
        rfl
      obtain ⟨w, hlink⟩ : ∃ w, s.world.link key c = some w :=
        ⟨_, if_pos ⟨hpool, hnew c rfl⟩⟩
      refine ⟨({ s with world := w } : HyperH1Connector K C).finish t
        s.world.nextHandle, ?_⟩
      simp only [handshake, hcall, hlink, Option.map_some]

/-- While a call is in flight, resumptions go on and get on. -/
theorem workedOff (idleInterval maxIdle : Option Nat) :
    WorkedOff (machine (K := K) (C := C) idleInterval maxIdle)
      (fun s => (machine idleInterval maxIdle).Reachable s)
      HyperH1Resumes (fun s => ∃ t, s.calls t ≠ none) rest where
  keeps _ _ _ hr _ h := hr.step trivial h
  lowers _ _ _ hr ha h :=
    rest_lt_of_resumes (held_of_reachable hr) (exists_world hr).1 ha h
  enabled := by
    intro s hr hbusy
    obtain ⟨t, ht⟩ := hbusy
    cases hcall : s.calls t with
    | none => exact absurd hcall ht
    | some call =>
        cases call with
        | ready key hd =>
            obtain ⟨s', hs'⟩ := ready_isSome (held_of_reachable hr)
              (exists_world hr).1 hcall true
            exact ⟨.ready t true, s', fun h => (by cases h), hs'⟩
        | underlying key =>
            obtain ⟨s', hs'⟩ := connected_isSome hcall true
            exact ⟨.connected t true, s', trivial, hs'⟩
        | handshake key =>
            obtain ⟨s', hs'⟩ := handshake_isSome (exists_world hr).1 hcall
              none fun c hc => (by cases hc)
            exact ⟨.handshake t none, s', trivial, hs'⟩

end HyperH1Connector

open HyperH1Connector in
/-- `HyperH1Connector::connect` ends: a call at an await can be resumed
with whatever the await comes to; the resumptions there can be are at
most three for each call and one for each idle connection; and some end
every call. -/
theorem hyperH1_calls_end [DecidableEq K] [DecidableEq C]
    {idleInterval maxIdle : Option Nat} {s : HyperH1Connector K C}
    (hr : (machine idleInterval maxIdle).Reachable s) :
    (∀ t key hd ok, s.calls t = some (.ready key hd) →
        ∃ s', s.ready t ok = some s')
      ∧ (∀ t key ok, s.calls t = some (.underlying key) →
        ∃ s', s.connected t ok = some s')
      ∧ (∀ t key result, s.calls t = some (.handshake key) →
        (∀ c, result = some c → s.world.Fresh c) →
        ∃ s', s.handshake t result = some s')
      ∧ (∀ as s', (machine idleInterval maxIdle).run s as = some s' →
        (machine idleInterval maxIdle).Along HyperH1Resumes s as →
        as.length ≤ 3 * s.outstanding + s.world.idleCount)
      ∧ ∃ as s', (machine idleInterval maxIdle).run s as = some s'
          ∧ (machine idleInterval maxIdle).Along HyperH1Resumes s as
          ∧ ∀ t, s'.calls t = none := by
  refine ⟨?_, ?_, ?_, ?_, ?_⟩
  · intro t key hd ok hcall
    exact ready_isSome (held_of_reachable hr) (exists_world hr).1 hcall ok
  · intro t key ok hcall
    exact connected_isSome hcall ok
  · intro t key result hcall hnew
    exact handshake_isSome (exists_world hr).1 hcall result hnew
  · intro as s' hrun halong
    -- each resumption takes an await away, or an idle connection
    have hle := (workedOff idleInterval maxIdle).length_le hr hrun halong
    have hrest := s.rest_le
    omega
  · obtain ⟨as, s', hrun, halong, -, hdone⟩ :=
      (workedOff idleInterval maxIdle).completes hr
    refine ⟨as, s', hrun, halong, fun t => ?_⟩
    by_contra hne
    exact hdone ⟨t, hne⟩

open HyperH1Connector in
/-- One pooled connection and two calls: after at most six resumptions
both have ended. -/
theorem hyperH1_calls_end_two :
    ∃ s : HyperH1Connector Nat Nat,
      (machine none none).run (newWithPool 0 none none)
          [.connect 7, .connected 0 true, .handshake 0 (some 1),
            .dropHandle 0, .connect 7, .connect 7] = some s
        ∧ ∀ as s', (machine none none).run s as = some s' →
          (machine none none).Along HyperH1Resumes s as →
          as.length ≤ 6 := by
  obtain ⟨s, hrun, hout, hidle⟩ : ∃ s : HyperH1Connector Nat Nat,
      (machine none none).run (newWithPool 0 none none)
          [.connect 7, .connected 0 true, .handshake 0 (some 1),
            .dropHandle 0, .connect 7, .connect 7] = some s
        ∧ s.outstanding = 2 ∧ s.world.idleCount = 0 :=
    ⟨_, rfl, rfl, rfl⟩
  obtain ⟨-, -, -, hbound, -⟩ :=
    hyperH1_calls_end (Machine.Reachable.run (.init ⟨0, rfl⟩) hrun)
  refine ⟨s, hrun, fun as s' has halong => ?_⟩
  have hle := hbound as s' has halong
  rw [hout, hidle] at hle
  exact hle

end MonoioTransports.Http
