/-
At most one HTTP/2 connection per key in an `HttpConnector`.

# The invariant

- The table of locks and the calls agree (Lib/KeyedLock.lean), so at
  most one call per key stands at its handshake.
- While one does, the queue of its key is empty: the look-up under the
  lock left nothing in it, `try_get!` only removes, and another `put`
  for the key would need the lock.
- So the `put` after the handshake goes to an empty queue, and every
  queue has one entry at most.

What `connect` returns was either seen free of errors in the same step,
or its handshake has just ended: a transport is carried by one call, and
only a connection already opened can have an error (`Carried`).
-/
import MonoioTransports.Http.Proofs.Transition

namespace MonoioTransports.Http

open Lib Pool

variable {K C π δ ε : Type}

-- ======================================================== calls and locks

/-- Where a call is with respect to the lock of its key. -/
def Connect.phase : Option (Connect K C) → LockPhase K
  | some (.acquire key lock _) => .waiting key lock
  | some (.handshake key lock _) => .holding key lock
  | _ => .out

/-- The transport a call carries. -/
def Connect.carries : Option (Connect K C) → Option C
  | some (.acquire _ _ c) => some c
  | some (.handshake _ _ c) => some c
  | _ => none

/-- Where the calls of a connector are. -/
def HttpConnector.phase (s : HttpConnector K C π δ) : Nat → LockPhase K :=
  Connect.phase ∘ s.calls

theorem HttpConnector.phase_eq {s : HttpConnector K C π δ} {t : Nat}
    {call : Option (Connect K C)} (h : s.calls t = call) :
    s.phase t = Connect.phase call := by
  rw [HttpConnector.phase, Function.comp_apply, h]

-- ==================================================== carried transports

/-- Calls carry distinct transports that are not connections yet, and
only an open connection has an error. -/
structure Carried (calls : Nat → Option (Connect K C)) (used opened : List C)
    (connError : C → Bool) : Prop where
  mem_used : ∀ t c, Connect.carries (calls t) = some c → c ∈ used
  unopened : ∀ t c, Connect.carries (calls t) = some c → c ∉ opened
  inj : ∀ t t' c, Connect.carries (calls t) = some c →
    Connect.carries (calls t') = some c → t' = t
  opened_used : ∀ c, c ∈ opened → c ∈ used
  sound : ∀ c, connError c = true → c ∈ opened

variable {calls : Nat → Option (Connect K C)} {used opened : List C}
  {connError : C → Bool}

omit used opened connError in
/-- What is carried after a call moved on with what it carried. -/
theorem carries_of_update {t t' : Nat} {call : Option (Connect K C)}
    {c : C} (hcall : ∀ c, Connect.carries call = some c →
      Connect.carries (calls t) = some c)
    (h : Connect.carries (Function.update calls t call t') = some c) :
    Connect.carries (calls t') = some c := by
  by_cases ht : t' = t
  · rw [ht, Function.update_self] at h
    rw [ht]
    exact hcall c h
  · rw [Function.update_of_ne ht] at h
    exact h

omit calls used opened connError in
theorem Carried.start :
    Carried (fun _ => none : Nat → Option (Connect K C)) [] []
      fun _ => false where
  mem_used := by
    intro t c h
    cases h
  unopened := by
    intro t c h
    cases h
  inj := by
    intro t t' c h
    cases h
  opened_used := List.forall_mem_nil _
  sound := fun _ h => absurd h Bool.false_ne_true

/-- A call moves on with the transport it carries, or without. -/
theorem Carried.goTo (h : Carried calls used opened connError) (t : Nat)
    {call : Option (Connect K C)}
    (hcall : ∀ c, Connect.carries call = some c →
      Connect.carries (calls t) = some c) :
    Carried (Function.update calls t call) used opened connError := by
  have hold : ∀ t' c,
      Connect.carries (Function.update calls t call t') = some c →
      Connect.carries (calls t') = some c :=
    fun _ _ => carries_of_update hcall
  exact ⟨fun t' c hc => h.mem_used t' c (hold t' c hc),
    fun t' c hc => h.unopened t' c (hold t' c hc),
    fun t₁ t₂ c h₁ h₂ => h.inj t₁ t₂ c (hold t₁ c h₁) (hold t₂ c h₂),
    h.opened_used, h.sound⟩

/-- A call takes up a new transport. -/
theorem Carried.take (h : Carried calls used opened connError) (t : Nat)
    {call : Option (Connect K C)} {c : C} (hnew : c ∉ used)
    (hcall : Connect.carries call = some c) :
    Carried (Function.update calls t call) (c :: used) opened
      connError := by
  have hcase : ∀ t' d,
      Connect.carries (Function.update calls t call t') = some d →
      (t' = t ∧ d = c) ∨ Connect.carries (calls t') = some d := by
    intro t' d hd
    by_cases ht : t' = t
    · rw [ht, Function.update_self, hcall, Option.some.injEq] at hd
      exact Or.inl ⟨ht, hd.symm⟩
    · rw [Function.update_of_ne ht] at hd
      exact Or.inr hd
  refine ⟨?_, ?_, ?_, ?_, h.sound⟩
  · intro t' d hd
    rcases hcase t' d hd with ⟨-, rfl⟩ | hold
    · exact List.mem_cons_self
    · exact List.mem_cons_of_mem _ (h.mem_used t' d hold)
  · intro t' d hd
    rcases hcase t' d hd with ⟨-, rfl⟩ | hold
    · exact fun ho => hnew (h.opened_used d ho)
    · exact h.unopened t' d hold
  · intro t₁ t₂ d h₁ h₂
    rcases hcase t₁ d h₁ with ⟨rfl, rfl⟩ | hold₁ <;>
      rcases hcase t₂ _ h₂ with ⟨rfl, hd⟩ | hold₂
    · rfl
    · exact absurd (h.mem_used t₂ _ hold₂) hnew
    · exact absurd (h.mem_used t₁ _ (hd ▸ hold₁)) hnew
    · exact h.inj t₁ t₂ d hold₁ hold₂
  · exact fun d hd => List.mem_cons_of_mem _ (h.opened_used d hd)

/-- A call opens the connection it carries. -/
theorem Carried.establish (h : Carried calls used opened connError)
    {t : Nat} {c : C} (hc : Connect.carries (calls t) = some c) :
    Carried (Function.update calls t none) used (c :: opened)
      connError := by
  have hold : ∀ t' d,
      Connect.carries (Function.update calls t none t') = some d →
      t' ≠ t ∧ Connect.carries (calls t') = some d := by
    intro t' d hd
    by_cases ht : t' = t
    · rw [ht, Function.update_self] at hd
      cases hd
    · rw [Function.update_of_ne ht] at hd
      exact ⟨ht, hd⟩
  refine ⟨?_, ?_, ?_, ?_, ?_⟩
  · exact fun t' d hd => h.mem_used t' d (hold t' d hd).2
  · intro t' d hd ho
    obtain ⟨hne, hd'⟩ := hold t' d hd
    rcases List.mem_cons.mp ho with rfl | ho
    · exact hne (h.inj t t' d hc hd')
    · exact h.unopened t' d hd' ho
  · exact fun t₁ t₂ d h₁ h₂ =>
      h.inj t₁ t₂ d (hold t₁ d h₁).2 (hold t₂ d h₂).2
  · intro d hd
    rcases List.mem_cons.mp hd with rfl | hd
    · exact h.mem_used t d hc
    · exact h.opened_used d hd
  · exact fun d hd => List.mem_cons_of_mem _ (h.sound d hd)

/-- A connection that is not open has no error. -/
theorem Carried.no_error (h : Carried calls used opened connError)
    {t : Nat} {c : C} (hc : Connect.carries (calls t) = some c) :
    connError c = false :=
  Bool.eq_false_iff.mpr fun he => h.unopened t c hc (h.sound c he)

/-- An open connection acquires an error. -/
theorem Carried.connErr [DecidableEq C]
    (h : Carried calls used opened connError) {c : C} (hc : c ∈ opened) :
    Carried calls used opened (Function.update connError c true) := by
  refine ⟨h.mem_used, h.unopened, h.inj, h.opened_used, fun d hd => ?_⟩
  by_cases hdc : d = c
  · rw [hdc]
    exact hc
  · rw [Function.update_of_ne hdc] at hd
    exact h.sound d hd

/-- Another transport is used up. -/
theorem Carried.use (h : Carried calls used opened connError) (c : C) :
    Carried calls (c :: used) opened connError :=
  ⟨fun t d hd => List.mem_cons_of_mem _ (h.mem_used t d hd), h.unopened, h.inj,
    fun d hd => List.mem_cons_of_mem _ (h.opened_used d hd), h.sound⟩

-- ========================================================= the invariant

variable [DecidableEq K] {s s' : HttpConnector K C π δ}

/-- Calls and locks agree; no queue holds two HTTP/2 connections, and one
whose key is being opened holds none; and what the last step returned
had no error. -/
structure HttpConnector.Inv (s : HttpConnector K C π δ) : Prop where
  coherent : s.connecting.Coherent s.phase
  fresh : ∀ t, s.nextCall ≤ t → s.calls t = none
  empty : ∀ t k l c, s.calls t = some (.handshake k l c) →
    s.h2Pool.queue k = []
  short : ∀ k, (s.h2Pool.queue k).length ≤ 1
  carried : Carried s.calls s.used s.opened s.connError
  sound : ∀ conn, s.returned = some (.http2 conn) →
    s.connError conn.tx = false

theorem HttpConnector.inv_new (now : Nat) (protocol : Protocol) :
    (HttpConnector.new now protocol : HttpConnector K C π δ).Inv where
  coherent := LockTable.coherent_empty
  fresh := fun _ _ => rfl
  empty := fun _ _ _ _ h => nomatch h
  short := fun k => by simp [HttpConnector.new]
  carried := Carried.start
  sound := fun _ h => nomatch h

/-- Fewer entries keep the two facts about queues. -/
theorem HttpConnector.Inv.queues (hi : s.Inv)
    {pool : PoolInner K (Http2Connection C)}
    (hsub : ∀ k, (pool.queue k).Sublist (s.h2Pool.queue k)) :
    (∀ k, (pool.queue k).length ≤ 1)
      ∧ ∀ t k l c, s.calls t = some (.handshake k l c) →
        pool.queue k = [] := by
  refine ⟨fun k => Nat.le_trans (hsub k).length_le (hi.short k), ?_⟩
  intro t k l c ht
  have hnil := hsub k
  rw [hi.empty t k l c ht] at hnil
  exact List.sublist_nil.mp hnil

/-- The pools a look-up may leave have fewer entries. -/
theorem HttpConnector.sublist_of_look {key : K}
    {pool : PoolInner K (Http2Connection C)}
    (h : pool = s.h2Pool ∨ pool = s.retained key) (k : K) :
    (pool.queue k).Sublist (s.h2Pool.queue k) := by
  rcases h with rfl | rfl
  · exact List.Sublist.refl _
  · exact HttpConnector.retained_sublist s key k

-- ================================================================ the step

/-- A call that started is not new. -/
theorem HttpConnector.Inv.lt_next (hi : s.Inv) {t : Nat}
    {call : Connect K C} (h : s.calls t = some call) : t < s.nextCall := by
  by_contra hle
  rw [hi.fresh t (Nat.le_of_not_lt hle)] at h
  cases h

/-- Numbers past the next call stay unused when a started call, or the
next, moves. -/
theorem HttpConnector.Inv.fresh_goTo (hi : s.Inv) {t n : Nat}
    (ht : t < n) (hn : s.nextCall ≤ n) (call : Option (Connect K C)) :
    ∀ t', n ≤ t' → Function.update s.calls t call t' = none := by
  intro t' hle
  have hne : t' ≠ t := fun he => by
    rw [he] at hle
    exact Nat.not_le_of_lt ht hle
  rw [Function.update_of_ne hne]
  exact hi.fresh t' (Nat.le_trans hn hle)

/-- The next call starts: it ends at once, or waits for a transport. -/
theorem HttpConnector.Inv.start (hi : s.Inv)
    {pool : PoolInner K (Http2Connection C)}
    (hsub : ∀ k, (pool.queue k).Sublist (s.h2Pool.queue k))
    (h1 : H1World K C π δ) {call : Option (Connect K C)}
    (hphase : Connect.phase call = .out)
    (hcarry : Connect.carries call = none)
    {returned : Option (HttpConnection C)}
    (hret : ∀ conn, returned = some (.http2 conn) →
      s.connError conn.tx = false) :
    HttpConnector.Inv { s with
      h2Pool := pool, h1 := h1, nextCall := s.nextCall + 1
      calls := Function.update s.calls s.nextCall call
      returned := returned } := by
  obtain ⟨hshort, hempty⟩ := hi.queues hsub
  have hnext := hi.fresh _ (Nat.le_refl s.nextCall)
  refine ⟨?_, ?_, ?_, hshort, ?_, hret⟩
  · apply hi.coherent.of_stay
    rw [hphase, hnext]
    rfl
  · exact hi.fresh_goTo (Nat.lt_succ_self _) (Nat.le_succ _) call
  · intro t k l c ht
    have hne : call ≠ some (.handshake k l c) := by
      intro he
      rw [he] at hphase
      cases hphase
    exact hempty t k l c (LockTable.of_update_eq hne ht).2
  · refine hi.carried.goTo _ fun c hc => ?_
    rw [hcarry] at hc
    cases hc

/-- A started call ends without a lock. -/
theorem HttpConnector.Inv.goTo_none (hi : s.Inv) {t : Nat}
    {tbl : LockTable K} {pool : PoolInner K (Http2Connection C)}
    (hsub : ∀ k, (pool.queue k).Sublist (s.h2Pool.queue k))
    (hcoh : tbl.Coherent (Function.update s.phase t .out))
    (ht : t < s.nextCall) {returned : Option (HttpConnection C)}
    (hret : ∀ conn, returned = some (.http2 conn) →
      s.connError conn.tx = false) :
    HttpConnector.Inv { s with
      h2Pool := pool, connecting := tbl
      calls := Function.update s.calls t none
      returned := returned } := by
  obtain ⟨hshort, hempty⟩ := hi.queues hsub
  refine ⟨?_, ?_, ?_, hshort, ?_, hret⟩
  · exact hcoh.of_move
  · exact hi.fresh_goTo ht (Nat.le_refl _) none
  · intro t' k l c ht'
    exact hempty t' k l c
      (LockTable.of_update_eq (by nofun) ht').2
  · refine hi.carried.goTo _ fun c hc => ?_
    cases hc

/-- A call takes up a transport and waits for the lock. -/
theorem HttpConnector.Inv.toLock [DecidableEq C] (hi : s.Inv) {t : Nat}
    {key : K} {c : C} (hcall : s.calls t = some (.transport key))
    (hnew : c ∉ s.used) (negotiated : C → Option (List UInt8)) :
    HttpConnector.Inv ({ s with
      used := c :: s.used, negotiated := negotiated
      connecting := (s.connecting.entry key).1 }.goTo t
        (some (.acquire key (s.connecting.entry key).2 c))) := by
  have hout : s.phase t = .out := HttpConnector.phase_eq hcall
  refine ⟨?_, ?_, ?_, hi.short, hi.carried.take t hnew rfl, nofun⟩
  · exact (hi.coherent.enter hout key).of_move
  · exact hi.fresh_goTo (hi.lt_next hcall) (Nat.le_refl _) _
  · intro t' k l c' ht'
    exact hi.empty t' k l c' (LockTable.of_update_eq (by nofun) ht').2

/-- A call takes the lock and finds nothing: the queue of its key is
empty from here on. -/
theorem HttpConnector.Inv.toHandshake (hi : s.Inv) {t l : Nat} {key : K}
    {c : C} {tbl : LockTable K}
    (hcall : s.calls t = some (.acquire key l c))
    (hlock : s.connecting.acquire l t = some tbl)
    (hget : (s.tryGet key).2 = none) :
    HttpConnector.Inv ({ s with
      h2Pool := s.retained key, connecting := tbl }.goTo t
        (some (.handshake key l c))) := by
  have hwait : s.phase t = .waiting key l := HttpConnector.phase_eq hcall
  obtain ⟨hshort, hempty⟩ :=
    hi.queues (HttpConnector.retained_sublist s key)
  refine ⟨?_, ?_, ?_, hshort, ?_, nofun⟩
  · exact (hi.coherent.acquire hwait hlock).of_move
  · exact hi.fresh_goTo (hi.lt_next hcall) (Nat.le_refl _) _
  · intro t' k l' c' ht'
    by_cases htt : t' = t
    · simp only [HttpConnector.goTo, htt, Function.update_self,
        Option.some.injEq, Connect.handshake.injEq] at ht'
      rw [← ht'.1]
      exact (HttpConnector.tryGet_none hget).1
    · simp only [HttpConnector.goTo, Function.update_of_ne htt] at ht'
      exact hempty t' k l' c' ht'
  · refine hi.carried.goTo t fun d hd => ?_
    rw [hcall]
    exact hd

/-- A handshake ends and its connection goes into the empty queue. -/
theorem HttpConnector.Inv.established (hi : s.Inv) {t l : Nat} {key : K}
    {c : C} (hcall : s.calls t = some (.handshake key l c)) :
    HttpConnector.Inv ({ s with
      connecting := s.connecting.release l
      h2Pool := (s.h2Pool.put s.h1.world.now key
        (Http2Connection.new c)).pool
      opened := c :: s.opened }.finish t
        (.http2 (Http2Connection.new c))) := by
  have hhold : s.phase t = .holding key l := HttpConnector.phase_eq hcall
  have hcarry : Connect.carries (s.calls t) = some c := by
    rw [hcall]
    rfl
  have hq := queue_put_nil s.h1.world.now (Http2Connection.new c)
    (hi.empty t key l c hcall)
  refine ⟨?_, ?_, ?_, ?_, hi.carried.establish hcarry, ?_⟩
  · exact (hi.coherent.release hhold).of_move
  · exact hi.fresh_goTo (hi.lt_next hcall) (Nat.le_refl _) _
  · intro t' k l' c' ht'
    -- another handshake for the key would hold the same lock
    obtain ⟨hne, hold⟩ := LockTable.of_update_eq (by nofun) ht'
    have hk : k ≠ key := by
      intro hk
      rw [hk] at hold
      exact hne (hi.coherent.exclusive (HttpConnector.phase_eq hold) hhold)
    exact (hq k).trans ((if_neg hk).trans (hi.empty t' k l' c' hold))
  · intro k
    show ((s.h2Pool.put _ key _).pool.queue k).length ≤ 1
    rw [hq k]
    split
    · exact Nat.le_refl 1
    · exact hi.short k
  · intro conn hc
    cases hc
    exact hi.carried.no_error hcarry

/-- Every step keeps the invariant. -/
theorem HttpConnector.Inv.step [DecidableEq C] (hi : s.Inv)
    {a : ConnectorAction K C π δ ε} (h : s.step a = some s') :
    s'.Inv := by
  have hsame : ∀ k, (s.h2Pool.queue k).Sublist (s.h2Pool.queue k) :=
    fun k => List.Sublist.refl _
  cases transition_step h with
  | hit2 key conn hmode hget =>
      refine hi.start (HttpConnector.retained_sublist s key) s.h1 rfl rfl ?_
      intro conn' hc
      cases hc
      exact (HttpConnector.tryGet_some hget).2
  | hit1 key h1 p pool hpool hmode hget =>
      exact hi.start (HttpConnector.sublist_of_look hpool) h1 rfl rfl nofun
  | miss key h1 pool hpool hget =>
      exact hi.start (HttpConnector.sublist_of_look hpool) h1 rfl rfl nofun
  | leave a t hcall =>
      rcases hcall with ⟨key, hcall⟩ | ⟨key, l, c, hcall⟩
      · refine hi.goTo_none hsame ?_ (hi.lt_next hcall) nofun
        have hout : s.phase t = .out := HttpConnector.phase_eq hcall
        rw [← hout, Function.update_eq_self]
        exact hi.coherent
      · exact hi.goTo_none hsame
          (hi.coherent.leave (HttpConnector.phase_eq hcall))
          (hi.lt_next hcall) nofun
  | toLock t key c alpn hcall hnew hh2 => exact hi.toLock hcall hnew _
  | linked t key c alpn h1 hcall hnew hh1 hlink =>
      refine ⟨?_, ?_, ?_, hi.short, ?_, nofun⟩
      · apply hi.coherent.of_stay
        rw [hcall]
        rfl
      · exact hi.fresh_goTo (hi.lt_next hcall) (Nat.le_refl _) _
      · intro t' k l c' ht'
        exact hi.empty t' k l c' (LockTable.of_update_eq (by nofun) ht').2
      · exact (hi.carried.use c).goTo t nofun
  | hitLocked t key l c tbl conn hcall hlock hget =>
      refine hi.goTo_none (HttpConnector.retained_sublist s key)
        (hi.coherent.acquire_release (HttpConnector.phase_eq hcall) hlock)
        (hi.lt_next hcall) ?_
      intro conn' hc
      cases hc
      exact (HttpConnector.tryGet_some hget).2
  | toHandshake t key l c tbl hcall hlock hget =>
      exact hi.toHandshake hcall hlock hget
  | unlock a t key l c hcall =>
      exact hi.goTo_none hsame
        (hi.coherent.release (HttpConnector.phase_eq hcall))
        (hi.lt_next hcall) nofun
  | established t key l c hcall => exact hi.established hcall
  | connErr c hopen =>
      exact ⟨hi.coherent, hi.fresh, hi.empty, hi.short,
        hi.carried.connErr hopen, nofun⟩
  | setMode a p hquiet hp =>
      exact ⟨hi.coherent, hi.fresh, hi.empty, hi.short, hi.carried, nofun⟩
  | h1 a h1 hcallers hs =>
      exact ⟨hi.coherent, hi.fresh, hi.empty, hi.short, hi.carried, nofun⟩
  | dropped h1 hs =>
      refine ⟨hi.coherent, hi.fresh, ?_, ?_, hi.carried, nofun⟩
      · exact fun t k l c _ => queue_new none k
      · intro k
        rw [queue_new]
        exact Nat.zero_le _

theorem HttpConnector.inv_of_reachable [DecidableEq C]
    {protocol : Protocol}
    (hr : (HttpConnector.machine (ε := ε) protocol).Reachable s) :
    s.Inv := by
  apply hr.invariant
  · intro s hinit
    obtain ⟨now, rfl⟩ := hinit
    exact HttpConnector.inv_new now protocol
  · exact fun s a s' _ ih _ h => ih.step h

-- ============================================================ the promise

/-- A call that comes to its handshake found nothing error-free in the
queue of its key. -/
theorem HttpConnector.errored_of_handshake [DecidableEq C]
    {a : ConnectorAction K C π δ ε} (h : s.step a = some s') {t l : Nat}
    {k : K} {c : C} (ht : s'.calls t = some (.handshake k l c))
    (hbefore : s.calls t ≠ some (.handshake k l c)) :
    ∀ e ∈ s.h2Pool.queue k, s.connError e.conn.tx = true := by
  have hmoved : ∀ {t₀ : Nat} {call : Option (Connect K C)},
      call ≠ some (.handshake k l c) →
      Function.update s.calls t₀ call t = some (.handshake k l c) →
      False := by
    intro t₀ call hne hup
    exact hbefore (LockTable.of_update_eq hne hup).2
  cases transition_step h with
  | connErr | setMode | h1 | dropped => exact absurd ht hbefore
  | hit2 | hit1 | leave | linked | hitLocked | unlock | established =>
      exact (hmoved (by nofun) ht).elim
  | miss | toLock => exact (hmoved (by nofun) ht).elim
  | toHandshake t₀ key l₀ c₀ tbl hcall hlock hget =>
      by_cases htt : t = t₀
      · simp only [HttpConnector.goTo, htt, Function.update_self,
          Option.some.injEq, Connect.handshake.injEq] at ht
        rw [← ht.1]
        exact (HttpConnector.tryGet_none hget).2
      · simp only [HttpConnector.goTo, Function.update_of_ne htt] at ht
        exact absurd ht hbefore

/-- One HTTP/2 connection a key: queues have one entry at most, one call
at most is at the handshake of a key and it came there with no
error-free connection in the queue, and what is returned has no
error. -/
theorem single_connection [DecidableEq C] {protocol : Protocol}
    (hr : (HttpConnector.machine (ε := ε) protocol).Reachable s) :
    (∀ k, (s.h2Pool.queue k).length ≤ 1)
      ∧ (∀ t t' k l l' c c', s.calls t = some (.handshake k l c) →
        s.calls t' = some (.handshake k l' c') → t = t')
      ∧ (∀ (a : ConnectorAction K C π δ ε) s' t k l c,
        s.step a = some s' → s'.calls t = some (.handshake k l c) →
        s.calls t ≠ some (.handshake k l c) →
        ∀ e ∈ s.h2Pool.queue k, s.connError e.conn.tx = true)
      ∧ ∀ conn, s.returned = some (.http2 conn) →
        s.connError conn.tx = false := by
  have hi := HttpConnector.inv_of_reachable hr
  refine ⟨hi.short, ?_, ?_, hi.sound⟩
  · intro t t' k l l' c c' ht ht'
    exact hi.coherent.exclusive (HttpConnector.phase_eq ht)
      (HttpConnector.phase_eq ht')
  · intro a s' t k l c h ht hbefore
    exact HttpConnector.errored_of_handshake h ht hbefore

/-- Two calls race for a key: the second waits for the lock and gets
the first one's connection. -/
theorem single_connection_race :
    ∃ s : HttpConnector Nat Nat Unit Unit,
      (HttpConnector.machine (ε := Unit) .auto).run
          (HttpConnector.new 0 .auto)
          [.connect 7, .connect 7, .transport 0 (some (1, some h2Bytes)),
            .transport 1 (some (2, some h2Bytes)), .acquired 0 true,
            .handshake 0 true, .acquired 1 true] = some s
        ∧ s.returned = some (.http2 ⟨1⟩)
        ∧ (s.h2Pool.queue 7).length ≤ 1 ∧ s.connError 1 = false := by
  obtain ⟨s, hrun, hret⟩ : ∃ s : HttpConnector Nat Nat Unit Unit,
      (HttpConnector.machine (ε := Unit) .auto).run
          (HttpConnector.new 0 .auto)
          [.connect 7, .connect 7, .transport 0 (some (1, some h2Bytes)),
            .transport 1 (some (2, some h2Bytes)), .acquired 0 true,
            .handshake 0 true, .acquired 1 true] = some s
        ∧ s.returned = some (.http2 ⟨1⟩) := ⟨_, rfl, rfl⟩
  obtain ⟨hshort, -, -, hsound⟩ :=
    single_connection (Machine.Reachable.run (.init ⟨0, rfl⟩) hrun)
  exact ⟨s, hrun, hret, hshort 7, hsound ⟨1⟩ hret⟩

end MonoioTransports.Http
