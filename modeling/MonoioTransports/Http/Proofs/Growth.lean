/-
What an `HttpConnector` never forgets (src/http/connector.rs,
src/pool/mod.rs).

# The tables

A connector keeps a lock for each key in `connecting`, and a queue for
each key in either pool. `get` and `try_get!` leave an empty queue where
it was, `connecting` is never cleaned, and the pools of a connector have
no idle task. So an entry that was made stays: the tables grow with the
keys ever served, however few connections there are.

# The exact contents

While the connector is there, its pool of HTTP/2 connections has a queue
for a key exactly when some handshake for it was done, and there is a
lock for a key exactly when some transport dialled for it was not made
an HTTP/1.1 connection (`Remembered`). Its HTTP/1.1 pool has a queue for
keys that connections entered under, and keeps it (`keeps_mono`).
-/
import MonoioTransports.Http.Proofs.Handshakes

namespace MonoioTransports.Pool

open Lib

variable {K T : Type} [DecidableEq K]

-- ======================================================= queues of a pool

/-- An insertion makes the queue of its key. -/
theorem mem_insertIdle_keys (full : Nat → Nat → Bool)
    (pool : PoolInner K T) (now : Nat) (key : K) (conn : T) (k : K) :
    k ∈ (insertIdle full pool now key conn).pool.idleConns
      ↔ k = key ∨ k ∈ pool.idleConns :=
  AList.mem_insert _

/-- A look-up makes none and drops none. -/
theorem mem_andThenMut_keys {ε ο : Type} (pool : PoolInner K T) (key : K)
    (env : ε) (f : ε → List (Idle T) → ε × List (Idle T) × Option ο)
    (k : K) :
    k ∈ (pool.andThenMut key env f).2.1.idleConns ↔ k ∈ pool.idleConns := by
  unfold PoolInner.andThenMut
  split
  next v hv =>
    have hkey : key ∈ pool.idleConns :=
      AList.lookup_isSome.mp (by rw [hv]; rfl)
    refine (AList.mem_insert _).trans ⟨fun h => ?_, Or.inr⟩
    rcases h with rfl | h
    · exact hkey
    · exact h
  next => exact Iff.rfl

theorem mem_get_keys (pool : PoolInner K T) (now : Nat) (key k : K) :
    k ∈ (pool.get now key).pool.idleConns ↔ k ∈ pool.idleConns := by
  unfold PoolInner.get
  split
  next v hv =>
    have hkey : key ∈ pool.idleConns :=
      AList.lookup_isSome.mp (by rw [hv]; rfl)
    refine (AList.mem_insert _).trans ⟨fun h => ?_, Or.inr⟩
    rcases h with rfl | h
    · exact hkey
    · exact h
  next => exact Iff.rfl

/-- The pool has a queue for the key, be it empty. -/
def World.Keeps (w : World K T) (k : K) : Prop :=
  ∃ pool, w.pool = some pool ∧ k ∈ pool.idleConns

variable [DecidableEq T] {w w' : World K T}

/-- Without a sweep a queue stays. -/
theorem keeps_mono {a : Action K T} (h : w.step a = some w')
    (hclear : ∀ dur, a ≠ .clearExpired dur) (hpoll : ∀ n, a ≠ .pollIdle n)
    (hpool : w'.pool ≠ none) {k : K} (hk : w.Keeps k) : w'.Keeps k := by
  obtain ⟨pool, hw, hk⟩ := hk
  obtain ⟨hs, -⟩ := pool_step h
  unfold World.Keeps
  generalize w'.pool = shared at hs hpool ⊢
  cases hs with
  | keep => exact ⟨pool, hw, hk⟩
  | @get _ pool' key ha hw' =>
      rw [hw, Option.some.injEq] at hw'
      exact ⟨_, rfl, (mem_get_keys _ _ _ _).mpr (hw' ▸ hk)⟩
  | @put pool' key c hw' =>
      rw [hw, Option.some.injEq] at hw'
      exact ⟨_, rfl, (mem_insertIdle_keys _ _ _ _ _ _).mpr
        (Or.inr (hw' ▸ hk))⟩
  | @giveBack pool' hd p key hw' hp hkey =>
      rw [hw, Option.some.injEq] at hw'
      exact ⟨_, rfl, (mem_insertIdle_keys _ _ _ _ _ _).mpr
        (Or.inr (hw' ▸ hk))⟩
  | clearExpired dur hw' => exact absurd rfl (hclear dur)
  | pollIdle n htask => exact absurd rfl (hpoll n)
  | dropPool => exact absurd rfl hpool

omit [DecidableEq T] in
/-- A sweep makes no queue. -/
theorem mem_clearExpired_keys {pool : PoolInner K T} {now dur : Nat} {k : K}
    (h : k ∈ (pool.clearExpired now dur).pool.idleConns) :
    k ∈ pool.idleConns := by
  apply AList.lookup_isSome.mp
  obtain ⟨v, hv⟩ := Option.isSome_iff_exists.mp
    (AList.lookup_isSome.mpr h)
  have hv := (lookup_retainMut _ _ k).symm.trans hv
  obtain ⟨q, hq, -⟩ := Option.bind_eq_some_iff.mp hv
  rw [hq]
  rfl

omit [DecidableEq T] in
theorem mem_poll_keys (task : IdleTask) (now : Nat) {k : K} :
    ∀ (n : Nat) (shared : Option (PoolInner K T)) {pool : PoolInner K T},
      (task.poll now n shared).2.1 = some pool → k ∈ pool.idleConns →
      ∃ pool', shared = some pool' ∧ k ∈ pool'.idleConns := by
  intro n
  induction n with
  | zero =>
      intro shared pool h hk
      cases shared with
      | none => cases h
      | some pool' =>
          cases h
          exact ⟨_, rfl, hk⟩
  | succ n ih =>
      intro shared pool h hk
      cases shared with
      | none => cases h
      | some pool' =>
          obtain ⟨pool₁, heq, hk₁⟩ := ih _ h hk
          cases heq
          exact ⟨_, rfl, mem_clearExpired_keys hk₁⟩

/-- A queue is made for a key that a connection entered under. -/
theorem entered_of_keeps {idleInterval maxIdle : Option Nat}
    (hr : (World.machine idleInterval maxIdle).Reachable w) {k : K}
    (hk : w.Keeps k) : ∃ c, (k, c) ∈ w.entered := by
  refine hr.invariant (I := fun w => w.Keeps k → ∃ c, (k, c) ∈ w.entered)
    ?_ ?_ hk
  · intro w hinit hk
    obtain ⟨now, rfl⟩ := hinit
    obtain ⟨pool, hw, hk⟩ := hk
    cases idleInterval <;> cases hw <;> cases hk
  · intro w a w' hr ih _ h hk
    have hgrow : w.entered ⊆ w'.entered := by
      rcases entered_step h with ⟨-, heq⟩ | ⟨k', c, -, -, heq⟩
      · rw [heq]
        exact List.Subset.refl _
      · rw [heq]
        exact List.subset_cons_self ..
    have hold : w.Keeps k → ∃ c, (k, c) ∈ w'.entered := fun hk => by
      obtain ⟨c, hc⟩ := ih hk
      exact ⟨c, hgrow hc⟩
    obtain ⟨pool, hw', hk⟩ := hk
    obtain ⟨hs, -⟩ := pool_step h
    generalize w'.pool = shared at hs hw'
    cases hs with
    | keep => exact hold ⟨pool, hw', hk⟩
    | get key ha hw =>
        cases hw'
        exact hold ⟨_, hw, (mem_get_keys _ _ _ _).mp hk⟩
    | put key c hw =>
        cases hw'
        rcases (mem_insertIdle_keys _ _ _ _ _ _).mp hk with rfl | hk
        · obtain ⟨pool', -, -, rfl⟩ := World.put_eq_some h
          exact ⟨c, List.mem_cons_self⟩
        · exact hold ⟨_, hw, hk⟩
    | giveBack hw hp hkey =>
        cases hw'
        rcases (mem_insertIdle_keys _ _ _ _ _ _).mp hk with rfl | hk
        · obtain ⟨l, -, t⟩ := exists_custody hr
          exact ⟨_, hgrow (t.entered_of_handle hp hkey)⟩
        · exact hold ⟨_, hw, hk⟩
    | clearExpired dur hw =>
        cases hw'
        exact hold ⟨_, hw, mem_clearExpired_keys hk⟩
    | pollIdle n htask =>
        obtain ⟨pool', hw, hk⟩ := mem_poll_keys _ _ n _ hw' hk
        exact hold ⟨pool', hw, hk⟩
    | dropPool => cases hw'

end MonoioTransports.Pool

namespace MonoioTransports.Http

open Lib Pool

variable {K C π δ ε : Type} [DecidableEq K] [DecidableEq C]

namespace HttpConnector

variable {s s' : HttpConnector K C π δ}

-- =============================================================== one step

/-- The pool of HTTP/2 connections gets a queue at the end of a
handshake. -/
theorem h2Keys_of_step {a : ConnectorAction K C π δ ε}
    (h : s.step a = some s') (hpool : s'.h1.world.pool ≠ none) (k : K) :
    k ∈ s'.h2Pool.idleConns ↔ k ∈ s.h2Pool.idleConns
      ∨ ∃ tx, .established k tx ∈ s.events a s' := by
  by_cases hdone : ∃ t, a = .handshake t true
  · obtain ⟨t, rfl⟩ := hdone
    have h : s.handshake t true = some s' := h
    unfold handshake at h
    split at h
    next key l tx hcall =>
      cases h
      have hmade : ∀ {s'}, s.makes
          (.handshake t true : ConnectorAction K C π δ ε) s'
            = [.established key tx] := by
        simp only [makes, hcall, if_true, implies_true]
      have hadded := mem_insertIdle_keys
        (fun len maxIdle => decide (len > maxIdle)) s.h2Pool
        s.h1.world.now key (Http2Connection.new tx) k
      refine hadded.trans (or_comm.trans (or_congr_right ?_))
      constructor
      · intro hk
        subst hk
        refine ⟨tx, makes_subset _ ?_⟩
        rw [hmade]
        exact List.mem_singleton_self _
      · intro hex
        obtain ⟨tx', hmem⟩ := hex
        have hmem := mem_makes hmem (by simp)
        rw [hmade] at hmem
        cases List.mem_singleton.mp hmem
        rfl
    next => cases h
  · have hnone : ¬ ∃ tx, .established k tx ∈ s.events a s' := by
      intro hex
      obtain ⟨tx, hmem⟩ := hex
      obtain ⟨t, l, ha, -⟩ := mem_events_established hmem
      exact hdone ⟨t, ha⟩
    rw [or_iff_left hnone]
    have hretained : ∀ key, k ∈ (s.retained key).idleConns
        ↔ k ∈ s.h2Pool.idleConns := fun key =>
      mem_andThenMut_keys _ _ _ _ _
    have hlook : ∀ {key : K} {pool : PoolInner K (Http2Connection C)},
        pool = s.h2Pool ∨ pool = s.retained key →
        (k ∈ pool.idleConns ↔ k ∈ s.h2Pool.idleConns) := by
      intro key pool hpool
      rcases hpool with rfl | rfl
      · exact Iff.rfl
      · exact hretained key
    cases transition_step h with
    | hit2 key | hitLocked t key | toHandshake t key =>
        exact hretained key
    | hit1 key h1 p pool hlooked => exact hlook hlooked
    | miss key h1 pool hlooked => exact hlook hlooked
    | leave | toLock | linked | unlock | connErr | setMode | h1 =>
        exact Iff.rfl
    | established t => exact absurd ⟨t, rfl⟩ hdone
    | dropped h1 hs =>
        refine absurd ?_ hpool
        obtain ⟨-, w, hw, rfl⟩ := H1World.pool_eq_some hs
        obtain ⟨pool, -, rfl⟩ := World.dropPool_eq_some hw
        rfl

/-- A lock is made for a transport dialled, unless that is for an
HTTP/1.1 connection. -/
theorem locks_of_step (ht : s.Typed) {a : ConnectorAction K C π δ ε}
    (h : s.step a = some s') (k : K) :
    k ∈ s'.connecting.locks ↔ k ∈ s.connecting.locks
      ∨ ∃ c, .dialled k c ∈ s.events a s'
        ∧ (k, c) ∉ s'.h1.world.entered := by
  by_cases hdial : ∃ t c alpn, a = .transport t (some (c, alpn))
  · obtain ⟨t, c, alpn, rfl⟩ := hdial
    have h : s.transport t (some (c, alpn)) = some s' := h
    unfold transport at h
    split at h
    next heq => cases heq
    next key c' alpn' hcall heq =>
      cases heq
      have hmade : s.makes
          (.transport t (some (c, alpn)) : ConnectorAction K C π δ ε) s'
            = [.dialled key c] := by
        simp only [makes, hcall]
      split at h
      next => cases h
      next hnew =>
        dsimp only at h
        split at h
        next =>
          cases h
          -- a transport not used up has entered no pool
          have hout : (key, c) ∉ s.h1.world.entered := fun hc =>
            hnew (ht.used_h1 key c hc)
          refine (LockTable.mem_entry _ _ _).trans
            (or_comm.trans (or_congr_right ?_))
          constructor
          · intro hk
            subst hk
            refine ⟨c, makes_subset _ ?_, hout⟩
            rw [hmade]
            exact List.mem_singleton_self _
          · intro hex
            obtain ⟨c', hmem, -⟩ := hex
            have hmem := mem_makes hmem (by simp)
            rw [hmade] at hmem
            cases List.mem_singleton.mp hmem
            rfl
        next =>
          obtain ⟨h1, hlink, rfl⟩ := Option.map_eq_some_iff.mp h
          refine (or_iff_left ?_).symm
          intro hex
          obtain ⟨c', hmem, hout⟩ := hex
          have hmem := mem_makes hmem (by simp)
          rw [hmade] at hmem
          cases List.mem_singleton.mp hmem
          apply hout
          show (k, c) ∈ h1.world.entered
          rw [H1World.entered_link hlink]
          exact List.mem_cons_self
    next => cases h
  · have hnone : ¬ ∃ c, .dialled k c ∈ s.events a s'
        ∧ (k, c) ∉ s'.h1.world.entered := by
      intro hex
      obtain ⟨c, hmem, -⟩ := hex
      obtain ⟨t, alpn, ha, -⟩ := mem_events_dialled hmem
      exact hdial ⟨t, c, alpn, ha⟩
    rw [or_iff_left hnone]
    cases transition_step h with
    | toLock t key c alpn => exact absurd ⟨t, c, alpn, rfl⟩ hdial
    | linked t key c alpn => exact absurd ⟨t, c, alpn, rfl⟩ hdial
    | hitLocked t key l c tbl conn hcall hlock =>
        show k ∈ tbl.locks ↔ _
        rw [LockTable.locks_of_acquire hlock]
    | toHandshake t key l c tbl hcall hlock =>
        show k ∈ tbl.locks ↔ _
        rw [LockTable.locks_of_acquire hlock]
    | _ => exact Iff.rfl

/-- A queue for HTTP/1.1 connections stays as long as the connector. -/
theorem keeps_of_step {a : ConnectorAction K C π δ ε}
    (h : s.step a = some s') (hpool : s'.h1.world.pool ≠ none) {k : K}
    (hk : s.h1.world.Keeps k) : s'.h1.world.Keeps k := by
  rcases world_step h with heq | ⟨b, hb, hwhy⟩
  · rw [heq]
    exact hk
  · refine keeps_mono hb ?_ ?_ hpool hk
    · intro dur heq
      rw [heq] at hwhy
      rcases hwhy with huses | ⟨heq, -⟩
      · cases huses
      · cases heq
    · intro n heq
      rw [heq] at hwhy
      rcases hwhy with huses | ⟨heq, -⟩
      · cases huses
      · cases heq

-- ========================================================== the invariant

/-- The tables hold the keys that the history asks for. -/
structure Remembered (s : HttpConnector K C π δ)
    (history : List (ConnectorEvent K C)) : Prop where
  locks : ∀ k, k ∈ s.connecting.locks
    ↔ ∃ c, .dialled k c ∈ history ∧ (k, c) ∉ s.h1.world.entered
  h2 : s.h1.world.pool ≠ none → ∀ k, k ∈ s.h2Pool.idleConns
    ↔ ∃ tx, .established k tx ∈ history

theorem Remembered.step {history : List (ConnectorEvent K C)}
    (hm : s.Remembered history) (ht : s.Typed) (hs : s.Sourced history)
    {a : ConnectorAction K C π δ ε} (h : s.step a = some s') :
    s'.Remembered (s.events a s' ++ history) := by
  refine ⟨fun k => ?_, fun hpool k => ?_⟩
  · obtain ⟨hgrow, hnew⟩ := entered_of_step h
    -- what enters a pool was dialled in this very step
    have hsame : ∀ {c}, .dialled k c ∈ history →
        ((k, c) ∉ s.h1.world.entered ↔ (k, c) ∉ s'.h1.world.entered) := by
      intro c hdial
      refine not_congr ⟨fun hc => hgrow hc, fun hc => ?_⟩
      rcases hnew k c hc with hc | ⟨-, hfresh, -⟩
      · exact hc
      · refine absurd ?_ hfresh
        rw [← hs.dialled]
        exact List.mem_map.mpr
          ⟨(k, c), ConnectorEvent.mem_dials.mpr hdial, rfl⟩
    rw [locks_of_step ht h, hm.locks]
    constructor
    · intro hor
      rcases hor with ⟨c, hdial, hout⟩ | ⟨c, hdial, hout⟩
      · exact ⟨c, List.mem_append_right _ hdial, (hsame hdial).mp hout⟩
      · exact ⟨c, List.mem_append_left _ hdial, hout⟩
    · intro hex
      obtain ⟨c, hdial, hout⟩ := hex
      rcases List.mem_append.mp hdial with hdial | hdial
      · exact Or.inr ⟨c, hdial, hout⟩
      · exact Or.inl ⟨c, hdial, (hsame hdial).mpr hout⟩
  · have hthere : s.h1.world.pool ≠ none :=
      fun hnone => hpool (pool_gone h hnone)
    rw [h2Keys_of_step h hpool, hm.h2 hthere, or_comm, ← exists_or]
    exact exists_congr fun tx => List.mem_append.symm

theorem remembered_of_recorded {protocol : Protocol}
    {r : Recorded (HttpConnector K C π δ) (ConnectorEvent K C)}
    (hr : (recorded (ε := ε) protocol).Reachable r) :
    r.state.Remembered r.history := by
  refine hr.invariant (I := fun r => r.state.Remembered r.history) ?_ ?_
  · intro r hinit
    obtain ⟨⟨now, hstate⟩, hhistory⟩ := hinit
    rw [hstate, hhistory]
    refine ⟨fun k => iff_of_false ?_ ?_, fun _ k => iff_of_false ?_ ?_⟩
    · simp [HttpConnector.new, LockTable.empty]
    · simp
    · simp [HttpConnector.new, PoolInner.new]
    · simp
  · intro r a r' hr hm _ h
    obtain ⟨s', hs, rfl⟩ := Machine.recording_step_eq_some.mp h
    exact hm.step (typed_of_reachable hr.forget) (sourced_of_recorded hr) hs

-- ============================================================= whole runs

/-- What the tables hold of the first they hold of the second. -/
structure Grows (s s' : HttpConnector K C π δ) : Prop where
  locks : ∀ k, k ∈ s.connecting.locks → k ∈ s'.connecting.locks
  h2 : ∀ k, k ∈ s.h2Pool.idleConns → k ∈ s'.h2Pool.idleConns
  h1 : ∀ k, s.h1.world.Keeps k → s'.h1.world.Keeps k

theorem grows_of_step (ht : s.Typed) {a : ConnectorAction K C π δ ε}
    (h : s.step a = some s') (hpool : s'.h1.world.pool ≠ none) :
    s.Grows s' where
  locks k hk := (locks_of_step ht h k).mpr (Or.inl hk)
  h2 k hk := (h2Keys_of_step h hpool k).mpr (Or.inl hk)
  h1 _ hk := keeps_of_step h hpool hk

theorem pool_gone_run {protocol : Protocol}
    {as : List (ConnectorAction K C π δ ε)}
    (h : (machine protocol).run s as = some s')
    (hnone : s.h1.world.pool = none) : s'.h1.world.pool = none := by
  induction as generalizing s with
  | nil =>
      cases h
      exact hnone
  | cons a as ih =>
      obtain ⟨s₁, hs, h⟩ := Machine.run_cons_eq_some.mp h
      exact ih h (pool_gone hs hnone)

theorem grows_of_run {protocol : Protocol}
    (hr : (machine (ε := ε) protocol).Reachable s)
    {as : List (ConnectorAction K C π δ ε)}
    (h : (machine protocol).run s as = some s')
    (hpool : s'.h1.world.pool ≠ none) : s.Grows s' := by
  induction as generalizing s with
  | nil =>
      cases h
      exact ⟨fun _ hk => hk, fun _ hk => hk, fun _ hk => hk⟩
  | cons a as ih =>
      obtain ⟨s₁, hs, h⟩ := Machine.run_cons_eq_some.mp h
      -- a pool that is there at the end was there on the way
      have hfirst := grows_of_step (typed_of_reachable hr) hs
        fun hnone => hpool (pool_gone_run h hnone)
      have hrest := ih (hr.step trivial hs) h
      exact ⟨fun k hk => hrest.locks k (hfirst.locks k hk),
        fun k hk => hrest.h2 k (hfirst.h2 k hk),
        fun k hk => hrest.h1 k (hfirst.h1 k hk)⟩

end HttpConnector

-- ============================================================ the promise

open HttpConnector in
/-- The tables of a connector are its history: a lock for each key a
transport not of HTTP/1.1 was dialled for, a queue for each key a
handshake was done for, and queues for HTTP/1.1 under keys dialled for.
None goes while the connector is there, be it empty. -/
theorem keys_never_forgotten {protocol : Protocol}
    {r : Recorded (HttpConnector K C π δ) (ConnectorEvent K C)}
    (hr : (recorded (ε := ε) protocol).Reachable r) :
    (∀ k, k ∈ r.state.connecting.locks
        ↔ ∃ c, .dialled k c ∈ r.history
          ∧ (k, c) ∉ r.state.h1.world.entered)
      ∧ (r.state.h1.world.pool ≠ none → ∀ k,
        k ∈ r.state.h2Pool.idleConns ↔ ∃ tx, .established k tx ∈ r.history)
      ∧ (∀ k, r.state.h1.world.Keeps k →
        ∃ c, .dialled k c ∈ r.history ∧ (k, c) ∈ r.state.h1.world.entered)
      ∧ ∀ (as : List (ConnectorAction K C π δ ε)) s',
        (machine protocol).run r.state as = some s' →
        s'.h1.world.pool ≠ none → r.state.Grows s' := by
  have hreach : (machine (ε := ε) protocol).Reachable r.state := hr.forget
  have hm := remembered_of_recorded hr
  refine ⟨hm.locks, hm.h2, fun k hk => ?_,
    fun as s' h hpool => grows_of_run hreach h hpool⟩
  obtain ⟨c, hc⟩ := entered_of_keeps (world_reachable hreach) hk
  exact ⟨c, ((sourced_of_recorded hr).h1 k c hc).1, hc⟩

open HttpConnector in
/-- A connection breaks, a look-up drops it, and the queue stays. -/
theorem keys_never_forgotten_broken :
    ∃ (r : Recorded (HttpConnector Nat Nat Unit Unit)
        (ConnectorEvent Nat Nat)) (s' : HttpConnector Nat Nat Unit Unit),
      (recorded (ε := Unit) .http2).run ⟨new 0 .http2, []⟩
          [.connect 7, .transport 0 (some (1, none)), .acquired 0 true,
            .handshake 0 true] = some r
        ∧ (machine (ε := Unit) .http2).run r.state
          [.connErr 1, .connect 7, .transport 1 none] = some s'
        ∧ s'.h2Pool.queue 7 = [] ∧ 7 ∈ s'.h2Pool.idleConns
        ∧ 7 ∈ s'.connecting.locks := by
  obtain ⟨r, s', hrun, hthen, hempty, hdial, hdone, hout, hpool⟩ :
      ∃ (r : Recorded (HttpConnector Nat Nat Unit Unit)
          (ConnectorEvent Nat Nat)) (s' : HttpConnector Nat Nat Unit Unit),
        (recorded (ε := Unit) .http2).run ⟨new 0 .http2, []⟩
            [.connect 7, .transport 0 (some (1, none)), .acquired 0 true,
              .handshake 0 true] = some r
          ∧ (machine (ε := Unit) .http2).run r.state
            [.connErr 1, .connect 7, .transport 1 none] = some s'
          ∧ s'.h2Pool.queue 7 = [] ∧ .dialled 7 1 ∈ r.history
          ∧ .established 7 1 ∈ r.history
          ∧ (7, 1) ∉ r.state.h1.world.entered
          ∧ s'.h1.world.pool.isSome = true :=
    ⟨_, _, rfl, rfl, rfl, .tail _ (.tail _ (.tail _ (.head _))),
      .tail _ (.head _), List.not_mem_nil, rfl⟩
  obtain ⟨hlocks, hqueues, -, hgrows⟩ := keys_never_forgotten
    (Machine.Reachable.run (.init ⟨⟨0, rfl⟩, rfl⟩) hrun)
  have hthere : s'.h1.world.pool ≠ none := Option.isSome_iff_ne_none.mp hpool
  have hg := hgrows _ _ hthen hthere
  have hbefore : r.state.h1.world.pool ≠ none :=
    fun hnone => hthere (pool_gone_run hthen hnone)
  exact ⟨r, s', hrun, hthen, hempty,
    hg.h2 7 ((hqueues hbefore 7).mpr ⟨1, hdone⟩),
    hg.locks 7 ((hlocks 7).mpr ⟨1, hdial, hout⟩)⟩

end MonoioTransports.Http
