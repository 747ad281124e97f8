/-
The two limits of a pool in whole runs: how long a connection may have
been idle when it is handed out, and how many may be idle per key.

# The idle duration

No operation writes `idle_dur`, and both constructors leave it `None`:
the duration `new_with_idle_interval` is given goes to the idle task
only. So the loop of `get` never skips, and whether a hand-out honours
the duration is decided by the front of the queue alone
(`honoursExpiry_iff`).

# The count

The insertion of `Pooled::drop` pops to one below the limit and pushes.
Below a limit of zero there is no room to make: the queue then has one
entry. Every other limit holds in every run without a direct `put`
(`cap_iff`).
-/
import MonoioTransports.Pool.Contents
import MonoioTransports.Pool.Proofs.Accounting

namespace MonoioTransports.Pool

open Lib

variable {K T : Type} [DecidableEq K]

-- ======================================================= limits never move

/-- Every pool left over has limits the pool before had. -/
def SameLimits (shared shared' : Option (PoolInner K T)) : Prop :=
  ∀ pool', shared' = some pool' → ∃ pool, shared = some pool
    ∧ pool'.maxIdle = pool.maxIdle ∧ pool'.idleDur = pool.idleDur

omit [DecidableEq K] in
theorem SameLimits.refl (shared : Option (PoolInner K T)) :
    SameLimits shared shared := fun pool' h => ⟨pool', h, rfl, rfl⟩

omit [DecidableEq K] in
theorem sameLimits_poll (task : IdleTask) (now ticks : Nat) :
    ∀ shared : Option (PoolInner K T),
      SameLimits shared (task.poll now ticks shared).2.1 := by
  induction ticks with
  | zero =>
      intro shared
      cases shared <;> exact SameLimits.refl _
  | succ ticks ih =>
      intro shared
      cases shared with
      | none => exact SameLimits.refl _
      | some pool =>
          intro pool' h
          obtain ⟨pool₁, h₁, hmax, hdur⟩ := ih _ pool' h
          cases h₁
          exact ⟨pool, rfl, hmax, hdur⟩

/-- No step changes a limit. -/
theorem PoolStep.sameLimits {w : World K T} {a : Action K T}
    {shared' : Option (PoolInner K T)} (h : PoolStep w a shared') :
    SameLimits w.pool shared' := by
  cases h with
  | keep => exact SameLimits.refl _
  | get k ha hw =>
      intro pool' h
      cases h
      exact ⟨_, hw, maxIdle_get _ _ _, idleDur_get _ _ _⟩
  | put k c hw =>
      intro pool' h
      cases h
      exact ⟨_, hw, rfl, rfl⟩
  | giveBack hw hp hk =>
      intro pool' h
      cases h
      exact ⟨_, hw, rfl, rfl⟩
  | clearExpired dur hw =>
      intro pool' h
      cases h
      exact ⟨_, hw, rfl, rfl⟩
  | pollIdle ticks htask => exact sameLimits_poll _ _ _ _
  | dropPool => exact fun _ h => nomatch h

variable [DecidableEq T] {w w' : World K T}

/-- In every run the limit is the resolved argument, and the duration is
absent, whatever interval the pool was built with. -/
theorem limits_of_reachable {idleInterval maxIdle : Option Nat}
    (hr : (World.machine idleInterval maxIdle).Reachable w) :
    ∀ pool, w.pool = some pool →
      pool.maxIdle = resolveMaxIdle maxIdle ∧ pool.idleDur = none := by
  refine hr.invariant (I := fun w : World K T => ∀ pool,
    w.pool = some pool → pool.maxIdle = resolveMaxIdle maxIdle
      ∧ pool.idleDur = none) ?_ ?_
  · intro w hinit pool h
    obtain ⟨now, rfl⟩ := hinit
    cases h
    cases idleInterval <;> exact ⟨rfl, rfl⟩
  · intro w a w' _ ih _ h pool' hpool'
    obtain ⟨pool, hpool, hmax, hdur⟩ :=
      (pool_step h).1.sameLimits pool' hpool'
    rw [hmax, hdur]
    exact ih pool hpool

/-- The pool is there, with this limit and no duration. -/
def World.Alive (w : World K T) (maxIdle : Nat) : Prop :=
  ∃ pool, w.pool = some pool ∧ pool.maxIdle = maxIdle
    ∧ pool.idleDur = none

/-- Only its last owner's drop takes a pool away. -/
theorem alive_of_step {a : Action K T} (h : w.step a = some w')
    (ha : a ≠ .dropPool) {m : Nat} (hw : w.Alive m) : w'.Alive m := by
  obtain ⟨pool, hpool, hmax, hdur⟩ := hw
  have hs := (pool_step h).1
  have hsome : ∃ pool', w'.pool = some pool' := by
    generalize w'.pool = shared at hs
    cases hs with
    | keep => exact ⟨pool, hpool⟩
    | get | put | giveBack | clearExpired => exact ⟨_, rfl⟩
    | @pollIdle task ticks htask =>
        rw [hpool]
        obtain ⟨pool', hpoll, -⟩ := perm_contents_poll task w.now ticks pool
        exact ⟨pool', hpoll⟩
    | dropPool => exact absurd rfl ha
  obtain ⟨pool', hpool'⟩ := hsome
  obtain ⟨pool₁, hpool₁, hmax', hdur'⟩ := hs.sameLimits pool' hpool'
  rw [hpool] at hpool₁
  cases hpool₁
  exact ⟨pool', hpool', hmax'.trans hmax, hdur'.trans hdur⟩

/-- In every run without that drop the pool is there, with the resolved
limit. -/
theorem alive_of_reachable {idleInterval maxIdle : Option Nat}
    {D : World K T → Action K T → Prop} (hD : ∀ w, ¬ D w .dropPool)
    (hr : (World.machine idleInterval maxIdle).ReachableUnder D w) :
    w.Alive (resolveMaxIdle maxIdle) := by
  refine hr.invariant (I := fun w : World K T =>
    w.Alive (resolveMaxIdle maxIdle)) ?_ ?_
  · intro w hinit
    obtain ⟨now, rfl⟩ := hinit
    cases idleInterval <;> exact ⟨_, rfl, rfl, rfl⟩
  · intro w a w' _ ih ha h
    refine alive_of_step h ?_ ih
    intro he
    rw [he] at ha
    exact hD w ha

-- ======================================================= the idle duration

/-- `get` on the queue of `k` honours the duration `dur`. -/
structure World.HonoursExpiry (w : World K T) (dur : Nat) (k : K) :
    Prop where
  /-- What it returns has not been idle for longer. -/
  fresh : ∀ w' p, w.get k = some (w', some p) →
    ∀ e ∈ w.queue k, e.conn = p.value → e.expired w.now dur = false
  /-- It returns something when the queue has such an entry. -/
  found : (∃ e ∈ w.queue k, e.expired w.now dur = false) →
    ∃ w' p, w.get k = some (w', some p)
  /-- Every expired entry it passes over is removed. -/
  removed : ∀ w' r, w.get k = some (w', r) → ∀ pre e post,
    w.queue k = pre ++ e :: post → e.expired w.now dur = true →
    (∀ p, r = some p → p.value ∈ post.map Idle.conn) → e ∉ w'.queue k

omit [DecidableEq T] in
/-- Without a duration `get` pops the front. -/
theorem World.get_front {pool : PoolInner K T} (hw : w.pool = some pool)
    (hdur : pool.idleDur = none) (k : K) :
    ∃ w', w.get k = some (w', (w.queue k).head?.map fun e =>
        Pooled.new k e.conn true)
      ∧ w'.queue k = (w.queue k).tail := by
  obtain ⟨hres, -, hq⟩ := get_eq pool w.now k
  rw [hdur, getLoop_none] at hres hq
  have hsome : ∃ w' r, w.get k = some (w', r) := by
    unfold World.get
    rw [hw]
    dsimp only
    split <;> exact ⟨_, _, rfl⟩
  obtain ⟨w', r, hget⟩ := hsome
  obtain ⟨pool₁, hpool₁, hpool', hr, -⟩ := World.get_eq_some hget
  rw [hw] at hpool₁
  cases hpool₁
  rw [World.queue_of_pool hw]
  refine ⟨w', ?_, ?_⟩
  · rw [hget, hr, hres, Option.map_map]
    rfl
  · rw [World.queue_of_pool hpool', hq k, if_pos rfl]

/-- Over every run of a pool with interval `dur`: `get` honours the
duration exactly when the front of its queue, if there is one, has not
been idle for longer. -/
theorem honoursExpiry_iff {dur : Nat} {maxIdle : Option Nat}
    (hr : (World.machine (some dur) maxIdle).Reachable w) (k : K) :
    w.HonoursExpiry dur k
      ↔ ∀ e, (w.queue k).head? = some e → e.expired w.now dur = false := by
  cases hw : w.pool with
  | none =>
      have hq : w.queue k = [] := by
        unfold World.queue
        rw [hw]
        rfl
      have hget : w.get k = none := by
        unfold World.get
        rw [hw]
      refine ⟨fun _ e he => ?_, fun _ => ⟨?_, ?_, ?_⟩⟩
      · simp [hq] at he
      · intro w' p h
        simp [hget] at h
      · intro hex
        obtain ⟨e, he, -⟩ := hex
        simp [hq] at he
      · intro w' r h
        simp [hget] at h
  | some pool =>
      obtain ⟨w₁, hget, hq₁⟩ :=
        World.get_front hw (limits_of_reachable hr pool hw).2 k
      obtain ⟨l, -, t⟩ := exists_custody hr
      cases hk : w.queue k with
      | nil =>
          refine ⟨fun _ e he => by simp at he, fun _ => ⟨?_, ?_, ?_⟩⟩
          · intro w' p _ e he
            simp [hk] at he
          · intro hex
            obtain ⟨e, he, -⟩ := hex
            simp [hk] at he
          · intro w' r _ pre e post hsplit
            simp [hk] at hsplit
      | cons front rest =>
          rw [hk] at hget
          have hnd : ∀ e ∈ rest, e.conn ≠ front.conn := by
            have := t.nodup k
            rw [World.conns, hk] at this
            simpa using (List.nodup_cons.mp this).1
          refine ⟨fun hon e he => ?_, fun hfront => ⟨?_, ?_, ?_⟩⟩
          · cases he
            exact hon.fresh _ _ hget front
              (by rw [hk]; exact List.mem_cons_self) rfl
          · intro w' p h e he hep
            rw [hget] at h
            cases h
            rw [hk] at he
            rcases List.mem_cons.mp he with rfl | he
            · exact hfront _ rfl
            · exact absurd hep (hnd e he)
          · exact fun _ => ⟨_, _, hget⟩
          · -- the front is returned, so nothing stands before it
            intro w' r h pre e post hsplit _ hafter
            rw [hget] at h
            cases h
            obtain ⟨e', he', heq⟩ := List.mem_map.mp (hafter _ rfl)
            have hin : e' ∈ rest := by
              rw [hk] at hsplit
              cases pre with
              | nil =>
                  cases hsplit
                  exact he'
              | cons f pre =>
                  cases hsplit
                  exact List.mem_append_right _ (List.mem_cons_of_mem _ he')
            exact absurd heq (hnd e' hin)

/-- A connection given back ten units ago is handed out in time. -/
theorem honoursExpiry_young :
    ∃ w : World Nat Nat,
      (World.machine (some 60) none).run (World.new 0 (some 60) none)
          [.link 7 1, .drop 0 true, .tick 10] = some w
        ∧ w.queue 7 = [⟨1, 0⟩] ∧ w.HonoursExpiry 60 7 := by
  obtain ⟨w, hrun, hq, hnow⟩ : ∃ w : World Nat Nat,
      (World.machine (some 60) none).run (World.new 0 (some 60) none)
          [.link 7 1, .drop 0 true, .tick 10] = some w
        ∧ w.queue 7 = [⟨1, 0⟩] ∧ w.now = 10 := ⟨_, rfl, rfl, rfl⟩
  refine ⟨w, hrun, hq, (honoursExpiry_iff
    (Machine.Reachable.run (.init ⟨0, rfl⟩) hrun) 7).mpr ?_⟩
  intro e he
  rw [hq] at he
  cases he
  rw [hnow]
  decide

/-- An entry swept at an age just below the duration is handed out forty
seconds later. -/
theorem not_honoursExpiry :
    ¬ ∀ w : World Nat Nat,
      (World.machine (some 60000000000) none).Reachable w →
      ∀ k, w.HonoursExpiry 60000000000 k := by
  intro h
  obtain ⟨w, hrun, he, hexp, hret⟩ : ∃ w : World Nat Nat,
      (World.machine (some 60000000000) none).run
          (World.new 0 (some 60000000000) none)
          [.tick 1, .link 7 1, .drop 0 true, .tick 59999999999,
            .pollIdle 1, .tick 40000000000] = some w
        ∧ (w.queue 7) = [⟨1, 1⟩]
        ∧ (⟨1, 1⟩ : Idle Nat).expired w.now 60000000000 = true
        ∧ (w.get 7).map (fun r => r.2.map Pooled.value)
          = some (some 1) :=
    ⟨_, rfl, by decide +kernel, by decide +kernel, by decide +kernel⟩
  obtain ⟨⟨w', r⟩, hget, hr⟩ := Option.map_eq_some_iff.mp hret
  obtain ⟨p, hp, hv⟩ := Option.map_eq_some_iff.mp hr
  dsimp only at hp
  subst hp
  have hfresh := (h w (Machine.Reachable.run (.init ⟨0, rfl⟩) hrun) 7).fresh
    w' p hget ⟨1, 1⟩ (by rw [he]; exact List.mem_cons_self) hv.symm
  rw [hexp] at hfresh
  cases hfresh

-- =============================================================== the count

/-- A direct `put`. -/
def Action.isPut : Action K T → Bool
  | .put .. => true
  | _ => false

omit [DecidableEq K] [DecidableEq T] in
theorem length_rest_getLoop_le (now : Nat) (idleDur : Option Nat)
    (q : List (Idle T)) :
    (getLoop now idleDur q).rest.length ≤ q.length := by
  rcases getLoop_cases now idleDur q with
    ⟨-, heq⟩ | ⟨pre, idle, rest, rfl, -, -, heq⟩
  · simp [heq]
  · simp only [heq, List.length_append, List.length_cons]
    omega

/-- What the insertion of `Pooled::drop` leaves of a queue within the
limit, or of one entry. -/
theorem length_evicted_le {len maxIdle : Nat} (h : len ≤ max maxIdle 1) :
    len - evictions (fun len maxIdle => decide (len ≥ maxIdle)) len maxIdle
      + 1 ≤ max maxIdle 1 := by
  unfold evictions
  split
  next hfull =>
    have hge := of_decide_eq_true hfull
    omega
  next hfull =>
    have hlt : len < maxIdle := by simpa using hfull
    omega

omit [DecidableEq T] in
/-- A step without a direct `put` keeps every queue within the limit, or
at one entry. -/
theorem PoolStep.length_le {a : Action K T}
    {shared' : Option (PoolInner K T)} (hs : PoolStep w a shared')
    (ha : a.isPut = false) {m : Nat}
    (hmax : ∀ pool, w.pool = some pool → pool.maxIdle = m)
    (hlen : ∀ k, (w.queue k).length ≤ max m 1) (k : K) :
    (sharedQueue shared' k).length ≤ max m 1 := by
  have hq : ∀ {pool}, w.pool = some pool →
      ∀ k, (pool.queue k).length ≤ max m 1 := fun hw k' =>
    World.queue_of_pool hw k' ▸ hlen k'
  cases hs with
  | keep => exact hlen k
  | @get _ pool k' _ hw =>
      show ((pool.get w.now k').pool.queue k).length ≤ _
      rw [queue_get]
      split
      · exact Nat.le_trans (length_rest_getLoop_le _ _ _) (hq hw k')
      · exact hq hw k
  | put k' c hw => cases ha
  | @giveBack pool h p k' hw hp hk =>
      show ((pool.giveBack w.now k' p.value).pool.queue k).length ≤ _
      rw [PoolInner.giveBack, queue_insertIdle]
      split
      · rw [List.length_append, List.length_drop, List.length_singleton,
          hmax pool hw]
        exact length_evicted_le (hq hw k')
      · exact hq hw k
  | @clearExpired pool dur hw =>
      show ((pool.clearExpired w.now dur).pool.queue k).length ≤ _
      rw [queue_clearExpired]
      exact Nat.le_trans (List.length_filter_le _ _) (hq hw k)
  | @pollIdle task ticks htask =>
      cases hw : w.pool with
      | none =>
          rw [poll_none]
          exact Nat.zero_le _
      | some pool =>
          rw [queue_poll]
          split
          · exact hq hw k
          · exact Nat.le_trans (List.length_filter_le _ _) (hq hw k)
  | dropPool => exact Nat.zero_le _

/-- In every run without a direct `put` a queue is within the resolved
limit, or has one entry. -/
theorem length_queue_le {idleInterval maxIdle : Option Nat}
    (hr : (World.machine idleInterval maxIdle).ReachableUnder
      (fun _ a => a.isPut = false) w) (k : K) :
    (w.queue k).length ≤ max (resolveMaxIdle maxIdle) 1 := by
  refine hr.invariant (I := fun w : World K T => ∀ k,
    (w.queue k).length ≤ max (resolveMaxIdle maxIdle) 1) ?_ ?_ k
  · intro w hinit k
    obtain ⟨now, rfl⟩ := hinit
    have hq : (World.new now idleInterval maxIdle : World K T).queue k
        = [] := by
      rw [World.queue_of_pool rfl]
      cases idleInterval <;> simp [newWithIdleInterval]
    simp [hq]
  · intro w a w' hrw ih ha h k
    exact (pool_step h).1.length_le ha (fun pool hpool =>
      (limits_of_reachable hrw.reachable pool hpool).1) ih k

theorem resolveMaxIdle_pos {maxIdle : Option Nat} (h : maxIdle ≠ some 0) :
    1 ≤ resolveMaxIdle maxIdle := by
  cases maxIdle with
  | none => decide
  | some n =>
      have hn : n ≠ 0 := fun h0 => h (h0 ▸ rfl)
      simp only [resolveMaxIdle, maxKeepaliveConns, Option.map_some,
        Option.getD_some]
      omega

/-- A connection linked and given back is idle, whatever the limit. -/
theorem exists_idle (idleInterval maxIdle : Option Nat) (k : K) (c : T) :
    ∃ w : World K T, (World.machine idleInterval maxIdle).ReachableUnder
        (fun _ a => a.isPut = false) w ∧ (w.queue k).length = 1 := by
  have hlink : (World.machine idleInterval maxIdle).step
      (World.new 0 idleInterval maxIdle) (.link k c)
        = some ({ World.new 0 idleInterval maxIdle with
            entered := [(k, c)] }.issue (Pool.link k c)) := by
    show (World.new 0 idleInterval maxIdle).link k c = _
    exact if_pos ⟨rfl, fun k' h => nomatch h⟩
  refine ⟨_, .step (a := .drop 0 true)
    (.step (.init ⟨0, rfl⟩) rfl hlink) rfl rfl, ?_⟩
  show (((newWithIdleInterval idleInterval maxIdle).1.giveBack 0 k
    c).pool.queue k).length = 1
  have hnil : (newWithIdleInterval idleInterval maxIdle
      : PoolInner K T × _).1.queue k = [] := by
    cases idleInterval <;> simp [newWithIdleInterval]
  rw [PoolInner.giveBack, queue_insertIdle, if_pos rfl, hnil]
  simp

/-- The cap holds in every run without a direct `put` exactly when the
`max_idle` argument is not zero. -/
theorem cap_iff [Inhabited K] [Inhabited T]
    (idleInterval maxIdle : Option Nat) :
    (∀ w : World K T, (World.machine idleInterval maxIdle).ReachableUnder
        (fun _ a => a.isPut = false) w →
      ∀ k, (w.queue k).length ≤ resolveMaxIdle maxIdle)
      ↔ maxIdle ≠ some 0 := by
  constructor
  · intro hcap heq
    subst heq
    obtain ⟨w, hr, hlen⟩ := exists_idle (K := K) (T := T) idleInterval
      (some 0) default default
    have hle := hcap w hr default
    rw [hlen] at hle
    exact absurd hle (by decide)
  · intro hne w hr k
    have hle := length_queue_le hr k
    have hpos := resolveMaxIdle_pos hne
    omega

/-- With a limit of zero one connection stays idle. -/
theorem not_cap_zero :
    ¬ ∀ maxIdle : Option Nat, ∀ w : World Nat Nat,
      (World.machine none maxIdle).ReachableUnder
        (fun _ a => a.isPut = false) w →
      ∀ k, (w.queue k).length ≤ resolveMaxIdle maxIdle := by
  intro hcap
  have hle := hcap (some 0) _
    (.step (a := .drop 0 true) (.step (a := .link 7 1)
      (.init ⟨0, rfl⟩) rfl rfl) rfl rfl) 7
  exact absurd hle (by decide)

end MonoioTransports.Pool
