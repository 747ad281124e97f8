/-
How many connections a pool keeps.

# The count is exact

What entered is idle, lent or discarded, and each step moves what it
moves: `get_idle_connection_count` is what entered less what is lent and
what was discarded, and it is the sum of the lengths of the queues.

# No more than was asked for

`connect` opens a connection only when its key has none idle
(`queue_of_connect`). So while connections come in through `connect`
alone, those of a key that are idle, lent or being opened are never more
than were at some time wanted at once: the demand, what is lent or being
opened. A step that raises their number finds the queue empty, and then
there are no others.
-/
import MonoioTransports.Lib.Progress
import MonoioTransports.Pool.Proofs.Custody
import MonoioTransports.Pool.Proofs.Limits

namespace MonoioTransports.Pool

open Lib

variable {K T : Type}

-- ============================================================ the counts

/-- What `get_idle_connection_count` counts. -/
theorem getIdleConnectionCount_eq (pool : PoolInner K T) :
    pool.getIdleConnectionCount = pool.contents.length := by
  unfold PoolInner.getIdleConnectionCount PoolInner.contents collect
  rw [List.length_map, List.length_flatMap, List.sum_eq_foldl]
  rfl

/-- The idle connections; none when the pool is gone. -/
def World.idleCount (w : World K T) : Nat :=
  match w.pool with
  | some pool => pool.getIdleConnectionCount
  | none => 0

/-- The handles that are out. -/
def World.lent (w : World K T) : Nat :=
  tally (fun p => p.toList.length) w.handles w.nextHandle

/-- The handles that are out for a key. -/
def World.lentFor [DecidableEq K] (w : World K T) (k : K) : Nat :=
  tally (fun p => if p.bind Pooled.key = some k then 1 else 0) w.handles
    w.nextHandle

/-- The connections of a key that are wanted at once: lent, or being
opened. -/
def World.demand [DecidableEq K] (w : World K T) (k : K) : Nat :=
  w.lentFor k + w.connecting.count k

theorem World.idleCount_of_pool {w : World K T} (pool : PoolInner K T)
    (h : w.pool = some pool) : w.idleCount = pool.contents.length := by
  rw [World.idleCount, h]
  exact getIdleConnectionCount_eq pool

section Operations

variable [DecidableEq K] {w w' : World K T}

/-- The count is the sum over the keys. -/
theorem idleCount_eq_sum {pool : PoolInner K T} {keys : Finset K}
    (hkeys : ∀ k, pool.queue k ≠ [] → k ∈ keys) :
    pool.getIdleConnectionCount = ∑ k ∈ keys, (pool.queue k).length := by
  rw [getIdleConnectionCount_eq, PoolInner.contents, List.length_map]
  exact length_collect pool.idleConns hkeys

/-- No queue longer: no more is idle. -/
theorem idleCount_le {m m' : Nat} (hw : w.Alive m) (hw' : w'.Alive m')
    (hle : ∀ k, (w'.queue k).length ≤ (w.queue k).length) :
    w'.idleCount ≤ w.idleCount := by
  obtain ⟨pool, hpool, -⟩ := hw
  obtain ⟨pool', hpool', -⟩ := hw'
  rw [World.idleCount_of_pool _ hpool, World.idleCount_of_pool _ hpool']
  simp only [World.queue_of_pool hpool, World.queue_of_pool hpool'] at hle
  unfold PoolInner.contents
  rw [List.length_map, List.length_map]
  exact length_collect_le hle

/-- No queue longer and one shorter: less is idle. -/
theorem idleCount_lt {m m' : Nat} (hw : w.Alive m) (hw' : w'.Alive m')
    (hle : ∀ k, (w'.queue k).length ≤ (w.queue k).length) {k : K}
    (hlt : (w'.queue k).length < (w.queue k).length) :
    w'.idleCount < w.idleCount := by
  obtain ⟨pool, hpool, -⟩ := hw
  obtain ⟨pool', hpool', -⟩ := hw'
  rw [World.idleCount_of_pool _ hpool, World.idleCount_of_pool _ hpool']
  simp only [World.queue_of_pool hpool, World.queue_of_pool hpool']
    at hle hlt
  unfold PoolInner.contents
  rw [List.length_map, List.length_map]
  exact length_collect_lt hle hlt

/-- What a `get` leaves. -/
theorem World.get_cases {k : K} {r : Option (Pooled K T)}
    (h : w.get k = some (w', r)) :
    ∃ pool, w.pool = some pool ∧ (pool.get w.now k).result = r
      ∧ ((r = none ∧ w' = w.settle (pool.get w.now k))
        ∨ ∃ p, r = some p ∧ w' = (w.settle (pool.get w.now k)).issue p) := by
  unfold World.get at h
  split at h
  next pool hpool =>
    dsimp only at h
    split at h
    next p hres =>
      cases h
      exact ⟨pool, hpool, hres, Or.inr ⟨p, rfl, rfl⟩⟩
    next hres =>
      cases h
      exact ⟨pool, hpool, hres, Or.inl ⟨rfl, rfl⟩⟩
  next => cases h

/-- A dropped handle gives its connection back, or drops it. -/
theorem Pooled.drop_cases (p : Pooled K T) (now : Nat) (isOpen : Bool)
    (shared : Option (PoolInner K T)) :
    p.drop now isOpen shared = (shared, [p.value])
      ∨ ∃ pool k, isOpen = true ∧ shared = some pool ∧ p.key = some k
        ∧ p.drop now isOpen shared
          = (some (pool.giveBack now k p.value).pool,
              (pool.giveBack now k p.value).dropped) := by
  unfold Pooled.drop
  cases isOpen with
  | false => exact Or.inl rfl
  | true =>
      simp only [Bool.not_true, Bool.false_eq_true, if_false]
      split
      next hpool =>
        split
        next pool key hkey =>
          exact Or.inr ⟨pool, key, trivial, rfl, hkey, rfl⟩
        next => exact Or.inl rfl
      next => exact Or.inl rfl

/-- A `get` lends what it takes out, unless it drops it. -/
theorem length_contents_get (pool : PoolInner K T) (now : Nat) (key : K) :
    (pool.get now key).pool.contents.length
        + (pool.get now key).dropped.length
        + (pool.get now key).result.toList.length
      = pool.contents.length := by
  unfold PoolInner.get
  cases hk : pool.idleConns.lookup key with
  | none => simp
  | some v =>
      have hq : pool.queue key = v := queue_of_lookup hk
      have hlen := (perm_contents_insert pool key
        (getLoop now pool.idleDur v).rest).length_eq
      simp only [List.length_append, List.length_map, hq] at hlen
      dsimp only
      rcases getLoop_cases now pool.idleDur v with ⟨-, heq⟩ |
        ⟨pre, idle, post, hv, -, -, heq⟩
      · rw [heq] at hlen ⊢
        simp only [List.length_map, Option.map_none, Option.toList_none,
          List.length_nil] at hlen ⊢
        omega
      · rw [heq] at hlen ⊢
        have hv' := congrArg List.length hv
        simp only [List.length_append, List.length_cons] at hv'
        simp only [List.length_map, Option.map_some, Option.toList_some,
          List.length_singleton] at hlen ⊢
        omega

omit [DecidableEq K] in
/-- Giving a handle out. -/
theorem World.lent_issue (w : World K T) (p : Pooled K T) :
    (w.issue p).lent = w.lent + 1 :=
  tally_update_next (some p)

omit [DecidableEq K] in
/-- A handle goes. -/
theorem World.lent_update {h : Nat} {p : Pooled K T}
    (hp : w.handles h = some p) (hlt : h < w.nextHandle) :
    tally (fun p => p.toList.length)
        (Function.update w.handles h none) w.nextHandle + 1 = w.lent := by
  have hsum := tally_update (fun p : Option (Pooled K T) =>
    p.toList.length) w.handles hlt none
  rw [hp] at hsum
  exact hsum

/-- What entered, in numbers. -/
def World.Balanced (w : World K T) : Prop :=
  w.idleCount + w.lent + w.discarded.length = w.entered.length

/-- `get` and what it returns. -/
theorem World.Balanced.get {k : K} {r : Option (Pooled K T)}
    (hb : w.Balanced) (h : w.get k = some (w', r)) : w'.Balanced := by
  obtain ⟨pool, hpool, hr, hw'⟩ := World.get_cases h
  have hlen := length_contents_get pool w.now k
  unfold World.Balanced at hb ⊢
  rw [World.idleCount_of_pool _ hpool] at hb
  rw [hr] at hlen
  rcases hw' with ⟨rfl, rfl⟩ | ⟨p, rfl, rfl⟩
  · rw [World.idleCount_of_pool (pool.get w.now k).pool rfl]
    show _ + w.lent + (w.discarded ++ _).length = w.entered.length
    simp only [Option.toList_none, List.length_nil, List.length_append]
      at hlen ⊢
    omega
  · rw [World.idleCount_of_pool (pool.get w.now k).pool rfl,
      World.lent_issue]
    show _ + (w.lent + 1) + (w.discarded ++ _).length = w.entered.length
    simp only [Option.toList_some, List.length_singleton,
      List.length_append] at hlen ⊢
    omega

variable [DecidableEq T]

omit [DecidableEq K] in
theorem World.Balanced.link {k : K} {c : T} (hb : w.Balanced)
    (h : w.link k c = some w') : w'.Balanced := by
  obtain ⟨-, rfl⟩ := World.link_eq_some h
  unfold World.Balanced at hb ⊢
  rw [World.lent_issue]
  show w.idleCount + (w.lent + 1) + w.discarded.length
    = w.entered.length + 1
  omega

theorem World.Balanced.put {k : K} {c : T} (hb : w.Balanced)
    (h : w.put k c = some w') : w'.Balanced := by
  obtain ⟨pool, hpool, -, rfl⟩ := World.put_eq_some h
  have hlen := (perm_contents_put pool w.now k c).length_eq
  unfold World.Balanced at hb ⊢
  rw [World.idleCount_of_pool _ hpool] at hb
  rw [World.idleCount_of_pool _ rfl]
  show _ + w.lent + (w.discarded ++ _).length = w.entered.length + 1
  simp only [List.length_append, List.length_cons] at hlen ⊢
  omega

omit [DecidableEq T] in
theorem World.Balanced.drop {h : Nat} {isOpen : Bool} (hb : w.Balanced)
    {l : Custody T K Nat} (tr : w.Tracks l)
    (hs : w.drop h isOpen = some w') : w'.Balanced := by
  obtain ⟨p, hp, rfl⟩ := World.drop_eq_some hs
  have hlt : h < w.nextHandle := by
    by_contra hle
    rw [tr.fresh h (Nat.le_of_not_lt hle)] at hp
    cases hp
  have hlent := World.lent_update hp hlt
  unfold World.Balanced World.lent at hb ⊢
  unfold World.lent at hlent
  dsimp only
  rcases p.drop_cases w.now isOpen w.pool with heq |
    ⟨pool, k, -, hpool, -, heq⟩
  · rw [heq]
    show w.idleCount + _ + (w.discarded ++ [p.value]).length = _
    rw [List.length_append, List.length_singleton]
    omega
  · have hlen := (perm_contents_insertIdle
      (fun len maxIdle => decide (len ≥ maxIdle)) pool w.now k
        p.value).length_eq
    rw [World.idleCount_of_pool _ hpool] at hb
    rw [heq, World.idleCount_of_pool
      (pool.giveBack w.now k p.value).pool rfl]
    simp only [PoolInner.giveBack, List.length_append, List.length_cons]
      at hlen ⊢
    omega

theorem World.Balanced.step (hb : w.Balanced) {l : Custody T K Nat}
    (tr : w.Tracks l) {a : Action K T} (h : w.step a = some w') :
    w'.Balanced := by
  cases a with
  | tick dt =>
      cases h
      exact hb
  | link k c => exact hb.link h
  | put k c => exact hb.put h
  | get k =>
      obtain ⟨⟨w₁, r⟩, hget, rfl⟩ := Option.map_eq_some_iff.mp h
      exact hb.get hget
  | drop hd isOpen => exact hb.drop tr h
  | clearExpired dur =>
      obtain ⟨pool, hpool, rfl⟩ := Option.map_eq_some_iff.mp h
      have hlen := (perm_contents_clearExpired pool w.now dur).length_eq
      unfold World.Balanced at hb ⊢
      rw [World.idleCount_of_pool _ hpool] at hb
      rw [World.idleCount_of_pool
        (pool.clearExpired w.now dur).pool rfl]
      show _ + w.lent + (w.discarded ++ _).length = w.entered.length
      simp only [List.length_append] at hlen ⊢
      omega
  | pollIdle ticks =>
      obtain ⟨task, htask, rfl⟩ := World.pollIdle_eq_some h
      unfold World.Balanced at hb ⊢
      cases hpool : w.pool with
      | none =>
          rw [World.idleCount, hpool] at hb
          simp only [poll_none, List.append_nil]
          exact hb
      | some pool =>
          obtain ⟨pool', hpoll, hperm⟩ :=
            perm_contents_poll task w.now ticks pool
          have hlen := hperm.length_eq
          rw [World.idleCount_of_pool _ hpool] at hb
          rw [World.idleCount_of_pool pool' hpoll]
          show _ + w.lent + (w.discarded ++ _).length = w.entered.length
          simp only [List.length_append] at hlen ⊢
          omega
  | dropPool =>
      obtain ⟨pool, hpool, rfl⟩ := World.dropPool_eq_some h
      unfold World.Balanced at hb ⊢
      rw [World.idleCount_of_pool _ hpool] at hb
      -- what was idle goes over to what is discarded, one for one
      show 0 + w.lent + (w.discarded ++ _).length = w.entered.length
      have hall : (collect (List.map Idle.conn) pool.idleConns).length
          = pool.contents.length := by
        unfold PoolInner.contents collect
        rw [List.map_flatMap]
        rfl
      rw [List.length_append, hall]
      omega
  | connect k =>
      obtain ⟨⟨w₁, r⟩, hconn, rfl⟩ := Option.map_eq_some_iff.mp h
      obtain ⟨w₂, hget, heq, -⟩ := World.connect_eq_some hconn
      have hb₂ := hb.get hget
      dsimp only at heq ⊢
      rw [heq]
      exact hb₂
  | connected k c =>
      exact World.Balanced.link
        (w := { w with connecting := w.connecting.erase k }) hb
        (World.connected_eq_some h)
  | connectFailed k =>
      rw [World.connectFailed_eq_some h]
      exact hb

theorem balanced_of_reachable {idleInterval maxIdle : Option Nat}
    (hr : (World.machine idleInterval maxIdle).Reachable w) :
    w.Balanced := by
  apply hr.invariant
  · intro w hinit
    obtain ⟨now, rfl⟩ := hinit
    have hnil := congrArg List.length
      (contents_newWithIdleInterval (K := K) (T := T) idleInterval maxIdle)
    show World.idleCount (World.new now idleInterval maxIdle) + 0 + 0 = 0
    rw [World.idleCount_of_pool _ rfl, hnil]
    rfl
  · intro w a w' hrw ih _ h
    obtain ⟨l, -, tr⟩ := exists_custody hrw
    exact ih.step tr h

/-- `get_idle_connection_count` is exact: over any set of keys that has
those with a queue it is the sum of their lengths, and with the handles
that are out and the connections discarded it makes up everything that
ever entered. -/
theorem idleConnectionCount_exact {idleInterval maxIdle : Option Nat}
    (hr : (World.machine idleInterval maxIdle).Reachable w)
    {pool : PoolInner K T} (hpool : w.pool = some pool) :
    (∀ keys : Finset K, (∀ k, w.queue k ≠ [] → k ∈ keys) →
        pool.getIdleConnectionCount = ∑ k ∈ keys, (w.queue k).length)
      ∧ pool.getIdleConnectionCount + w.lent + w.discarded.length
        = w.entered.length := by
  refine ⟨fun keys hkeys => ?_, ?_⟩
  · simp only [World.queue_of_pool hpool] at hkeys ⊢
    exact idleCount_eq_sum hkeys
  · have hb := balanced_of_reachable hr
    rw [World.Balanced, World.idleCount, hpool] at hb
    exact hb

end Operations

/-- Two connections come in; one goes back, one is lent. -/
theorem idleConnectionCount_exact_two :
    ∃ (w : World Nat Nat) (pool : PoolInner Nat Nat),
      (World.machine none none).run (World.new 0 none none)
          [.link 7 1, .link 8 2, .drop 0 true] = some w
        ∧ w.pool = some pool ∧ w.lent = 1
        ∧ pool.getIdleConnectionCount + 1 + w.discarded.length
          = w.entered.length := by
  obtain ⟨w, pool, hrun, hpool, hlent⟩ :
      ∃ (w : World Nat Nat) (pool : PoolInner Nat Nat),
        (World.machine none none).run (World.new 0 none none)
            [.link 7 1, .link 8 2, .drop 0 true] = some w
          ∧ w.pool = some pool ∧ w.lent = 1 := ⟨_, _, rfl, rfl, rfl⟩
  have hexact := (idleConnectionCount_exact
    (Machine.Reachable.run (.init ⟨0, rfl⟩) hrun) hpool).2
  rw [hlent] at hexact
  exact ⟨w, pool, hrun, hpool, hlent, hexact⟩

-- ==================================================== supply and demand

/-- Connections come in through `connect` alone. -/
def Action.viaConnect : Action K T → Bool
  | .link .. => false
  | .put .. => false
  | .get _ => false
  | _ => true

section Demand

variable [DecidableEq K] {w w' : World K T}

/-- The connections of a key that are idle, lent or being opened. -/
def World.supply (w : World K T) (k : K) : Nat :=
  (w.queue k).length + w.demand k

theorem World.lentFor_issue (w : World K T) (p : Pooled K T) (k : K) :
    (w.issue p).lentFor k
      = w.lentFor k + if p.key = some k then 1 else 0 :=
  tally_update_next (some p)

/-- A handle goes. -/
theorem World.lentFor_update {h : Nat} {p : Pooled K T}
    (hp : w.handles h = some p) (hlt : h < w.nextHandle) (k : K) :
    tally (fun p => if p.bind Pooled.key = some k then 1 else 0)
        (Function.update w.handles h none) w.nextHandle
      + (if p.key = some k then 1 else 0) = w.lentFor k := by
  have hsum := tally_update (fun p : Option (Pooled K T) =>
    if p.bind Pooled.key = some k then 1 else 0) w.handles hlt
      none
  rw [hp] at hsum
  exact hsum

/-- A pool that is there takes connections out at the front. -/
theorem World.get_front_cases {m : Nat} (hw : w.Alive m) {key : K}
    {r : Option (Pooled K T)} (h : w.get key = some (w', r)) :
    (r = none ∧ w.queue key = [] ∧ w'.queue = w.queue
        ∧ w'.handles = w.handles ∧ w'.nextHandle = w.nextHandle
        ∧ w'.connecting = w.connecting)
      ∨ ∃ e rest, r = some (Pooled.new key e.conn true)
        ∧ w.queue key = e :: rest
        ∧ (∀ k, w'.queue k = if k = key then rest else w.queue k)
        ∧ w'.lentFor = (fun k => w.lentFor k
            + if key = k then 1 else 0)
        ∧ w'.connecting = w.connecting := by
  obtain ⟨pool, hpool, hr, hw'⟩ := World.get_cases h
  obtain ⟨pool', hpool', -, hdur⟩ := hw
  rw [hpool] at hpool'
  cases hpool'
  have hres := (get_eq pool w.now key).1
  rw [hdur, getLoop_none, hr] at hres
  have hqueue : ∀ k, (pool.get w.now key).pool.queue k
      = if k = key then (pool.queue key).tail else pool.queue k := by
    intro k
    rw [queue_get, hdur, getLoop_none]
  have hq := World.queue_of_pool hpool
  rcases hw' with ⟨rfl, rfl⟩ | ⟨p, rfl, rfl⟩
  -- nothing expires in this pool, so nothing found is nothing there
  · have hnil : pool.queue key = [] := by
      cases hk : pool.queue key with
      | nil => rfl
      | cons e rest => simp [hk] at hres
    refine Or.inl ⟨rfl, (hq key).trans hnil, ?_, rfl, rfl, rfl⟩
    funext k
    rw [hq k, World.queue_of_pool (w := w.settle (pool.get w.now key)) rfl,
      hqueue k]
    split
    next hk => rw [hk, hnil, List.tail_nil]
    next => rfl
  · cases hk : pool.queue key with
    | nil => simp [hk] at hres
    | cons e rest =>
        have hp : p = Pooled.new key e.conn true := by
          simpa [hk] using hres
        subst hp
        refine Or.inr ⟨e, rest, rfl, (hq key).trans hk, fun k => ?_, ?_,
          rfl⟩
        · rw [hq k, World.queue_of_pool
            (w := (w.settle (pool.get w.now key)).issue _) rfl, hqueue k,
            hk, List.tail_cons]
        · funext k
          rw [World.lentFor_issue]
          show w.lentFor k + _ = _
          simp only [Pooled.new, Option.some.injEq]

/-- `connect` opens a connection only when its key has none idle. -/
theorem World.queue_of_connect {m : Nat} (hw : w.Alive m) {key : K}
    (h : w.connect key = some (w', none)) : w.queue key = [] := by
  obtain ⟨w₁, hget, -⟩ := World.connect_eq_some h
  rcases World.get_front_cases hw hget with ⟨-, hnil, -⟩ |
    ⟨e, rest, hr, -⟩
  · exact hnil
  · cases hr

/-- `connect` leaves the supply of a key as it was, or its queue
empty. -/
theorem World.supply_connect {m : Nat} (hw : w.Alive m) {key : K}
    {r : Option (Pooled K T)} (h : w.connect key = some (w', r)) (k : K) :
    w'.supply k ≤ w.supply k ∨ w'.queue k = [] := by
  unfold World.connect at h
  split at h
  next w₁ p hget =>
    cases h
    rcases World.get_front_cases hw hget with ⟨hr, -⟩ |
      ⟨e, rest, -, hq, hqueue, hlent, hconn⟩
    · cases hr
    · apply Or.inl
      unfold World.supply World.demand
      rw [hqueue k, hlent, hconn]
      by_cases hk : k = key
      · subst hk
        simp only [if_true, hq, List.length_cons]
        omega
      · have hk' : key ≠ k := fun he => hk he.symm
        simp only [if_neg hk, if_neg hk']
        omega
  next w₁ hget =>
    cases h
    rcases World.get_front_cases hw hget with
      ⟨-, hnil, hqueue, hhandles, hnext, hconn⟩ | ⟨e, rest, hr, -⟩
    · by_cases hk : k = key
      · subst hk
        exact Or.inr ((congrFun hqueue k).trans hnil)
      · have hk' : key ≠ k := fun he => hk he.symm
        refine Or.inl (Nat.le_of_eq ?_)
        show (w₁.queue k).length
          + (w₁.lentFor k + (key :: w₁.connecting).count k) = w.supply k
        rw [List.count_cons_of_ne hk', hqueue, hconn]
        unfold World.supply World.demand World.lentFor
        rw [hhandles, hnext]
    · cases hr
  next => cases h

/-- A dropped handle is one less, and at most one more idle. -/
theorem World.supply_drop {l : Custody T K Nat} (tr : w.Tracks l) {h : Nat}
    {isOpen : Bool} (hs : w.drop h isOpen = some w') (k : K) :
    w'.supply k ≤ w.supply k := by
  obtain ⟨p, hp, rfl⟩ := World.drop_eq_some hs
  have hlt : h < w.nextHandle := by
    by_contra hle
    rw [tr.fresh h (Nat.le_of_not_lt hle)] at hp
    cases hp
  have hlent := World.lentFor_update hp hlt k
  unfold World.supply World.demand World.lentFor at *
  dsimp only
  rcases p.drop_cases w.now isOpen w.pool with heq |
    ⟨pool, key, -, hpool, hkey, heq⟩
  · rw [heq]
    show (w.queue k).length + _ ≤ _
    omega
  · rw [heq, World.queue_of_pool (show _
      = some (pool.giveBack w.now key p.value).pool from rfl),
      World.queue_of_pool hpool, PoolInner.giveBack, queue_insertIdle]
    simp only [hkey, Option.some.injEq] at hlent
    by_cases hk : k = key
    · subst hk
      simp only [if_true, List.length_append, List.length_drop,
        List.length_singleton] at hlent ⊢
      omega
    · have hk' : key ≠ k := fun he => hk he.symm
      simp only [if_neg hk, if_neg hk'] at hlent ⊢
      omega

variable [DecidableEq T]

/-- `connect` finds a pool there. -/
theorem alive_of_connect {idleInterval maxIdle : Option Nat}
    (hr : (World.machine idleInterval maxIdle).Reachable w) {key : K}
    {r : Option (Pooled K T)} (h : w.connect key = some (w', r)) :
    w.Alive (resolveMaxIdle maxIdle) := by
  obtain ⟨w₁, hget, -⟩ := World.connect_eq_some h
  obtain ⟨pool, hpool, -⟩ := World.get_cases hget
  exact ⟨pool, hpool, limits_of_reachable hr pool hpool⟩

/-- A connection that was being opened is lent. -/
theorem World.supply_connected {key : K} {c : T}
    (h : w.connected key c = some w') (k : K) :
    w'.supply k = w.supply k := by
  have hmem : key ∈ w.connecting := by
    unfold World.connected at h
    split at h
    next hmem => exact hmem
    next => cases h
  obtain ⟨-, rfl⟩ := World.link_eq_some (World.connected_eq_some h)
  unfold World.supply World.demand
  rw [World.lentFor_issue]
  show (w.queue k).length
    + (w.lentFor k + (if some key = some k then 1 else 0)
      + (w.connecting.erase key).count k)
    = (w.queue k).length + (w.lentFor k + w.connecting.count k)
  by_cases hk : k = key
  · subst hk
    have hpos := List.count_pos_iff.mpr hmem
    rw [List.count_erase_self, if_pos rfl]
    omega
  · have hk' : some key ≠ some k := fun he => hk (Option.some.inj he).symm
    rw [List.count_erase_of_ne hk, if_neg hk']
    rfl

/-- A step of `connect`, of the handles or of the sweeps leaves the
supply of a key no greater, or its queue empty. -/
theorem supply_step {idleInterval maxIdle : Option Nat}
    (hr : (World.machine idleInterval maxIdle).Reachable w)
    {a : Action K T} (ha : a.viaConnect = true)
    (h : w.step a = some w') (k : K) :
    w'.supply k ≤ w.supply k ∨ w'.queue k = [] := by
  cases a with
  | link | put | get => cases ha
  | tick dt =>
      cases h
      exact Or.inl (Nat.le_refl _)
  | drop hd isOpen =>
      obtain ⟨l, -, tr⟩ := exists_custody hr
      exact Or.inl (World.supply_drop tr h k)
  | clearExpired dur =>
      obtain ⟨pool, hpool, rfl⟩ := Option.map_eq_some_iff.mp h
      refine Or.inl (Nat.add_le_add_right ?_ _)
      rw [World.queue_of_pool (w := w.settle (pool.clearExpired w.now dur))
        rfl, World.queue_of_pool hpool, queue_clearExpired]
      exact List.length_filter_le _ _
  | pollIdle ticks =>
      obtain ⟨task, htask, rfl⟩ := World.pollIdle_eq_some h
      refine Or.inl (Nat.add_le_add_right ?_ _)
      unfold World.queue
      dsimp only
      cases hpool : w.pool with
      | none =>
          rw [poll_none]
      | some pool =>
          rw [queue_poll]
          split
          next => exact Nat.le_refl _
          next => exact List.length_filter_le _ _
  | dropPool =>
      obtain ⟨pool, hpool, rfl⟩ := World.dropPool_eq_some h
      exact Or.inr rfl
  | connect key =>
      obtain ⟨⟨w₁, r⟩, hconn, rfl⟩ := Option.map_eq_some_iff.mp h
      exact World.supply_connect (alive_of_connect hr hconn) hconn k
  | connected key c => exact Or.inl (World.supply_connected h k).le
  | connectFailed key =>
      rw [World.connectFailed_eq_some h]
      refine Or.inl (Nat.add_le_add_left (Nat.add_le_add_left ?_ _) _)
      exact List.Sublist.count_le k List.erase_sublist

/-- So a bound on the demand bounds the supply. -/
theorem supply_le_of_step {idleInterval maxIdle : Option Nat}
    (hr : (World.machine idleInterval maxIdle).Reachable w)
    {a : Action K T} (ha : a.viaConnect = true)
    (h : w.step a = some w') {k : K} {peak : Nat}
    (hle : w.supply k ≤ peak) (hdemand : w'.demand k ≤ peak) :
    w'.supply k ≤ peak := by
  rcases supply_step hr ha h k with hless | hnil
  · exact Nat.le_trans hless hle
  · rw [World.supply, hnil]
    show 0 + w'.demand k ≤ peak
    omega

omit [DecidableEq T] in
/-- Nothing is supplied at first. -/
theorem supply_new (now : Nat) (idleInterval maxIdle : Option Nat) (k : K) :
    (World.new now idleInterval maxIdle : World K T).supply k = 0 := by
  have hnil : (World.new now idleInterval maxIdle : World K T).queue k
      = [] := by
    cases idleInterval <;> exact queue_empty k
  rw [World.supply, hnil]
  rfl

/-- While connections come in through `connect` alone, and no more than
`peak` of a key are ever lent or being opened at once, no more than
`peak` are ever idle, lent or being opened; and a `connect` that opens
another finds none idle. -/
theorem supply_le_peak {idleInterval maxIdle : Option Nat} {peak : Nat}
    {k : K}
    (hr : (World.machine idleInterval maxIdle).ReachableUnder
      (fun w a => a.viaConnect = true
        ∧ ∀ w', w.step a = some w' → w'.demand k ≤ peak) w) :
    (w.queue k).length + w.demand k ≤ peak
      ∧ ∀ w', w.connect k = some (w', none) → w.queue k = [] := by
  refine ⟨?_, fun w' h =>
    World.queue_of_connect (alive_of_connect hr.reachable h) h⟩
  refine hr.invariant (I := fun w => w.supply k ≤ peak) ?_ ?_
  · intro w hinit
    obtain ⟨now, rfl⟩ := hinit
    rw [supply_new]
    exact Nat.zero_le _
  · intro w a w' hrw ih hc h
    exact supply_le_of_step hrw.reachable hc.1 h ih (hc.2 w' h)

end Demand

/-- One at a time: however often a connection is asked for and given
back, there is one; and when it is lent, asking for another finds none
idle. -/
theorem supply_le_peak_one :
    ∃ w w' : World Nat Nat,
      (World.machine none none).run (World.new 0 none none)
          [.connect 7, .connected 7 1, .drop 0 true, .connect 7] = some w
        ∧ w.demand 7 = 1 ∧ (w.queue 7).length + w.demand 7 ≤ 1
        ∧ w.connect 7 = some (w', none) ∧ w.queue 7 = [] := by
  obtain ⟨w, w', hrun, hr, hd, hconn⟩ : ∃ w w' : World Nat Nat,
      (World.machine none none).run (World.new 0 none none)
          [.connect 7, .connected 7 1, .drop 0 true, .connect 7] = some w
        ∧ (World.machine none none).ReachableUnder
          (fun w a => a.viaConnect = true
            ∧ ∀ w', w.step a = some w' → w'.demand 7 ≤ 1) w
        ∧ w.demand 7 = 1 ∧ w.connect 7 = some (w', none) := by
    refine ⟨_, _, rfl, ?_, rfl, rfl⟩
    refine .step (a := .connect 7) (.step (a := .drop 0 true)
      (.step (a := .connected 7 1) (.step (a := .connect 7)
        (.init ⟨0, rfl⟩) ?_ rfl) ?_ rfl) ?_ rfl) ?_ rfl
    all_goals
      refine ⟨rfl, fun w' h => ?_⟩
      cases h
      decide
  obtain ⟨hle, hnone⟩ := supply_le_peak hr
  exact ⟨w, w', hrun, hd, hle, hconn, hnone w' hconn⟩

end MonoioTransports.Pool
