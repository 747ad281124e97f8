/-
The connection pool (src/pool/mod.rs): idle entries, the keyed idle
queues, the handles given out, and the task that sweeps them.

# Reading the model

- An `Instant` or a `Duration` is a `Nat` of nanoseconds; every
  operation reads the clock once, as its argument `now`.
- `HashMap<K, VecDeque<Idle<T>>>` is an association list with distinct
  keys whose values are lists, front first.
- A value that goes out of scope inside an operation is reported in
  `dropped`, in the order the destructors run: `let _ = queue.pop_front()`
  and the entries a `retain` rejects end there.
- The shared `Rc<UnsafeCell<PoolInner>>` is an `Option (PoolInner K T)`:
  `none` once the last owner is gone, which is what a `Weak::upgrade`
  observes. A `Pooled` knows of one pool at most, so its `Weak` is a
  flag.
- `is_open` is not a function of the value here: callers pass what it
  returned at that moment.

The feature `time` (on by default) is modelled as enabled.
-/
import MonoioTransports.Lib.Keyed

namespace MonoioTransports.Pool

open Lib

variable {K T : Type}

-- ============================================================ constants

/-- `DEFAULT_KEEPALIVE_CONNS`. -/
def defaultKeepaliveConns : Nat := 256

/-- `MAX_KEEPALIVE_CONNS`. -/
def maxKeepaliveConns : Nat := 16384

/-- `MIN_INTERVAL`, one second. -/
def minInterval : Nat := 1000000000

-- ========================================================= idle entries

/-- A connection at rest and the instant it came to rest. -/
structure Idle (T : Type) where
  conn : T
  idleAt : Nat
  deriving DecidableEq, Repr

/-- `Idle::new`. -/
def Idle.new (now : Nat) (io : T) : Idle T :=
  { conn := io, idleAt := now }

/-- `self.idle_at.elapsed() > max_elapsed`; `elapsed` saturates. -/
def Idle.expired (now maxElapsed : Nat) (idle : Idle T) : Bool :=
  decide (now - idle.idleAt > maxElapsed)

/-- `Idle::expired_opt`. -/
def Idle.expiredOpt (now : Nat) (maxElapsed : Option Nat)
    (idle : Idle T) : Bool :=
  match maxElapsed with
  | some e => decide (now - idle.idleAt > e)
  | none => false

/-- `Idle::reset_idle`. -/
def Idle.resetIdle (now : Nat) (idle : Idle T) : Idle T :=
  { idle with idleAt := now }

-- ============================================================= the pool

/-- `PoolInner`. `dropRx` is the receiver whose destruction tells the
idle task that the pool is gone. -/
structure PoolInner (K T : Type) where
  idleConns : AList fun _ : K => List (Idle T)
  maxIdle : Nat
  idleDur : Option Nat
  dropRx : Bool

/-- The limit a `max_idle` argument stands for. -/
def resolveMaxIdle (maxIdle : Option Nat) : Nat :=
  (maxIdle.map fun n => min n maxKeepaliveConns).getD defaultKeepaliveConns

/-- `PoolInner::new_with_dropper`; the sender it returns is held by the
idle task. -/
def PoolInner.newWithDropper (maxIdle : Option Nat) : PoolInner K T where
  idleConns := ∅
  maxIdle := resolveMaxIdle maxIdle
  idleDur := none
  dropRx := true

/-- `PoolInner::new`. -/
def PoolInner.new (maxIdle : Option Nat) : PoolInner K T where
  idleConns := ∅
  maxIdle := resolveMaxIdle maxIdle
  idleDur := none
  dropRx := false

/-- What an operation on the pool leaves: its result, the pool, and the
values it dropped. -/
structure Effect (K T ρ : Type) where
  result : ρ
  pool : PoolInner K T
  dropped : List T

/-- The idle queue of a key, front first. -/
def PoolInner.queue [DecidableEq K] (pool : PoolInner K T) (key : K) :
    List (Idle T) :=
  Lib.queue pool.idleConns key

/-- `PoolInner::clear_expired`. -/
def PoolInner.clearExpired (pool : PoolInner K T) (now dur : Nat) :
    Effect K T Unit where
  result := ()
  pool := { pool with
    idleConns := retainMut
      (fun _ values =>
        let values := values.filter fun entry => !entry.expired now dur
        (values, !values.isEmpty))
      pool.idleConns }
  dropped := collect
    (fun values => (values.filter fun entry => entry.expired now dur).map
      Idle.conn)
    pool.idleConns

-- ========================================================== the handles

/-- `Pooled`: a connection on loan. The key is present whenever there is
a pool to return to, so the `expect` in `drop` cannot fail. -/
structure Pooled (K T : Type) where
  value : T
  isReused : Bool
  key : Option K
  pool : Bool
  key_isSome : pool = true → key.isSome = true
  deriving DecidableEq

/-- `Pooled::new`. -/
def Pooled.new (key : K) (value : T) (isReused : Bool) : Pooled K T where
  value := value
  isReused := isReused
  key := some key
  pool := true
  key_isSome := fun _ => rfl

/-- The insertion both `Pooled::drop` and `ConnectionPool::put` write
out: when `full len max_idle`, pop the excess and then one entry more;
push the new entry in any case. They differ in `full`. -/
def insertIdle [DecidableEq K] (full : Nat → Nat → Bool)
    (pool : PoolInner K T) (now : Nat) (key : K) (conn : T) :
    Effect K T Unit :=
  let queue := (pool.idleConns.lookup key).getD []
  let popped :=
    if full queue.length pool.maxIdle then
      let excess := popFronts (queue.length - pool.maxIdle) queue
      let last := popFront excess.2
      (excess.1 ++ last.1.toList, last.2)
    else ([], queue)
  { result := ()
    pool := { pool with
      idleConns := pool.idleConns.insert key
        (popped.2 ++ [Idle.new now conn]) }
    dropped := popped.1.map Idle.conn }

/-- The insertion of `Pooled::drop`: `queue.len() >= pool.max_idle`. -/
def PoolInner.giveBack [DecidableEq K] (pool : PoolInner K T) (now : Nat)
    (key : K) (value : T) : Effect K T Unit :=
  insertIdle (fun len maxIdle => decide (len ≥ maxIdle)) pool now key value

/-- `ConnectionPool::put`: `queue.len() > inner.max_idle`. -/
def PoolInner.put [DecidableEq K] (pool : PoolInner K T) (now : Nat)
    (key : K) (conn : T) : Effect K T Unit :=
  insertIdle (fun len maxIdle => decide (len > maxIdle)) pool now key conn

/-- `Pooled::drop`: what is left of the shared pool, and the dropped
values. `isOpen` is what `value.is_open()` returned. -/
def Pooled.drop [DecidableEq K] (self : Pooled K T) (now : Nat)
    (isOpen : Bool) (shared : Option (PoolInner K T)) :
    Option (PoolInner K T) × List T :=
  if !isOpen then (shared, [self.value])
  else if self.pool then
    match shared, self.key with
    | some pool, some key =>
        let e := pool.giveBack now key self.value
        (some e.pool, e.dropped)
    | _, _ => (shared, [self.value])
  else (shared, [self.value])

-- ======================================================= ConnectionPool

/-- What the loop of `get` comes to on one queue. -/
structure Popped (T : Type) where
  conn : Option T
  rest : List (Idle T)
  dropped : List T

/-- The loop of `get`: pop the front until an entry is not expired. -/
def getLoop (now : Nat) (idleDur : Option Nat) : List (Idle T) → Popped T
  | [] => { conn := none, rest := [], dropped := [] }
  | idle :: rest =>
      if !idle.expiredOpt now idleDur then
        { conn := some idle.conn, rest := rest, dropped := [] }
      else
        let r := getLoop now idleDur rest
        { r with dropped := idle.conn :: r.dropped }

/-- `ConnectionPool::get`. -/
def PoolInner.get [DecidableEq K] (pool : PoolInner K T) (now : Nat)
    (key : K) : Effect K T (Option (Pooled K T)) :=
  match pool.idleConns.lookup key with
  | some v =>
      let r := getLoop now pool.idleDur v
      { result := r.conn.map fun conn => Pooled.new key conn true
        pool := { pool with idleConns := pool.idleConns.insert key r.rest }
        dropped := r.dropped }
  | none => { result := none, pool := pool, dropped := [] }

/-- `ConnectionPool::link`. -/
def link (key : K) (conn : T) : Pooled K T := Pooled.new key conn false

/-- `ConnectionPool::and_then_mut`. The closure may change what it
captured, here the `env` it is handed. -/
def PoolInner.andThenMut [DecidableEq K] {ε ο : Type}
    (pool : PoolInner K T) (key : K) (env : ε)
    (f : ε → List (Idle T) → ε × List (Idle T) × Option ο) :
    ε × PoolInner K T × Option ο :=
  match pool.idleConns.lookup key with
  | some v =>
      let r := f env v
      (r.1, { pool with idleConns := pool.idleConns.insert key r.2.1 },
        r.2.2)
  | none => (env, pool, none)

/-- `ConnectionPool::get_idle_connection_count`. -/
def PoolInner.getIdleConnectionCount (pool : PoolInner K T) : Nat :=
  (pool.idleConns.entries.map fun e => e.2.length).foldl (· + ·) 0

-- ======================================================== the idle task

/-- The data of `IdleTask` besides its two ends of the pool. -/
structure IdleTask where
  interval : Nat
  idleDur : Nat
  deriving DecidableEq, Repr

/-- `ConnectionPool::new_with_idle_interval`. -/
def newWithIdleInterval (idleInterval maxIdle : Option Nat) :
    PoolInner K T × Option IdleTask :=
  match idleInterval with
  | some idleInterval =>
      (PoolInner.newWithDropper maxIdle,
        some { interval := max idleInterval minInterval
               idleDur := idleInterval })
  | none => (PoolInner.new maxIdle, none)

/-- `IdleTask::poll` when `ticks` interval ticks are due: whether the
task has finished, what is left of the pool, and the dropped values. -/
def IdleTask.poll (task : IdleTask) (now : Nat) :
    Nat → Option (PoolInner K T) → Bool × Option (PoolInner K T) × List T
  | _, none => (true, none, [])
  | 0, some pool => (false, some pool, [])
  | ticks + 1, some pool =>
      let e := pool.clearExpired now task.idleDur
      let r := task.poll now ticks (some e.pool)
      (r.1, r.2.1, e.dropped ++ r.2.2)

end MonoioTransports.Pool
