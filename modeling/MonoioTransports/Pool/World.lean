/-
One pool and everything that refers to it, as a machine: the shared
queues, the handles the tasks hold, the `PooledConnector::connect` calls
suspended at the inner connector, the idle task, and a clock that only
moves forward.

# One action, one run of the executor

The runtime is single-threaded, so what happens between two awaits is
one step. `connect` has one await; it is split there into `connect` (up
to the inner connector) and `connected` or `connectFailed` (from its
result to the end). A cancelled call is a failed one: nothing is held
across the await but the key.

# Ghosts

`entered` and `discarded` record what came in, under which key, and
whose destructor ran. The step function reads `entered` only to refuse
a connection that entered before.
-/
import MonoioTransports.Lib.Machine
import MonoioTransports.Pool.Queues
import Mathlib.Logic.Function.Basic

namespace MonoioTransports.Pool

open Lib

variable {K T : Type}

-- =============================================================== states

/-- The clock; the shared pool, while it lives, and the task that sweeps it;
the live handles by number; the keys of the suspended calls; then the
two ghosts. -/
structure World (K T : Type) where
  now : Nat
  pool : Option (PoolInner K T)
  idleTask : Option IdleTask
  handles : Nat → Option (Pooled K T)
  nextHandle : Nat
  connecting : List K
  entered : List (K × T)
  discarded : List T

/-- A fresh pool, as its constructor leaves it. -/
def World.new (now : Nat) (idleInterval maxIdle : Option Nat) :
    World K T where
  now := now
  pool := some (newWithIdleInterval idleInterval maxIdle).1
  idleTask := (newWithIdleInterval (K := K) (T := T)
    idleInterval maxIdle).2
  handles := fun _ => none
  nextHandle := 0
  connecting := []
  entered := []
  discarded := []

/-- The idle queue of a key; nothing is idle when the pool is gone. -/
def sharedQueue [DecidableEq K] (shared : Option (PoolInner K T)) (k : K) :
    List (Idle T) :=
  match shared with
  | some pool => pool.queue k
  | none => []

/-- The idle queue of a key in a world. -/
def World.queue [DecidableEq K] (w : World K T) (k : K) : List (Idle T) :=
  sharedQueue w.pool k

/-- The idle connections of a key, front first. -/
def World.conns [DecidableEq K] (w : World K T) (k : K) : List T :=
  (w.queue k).map Idle.conn

/-- A live handle owns the connection. -/
def World.Owns (w : World K T) (h : Nat) (c : T) : Prop :=
  ∃ p, w.handles h = some p ∧ p.value = c

theorem World.queue_of_pool [DecidableEq K] {w : World K T}
    {pool : PoolInner K T} (h : w.pool = some pool) (k : K) :
    w.queue k = pool.queue k := by
  rw [World.queue, h]
  rfl

theorem World.conns_of_pool [DecidableEq K] {w : World K T}
    (pool : PoolInner K T) (h : w.pool = some pool) :
    w.conns = fun k => (pool.queue k).map Idle.conn := by
  funext k
  rw [World.conns, World.queue_of_pool h]

/-- One run of the executor: the clock, an operation of the pool or of a
`connect` call, or a task that drops the handle `h`. -/
inductive Action (K T : Type)
  | tick (dt : Nat)
  | link (k : K) (c : T)
  | put (k : K) (c : T)
  | get (k : K)
  | drop (h : Nat) (isOpen : Bool)
  | clearExpired (dur : Nat)
  | pollIdle (ticks : Nat)
  | dropPool
  | connect (k : K)
  | connected (k : K) (c : T)
  | connectFailed (k : K)
  deriving DecidableEq, Repr

/-- The connection an action brings in. -/
def Action.entering : Action K T → Option T
  | .link _ c => some c
  | .put _ c => some c
  | .connected _ c => some c
  | _ => none

-- ============================================================ operations

/-- Give a handle to the caller. -/
def World.issue (w : World K T) (p : Pooled K T) : World K T :=
  { w with
    handles := Function.update w.handles w.nextHandle (some p)
    nextHandle := w.nextHandle + 1 }

/-- Take over what an operation left of the pool. -/
def World.settle {ρ : Type} (w : World K T) (e : Effect K T ρ) :
    World K T :=
  { w with pool := some e.pool, discarded := w.discarded ++ e.dropped }

section Operations

variable [DecidableEq K] [DecidableEq T]

/-- A connection that never entered. -/
def World.Fresh (w : World K T) (c : T) : Prop :=
  ∀ k, (k, c) ∉ w.entered

omit [DecidableEq K] [DecidableEq T] in
theorem World.fresh_iff (w : World K T) (c : T) :
    w.Fresh c ↔ c ∉ w.entered.map Prod.snd := by
  simp [World.Fresh]

/-- What entered is a list, so it can be looked through. -/
instance (w : World K T) (c : T) : Decidable (w.Fresh c) :=
  decidable_of_iff _ (w.fresh_iff c).symm

/-- `ConnectionPool::get`, with the handle it returns. -/
def World.get (w : World K T) (k : K) :
    Option (World K T × Option (Pooled K T)) :=
  match w.pool with
  | some pool =>
      let e := pool.get w.now k
      match e.result with
      | some p => some ((w.settle e).issue p, some p)
      | none => some (w.settle e, none)
  | none => none

/-- `ConnectionPool::link`. -/
def World.link (w : World K T) (k : K) (c : T) : Option (World K T) :=
  if w.pool.isSome ∧ w.Fresh c then
    some ({ w with entered := (k, c) :: w.entered }.issue (Pool.link k c))
  else none

/-- `ConnectionPool::put`. -/
def World.put (w : World K T) (k : K) (c : T) : Option (World K T) :=
  match w.pool with
  | some pool =>
      if w.Fresh c then
        some ({ w with entered := (k, c) :: w.entered }.settle
          (pool.put w.now k c))
      else none
  | none => none

/-- A task drops its handle. -/
def World.drop (w : World K T) (h : Nat) (isOpen : Bool) :
    Option (World K T) :=
  match w.handles h with
  | some p =>
      let r := p.drop w.now isOpen w.pool
      some { w with
        pool := r.1
        handles := Function.update w.handles h none
        discarded := w.discarded ++ r.2 }
  | none => none

/-- The idle task is polled when `ticks` interval ticks are due. -/
def World.pollIdle (w : World K T) (ticks : Nat) : Option (World K T) :=
  match w.idleTask with
  | some task =>
      let r := task.poll w.now ticks w.pool
      some { w with
        pool := r.2.1
        idleTask := if r.1 then none else some task
        discarded := w.discarded ++ r.2.2 }
  | none => none

/-- The last owner drops the pool; a suspended `connect` borrows one. -/
def World.dropPool (w : World K T) : Option (World K T) :=
  match w.pool with
  | some pool =>
      if w.connecting = [] then
        some { w with
          pool := none
          discarded := w.discarded
            ++ collect (List.map Idle.conn) pool.idleConns }
      else none
  | none => none

/-- `PooledConnector::connect` up to its await: the pooled handle, or a
call suspended at the inner connector. `H1Connector::connect` with a
pool has the same two halves; its value is the `Http1Connection` it
wraps the transport in. -/
def World.connect (w : World K T) (k : K) :
    Option (World K T × Option (Pooled K T)) :=
  match w.get k with
  | some (w', some p) => some (w', some p)
  | some (w', none) =>
      some ({ w' with connecting := k :: w'.connecting }, none)
  | none => none

/-- `PooledConnector::connect` after the inner connector returned. -/
def World.connected (w : World K T) (k : K) (c : T) : Option (World K T) :=
  if k ∈ w.connecting then
    { w with connecting := w.connecting.erase k }.link k c
  else none

/-- The state after an action, if it is enabled. -/
def World.step (w : World K T) : Action K T → Option (World K T)
  | .tick dt => some { w with now := w.now + dt }
  | .link k c => w.link k c
  | .put k c => w.put k c
  | .get k => (w.get k).map Prod.fst
  | .drop h isOpen => w.drop h isOpen
  | .clearExpired dur =>
      w.pool.map fun pool => w.settle (pool.clearExpired w.now dur)
  | .pollIdle ticks => w.pollIdle ticks
  | .dropPool => w.dropPool
  | .connect k => (w.connect k).map Prod.fst
  | .connected k c => w.connected k c
  | .connectFailed k =>
      if k ∈ w.connecting then
        some { w with connecting := w.connecting.erase k }
      else none

/-- The runs of a pool built with the given arguments. -/
def World.machine (idleInterval maxIdle : Option Nat) :
    Machine (World K T) (Action K T) where
  init := fun w => ∃ now, w = World.new now idleInterval maxIdle
  step := World.step

end Operations

end MonoioTransports.Pool
