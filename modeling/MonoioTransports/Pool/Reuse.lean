/-
The reuse flag (src/pool/reuse.rs), and the pool of a
`PooledConnector<ReuseConnector<C>>` (src/pool/connector.rs) as a
machine: whoever holds a connection says with `set_reuse` whether it may
be used again, and the pool goes by that.

# Reading the model

- A connection is named by the transport inside, an element of `T`;
  `conns` gives the `Reuse` around it.
- `resolved` is the end of a `connect` call: what the inner connector
  returned goes through `ReuseConnector::connect` and, if it is a
  connection, through `link`.
- `pool` takes the other actions of a pool (Pool/World.lean) as they
  are. Nobody reaches past the connector to its pool.
-/
import MonoioTransports.Pool.World

namespace MonoioTransports.Pool

open Lib

variable {K T ε : Type}

-- ================================================================ the flag

/-- `Reuse`. -/
structure Reuse (T : Type) where
  inner : T
  reuse : Bool
  deriving DecidableEq, Repr

/-- `Reuse::new`. -/
def Reuse.new (inner : T) (reuse : Bool) : Reuse T :=
  { inner := inner, reuse := reuse }

/-- `Reuse::set_reuse`. -/
def Reuse.setReuse (self : Reuse T) (reuse : Bool) : Reuse T :=
  { self with reuse := reuse }

/-- `Poolable for Reuse`. -/
def Reuse.isOpen (self : Reuse T) : Bool := self.reuse

/-- `ReuseConnector::connect`, from what the inner connector returned. -/
def reuseConnect (r : Except ε T) : Except ε (Reuse T) :=
  r.map fun c => Reuse.new c true

-- ============================================================ the machine

/-- A pool, and the `Reuse` around each of its transports. -/
structure ReuseWorld (K T : Type) where
  world : World K T
  conns : T → Reuse T

/-- A fresh pool. -/
def ReuseWorld.new (now : Nat) (idleInterval maxIdle : Option Nat) :
    ReuseWorld K T where
  world := World.new now idleInterval maxIdle
  conns := fun c => Reuse.new c true

/-- One run of the executor: the pool moves, a `connect` call ends, or the
task that holds the handle `h` acts on it. -/
inductive ReuseAction (K T ε : Type)
  | pool (a : Action K T)
  | resolved (k : K) (r : Except ε T)
  | setReuse (h : Nat) (reuse : Bool)
  | dropHandle (h : Nat)

/-- The actions of the pool that this machine takes over as they are. -/
def Action.beside : Action K T → Bool
  | .tick _ => true
  | .clearExpired _ => true
  | .pollIdle _ => true
  | .dropPool => true
  | .connect _ => true
  | _ => false

section Operations

variable [DecidableEq K] [DecidableEq T]

/-- The inner connector returned. -/
def ReuseWorld.resolved (s : ReuseWorld K T) (k : K) (r : Except ε T) :
    Option (ReuseWorld K T) :=
  match reuseConnect r with
  | .ok conn =>
      (s.world.step (.connected k conn.inner)).map fun w =>
        { world := w
          conns := Function.update s.conns conn.inner conn }
  | .error _ =>
      (s.world.step (.connectFailed k)).map fun w => { s with world := w }

/-- A task calls `set_reuse` on its connection. -/
def ReuseWorld.setReuse (s : ReuseWorld K T) (h : Nat) (reuse : Bool) :
    Option (ReuseWorld K T) :=
  (s.world.handles h).map fun p =>
    { s with
      conns := Function.update s.conns p.value
        ((s.conns p.value).setReuse reuse) }

/-- A task drops its handle. -/
def ReuseWorld.dropHandle (s : ReuseWorld K T) (h : Nat) :
    Option (ReuseWorld K T) :=
  match s.world.handles h with
  | some p =>
      (s.world.drop h (s.conns p.value).isOpen).map fun w =>
        { s with world := w }
  | none => none

/-- The state after an action, if it is enabled. -/
def ReuseWorld.step (s : ReuseWorld K T) :
    ReuseAction K T ε → Option (ReuseWorld K T)
  | .pool a =>
      if a.beside then (s.world.step a).map fun w => { s with world := w }
      else none
  | .resolved k r => s.resolved k r
  | .setReuse h reuse => s.setReuse h reuse
  | .dropHandle h => s.dropHandle h

/-- The runs of a connector whose pool was built so. -/
def ReuseWorld.machine (idleInterval maxIdle : Option Nat) :
    Machine (ReuseWorld K T) (ReuseAction K T ε) where
  init := fun s => ∃ now, s = ReuseWorld.new now idleInterval maxIdle
  step := ReuseWorld.step

end Operations

end MonoioTransports.Pool
