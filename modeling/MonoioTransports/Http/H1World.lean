/-
One pool of HTTP/1.1 connections and the tasks that use it, as a
machine: `H1Connector` with a pool, and the HTTP/1.1 half of
`HttpConnector`.

# Reading the model

- A connection is named by its transport, an element of `C`; `conns`
  gives the `Http1Connection` around it.
- A `send_request` future borrows its handle, so there is at most one a
  handle (`sends`), and the handle cannot be dropped before it.
- Dropping a future (`cancel`) leaves the fields of the connection as
  they are. Dropping a handle asks `is_open` of those fields.
- `pool` takes the actions of a pool (Pool/World.lean) but the two that
  this machine refines: a direct `put`, which no connector does on this
  pool, and the drop of a handle.

# Ghosts

`abandoned` records the connections with a `send_request` that was
dropped midway, and on which handle. `leftover` records the connections
on which a request was started after that. The rest of the state does
not depend on either.
-/
import MonoioTransports.Http.Connection
import MonoioTransports.Pool.World

namespace MonoioTransports.Http

open Lib Pool

variable {K C π δ ε : Type}

/-- A pool, the connections around its transports, and the futures of
`send_request` by the handle they borrow; then the two ghosts. -/
structure H1World (K C π δ : Type) where
  world : World K C
  conns : C → Http1Connection C
  sends : Nat → Option (SendState π δ)
  abandoned : List (C × Nat)
  leftover : List C

/-- A fresh pool. -/
def H1World.new (now : Nat) (idleInterval maxIdle : Option Nat) :
    H1World K C π δ where
  world := World.new now idleInterval maxIdle
  conns := Http1Connection.new
  sends := fun _ => none
  abandoned := []
  leftover := []

/-- One run of the executor: the pool moves, or the task that holds the
handle `h` does. -/
inductive H1Action (K C π δ ε : Type)
  | pool (a : Action K C)
  | sendRequest (h : Nat)
  | resume (h : Nat) (ev : CodecEvent π δ ε)
  | cancel (h : Nat)
  | dropHandle (h : Nat)

/-- The actions of the pool that this machine takes over as they are. -/
def taken : Action K C → Bool
  | .put .. => false
  | .drop .. => false
  | _ => true

section Operations

variable [DecidableEq K] [DecidableEq C]

/-- The pool moved; a connection that came in is new. -/
def H1World.moved (s : H1World K C π δ) (w : World K C)
    (entered : Option C) : H1World K C π δ :=
  { s with
    world := w
    conns := match entered with
      | some c => Function.update s.conns c (Http1Connection.new c)
      | none => s.conns }

/-- `ConnectionPool::get` on the pool of HTTP/1.1 connections. -/
def H1World.get (s : H1World K C π δ) (k : K) :
    Option (H1World K C π δ × Option (Pooled K C)) :=
  (s.world.get k).map fun r => (s.moved r.1 none, r.2)

/-- `ConnectionPool::link` of a new `Http1Connection`. -/
def H1World.link (s : H1World K C π δ) (k : K) (c : C) :
    Option (H1World K C π δ) :=
  (s.world.link k c).map fun w => s.moved w (some c)

/-- A task calls `send_request` and polls it for the first time. -/
def H1World.sendRequest (s : H1World K C π δ) (h : Nat) :
    Option (H1World K C π δ) :=
  match s.world.handles h, s.sends h with
  | some p, none =>
      some { s with
        sends := Function.update s.sends h (some .sending)
        leftover :=
          if p.value ∈ s.abandoned.map Prod.fst then
            p.value :: s.leftover
          else s.leftover }
  | _, _ => none

/-- The await of a `send_request` resolves. -/
def H1World.resume (s : H1World K C π δ) (h : Nat)
    (ev : CodecEvent π δ ε) : Option (H1World K C π δ) :=
  match s.world.handles h, s.sends h with
  | some p, some st =>
      match (s.conns p.value).resume st ev with
      | some (conn, .pending st) =>
          some { s with
            conns := Function.update s.conns p.value conn
            sends := Function.update s.sends h (some st) }
      | some (conn, .ready _) =>
          some { s with
            conns := Function.update s.conns p.value conn
            sends := Function.update s.sends h none }
      | none => none
  | _, _ => none

/-- A task drops its `send_request` midway. -/
def H1World.cancel (s : H1World K C π δ) (h : Nat) :
    Option (H1World K C π δ) :=
  match s.world.handles h, s.sends h with
  | some p, some _ =>
      some { s with
        sends := Function.update s.sends h none
        abandoned := (p.value, h) :: s.abandoned }
  | _, _ => none

/-- A task drops its handle. -/
def H1World.dropHandle (s : H1World K C π δ) (h : Nat) :
    Option (H1World K C π δ) :=
  match s.world.handles h, s.sends h with
  | some p, none =>
      (s.world.drop h (s.conns p.value).isOpen).map fun w =>
        s.moved w none
  | _, _ => none

/-- The state after an action, if it is enabled. -/
def H1World.step (s : H1World K C π δ) :
    H1Action K C π δ ε → Option (H1World K C π δ)
  | .pool a =>
      if taken a then
        (s.world.step a).map fun w => s.moved w a.entering
      else none
  | .sendRequest h => s.sendRequest h
  | .resume h ev => s.resume h ev
  | .cancel h => s.cancel h
  | .dropHandle h => s.dropHandle h

/-- The runs of a pool built with the given arguments. -/
def H1World.machine (idleInterval maxIdle : Option Nat) :
    Machine (H1World K C π δ) (H1Action K C π δ ε) where
  init := fun s => ∃ now, s = H1World.new now idleInterval maxIdle
  step := H1World.step

end Operations

end MonoioTransports.Http
