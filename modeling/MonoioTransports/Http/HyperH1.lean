/-
`HyperH1Connector` (src/http/hyper/mod.rs) as a machine: any number of
`connect` calls over one pool, which others may use too.

# One action, one run of the executor

`connect` awaits at up to three places: `ready` of a pooled connection,
any number of times, the underlying connector, and the handshake.
`connect` starts a call, `ready`, `connected` and `handshake` resume it
with what the await resolved to, `cancel` drops it there, and with it
the handle of the connection whose `ready` it awaits.

# Reading the model

- Connections are named by elements of `C`; `closed` is what `is_closed`
  answers. A connection may close at any moment, and stays so.
- The handles are those of the pool (Pool/World.lean); one that a call
  holds at its `ready` is not the callers' to drop.
- The loop runs on fuel, the number of times its body may run. The step
  function gives it one for every entry of the queue; `scan_spec` says
  that this is enough.
- `returned` is the handle the last step returned to a caller of
  `connect`.
- The connector owns its pool, so the pool is there throughout.
-/
import MonoioTransports.Pool.World

namespace MonoioTransports.Http

open Lib Pool

variable {K C : Type}

-- =============================================================== the loop

/-- What the `while let` loop of `connect` comes to: the world, the
handle it leaves the loop with, and how often its body ran. -/
structure Drained (K C : Type) where
  world : World K C
  pooled : Option Nat
  iterations : Nat

/-- The loop: take the front until its body does not pass over it. The
body of a connection that `passes` drops the handle, and `isOpen` is
what `is_open` answers then. -/
def whileGet [DecidableEq K] (passes isOpen : C → Bool) (key : K)
    (fuel : Nat) (w : World K C) : Option (Drained K C) :=
  match w.get key with
  | none => none
  | some (w₁, none) =>
      some { world := w₁, pooled := none, iterations := 0 }
  | some (w₁, some pooled) =>
      match fuel with
      | 0 => none
      | fuel + 1 =>
          if passes pooled.value then
            match w₁.drop w.nextHandle (isOpen pooled.value) with
            | some w₂ =>
                (whileGet passes isOpen key fuel w₂).map fun r =>
                  { r with iterations := r.iterations + 1 }
            | none => none
          else
            some { world := w₁, pooled := some w.nextHandle,
                   iterations := 1 }

-- =============================================================== states

/-- The await a `connect` call stands at. -/
inductive HyperH1Connect (K : Type)
  | ready (key : K) (pooled : Nat)
  | underlying (key : K)
  | handshake (key : K)
  deriving DecidableEq

/-- The handle a call holds at its await. -/
def HyperH1Connect.held : Option (HyperH1Connect K) → Option Nat
  | some (.ready _ pooled) => some pooled
  | _ => none

/-- `HyperH1Connector`, with the calls in flight: its pool, which of the
connections are closed, and the calls by number. -/
structure HyperH1Connector (K C : Type) where
  world : World K C
  closed : C → Bool
  calls : Nat → Option (HyperH1Connect K)
  nextCall : Nat
  returned : Option Nat

/-- `new_with_pool`; `new` is the case of a pool with neither an idle
interval nor a limit. -/
def HyperH1Connector.newWithPool (now : Nat)
    (idleInterval maxIdle : Option Nat) : HyperH1Connector K C where
  world := World.new now idleInterval maxIdle
  closed := fun _ => false
  calls := fun _ => none
  nextCall := 0
  returned := none

namespace HyperH1Connector

/-- `HyperH1Connection::is_open`. -/
def isOpen (self : HyperH1Connector K C) (c : C) : Bool :=
  !self.closed c

/-- A call goes to an await, or ends. -/
def goTo (self : HyperH1Connector K C) (t : Nat)
    (call : Option (HyperH1Connect K)) : HyperH1Connector K C :=
  { self with calls := Function.update self.calls t call
              returned := none }

/-- A call ends and returns a handle. -/
def finish (self : HyperH1Connector K C) (t h : Nat) :
    HyperH1Connector K C :=
  { self with calls := Function.update self.calls t none
              returned := some h }

/-- No call holds the handle. -/
def Unheld (self : HyperH1Connector K C) (h : Nat) : Prop :=
  ∀ t, t < self.nextCall → HyperH1Connect.held (self.calls t) ≠ some h

/-- Only the calls begun so far have to be looked at. -/
instance (self : HyperH1Connector K C) (h : Nat) :
    Decidable (self.Unheld h) :=
  Nat.decidableBallLT self.nextCall
    fun t _ => HyperH1Connect.held (self.calls t) ≠ some h

-- ============================================================ operations

variable [DecidableEq K] [DecidableEq C]

omit [DecidableEq C] in
/-- The loop of `connect` from one `ready` to the next, or to the
underlying connector: it passes over what is closed. -/
def scan (self : HyperH1Connector K C) (t : Nat) (key : K) :
    Option (HyperH1Connector K C) :=
  match whileGet self.closed self.isOpen key
      (self.world.queue key).length self.world with
  | some r =>
      let self := { self with world := r.world }
      match r.pooled with
      | some h => some (self.goTo t (some (.ready key h)))
      | none => some (self.goTo t (some (.underlying key)))
  | none => none

omit [DecidableEq C] in
/-- `connect` up to its first await. -/
def connect (self : HyperH1Connector K C) (key : K) :
    Option (HyperH1Connector K C) :=
  { self with nextCall := self.nextCall + 1 }.scan self.nextCall key

omit [DecidableEq C] in
/-- `ready` is done: the handle is returned, or dropped and the loop
goes on. -/
def ready (self : HyperH1Connector K C) (t : Nat) (ok : Bool) :
    Option (HyperH1Connector K C) :=
  match self.calls t with
  | some (.ready key h) =>
      if ok then some (self.finish t h)
      else
        match self.world.handles h with
        | some pooled =>
            match self.world.drop h (self.isOpen pooled.value) with
            | some w => { self with world := w }.scan t key
            | none => none
        | none => none
  | _ => none

omit [DecidableEq K] [DecidableEq C] in
/-- The underlying connector is done. -/
def connected (self : HyperH1Connector K C) (t : Nat) (ok : Bool) :
    Option (HyperH1Connector K C) :=
  match self.calls t with
  | some (.underlying key) =>
      if !ok then some (self.goTo t none)
      else some (self.goTo t (some (.handshake key)))
  | _ => none

omit [DecidableEq K] in
/-- The handshake is done: a new connection, or an error. -/
def handshake (self : HyperH1Connector K C) (t : Nat)
    (result : Option C) : Option (HyperH1Connector K C) :=
  match self.calls t, result with
  | some (.handshake _), none => some (self.goTo t none)
  | some (.handshake key), some c =>
      (self.world.link key c).map fun w =>
        { self with world := w }.finish t self.world.nextHandle
  | _, _ => none

omit [DecidableEq C] in
/-- A caller drops its handle. -/
def dropHandle (self : HyperH1Connector K C) (h : Nat) :
    Option (HyperH1Connector K C) :=
  match self.world.handles h with
  | some pooled =>
      if self.Unheld h then
        (self.world.drop h (self.isOpen pooled.value)).map fun w =>
          { self with world := w, returned := none }
      else none
  | none => none

omit [DecidableEq C] in
/-- A call is dropped at its await, and with it the handle it holds. -/
def cancel (self : HyperH1Connector K C) (t : Nat) :
    Option (HyperH1Connector K C) :=
  match self.calls t with
  | some (.ready _ h) =>
      match self.world.handles h with
      | some pooled =>
          (self.world.drop h (self.isOpen pooled.value)).map fun w =>
            { self with world := w }.goTo t none
      | none => none
  | some _ => some (self.goTo t none)
  | none => none

end HyperH1Connector

-- ============================================================== the machine

/-- One run of the executor: a call moves, a connection closes, a caller
drops a handle, or somebody else uses the pool. -/
inductive HyperH1Action (K C : Type)
  | connect (key : K)
  | ready (t : Nat) (ok : Bool)
  | connected (t : Nat) (ok : Bool)
  | handshake (t : Nat) (result : Option C)
  | cancel (t : Nat)
  | closed (c : C)
  | dropHandle (h : Nat)
  | pool (a : Action K C)

/-- What others do with the pool, its idle task among them, and time. -/
def others : Action K C → Bool
  | .tick _ => true
  | .link .. => true
  | .put .. => true
  | .get _ => true
  | .pollIdle _ => true
  | _ => false

variable [DecidableEq K] [DecidableEq C]

/-- The state after an action, if it is enabled. -/
def HyperH1Connector.step (self : HyperH1Connector K C) :
    HyperH1Action K C → Option (HyperH1Connector K C)
  | .connect key => self.connect key
  | .ready t ok => self.ready t ok
  | .connected t ok => self.connected t ok
  | .handshake t result => self.handshake t result
  | .cancel t => self.cancel t
  | .closed c =>
      some { self with closed := Function.update self.closed c true
                       returned := none }
  | .dropHandle h => self.dropHandle h
  | .pool a =>
      if others a then
        (self.world.step a).map fun w =>
          { self with world := w, returned := none }
      else none

/-- The runs of a connector over a pool built with the given
arguments. -/
def HyperH1Connector.machine (idleInterval maxIdle : Option Nat) :
    Machine (HyperH1Connector K C) (HyperH1Action K C) where
  init := fun s => ∃ now,
    s = HyperH1Connector.newWithPool now idleInterval maxIdle
  step := HyperH1Connector.step

-- ========================================================= the whole call

/-- What becomes of the pooled connections in one `connect`: what
`is_closed` answers, whether `ready` ends well, and what `is_closed`
answers when the handle is dropped. -/
structure Fates (C : Type) where
  isClosed : C → Bool
  ready : C → Bool
  closedAfter : C → Bool

/-- `HyperH1Connector::connect`, run to completion: the handle it
returns, and the underlying connections it attempts. -/
structure HyperH1Run (K C : Type) where
  world : World K C
  returned : Option Nat
  iterations : Nat
  attempts : List K

/-- `HyperH1Connector::connect`, run to completion. `fresh` is what the
underlying connector and the handshake come to. -/
def hyperH1Connect (fates : Fates C) (fresh : Option C) (key : K)
    (fuel : Nat) (w : World K C) : Option (HyperH1Run K C) :=
  let passes := fun c =>
    if !fates.isClosed c then !fates.ready c else true
  match whileGet passes (fun c => !fates.closedAfter c) key fuel w with
  | none => none
  | some r =>
      match r.pooled, fresh with
      | some h, _ =>
          some { world := r.world, returned := some h,
                 iterations := r.iterations, attempts := [] }
      | none, none =>
          some { world := r.world, returned := none,
                 iterations := r.iterations, attempts := [key] }
      | none, some c =>
          (r.world.link key c).map fun w =>
            { world := w, returned := some r.world.nextHandle,
              iterations := r.iterations, attempts := [key] }

end MonoioTransports.Http
