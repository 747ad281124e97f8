/-
The pool with its timer: `IdleTask::poll` (src/pool/mod.rs) as the loop
it is, over the interval it polls.

`World` lets the idle task sweep at any moment. Here the task is woken,
and polls its interval until that is pending; what it sweeps, and when,
follows. The interval is the runtime's (`monoio::time::interval`), so it
is a parameter.

# One poll, one reading of the clock

The loop reads the clock at each turn, for the interval and for the
entries it compares. The readings of one poll are taken to be the same.
-/
import MonoioTransports.Lib.Ticker
import MonoioTransports.Pool.World

namespace MonoioTransports.Pool

open Lib

variable {K T ι : Type}

-- ============================================================== the loop

/-- What `IdleTask::poll` leaves: whether it is ready, the interval, the
pool, and the dropped values. -/
structure Woken (K T ι : Type) where
  finished : Bool
  interval : ι
  shared : Option (PoolInner K T)
  dropped : List T

/-- The loop of `IdleTask::poll`, for so many turns at most. The receiver
is a field of the pool, so `poll_closed` is ready once the pool is gone;
`upgrade` then fails as well. -/
def IdleTask.pollLoop (task : IdleTask) (timer : Ticker ι) (now : Nat) :
    Nat → ι → Option (PoolInner K T) → Option (Woken K T ι)
  | 0, _, _ => none
  | turns + 1, interval, shared =>
      -- this.tx.poll_closed(cx)
      if shared.isNone then
        some { finished := true, interval := interval, shared := shared,
               dropped := [] }
      else
        match timer.pollTick now interval with
        | none =>
            some { finished := false, interval := interval,
                   shared := shared, dropped := [] }
        | some interval =>
            match shared with
            | some pool =>
                let e := pool.clearExpired now task.idleDur
                (task.pollLoop timer now turns interval (some e.pool)).map
                  fun r => { r with dropped := e.dropped ++ r.dropped }
            | none =>
                some { finished := true, interval := interval,
                       shared := none, dropped := [] }

-- ============================================================ the machine

/-- A pool that sweeps, and the interval of its idle task. -/
structure Timed (K T ι : Type) where
  world : World K T
  interval : ι

/-- `ConnectionPool::new_with_idle_interval` with an interval. -/
def Timed.new (timer : Ticker ι) (now dur : Nat) (maxIdle : Option Nat) :
    Timed K T ι where
  world := World.new now (some dur) maxIdle
  interval := timer.start now (max dur minInterval)

/-- An action of the pool's users or the clock, or the idle task being
polled. -/
inductive TimedAction (K T : Type)
  | pool (a : Action K T)
  | wake
  deriving DecidableEq, Repr

/-- `clear_expired` is called by the idle task alone. -/
def Action.sweeps : Action K T → Bool
  | .clearExpired _ => true
  | .pollIdle _ => true
  | _ => false

/-- What a poll of the idle task makes of the state. -/
def Timed.woken (s : Timed K T ι) (task : IdleTask)
    (r : Woken K T ι) : Timed K T ι where
  world := { s.world with
    pool := r.shared
    idleTask := if r.finished then none else some task
    discarded := s.world.discarded ++ r.dropped }
  interval := r.interval

/-- The executor polls the idle task. Two turns more than there are
instants up to now are enough (`Proofs/Timed.lean`). -/
def Timed.wake (timer : Ticker ι) (s : Timed K T ι) :
    Option (Timed K T ι) :=
  match s.world.idleTask with
  | some task =>
      (task.pollLoop timer s.world.now (s.world.now + 2) s.interval
        s.world.pool).map (s.woken task)
  | none => none

section Machine

variable [DecidableEq K] [DecidableEq T]

/-- The state after an action, if it is enabled. Only the idle task sweeps. -/
def Timed.step (timer : Ticker ι) (s : Timed K T ι) :
    TimedAction K T → Option (Timed K T ι)
  | .pool a =>
      if a.sweeps then none
      else (s.world.step a).map fun w => { s with world := w }
  | .wake => s.wake timer

/-- The runs of a pool that sweeps. -/
def Timed.machine (timer : Ticker ι) (dur : Nat) (maxIdle : Option Nat) :
    Machine (Timed K T ι) (TimedAction K T) where
  init := fun s => ∃ now, s = Timed.new timer now dur maxIdle
  step := Timed.step timer

end Machine

end MonoioTransports.Pool
