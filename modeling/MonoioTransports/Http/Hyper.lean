/-
`HyperH2Connector` (src/http/hyper/mod.rs) as a machine: any number of
`connect` calls over its pool and its table of locks, the handles the
callers hold, and the reference counts inside them.

# One action, one run of the executor

`connect` awaits three times: the lock, the underlying connector, the
handshake. `connect` starts a call, `locked`, `connected` and
`handshake` resume it with what the await resolved to, `cancel` drops it
there. A guard lives in a call beyond the lock, so returning and
cancelling release the lock.

# Reading the model

- Connections are numbered as their handshakes end; the clones of a
  sender share the number `tx`. `ready` is what `is_ready` answers: a
  connection may stop being ready at any moment, and stays so.
- `cnt` is an `Rc<usize>` of the heap `boxes` (Lib/Rc.lean).
- Handles of one connection are alike, so `handles` is a list without
  order and an action names the handle it takes by its value.
- The pool is used by nothing else; it may have an idle task. `connect`
  borrows the connector, so it is there throughout.
- `begun` records the keys for which an underlying connection was begun,
  the latest first; `returned` is what the last step returned to a
  caller of `connect`.
-/
import MonoioTransports.Lib.KeyedLock
import MonoioTransports.Lib.Machine
import MonoioTransports.Lib.Rc
import MonoioTransports.Pool.Basic

namespace MonoioTransports.Http

open Lib Pool

variable {K : Type}

-- ========================================================== connections

/-- `HyperH2Connection`; with a limit on its senders it carries the count. -/
structure HyperH2Connection where
  tx : Nat
  cnt : Option Rc
  deriving DecidableEq, Repr

/-- `HyperH2Connection::to_owned`: a clone of the sender and of the count. -/
def HyperH2Connection.toOwned (boxes : RcHeap Nat)
    (self : HyperH2Connection) : RcHeap Nat × HyperH2Connection :=
  (match self.cnt with
    | some rc => boxes.clone rc
    | none => boxes,
    { tx := self.tx, cnt := self.cnt })

/-- `stream_full`; a reference to a freed box does not occur. -/
def HyperH2Connection.streamFull (boxes : RcHeap Nat)
    (self : HyperH2Connection) : Bool :=
  match self.cnt with
  | none => false
  | some rc =>
      match boxes.value rc with
      | some limit => decide (boxes.strongCount rc ≥ limit)
      | none => false

/-- The boxes after connections went out of scope. -/
def dropConns (boxes : RcHeap Nat) (conns : List HyperH2Connection) :
    RcHeap Nat :=
  boxes.dropAll (conns.filterMap HyperH2Connection.cnt)

-- =============================================================== states

/-- The await a `connect` call stands at. -/
inductive HyperConnect (K : Type)
  | lock (key : K) (lock : Nat)
  | underlying (key : K) (lock : Nat)
  | handshake (key : K) (lock : Nat)

/-- What is asked of a key while a call waits for its lock. -/
instance HyperConnect.decidableLock {P : K → Prop} [DecidablePred P] :
    (call : Option (HyperConnect K)) →
      Decidable (∀ key l, call = some (.lock key l) → P key)
  | some (.lock key l) => decidable_of_iff (P key)
      ⟨fun h _ _ heq => by cases heq; exact h, fun h => h key l rfl⟩
  | some (.underlying ..) => .isTrue nofun
  | some (.handshake ..) => .isTrue nofun
  | none => .isTrue nofun

/-- `HyperH2Connector`, with the calls in flight: its locks, its pool and
the limit; then the counts, what `is_ready` answers, the calls by
number, and the handles outside the pool. -/
structure HyperH2Connector (K : Type) where
  now : Nat
  connecting : LockTable K
  pool : PoolInner K HyperH2Connection
  idleTask : Option IdleTask
  maxStreamSender : Option Nat
  boxes : RcHeap Nat
  ready : Nat → Bool
  nextConn : Nat
  calls : Nat → Option (HyperConnect K)
  nextCall : Nat
  handles : List HyperH2Connection
  begun : List K
  returned : Option HyperH2Connection

/-- `new_with_pool` and `with_max_stream_sender`; `new` is the case of a
pool with neither an idle interval nor a limit. -/
def HyperH2Connector.newWithPool (now : Nat)
    (idleInterval maxIdle maxStreamSender : Option Nat) :
    HyperH2Connector K where
  now := now
  connecting := LockTable.empty
  pool := (newWithIdleInterval idleInterval maxIdle).1
  idleTask := (newWithIdleInterval (K := K) (T := HyperH2Connection)
    idleInterval maxIdle).2
  maxStreamSender := maxStreamSender
  boxes := RcHeap.empty
  ready := fun _ => true
  nextConn := 0
  calls := fun _ => none
  nextCall := 0
  handles := []
  begun := []
  returned := none

namespace HyperH2Connector

/-- A call goes to an await, or ends. -/
def goTo (self : HyperH2Connector K) (t : Nat)
    (call : Option (HyperConnect K)) : HyperH2Connector K :=
  { self with calls := Function.update self.calls t call
              returned := none }

/-- A call ends and returns a handle. -/
def finish (self : HyperH2Connector K) (t : Nat)
    (conn : HyperH2Connection) : HyperH2Connector K :=
  { self with calls := Function.update self.calls t none
              handles := conn :: self.handles
              returned := some conn }

-- ============================================================ operations

/-- The loop of `try_get!`: the first connection that is not full. -/
def firstFree (now : Nat) (boxes : RcHeap Nat) :
    List (Idle HyperH2Connection) →
    RcHeap Nat × List (Idle HyperH2Connection) × Option HyperH2Connection
  | [] => (boxes, [], none)
  | idle :: rest =>
      if idle.conn.streamFull boxes then
        let r := firstFree now boxes rest
        (r.1, idle :: r.2.1, r.2.2)
      else
        let owned := idle.conn.toOwned boxes
        (owned.1, idle.resetIdle now :: rest, some owned.2)

/-- The closure of `try_get!`: drop those not ready, then the loop. -/
def retainFree (ready : Nat → Bool) (now : Nat) (boxes : RcHeap Nat)
    (conns : List (Idle HyperH2Connection)) :
    RcHeap Nat × List (Idle HyperH2Connection)
      × Option HyperH2Connection :=
  let kept := conns.filter fun idle => ready idle.conn.tx
  let gone := conns.filter fun idle => !ready idle.conn.tx
  firstFree now (dropConns boxes (gone.map Idle.conn)) kept

/-- `Some(Rc::new(n))` for `max_stream_sender = Some(n)`. -/
def newCnt (self : HyperH2Connector K) : RcHeap Nat × Option Rc :=
  match self.maxStreamSender with
  | some n => ((self.boxes.new n).1, some (self.boxes.new n).2)
  | none => (self.boxes, none)

/-- A caller clones a handle it holds. -/
def cloneHandle (self : HyperH2Connector K) (conn : HyperH2Connection) :
    Option (HyperH2Connector K) :=
  if conn ∈ self.handles then
    let owned := conn.toOwned self.boxes
    some { self with boxes := owned.1
                     handles := owned.2 :: self.handles
                     returned := none }
  else none

/-- A caller drops a handle it holds. -/
def dropHandle (self : HyperH2Connector K) (conn : HyperH2Connection) :
    Option (HyperH2Connector K) :=
  if conn ∈ self.handles then
    some { self with boxes := dropConns self.boxes [conn]
                     handles := self.handles.erase conn
                     returned := none }
  else none

/-- The underlying connector is done: from there to the handshake. -/
def connected (self : HyperH2Connector K) (t : Nat) (ok : Bool) :
    Option (HyperH2Connector K) :=
  match self.calls t with
  | some (.underlying key lock) =>
      if !ok then
        some ({ self with
          connecting := self.connecting.release lock }.goTo t none)
      else some (self.goTo t (some (.handshake key lock)))
  | _ => none

/-- A call is dropped at its await, and its guard with it. -/
def cancel (self : HyperH2Connector K) (t : Nat) :
    Option (HyperH2Connector K) :=
  match self.calls t with
  | some (.lock _ _) => some (self.goTo t none)
  | some (.underlying _ lock) =>
      some ({ self with
        connecting := self.connecting.release lock }.goTo t none)
  | some (.handshake _ lock) =>
      some ({ self with
        connecting := self.connecting.release lock }.goTo t none)
  | none => none

/-- The idle task is polled when `ticks` interval ticks are due. -/
def pollIdle (self : HyperH2Connector K) (ticks : Nat) :
    Option (HyperH2Connector K) :=
  match self.idleTask with
  | some task =>
      match task.poll self.now ticks (some self.pool) with
      | (_, some pool, dropped) =>
          some { self with pool := pool
                           boxes := dropConns self.boxes dropped
                           returned := none }
      | _ => none
  | none => none

variable [DecidableEq K]

/-- `try_get!`. -/
def tryGet (self : HyperH2Connector K) (key : K) :
    HyperH2Connector K × Option HyperH2Connection :=
  let r := self.pool.andThenMut key self.boxes
    (retainFree self.ready self.now)
  ({ self with boxes := r.1, pool := r.2.1 }, r.2.2)

/-- `connect` up to the lock. -/
def connect (self : HyperH2Connector K) (key : K) :
    HyperH2Connector K :=
  let t := self.nextCall
  match { self with nextCall := t + 1 }.tryGet key with
  | (self, some conn) => self.finish t conn
  | (self, none) =>
      let lock := self.connecting.entry key
      { self with connecting := lock.1 }.goTo t
        (some (.lock key lock.2))

/-- From the lock to the underlying connector, or to a connection
another call made meanwhile. -/
def locked (self : HyperH2Connector K) (t : Nat) :
    Option (HyperH2Connector K) :=
  match self.calls t with
  | some (.lock key lock) =>
      match self.connecting.acquire lock t with
      | none => none
      | some tbl =>
          match { self with connecting := tbl }.tryGet key with
          | (self, some conn) =>
              some ({ self with
                connecting := self.connecting.release lock }.finish t
                  conn)
          | (self, none) =>
              some ({ self with begun := key :: self.begun }.goTo t
                (some (.underlying key lock)))
  | _ => none

/-- From the handshake to the return. -/
def handshake (self : HyperH2Connector K) (t : Nat) (ok : Bool) :
    Option (HyperH2Connector K) :=
  match self.calls t with
  | some (.handshake key lock) =>
      let self := { self with
        connecting := self.connecting.release lock }
      if !ok then some (self.goTo t none)
      else
        let cnt := self.newCnt
        let cn : HyperH2Connection := { tx := self.nextConn, cnt := cnt.2 }
        let owned := cn.toOwned cnt.1
        let e := self.pool.put self.now key owned.2
        some ({ self with
          boxes := dropConns owned.1 e.dropped
          pool := e.pool
          nextConn := self.nextConn + 1 }.finish t cn)
  | _ => none

end HyperH2Connector

-- ============================================================== the machine

/-- One run of the executor: time passes, a call moves, a caller clones or
drops a handle, a connection ceases to be ready, or the idle task runs. -/
inductive HyperAction (K : Type)
  | tick (dt : Nat)
  | connect (key : K)
  | locked (t : Nat)
  | connected (t : Nat) (ok : Bool)
  | handshake (t : Nat) (ok : Bool)
  | cancel (t : Nat)
  | cloneHandle (conn : HyperH2Connection)
  | dropHandle (conn : HyperH2Connection)
  | closed (c : Nat)
  | pollIdle (ticks : Nat)
  deriving DecidableEq, Repr

variable [DecidableEq K]

/-- The state after an action, if it is enabled. -/
def HyperH2Connector.step (self : HyperH2Connector K) :
    HyperAction K → Option (HyperH2Connector K)
  | .tick dt => some { self with now := self.now + dt, returned := none }
  | .connect key => some (self.connect key)
  | .locked t => self.locked t
  | .connected t ok => self.connected t ok
  | .handshake t ok => self.handshake t ok
  | .cancel t => self.cancel t
  | .cloneHandle conn => self.cloneHandle conn
  | .dropHandle conn => self.dropHandle conn
  | .closed c =>
      some { self with ready := Function.update self.ready c false
                       returned := none }
  | .pollIdle ticks => self.pollIdle ticks

/-- The runs of a connector built with the given arguments. -/
def HyperH2Connector.machine
    (idleInterval maxIdle maxStreamSender : Option Nat) :
    Machine (HyperH2Connector K) (HyperAction K) where
  init := fun s => ∃ now, s = HyperH2Connector.newWithPool now
    idleInterval maxIdle maxStreamSender
  step := HyperH2Connector.step

end MonoioTransports.Http
