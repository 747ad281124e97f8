/-
`HttpConnector` (src/http/connector.rs) as a machine: any number of
`connect` calls over its two pools and its table of locks.

# One action, one run of the executor

`connect` awaits three times: the transport, the lock, the handshake.
Each action runs one call from an await to the next or to its return:
`connect` starts it, `transport`, `acquired` and `handshake` resume it
with what the await resolved to, `cancel` drops it there. A guard lives
in a call that stands at the handshake, so returning and cancelling
release the lock.

# Reading the model

- Transports and the connections over them are named by elements of
  `C`; a new transport has a new name. `negotiated` is the ALPN protocol
  a transport reported.
- An `Http2Connection` is its sender; `connError` is what `conn_error`
  answers. Only a connection whose handshake is done (`opened`) can
  acquire an error, at any moment.
- `h1_pool` is an `Option` that every constructor fills, so it is
  present here; its half of the state is an `H1World`.
- `set_http1_only` and `set_http2_only` take `&mut self`, and the
  connector cannot be dropped under a call: both wait until no call is
  in flight.
- `returned` is what the last step returned to a caller of `connect`.
-/
import MonoioTransports.Http.H1World
import MonoioTransports.Lib.KeyedLock

namespace MonoioTransports.Http

open Lib Pool

variable {K C π δ ε : Type}

-- ===================================== protocols (connectors/mod.rs too)

/-- `Protocol`: which connections the connector may make. -/
inductive Protocol
  | http2
  | http11
  | auto
  deriving DecidableEq, Repr

/-- `Alpn`. -/
inductive Alpn
  | http2
  | http11
  | none
  deriving DecidableEq, Repr

/-- `TransportConnMeta`. -/
structure TransportConnMeta where
  alpn : Alpn
  deriving DecidableEq, Repr

/-- `TransportConnMeta::default`. -/
def TransportConnMeta.default : TransportConnMeta := { alpn := .none }

/-- `b"h2"`. -/
def h2Bytes : List UInt8 := [104, 50]

/-- `TransportConnMeta::set_alpn`. -/
def TransportConnMeta.setAlpn (self : TransportConnMeta)
    (alpn : Option (List UInt8)) : TransportConnMeta :=
  { self with
    alpn := match alpn with
      | some p => if p = h2Bytes then .http2 else .none
      | none => .none }

/-- `TransportConnMeta::is_alpn_h2`. -/
def TransportConnMeta.isAlpnH2 (self : TransportConnMeta) : Bool :=
  match self.alpn with
  | .http2 => true
  | _ => false

/-- `get_conn_metadata` of a transport that negotiated `alpn`. -/
def getConnMetadata (alpn : Option (List UInt8)) : TransportConnMeta :=
  TransportConnMeta.default.setAlpn alpn

-- =============================================================== states

/-- `Http2Connection`; clones share the connection `tx` names. -/
structure Http2Connection (C : Type) where
  tx : C
  deriving DecidableEq, Repr

/-- `Http2Connection::new`. -/
def Http2Connection.new (tx : C) : Http2Connection C := { tx := tx }

/-- `Http2Connection::to_owned`. -/
def Http2Connection.toOwned (self : Http2Connection C) :
    Http2Connection C :=
  { tx := self.tx }

/-- `HttpConnection`; a pooled HTTP/1.1 connection is its handle, and
the connection it holds. -/
inductive HttpConnection (C : Type)
  | http1 (handle : Nat) (conn : C)
  | http2 (conn : Http2Connection C)
  deriving DecidableEq, Repr

/-- The transport underneath. -/
def HttpConnection.transport : HttpConnection C → C
  | .http1 _ conn => conn
  | .http2 conn => conn.tx

/-- The await a `connect` call stands at. -/
inductive Connect (K C : Type)
  | transport (key : K)
  | acquire (key : K) (lock : Nat) (transportConn : C)
  | handshake (key : K) (lock : Nat) (transportConn : C)

/-- `HttpConnector`, with the calls in flight: its protocol, its two pools
and its locks; then the calls by number, and what became of the
transports. -/
structure HttpConnector (K C π δ : Type) where
  protocol : Protocol
  h1 : H1World K C π δ
  h2Pool : PoolInner K (Http2Connection C)
  connecting : LockTable K
  calls : Nat → Option (Connect K C)
  nextCall : Nat
  used : List C
  negotiated : C → Option (List UInt8)
  opened : List C
  connError : C → Bool
  returned : Option (HttpConnection C)

/-- As the constructors leave it; they differ in the protocol. -/
def HttpConnector.new (now : Nat) (protocol : Protocol) :
    HttpConnector K C π δ where
  protocol := protocol
  h1 := H1World.new now none none
  h2Pool := PoolInner.new none
  connecting := LockTable.empty
  calls := fun _ => none
  nextCall := 0
  used := []
  negotiated := fun _ => none
  opened := []
  connError := fun _ => false
  returned := none

namespace HttpConnector

/-- `is_config_h2`. -/
def isConfigH2 (self : HttpConnector K C π δ) : Bool :=
  self.protocol = .http2

/-- `is_config_h1`. -/
def isConfigH1 (self : HttpConnector K C π δ) : Bool :=
  self.protocol = .http11

/-- `is_config_auto`. -/
def isConfigAuto (self : HttpConnector K C π δ) : Bool :=
  self.protocol = .auto

/-- No `connect` is in flight. -/
def Quiet (self : HttpConnector K C π δ) : Prop :=
  ∀ t, t < self.nextCall → (self.calls t).isNone = true

/-- Only the calls begun so far have to be looked at. -/
instance (self : HttpConnector K C π δ) : Decidable self.Quiet :=
  Nat.decidableBallLT self.nextCall
    fun t _ => (self.calls t).isNone = true

/-- A call goes to an await, or ends. -/
def goTo (self : HttpConnector K C π δ) (t : Nat)
    (call : Option (Connect K C)) : HttpConnector K C π δ :=
  { self with calls := Function.update self.calls t call
              returned := none }

/-- A call ends and returns a connection. -/
def finish (self : HttpConnector K C π δ) (t : Nat)
    (conn : HttpConnection C) : HttpConnector K C π δ :=
  { self with calls := Function.update self.calls t none
              returned := some conn }

-- ============================================================ operations

/-- The closure of `try_get!`: drop the errored, clone the front. -/
def retainFront (connError : C → Bool)
    (conns : List (Idle (Http2Connection C))) :
    List (Idle (Http2Connection C)) × Option (Http2Connection C) :=
  let conns := conns.filter fun idle => !connError idle.conn.tx
  (conns, conns.head?.map fun idle => idle.conn.toOwned)

variable [DecidableEq K] [DecidableEq C]

omit [DecidableEq C] in
/-- `try_get!` on the pool of HTTP/2 connections. -/
def tryGet (self : HttpConnector K C π δ) (key : K) :
    HttpConnector K C π δ × Option (Http2Connection C) :=
  let r := self.h2Pool.andThenMut key () fun _ conns =>
    ((), retainFront self.connError conns)
  ({ self with h2Pool := r.2.1 }, r.2.2)

omit [DecidableEq C] in
/-- The pool look-ups of `connect`, up to the await on the transport. -/
def connect (self : HttpConnector K C π δ) (key : K) :
    Option (HttpConnector K C π δ) :=
  -- a connector that was dropped takes no calls
  if self.h1.world.pool.isNone then none
  else
    let t := self.nextCall
    let self := { self with nextCall := t + 1 }
    match if self.isConfigAuto || self.isConfigH2 then self.tryGet key
        else (self, none) with
    | (self, some conn) => some (self.finish t (.http2 conn))
    | (self, none) =>
        match if self.isConfigAuto || self.isConfigH1 then
            self.h1.get key else some (self.h1, none) with
        | some (h1, some pooled) =>
            some ({ self with h1 := h1 }.finish t
              (.http1 self.h1.world.nextHandle pooled.value))
        | some (h1, none) =>
            some ({ self with h1 := h1 }.goTo t (some (.transport key)))
        | none => none

/-- From the transport to the lock, or to a new HTTP/1.1 connection. -/
def transport (self : HttpConnector K C π δ) (t : Nat)
    (result : Option (C × Option (List UInt8))) :
    Option (HttpConnector K C π δ) :=
  match self.calls t, result with
  | some (.transport _), none => some (self.goTo t none)
  | some (.transport key), some (transportConn, alpn) =>
      if transportConn ∈ self.used then none
      else
        let self := { self with
          used := transportConn :: self.used
          negotiated := Function.update self.negotiated transportConn alpn }
        let connMeta := getConnMetadata alpn
        let connectToH2 := self.isConfigH2 || connMeta.isAlpnH2
        if connectToH2 then
          let lock := self.connecting.entry key
          some ({ self with connecting := lock.1 }.goTo t
            (some (.acquire key lock.2 transportConn)))
        else
          (self.h1.link key transportConn).map fun h1 =>
            { self with h1 := h1 }.finish t
              (.http1 self.h1.world.nextHandle transportConn)
  | _, _ => none

omit [DecidableEq C] in
/-- From the lock to the handshake, or to a connection another call
made meanwhile; `ok` is whether `acquire` succeeded. -/
def acquired (self : HttpConnector K C π δ) (t : Nat) (ok : Bool) :
    Option (HttpConnector K C π δ) :=
  match self.calls t with
  | some (.acquire key lock transportConn) =>
      if !ok then some (self.goTo t none)
      else
        match self.connecting.acquire lock t with
        | none => none
        | some tbl =>
            match { self with connecting := tbl }.tryGet key with
            | (self, some conn) =>
                some ({ self with
                  connecting := self.connecting.release lock }.finish t
                    (.http2 conn))
            | (self, none) =>
                some (self.goTo t
                  (some (.handshake key lock transportConn)))
  | _ => none

omit [DecidableEq C] in
/-- From the handshake to the return. -/
def handshake (self : HttpConnector K C π δ) (t : Nat) (ok : Bool) :
    Option (HttpConnector K C π δ) :=
  match self.calls t with
  | some (.handshake key lock tx) =>
      let self := { self with
        connecting := self.connecting.release lock }
      if !ok then some (self.goTo t none)
      else
        some ({ self with
          h2Pool := (self.h2Pool.put self.h1.world.now key
            (Http2Connection.new tx)).pool
          opened := tx :: self.opened }.finish t
            (.http2 (Http2Connection.new tx)))
  | _ => none

omit [DecidableEq K] [DecidableEq C] in
/-- A call is dropped at its await, and its guard with it. -/
def cancel (self : HttpConnector K C π δ) (t : Nat) :
    Option (HttpConnector K C π δ) :=
  match self.calls t with
  | some (.handshake _ lock _) =>
      some ({ self with
        connecting := self.connecting.release lock }.goTo t none)
  | some _ => some (self.goTo t none)
  | none => none

end HttpConnector

-- ============================================================== the machine

/-- One run of the executor: a call moves, a connection breaks, the owner
turns a knob, or a caller uses an HTTP/1.1 handle. -/
inductive ConnectorAction (K C π δ ε : Type)
  | connect (key : K)
  | transport (t : Nat) (result : Option (C × Option (List UInt8)))
  | acquired (t : Nat) (ok : Bool)
  | handshake (t : Nat) (ok : Bool)
  | cancel (t : Nat)
  | connErr (c : C)
  | setHttp1Only
  | setHttp2Only
  | h1 (a : H1Action K C π δ ε)
  | dropConnector

/-- What the callers do with their HTTP/1.1 handles, and time. -/
def callers : H1Action K C π δ ε → Bool
  | .pool (.tick _) => true
  | .pool _ => false
  | _ => true

variable [DecidableEq K] [DecidableEq C]

/-- The state after an action, if it is enabled. -/
def HttpConnector.step (self : HttpConnector K C π δ) :
    ConnectorAction K C π δ ε → Option (HttpConnector K C π δ)
  | .connect key => self.connect key
  | .transport t result => self.transport t result
  | .acquired t ok => self.acquired t ok
  | .handshake t ok => self.handshake t ok
  | .cancel t => self.cancel t
  | .connErr c =>
      if c ∈ self.opened then
        some { self with
          connError := Function.update self.connError c true
          returned := none }
      else none
  | .setHttp1Only =>
      if self.Quiet then
        some { self with protocol := .http11, returned := none }
      else none
  | .setHttp2Only =>
      if self.Quiet then
        some { self with protocol := .http2, returned := none }
      else none
  | .h1 a =>
      if callers a then
        (self.h1.step a).map fun h1 =>
          { self with h1 := h1, returned := none }
      else none
  | .dropConnector =>
      if self.Quiet then
        (self.h1.step (.pool .dropPool : H1Action K C π δ ε)).map fun h1 =>
          { self with h1 := h1
                      h2Pool := PoolInner.new none
                      returned := none }
      else none

/-- The runs of a connector that starts with the given protocol. -/
def HttpConnector.machine (protocol : Protocol) :
    Machine (HttpConnector K C π δ) (ConnectorAction K C π δ ε) where
  init := fun s => ∃ now, s = HttpConnector.new now protocol
  step := HttpConnector.step

end MonoioTransports.Http
