/-
The boolean that `send_request` returns, and what becomes of the
connection.

# Two accounts of one question

Whether a connection may be used again is decided by `is_open`: the
handle of an HTTP/1.1 connection asks it when it is dropped, `connect`
asks the like of a pooled HTTP/2 connection. The boolean is a second
account. Over HTTP/1.1 it is the constant `false`, so it is right only
about a connection that is not open; over HTTP/2 it is `true` when the
call completes, and the connection may have broken meanwhile, or be in
order when the call failed (`flagTells_iff`).
-/
import MonoioTransports.Http.Proofs.Boundary
import MonoioTransports.Http.Proofs.RequestBody
import MonoioTransports.Pool.Queues

namespace MonoioTransports.Http

open Lib Pool HttpConnector

variable {K C Io π δ β ρ ε : Type}

-- ============================================================== the flags

/-- Over HTTP/1.1 the flag is a constant. -/
theorem flag_http1 (self : Http1Connection Io) (script : Script π δ ε) :
    (self.sendRequest script).2.2 = false := by
  rcases script with e | _ | e | ⟨parts, body⟩
  · rfl
  · rfl
  · rfl
  rcases body with _ | item | ⟨chunks, stop⟩
  · rfl
  · rfl
  · cases stop with
    | none =>
        rw [Http1Connection.sendRequest, streamLoop_ok]
    | some e =>
        rw [Http1Connection.sendRequest, streamLoop_error]

/-- The whole body goes through, and a response comes. -/
def Http2Script.completes (script : Http2Script ρ ε) : Bool :=
  script.delivers && script.response.isOk

/-- Over HTTP/2 the flag says whether the call completed. -/
theorem flag_http2 (self : Http2Connection C) (script : Http2Script ρ ε) :
    (self.sendRequest script).result.2 = script.completes := by
  rcases sendRequest_cases self script with
    ⟨hclosed, e, heq⟩ | ⟨-, n, e, hfails, heq⟩ | ⟨hdel, heq⟩
  · rw [heq, Http2Script.completes, Http2Script.delivers, hclosed]
    rfl
  · rw [heq, Http2Script.completes, hfails.not_delivers]
    rfl
  · rw [heq, Http2Script.completes, hdel]
    rfl

-- ================================================== used again, or never

/-- The connection is used again: its handle's drop puts it into the
pool, or `connect` returns it from there. -/
def HttpConnection.Reused (K : Type) [DecidableEq K] (wire : Wire C) :
    HttpConnection C → Prop
  | .http1 _ conn => ∀ (pool : PoolInner K C) key now isReused,
      ∃ pool' kept, ((Pooled.new key conn isReused).drop now
          (wire.conns conn).isOpen (some pool)).1 = some pool'
        ∧ pool'.queue key = kept ++ [Idle.new now conn]
  | .http2 conn => ∀ now,
      (retainFront wire.connError [Idle.new now conn]).2 = some conn

/-- The connection is never used again: its handle's drop discards it,
or `connect` takes it out of the pool and does not return it. -/
def HttpConnection.Retired (K : Type) [DecidableEq K] (wire : Wire C) :
    HttpConnection C → Prop
  | .http1 _ conn => ∀ (pool : PoolInner K C) key now isReused,
      (Pooled.new key conn isReused).drop now (wire.conns conn).isOpen
        (some pool) = (some pool, [conn])
  | .http2 conn => ∀ conns,
      conn ∉ (retainFront wire.connError conns).1.map Idle.conn
        ∧ (retainFront wire.connError conns).2 ≠ some conn

variable [DecidableEq K] {self : HttpConnection C} {wire : Wire C}

theorem reused_of_isOpen (h : self.isOpen wire = true) :
    self.Reused K wire := by
  cases self with
  | http1 handle conn =>
      intro pool key now isReused
      have hopen : (wire.conns conn).isOpen = true := h
      have hq := queue_insertIdle
        (fun len maxIdle => decide (len ≥ maxIdle)) pool now key conn key
      rw [if_pos rfl] at hq
      refine ⟨(pool.giveBack now key conn).pool, _, ?_, hq⟩
      rw [hopen]
      rfl
  | http2 conn =>
      intro now
      have hopen : (!wire.connError conn.tx) = true := h
      simp [retainFront, Idle.new, hopen, Http2Connection.toOwned]

theorem retired_of_not_isOpen (h : self.isOpen wire = false) :
    self.Retired K wire := by
  cases self with
  | http1 handle conn =>
      intro pool key now isReused
      have hclosed : (wire.conns conn).isOpen = false := h
      rw [hclosed]
      rfl
  | http2 conn =>
      intro conns
      have hbroken : (!wire.connError conn.tx) = false := h
      have hnot : conn ∉ (retainFront wire.connError conns).1.map
          Idle.conn := by
        intro hin
        obtain ⟨idle, hidle, heq⟩ := List.mem_map.mp hin
        have hok := (List.mem_filter.mp hidle).2
        rw [heq, hbroken] at hok
        cases hok
      refine ⟨hnot, fun hret => hnot ?_⟩
      obtain ⟨idle, hidle, heq⟩ := Option.map_eq_some_iff.mp hret
      exact List.mem_map.mpr ⟨idle, List.mem_of_mem_head? hidle, heq⟩

-- ============================================================ the promise

variable [DecidableEq C]

/-- The flag of a call tells the truth about the connection it was made
on. -/
structure FlagTells (K : Type) [DecidableEq K] (conn : HttpConnection C)
    (wire : Wire C) (script1 : Script π δ ε)
    (script2 : Http2Script (π × β) ε) : Prop where
  isOpen : (conn.sendRequest wire script1 script2).2.2 = true
    ↔ conn.isOpen (conn.sendRequest wire script1 script2).1 = true
  reused : (conn.sendRequest wire script1 script2).2.2 = true →
    conn.Reused K (conn.sendRequest wire script1 script2).1
  retired : (conn.sendRequest wire script1 script2).2.2 = false →
    conn.Retired K (conn.sendRequest wire script1 script2).1

/-- When it does: over HTTP/1.1, when the connection was not open or the
call closes it; over HTTP/2, when the call completes exactly if the
connection had no error before it and acquires none. -/
def HttpConnection.FlagRight (self : HttpConnection C) (wire : Wire C)
    (script1 : Script π δ ε) (script2 : Http2Script ρ ε) : Prop :=
  match self with
  | .http1 _ conn =>
      (wire.conns conn).isOpen = false ∨ script1.closes = true
  | .http2 conn =>
      script2.completes = !(wire.connError conn.tx || script2.connError)

omit [DecidableEq K] in
/-- The first of the three parts says when. -/
theorem flag_isOpen_iff (self : HttpConnection C) (wire : Wire C)
    (script1 : Script π δ ε) (script2 : Http2Script (π × β) ε) :
    ((self.sendRequest wire script1 script2).2.2 = true
      ↔ self.isOpen (self.sendRequest wire script1 script2).1 = true)
      ↔ self.FlagRight wire script1 script2 := by
  cases self with
  | http1 handle conn =>
      have hflag : (HttpConnection.sendRequest (.http1 handle conn) wire
          script1 script2).2.2 = false := flag_http1 _ _
      have hopen : HttpConnection.isOpen (.http1 handle conn)
          (HttpConnection.sendRequest (.http1 handle conn) wire script1
            script2).1
          = ((wire.conns conn).isOpen && !script1.closes) := by
        show (Function.update wire.conns conn _ conn).isOpen = _
        rw [Function.update_self, isOpen_sendRequest]
      rw [hflag, hopen, HttpConnection.FlagRight]
      cases (wire.conns conn).isOpen <;> cases script1.closes <;> simp
  | http2 conn =>
      have hflag : (HttpConnection.sendRequest (.http2 conn) wire script1
          script2).2.2 = script2.completes := flag_http2 conn script2
      have hopen : HttpConnection.isOpen (.http2 conn)
          (HttpConnection.sendRequest (.http2 conn) wire script1
            script2).1
          = !(wire.connError conn.tx || script2.connError) := by
        show (!Function.update wire.connError conn.tx _ conn.tx) = _
        rw [Function.update_self]
      rw [hflag, hopen, HttpConnection.FlagRight]
      exact Bool.eq_iff_iff.symm

/-- The flag of a call tells the truth exactly then. -/
theorem flagTells_iff (self : HttpConnection C) (wire : Wire C)
    (script1 : Script π δ ε) (script2 : Http2Script (π × β) ε) :
    FlagTells K self wire script1 script2
      ↔ self.FlagRight wire script1 script2 := by
  rw [← flag_isOpen_iff]
  refine ⟨FlagTells.isOpen, fun h => ⟨h, fun hflag => ?_, fun hflag => ?_⟩⟩
  · exact reused_of_isOpen (h.mp hflag)
  · refine retired_of_not_isOpen (Bool.eq_false_iff.mpr fun hopen => ?_)
    rw [h.mpr hopen] at hflag
    cases hflag

/-- After a whole response over HTTP/1.1 the flag is `false`, and the
connection goes back into the pool. -/
theorem not_flagTells :
    ¬ ∀ (self : HttpConnection Nat) (wire : Wire Nat)
        (script1 : Script Unit Unit Unit)
        (script2 : Http2Script (Unit × Unit) Unit),
      FlagTells Nat self wire script1 script2 := by
  intro h
  have hopen := (h (.http1 0 1)
    { conns := Http1Connection.new, connError := fun _ => false }
    (.response () .none)
    { ready := .ok (), sendRequest := .ok (), chunks := [], stop := none
      sendData := fun _ => .ok (), response := .ok ((), ())
      connError := false }).isOpen
  exact absurd (hopen.mpr rfl) (by decide)

end MonoioTransports.Http
