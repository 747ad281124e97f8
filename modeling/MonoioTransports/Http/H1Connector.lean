/-
`H1Connector` (src/http/connector.rs), the older connector that is kept
for compatibility, as a machine over its pool and handles
(Http/H1World.lean).

# Reading the model

- `connect` has one await, at the inner connector; `.pool (.connect k)`
  is the code before it, `.pool (.connected k c)` and
  `.pool (.connectFailed k)` are the code after it. The pool is private,
  so nobody calls its `get` and `link` directly.
- The read timeout is given to the codec and read nowhere else. A
  connector without a pool looks nothing up and links nothing.
-/
import MonoioTransports.Http.H1World

namespace MonoioTransports.Http.H1Connector

open Lib Pool

variable {K C π δ ε : Type}

/-- `DEFAULT_IDLE_TIMEOUT`: sixty seconds, in nanoseconds. -/
def defaultIdleTimeout : Nat := 60000000000

/-- `with_default_pool`; `time` is the crate's feature of that name. -/
def withDefaultPool (now : Nat) (time : Bool) : H1World K C π δ :=
  H1World.new now (if time then some defaultIdleTimeout else none) none

/-- What the tasks, the idle task and the clock do. -/
def takes : H1Action K C π δ ε → Bool
  | .pool (.link ..) => false
  | .pool (.put ..) => false
  | .pool (.get _) => false
  | .pool (.clearExpired _) => false
  | .pool (.drop ..) => false
  | _ => true

variable [DecidableEq K] [DecidableEq C]

/-- The runs of a connector with its default pool. -/
def machine (time : Bool) :
    Machine (H1World K C π δ) (H1Action K C π δ ε) where
  init := fun s => ∃ now, s = withDefaultPool now time
  step := fun s a => if takes a then s.step a else none

end MonoioTransports.Http.H1Connector
