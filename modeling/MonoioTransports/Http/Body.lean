/-
The body adaptors (src/http/hyper/body.rs): `HyperBody` gives a monoio
body the interface of hyper, `MonoioBody` a hyper body that of monoio.

# Reading the model

- A monoio body is an operation, `next_data`; a hyper body is polled for
  frames (Lib/Poll.lean). Both are arbitrary: their states decide when a
  poll is pending, and a poll may not return.
- `MaybeArmedBoxFuture` is the slot `fut`: armed from `arm_future` until
  its poll is ready, and an armed future is resumed. `new` leaves it
  unarmed.
- `MonoioBody` adds nothing to the body it holds, and its loop keeps
  nothing across its await, so its future carries nothing. A poll of it
  runs the loop until the inner body is pending or `next_data` returns;
  `fuel` bounds the frames skipped in one poll.
-/
import MonoioTransports.Lib.Poll

namespace MonoioTransports.Http

open Lib

variable {σ φ τ D T ε : Type}

-- ============================================================= interfaces

/-- `hyper::body::Frame`. -/
inductive Frame (D T : Type)
  | data (d : D)
  | trailers (t : T)
  deriving DecidableEq, Repr

/-- `monoio_http::common::body::Body`: `next_data`. -/
abbrev MonoioHttpBody (σ φ D ε : Type) :=
  Operation σ φ (Option (Except ε D))

/-- `hyper::body::Body`: `poll_frame`. -/
abbrev HyperHttpBody (τ D T ε : Type) :=
  Polled τ (Option (Except ε (Frame D T)))

-- ============================================================== HyperBody

/-- `HyperBody`, with the future of `next_data` that is under way. -/
structure HyperBody (σ φ : Type) where
  fut : Option φ
  body : σ

/-- `HyperBody::new`. -/
def HyperBody.new (body : σ) : HyperBody σ φ :=
  { fut := none, body := body }

/-- `HyperBody::poll_frame`: the future is begun by the first poll and kept
until it is ready. -/
def HyperBody.pollFrame (inner : MonoioHttpBody σ φ D ε) :
    HyperHttpBody (HyperBody σ φ) D T ε := fun this =>
  let armed := match this.fut with
    | some fut => (fut, this.body)
    | none => inner.start this.body
  match inner.poll armed with
  | none => none
  | some ((fut, body), .pending) =>
      some ({ fut := some fut, body := body }, .pending)
  | some ((_, body), .ready r) =>
      some ({ fut := none, body := body },
        .ready (r.map fun d => d.map Frame.data))

-- ============================================================= MonoioBody

/-- One poll of the future of `next_data`. -/
def MonoioBody.pollLoop (inner : HyperHttpBody τ D T ε) :
    Nat → Polled τ (Option (Except ε D))
  | 0, _ => none
  | fuel + 1, body =>
      match inner body with
      | none => none
      | some (body, .pending) => some (body, .pending)
      | some (body, .ready none) => some (body, .ready none)
      | some (body, .ready (some (.error e))) =>
          some (body, .ready (some (.error e)))
      | some (body, .ready (some (.ok (.data d)))) =>
          some (body, .ready (some (.ok d)))
      -- `is_data` is false: `continue`
      | some (body, .ready (some (.ok (.trailers _)))) =>
          pollLoop inner fuel body

/-- `MonoioBody::next_data`. -/
def MonoioBody.nextData (fuel : Nat) (inner : HyperHttpBody τ D T ε) :
    MonoioHttpBody τ Unit D ε :=
  (MonoioBody.pollLoop inner fuel).operation

end MonoioTransports.Http
