/-
Reading between the buffers of two libraries (src/connectors/pollio.rs):
`HyperIoWrapper`, with which Hyper reads from a poll-based stream, and
back.

# Reading the model

- The buffers are the libraries' own: `PollReadBuf` is
  `monoio::io::poll_io::ReadBuf`, `RtReadBuf` is `hyper::rt::ReadBuf`
  with its cursor. Of each there are the operations the wrapper calls,
  and `regions`, what its memory and its marks are; `filled()` is their
  `front` and `unfilled_mut()` or `as_mut()` their `rest`. What the
  operations do is for the libraries to say (`Documented`).
- A buffer over memory borrowed from another writes to that memory;
  `setUnfilled` is what the lender is once the borrow has ended.
- A wrapper is the stream inside it. Writes pass through it.
- A poll that panics is `none`.
-/
import MonoioTransports.Lib.ReadBuf

namespace MonoioTransports.Connectors

open Lib Lib.ReadBuf

variable {P H σ ε : Type}

-- =========================================================== the buffers

/-- `monoio::io::poll_io::ReadBuf`. -/
structure PollReadBuf (P : Type) where
  regions : P → Regions UInt8
  uninit : Memory UInt8 → P
  setUnfilled : P → Memory UInt8 → P
  assumeInit : P → Nat → P
  setFilled : P → Nat → Option P

/-- `set_filled` panics beyond what is initialised. -/
structure PollReadBuf.Documented (buf : PollReadBuf P) : Prop where
  uninit : ∀ mem, buf.regions (buf.uninit mem) = Regions.uninit mem
  setUnfilled : ∀ b mem, mem.length = (buf.regions b).rest.length →
    buf.regions (buf.setUnfilled b mem) = (buf.regions b).setUnfilled mem
  assumeInit : ∀ b n,
    buf.regions (buf.assumeInit b n) = (buf.regions b).assumeInit n
  setFilled : ∀ b n,
    (buf.setFilled b n).map buf.regions = (buf.regions b).setFilled n

/-- `hyper::rt::ReadBuf`, and its `ReadBufCursor`. -/
structure RtReadBuf (H : Type) where
  regions : H → Regions UInt8
  uninit : Memory UInt8 → H
  setUnfilled : H → Memory UInt8 → H
  advance : H → Nat → H

/-- `advance` checks nothing: the caller vouches for the bytes. -/
structure RtReadBuf.Documented (buf : RtReadBuf H) : Prop where
  uninit : ∀ mem, buf.regions (buf.uninit mem) = Regions.uninit mem
  setUnfilled : ∀ b mem, mem.length = (buf.regions b).rest.length →
    buf.regions (buf.setUnfilled b mem) = (buf.regions b).setUnfilled mem
  advance : ∀ b n,
    buf.regions (buf.advance b n) = (buf.regions b).advance n

-- =========================================================== the wrapper

namespace HyperIoWrapper

/-- `hyper::rt::Read::poll_read`, over an `AsyncRead`. -/
def rtPollRead (poll : PollReadBuf P) (rt : RtReadBuf H)
    (inner : Reader σ P ε) : Reader σ H ε := fun self buf =>
  match inner self (poll.uninit (rt.regions buf).rest) with
  | none => none
  | some (self, tbuf, answer) =>
      let buf := rt.setUnfilled buf (poll.regions tbuf).mem
      match answer with
      | .ready (.ok ()) =>
          let n := (poll.regions tbuf).front.length
          some (self, rt.advance buf n, .ready (.ok ()))
      | other => some (self, buf, other)

/-- `AsyncRead::poll_read`, over a `hyper::rt::Read`. -/
def asyncPollRead (poll : PollReadBuf P) (rt : RtReadBuf H)
    (inner : Reader σ H ε) : Reader σ P ε := fun self tbuf =>
  let filled := (poll.regions tbuf).front.length
  match inner self (rt.uninit (poll.regions tbuf).rest) with
  | none => none
  | some (self, buf, answer) =>
      let tbuf := poll.setUnfilled tbuf (rt.regions buf).mem
      match answer with
      | .ready (.ok ()) =>
          let subFilled := (rt.regions buf).front.length
          let nFilled := filled + subFilled
          let nInit := subFilled
          match poll.setFilled (poll.assumeInit tbuf nInit) nFilled with
          | none => none
          | some tbuf => some (self, tbuf, .ready (.ok ()))
      | other => some (self, tbuf, other)

end HyperIoWrapper

-- ==================================================== the unified stream

/-- `UnifiedL4StreamPoll`. -/
inductive UnifiedL4StreamPoll (S T : Type)
  | tcp (inner : S)
  | unix (inner : T)
  deriving DecidableEq, Repr

/-- `UnifiedL4StreamPoll::poll_read`. -/
def UnifiedL4StreamPoll.pollRead {S T : Type} (tcp : Reader S P ε)
    (unix : Reader T P ε) : Reader (UnifiedL4StreamPoll S T) P ε :=
  fun this buf =>
    match this with
    | .tcp inner => (tcp inner buf).map fun x => (.tcp x.1, x.2)
    | .unix inner => (unix inner buf).map fun x => (.unix x.1, x.2)

end MonoioTransports.Connectors
