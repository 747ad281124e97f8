/-
The HTTP/1.1 connection (src/http/connection.rs): its fields, and
`send_request` as a future that runs from one await to the next.

# Reading the model

- The codec is the environment. What an await on it resolves to is a
  `CodecEvent`: the outcome of `send_and_flush`, of `next` (a response
  head with the decoder of its body), or of `next_data`.
- `SendState` is the await a `send_request` future stands at, with the
  locals it still needs; `resume` is the code from that await to the
  next one, or to a return. It is undefined on an event of another
  await.
- `sendRequest` is the same function run to completion against a
  `Script`, everything the codec does in one call.

A `Payload` is what was fed to its sender, in order. The types of
transports, response parts, body chunks and foreign errors are
parameters.
-/
import MonoioTransports.Pool.Basic

namespace MonoioTransports.Http

-- =============================================================== data

/-- `HttpError`; `DecodeError::UnexpectedEof` is the one this crate
makes itself. -/
inductive HttpError (ε : Type)
  | unexpectedEof
  | other (e : ε)
  deriving DecidableEq, Repr

/-- `PayloadDecoder`, by kind. -/
inductive PayloadDecoder
  | none
  | fixed
  | streamed
  deriving DecidableEq, Repr

/-- `Payload`, as what was fed into it. -/
inductive Payload (δ ε : Type)
  | none
  | fixed (fed : Option (Except (HttpError ε) δ))
  | stream (fed : List (Option δ))

/-- `Response`; its parts are not looked at. -/
structure Response (π δ ε : Type) where
  parts : π
  payload : Payload δ ε

/-- What `send_request` returns: the response, and whether the
connection can be reused. -/
abbrev Outcome (π δ ε : Type) : Type :=
  Except (HttpError ε) (Response π δ ε) × Bool

/-- `Http1Connection`, with its fields `framed`, `using` and `open`. -/
structure Http1Connection (Io : Type) where
  framed : Io
  usingFlag : Bool
  openFlag : Bool
  deriving DecidableEq, Repr

variable {Io π δ ε : Type}

/-- `Http1Connection::new`. -/
def Http1Connection.new (framed : Io) : Http1Connection Io where
  framed := framed
  usingFlag := false
  openFlag := true

/-- `Http1Connection::is_open`. -/
def Http1Connection.isOpen (self : Http1Connection Io) : Bool :=
  self.openFlag && !self.usingFlag

/-- `self.open = false`. -/
def Http1Connection.close (self : Http1Connection Io) :
    Http1Connection Io :=
  { self with openFlag := false }

-- ======================================================== await by await

/-- What an await on the codec resolves to. -/
inductive CodecEvent (π δ ε : Type)
  | sent (r : Except (HttpError ε) Unit)
  | head (r : Option (Except (HttpError ε) (π × PayloadDecoder)))
  | data (r : Option (Except (HttpError ε) δ))

/-- The await a `send_request` stands at. -/
inductive SendState (π δ : Type)
  | sending
  | head
  | fixed (parts : π)
  | streamed (parts : π) (fed : List (Option δ))

/-- Where the future is after running on. -/
inductive Progress (π δ ε : Type)
  | pending (st : SendState π δ)
  | ready (out : Outcome π δ ε)

/-- `send_request` from one await to the next. -/
def Http1Connection.resume (self : Http1Connection Io) :
    SendState π δ → CodecEvent π δ ε →
      Option (Http1Connection Io × Progress π δ ε)
  | .sending, .sent (.error e) =>
      some (self.close, .ready (.error e, false))
  | .sending, .sent (.ok _) => some (self, .pending .head)
  | .head, .head (some (.ok (parts, .none))) =>
      some (self, .ready (.ok ⟨parts, .none⟩, false))
  | .head, .head (some (.ok (parts, .fixed))) =>
      some (self, .pending (.fixed parts))
  | .head, .head (some (.ok (parts, .streamed))) =>
      some (self, .pending (.streamed parts []))
  | .head, .head (some (.error e)) =>
      some (self.close, .ready (.error e, false))
  | .head, .head none =>
      some (self.close, .ready (.error .unexpectedEof, false))
  -- whatever the item is, an error too, it is fed to the payload
  | .fixed parts, .data item =>
      some (self, .ready (.ok ⟨parts, .fixed item⟩, false))
  | .streamed parts fed, .data (some (.ok data)) =>
      some (self, .pending (.streamed parts (fed ++ [some data])))
  | .streamed _ _, .data (some (.error e)) =>
      some (self.close, .ready (.error e, false))
  | .streamed parts fed, .data none =>
      some (self, .ready (.ok ⟨parts, .stream (fed ++ [none])⟩, false))
  | _, _ => none

-- ========================================================= whole calls

/-- What the codec makes of a response body. -/
inductive BodyScript (δ ε : Type)
  /-- The decoder is `PayloadDecoder::None`, which is taken to mean a
  response without a body: a body that runs to the end of the connection
  is outside the scripts. -/
  | none
  | fixed (item : Option (Except (HttpError ε) δ))
  /-- The chunks, then the end or an error. -/
  | streamed (chunks : List δ) (stop : Option (HttpError ε))

/-- Everything the codec does in one `send_request`. -/
inductive Script (π δ ε : Type)
  | sendErr (e : HttpError ε)
  | eof
  | headErr (e : HttpError ε)
  | response (parts : π) (body : BodyScript δ ε)

/-- The loop over a streamed body: what was fed, or the error. -/
def streamLoop (fed : List (Option δ)) :
    List δ → Option (HttpError ε) → Except (HttpError ε) (List (Option δ))
  | [], none => .ok (fed ++ [none])
  | [], some e => .error e
  | data :: rest, stop => streamLoop (fed ++ [some data]) rest stop

/-- `Http1Connection::send_request`, run to completion. -/
def Http1Connection.sendRequest (self : Http1Connection Io) :
    Script π δ ε → Http1Connection Io × Outcome π δ ε
  | .sendErr e => (self.close, .error e, false)
  | .eof => (self.close, .error .unexpectedEof, false)
  | .headErr e => (self.close, .error e, false)
  | .response parts .none => (self, .ok ⟨parts, .none⟩, false)
  | .response parts (.fixed item) => (self, .ok ⟨parts, .fixed item⟩, false)
  | .response parts (.streamed chunks stop) =>
      match streamLoop [] chunks stop with
      | .ok fed => (self, .ok ⟨parts, .stream fed⟩, false)
      | .error e => (self.close, .error e, false)

/-- The events of a body, in the order the code awaits them. -/
def BodyScript.events : BodyScript δ ε → List (CodecEvent π δ ε)
  | .none => []
  | .fixed item => [.data item]
  | .streamed chunks stop =>
      chunks.map (fun data => .data (some (.ok data)))
        ++ [.data (stop.map .error)]

/-- The decoder a head announces for a body. -/
def BodyScript.decoder : BodyScript δ ε → PayloadDecoder
  | .none => .none
  | .fixed _ => .fixed
  | .streamed _ _ => .streamed

/-- The events of a call, in the order the code awaits them. -/
def Script.events : Script π δ ε → List (CodecEvent π δ ε)
  | .sendErr e => [.sent (.error e)]
  | .eof => [.sent (.ok ()), .head none]
  | .headErr e => [.sent (.ok ()), .head (some (.error e))]
  | .response parts body =>
      .sent (.ok ()) :: .head (some (.ok (parts, body.decoder)))
        :: body.events

/-- Resume a future with the events in order; defined when it returns on
the last of them. -/
def Http1Connection.drive (self : Http1Connection Io)
    (st : SendState π δ) :
    List (CodecEvent π δ ε) →
      Option (Http1Connection Io × Outcome π δ ε)
  | [] => none
  | ev :: rest =>
      match self.resume st ev, rest with
      | some (self, .ready out), [] => some (self, out)
      | some (self, .pending st), rest => self.drive st rest
      | _, _ => none

/-- The calls of a sequence, run to completion one after the other. -/
def Http1Connection.sendRequests (self : Http1Connection Io)
    (scripts : List (Script π δ ε)) : Http1Connection Io :=
  scripts.foldl (fun conn script => (conn.sendRequest script).1) self

end MonoioTransports.Http
