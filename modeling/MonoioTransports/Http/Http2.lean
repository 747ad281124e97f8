/-
`Http2Connection::send_request` and `HttpConnection::send_request`
(src/http/connection.rs), run to completion.

# Reading the model

- The `h2` crate is the environment. An `Http2Script` is everything it
  and the body of the request do in one call: what `ready`,
  `send_request` and the response come to, the items of the body, and
  what `send_data` answers to the n-th of them. Errors stand in it as
  the `HttpError` they are converted into.
- `connError` in a script is whether the connection breaks during the
  call; it may, or not, whatever the call comes to. A connection that is
  broken stays so: `has_conn_error` answers the same ever after.
- `frames` is what the call passed to `send_data`, in order, a frame
  that was refused among them.
- A `Wire` is what the connections a caller holds refer to: the fields
  of each HTTP/1.1 connection, and which HTTP/2 connections have an
  error.
-/
import MonoioTransports.Http.Connector

namespace MonoioTransports.Http

open Lib Pool

variable {K C π δ β ε : Type}

-- ========================================================== send_request

/-- `bytes::Bytes`. -/
abbrev Bytes : Type := List UInt8

/-- A call of `send_data`. -/
structure DataFrame where
  data : Bytes
  endOfStream : Bool
  deriving DecidableEq, Repr

/-- Everything the stream, the connection and the request's body do in
one `send_request`. -/
structure Http2Script (ρ ε : Type) where
  ready : Except (HttpError ε) Unit
  sendRequest : Except (HttpError ε) Unit
  /-- The chunks of the body, then its end or an error. -/
  chunks : List Bytes
  stop : Option (HttpError ε)
  sendData : Nat → Except (HttpError ε) Unit
  response : Except (HttpError ε) ρ
  connError : Bool

/-- The loop over the body: what it sends, and the error it returns
with, if it does. `n` chunks were sent before. -/
def sendBody (sendData : Nat → Except (HttpError ε) Unit) (n : Nat) :
    List Bytes → Option (HttpError ε) →
      List DataFrame × Option (HttpError ε)
  | [], stop => ([], stop)
  | data :: rest, stop =>
      let frame : DataFrame := { data := data, endOfStream := false }
      match sendData n with
      | .error e => ([frame], some e)
      | .ok _ =>
          let r := sendBody sendData (n + 1) rest stop
          (frame :: r.1, r.2)

/-- What a call sent, and what it returns. -/
structure Http2Sent (ρ ε : Type) where
  frames : List DataFrame
  result : Except (HttpError ε) ρ × Bool

/-- `Http2Connection::send_request`. -/
def Http2Connection.sendRequest {ρ : Type} (_self : Http2Connection C)
    (script : Http2Script ρ ε) : Http2Sent ρ ε :=
  match script.ready with
  | .error e => { frames := [], result := (.error e, false) }
  | .ok _ =>
      match script.sendRequest with
      | .error e => { frames := [], result := (.error e, false) }
      | .ok _ =>
          match sendBody script.sendData 0 script.chunks script.stop with
          | (frames, some e) =>
              { frames := frames, result := (.error e, false) }
          | (frames, none) =>
              -- mark end of stream; what `send_data` answers is ignored
              let frames := frames ++ [{ data := [], endOfStream := true }]
              match script.response with
              | .error e =>
                  { frames := frames, result := (.error e, false) }
              | .ok response =>
                  { frames := frames, result := (.ok response, true) }

-- ========================================================= either version

/-- `HttpBody`: a payload, or the stream of an HTTP/2 response. -/
inductive HttpBody (δ β ε : Type)
  | http1 (payload : Payload δ ε)
  | http2 (stream : β)

/-- What the connections refer to. -/
structure Wire (C : Type) where
  conns : C → Http1Connection C
  connError : C → Bool

/-- `HttpConnection::is_open`. -/
def HttpConnection.isOpen (self : HttpConnection C) (wire : Wire C) :
    Bool :=
  match self with
  | .http1 _ conn => (wire.conns conn).isOpen
  | .http2 conn => !wire.connError conn.tx

/-- `HttpConnection::send_request`, with the script of either version:
what is left of the wire, and the result. An error the connection had
before the call is there after it. -/
def HttpConnection.sendRequest [DecidableEq C] (self : HttpConnection C)
    (wire : Wire C) (script1 : Script π δ ε)
    (script2 : Http2Script (π × β) ε) :
    Wire C × Except (HttpError ε) (π × HttpBody δ β ε) × Bool :=
  match self with
  | .http1 _ conn =>
      let r := (wire.conns conn).sendRequest script1
      ({ wire with conns := Function.update wire.conns conn r.1 },
        r.2.1.map fun response =>
          (response.parts, .http1 response.payload),
        r.2.2)
  | .http2 conn =>
      let r := conn.sendRequest script2
      let broken := wire.connError conn.tx || script2.connError
      ({ wire with
          connError := Function.update wire.connError conn.tx broken },
        r.result.1.map fun response => (response.1, .http2 response.2),
        r.result.2)

end MonoioTransports.Http
