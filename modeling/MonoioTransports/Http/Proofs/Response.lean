/-
An HTTP/1.1 response and its body: when `send_request` returns `Ok`, and
what the payload then holds.

A streamed body is decoded to its end before the response is returned,
and an error on the way is the result. A fixed body is one item, which
is fed to the payload whatever it is: there a decoding error reaches the
reader of the payload, and the caller of `send_request` is told `Ok`
(`wholeResponse_iff`).
-/
import MonoioTransports.Http.Proofs.Boundary

namespace MonoioTransports.Http

variable {Io π δ ε : Type}

/-- The error with which a call failed to send its request or to decode
its response. -/
def Script.error : Script π δ ε → Option (HttpError ε)
  | .sendErr e => some e
  | .eof => some .unexpectedEof
  | .headErr e => some e
  | .response _ (.fixed (some (.error e))) => some e
  | .response _ (.streamed _ stop) => stop
  | .response _ _ => none

/-- A script has an error exactly when it is not clean. -/
theorem Script.error_eq_none_iff (script : Script π δ ε) :
    script.error = none ↔ script.clean = true := by
  rcases script with e | _ | e | ⟨parts, body⟩
  · simp [Script.error, Script.clean]
  · simp [Script.error, Script.clean]
  · simp [Script.error, Script.clean]
  rcases body with _ | item | ⟨chunks, stop⟩
  · simp [Script.error, Script.clean]
  · rcases item with _ | e | data
    · simp [Script.error, Script.clean]
    · simp [Script.error, Script.clean]
    · simp [Script.error, Script.clean]
  · cases stop with
    | none => simp [Script.error, Script.clean]
    | some e => simp [Script.error, Script.clean]

/-- The payload holds the decoded body: its chunks in order, each once,
and after those of a stream one end marker. -/
inductive Payload.Holds : Payload δ ε → BodyScript δ ε → Prop
  | none : Holds .none .none
  | empty : Holds (.fixed Option.none) (.fixed Option.none)
  | fixed (data : δ) :
      Holds (.fixed (some (.ok data))) (.fixed (some (.ok data)))
  | stream (chunks : List δ) :
      Holds (.stream (chunks.map some ++ [Option.none]))
        (.streamed chunks Option.none)

/-- The promise about a response. -/
structure WholeResponse (conn : Http1Connection Io)
    (script : Script π δ ε) : Prop where
  ok_iff : (∃ response, (conn.sendRequest script).2.1 = .ok response)
    ↔ script.clean = true
  payload : ∀ response, (conn.sendRequest script).2.1 = .ok response →
    ∃ parts body, script = .response parts body
      ∧ response.parts = parts ∧ response.payload.Holds body
  error : ∀ e, script.error = some e →
    (conn.sendRequest script).2.1 = .error e

/-- A response to a clean script holds the whole body. -/
theorem sendRequest_of_clean (self : Http1Connection Io)
    {script : Script π δ ε} (h : script.clean = true) :
    ∃ parts body payload, script = .response parts body
      ∧ (self.sendRequest script).2.1 = .ok ⟨parts, payload⟩
      ∧ payload.Holds body := by
  rcases script with e | _ | e | ⟨parts, body⟩
  · cases h
  · cases h
  · cases h
  rcases body with _ | item | ⟨chunks, stop⟩
  · exact ⟨parts, _, _, rfl, rfl, .none⟩
  · rcases item with _ | e | data
    · exact ⟨parts, _, _, rfl, rfl, .empty⟩
    · cases h
    · exact ⟨parts, _, _, rfl, rfl, .fixed data⟩
  · cases stop with
    | some e => cases h
    | none =>
        refine ⟨parts, _, _, rfl, ?_, .stream chunks⟩
        rw [Http1Connection.sendRequest, streamLoop_ok]
        rfl

/-- An error of another script, unless a fixed body failed, is the
result. -/
theorem sendRequest_of_error (self : Http1Connection Io)
    {script : Script π δ ε} (h : script.fixedError = false)
    {e : HttpError ε} (he : script.error = some e) :
    (self.sendRequest script).2.1 = .error e := by
  rcases script with e' | _ | e' | ⟨parts, body⟩
  · cases he
    rfl
  · cases he
    rfl
  · cases he
    rfl
  rcases body with _ | item | ⟨chunks, stop⟩
  · cases he
  · rcases item with _ | e' | data
    · cases he
    · cases h
    · cases he
  · cases he
    rw [Http1Connection.sendRequest, streamLoop_error]

/-- The promise is kept exactly when the call's body is not a fixed one
whose decoding fails. -/
theorem wholeResponse_iff (self : Http1Connection Io)
    (script : Script π δ ε) :
    WholeResponse self script ↔ script.fixedError = false := by
  constructor
  · intro h
    refine Bool.eq_false_iff.mpr fun hfixed => ?_
    rcases script with e | _ | e | ⟨parts, body⟩
    · cases hfixed
    · cases hfixed
    · cases hfixed
    rcases body with _ | item | ⟨chunks, stop⟩
    · cases hfixed
    · rcases item with _ | e | data
      · cases hfixed
      · -- the error goes into the payload of a response
        exact absurd (h.ok_iff.mp ⟨_, rfl⟩) Bool.false_ne_true
      · cases hfixed
    · cases hfixed
  · intro hfixed
    have hclean : ∀ response,
        (self.sendRequest script).2.1 = .ok response →
        script.clean = true := by
      intro response hok
      rw [← Script.error_eq_none_iff]
      cases he : script.error with
      | none => rfl
      | some e =>
          rw [sendRequest_of_error self hfixed he] at hok
          cases hok
    refine ⟨⟨fun ⟨response, hok⟩ => hclean response hok, fun h => ?_⟩,
      fun response hok => ?_, fun e he => ?_⟩
    · obtain ⟨parts, body, payload, -, hres, -⟩ :=
        sendRequest_of_clean self h
      exact ⟨_, hres⟩
    · obtain ⟨parts, body, payload, hscript, hres, hholds⟩ :=
        sendRequest_of_clean self (hclean response hok)
      rw [hres] at hok
      cases hok
      exact ⟨parts, body, hscript, rfl, hholds⟩
    · exact sendRequest_of_error self hfixed he

/-- A body of known length that is cut short is returned as `Ok`. -/
theorem not_wholeResponse :
    ¬ ∀ (self : Http1Connection Unit) (script : Script Unit Unit Unit),
      WholeResponse self script := by
  intro h
  have hok := (h (Http1Connection.new ())
    (.response () (.fixed (some (.error .unexpectedEof))))).ok_iff
  exact absurd (hok.mp ⟨_, rfl⟩) (by decide)

end MonoioTransports.Http
