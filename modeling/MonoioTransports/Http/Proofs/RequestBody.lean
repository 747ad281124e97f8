/-
The body of an HTTP/2 request is sent faithfully, and a truncated one is
never presented as complete.

# The argument

The loop either goes through the whole body, all of it accepted, or
stops at the first chunk that is refused (`sendBody_cases`). Only in the
first case, and only when the body ended without an error, does the code
go on to mark the end of the stream, and only from there can it return a
response.
-/
import MonoioTransports.Http.Http2

namespace MonoioTransports.Http

variable {C ρ ε : Type}

-- ================================================================ frames

/-- A chunk of the body, as it is passed to `send_data`. -/
def chunkFrame (data : Bytes) : DataFrame :=
  { data := data, endOfStream := false }

/-- The mark at the end of the stream. -/
def eosFrame : DataFrame := { data := [], endOfStream := true }

/-- The loop over the body sends all of it, or stops at the first chunk
that is refused. -/
theorem sendBody_cases (sendData : Nat → Except (HttpError ε) Unit)
    (chunks : List Bytes) (stop : Option (HttpError ε)) :
    ∀ n, ((∀ i < chunks.length, (sendData (n + i)).isOk = true)
        ∧ sendBody sendData n chunks stop
          = (chunks.map chunkFrame, stop))
      ∨ ∃ i e, i < chunks.length
        ∧ (∀ j < i, (sendData (n + j)).isOk = true)
        ∧ sendData (n + i) = .error e
        ∧ sendBody sendData n chunks stop
          = ((chunks.take (i + 1)).map chunkFrame, some e) := by
  induction chunks with
  | nil =>
      intro n
      exact Or.inl ⟨fun i hi => absurd hi (Nat.not_lt_zero i), rfl⟩
  | cons data rest ih =>
      intro n
      cases hsend : sendData n with
      | error e =>
          refine Or.inr ⟨0, e, Nat.succ_pos _,
            fun j hj => absurd hj (Nat.not_lt_zero j), hsend, ?_⟩
          rw [sendBody, hsend]
          rfl
      | ok u =>
          have hok : (sendData n).isOk = true := by
            rw [hsend]
            rfl
          have hshift : ∀ i, n + 1 + i = n + (i + 1) := by omega
          rcases ih (n + 1) with ⟨hall, heq⟩ | ⟨i, e, hi, hbefore, he, heq⟩
          · refine Or.inl ⟨fun i hi => ?_, ?_⟩
            · cases i with
              | zero => exact hok
              | succ i =>
                  rw [← hshift]
                  exact hall i (Nat.lt_of_succ_lt_succ hi)
            · simp only [sendBody, hsend, heq]
              rfl
          · refine Or.inr ⟨i + 1, e, Nat.succ_lt_succ hi, fun j hj => ?_,
              ?_, ?_⟩
            · cases j with
              | zero => exact hok
              | succ j =>
                  rw [← hshift]
                  exact hbefore j (Nat.lt_of_succ_lt_succ hj)
            · rw [← hshift]
              exact he
            · simp only [sendBody, hsend, heq]
              rfl

-- ============================================================ the scripts

/-- The stream is opened. -/
def Http2Script.opened (script : Http2Script ρ ε) : Bool :=
  script.ready.isOk && script.sendRequest.isOk

/-- Every chunk of the body is accepted. -/
def Http2Script.accepted (script : Http2Script ρ ε) : Bool :=
  (List.range script.chunks.length).all fun n =>
    (script.sendData n).isOk

/-- The stream is opened, the body ends normally, and every chunk is
accepted. -/
def Http2Script.delivers (script : Http2Script ρ ε) : Bool :=
  script.opened && script.stop.isNone && script.accepted

theorem Http2Script.accepted_iff (script : Http2Script ρ ε) :
    script.accepted = true
      ↔ ∀ i < script.chunks.length, (script.sendData i).isOk = true := by
  simp [Http2Script.accepted]

/-- Sending the body fails with this error, when so many chunks were
passed on: the last of them was refused, or the body breaks off after
them. -/
inductive Http2Script.BodyFails (script : Http2Script ρ ε) :
    Nat → HttpError ε → Prop
  | refused (i : Nat) (e : HttpError ε) (hi : i < script.chunks.length)
      (hbefore : ∀ j < i, (script.sendData j).isOk = true)
      (he : script.sendData i = .error e) : BodyFails script (i + 1) e
  | broken (e : HttpError ε)
      (hall : ∀ i < script.chunks.length,
        (script.sendData i).isOk = true)
      (hstop : script.stop = some e) :
      BodyFails script script.chunks.length e

variable {script : Http2Script ρ ε}

/-- A body that fails does not go through. -/
theorem Http2Script.BodyFails.not_delivers {n : Nat} {e : HttpError ε}
    (h : script.BodyFails n e) : script.delivers = false := by
  refine Bool.eq_false_iff.mpr fun hd => ?_
  simp only [Http2Script.delivers, Bool.and_eq_true,
    Http2Script.accepted_iff] at hd
  obtain ⟨⟨-, hstop⟩, hall⟩ := hd
  cases h with
  | refused i e hi hbefore he =>
      have := hall i hi
      rw [he] at this
      cases this
  | broken e hbody he =>
      rw [he] at hstop
      cases hstop

/-- It fails once, with one error. -/
theorem Http2Script.BodyFails.unique {n n' : Nat} {e e' : HttpError ε}
    (h : script.BodyFails n e) (h' : script.BodyFails n' e') :
    n = n' ∧ e = e' := by
  have hclash : ∀ {i : Nat} {e : HttpError ε},
      script.sendData i = .error e →
      (script.sendData i).isOk = true → False := by
    intro i e he hok
    rw [he] at hok
    cases hok
  cases h with
  | refused i e hi hbefore he =>
      cases h' with
      | refused i' e' hi' hbefore' he' =>
          have hii : i = i' := by
            rcases Nat.lt_trichotomy i i' with hlt | heq | hgt
            · exact (hclash he (hbefore' i hlt)).elim
            · exact heq
            · exact (hclash he' (hbefore i' hgt)).elim
          subst hii
          rw [he] at he'
          cases he'
          exact ⟨rfl, rfl⟩
      | broken e' hall hstop => exact (hclash he (hall i hi)).elim
  | broken e hall hstop =>
      cases h' with
      | refused i' e' hi' hbefore' he' =>
          exact (hclash he' (hall i' hi')).elim
      | broken e' hall' hstop' =>
          rw [hstop] at hstop'
          cases hstop'
          exact ⟨rfl, rfl⟩

/-- What a call sends, said once: nothing, on a stream that did not
open; the chunks up to the one with which it fails; or the whole body
and the mark, whatever the response comes to. -/
theorem sendRequest_cases (self : Http2Connection C)
    (script : Http2Script ρ ε) :
    (script.opened = false ∧ ∃ e, self.sendRequest script
        = { frames := [], result := (.error e, false) })
      ∨ (script.opened = true ∧ ∃ n e, script.BodyFails n e
        ∧ self.sendRequest script
          = { frames := (script.chunks.take n).map chunkFrame
              result := (.error e, false) })
      ∨ (script.delivers = true ∧ self.sendRequest script
        = { frames := script.chunks.map chunkFrame ++ [eosFrame]
            result := (script.response, script.response.isOk) }) := by
  cases hready : script.ready with
  | error e =>
      refine Or.inl ⟨?_, e, ?_⟩
      · simp [Http2Script.opened, hready, Except.isOk, Except.toBool]
      · simp only [Http2Connection.sendRequest, hready]
  | ok u =>
      cases hsend : script.sendRequest with
      | error e =>
          refine Or.inl ⟨?_, e, ?_⟩
          · simp [Http2Script.opened, hsend, Except.isOk, Except.toBool]
          · simp only [Http2Connection.sendRequest, hready, hsend]
      | ok u' =>
          have hopened : script.opened = true := by
            simp [Http2Script.opened, hready, hsend, Except.isOk,
              Except.toBool]
          apply Or.inr
          rcases sendBody_cases script.sendData script.chunks script.stop 0
            with ⟨hall, heq⟩ | ⟨i, e, hi, hbefore, he, heq⟩
          · simp only [Nat.zero_add] at hall
            cases hstop : script.stop with
            | some e =>
                refine Or.inl ⟨hopened, script.chunks.length, e,
                  .broken e hall hstop, ?_⟩
                rw [hstop] at heq
                simp only [Http2Connection.sendRequest, hready, hsend,
                  hstop, heq, List.take_length]
            | none =>
                refine Or.inr ⟨?_, ?_⟩
                · simp [Http2Script.delivers, hopened, hstop,
                    script.accepted_iff.mpr hall]
                · rw [hstop] at heq
                  simp only [Http2Connection.sendRequest, hready, hsend,
                    hstop, heq]
                  cases script.response with
                  | error e => rfl
                  | ok response => rfl
          · simp only [Nat.zero_add] at hbefore he
            refine Or.inl ⟨hopened, i + 1, e,
              .refused i e hi hbefore he, ?_⟩
            simp only [Http2Connection.sendRequest, hready, hsend, heq]

-- ============================================================ the promise

/-- The promise about what a call sends. -/
structure Http2Sent.Faithful (sent : Http2Sent ρ ε)
    (script : Http2Script ρ ε) : Prop where
  /-- The first chunks of the body, in order, each once and without the
  mark; then the mark, exactly when the whole body went through. -/
  frames : ∃ chunks, chunks <+: script.chunks
    ∧ sent.frames = chunks.map chunkFrame
      ++ if script.delivers then [eosFrame] else []
  whole : script.delivers = true →
    sent.frames = script.chunks.map chunkFrame ++ [eosFrame]
  /-- After a failure nothing more is sent, and it is the result. -/
  failed : ∀ n e, script.opened = true → script.BodyFails n e →
    sent.frames = (script.chunks.take n).map chunkFrame
      ∧ sent.result = (.error e, false)
  unopened : script.opened = false →
    sent.frames = [] ∧ ∃ e, sent.result = (.error e, false)
  /-- A response comes after the mark. -/
  ok : ∀ response, sent.result.1 = .ok response →
    script.delivers = true ∧ sent.frames.getLast? = some eosFrame

/-- Whatever the body, the stream and the connection do, the body is
sent faithfully. -/
theorem body_sent_faithfully (self : Http2Connection C)
    (script : Http2Script ρ ε) :
    (self.sendRequest script).Faithful script := by
  have hopen : script.delivers = true → script.opened = true := by
    intro hd
    simp only [Http2Script.delivers, Bool.and_eq_true] at hd
    exact hd.1.1
  rcases sendRequest_cases self script with
    ⟨hclosed, e, heq⟩ | ⟨hopened, n, e, hfails, heq⟩ | ⟨hdel, heq⟩
  · have hnot : script.delivers = false := by
      refine Bool.eq_false_iff.mpr fun hd => ?_
      rw [hopen hd] at hclosed
      cases hclosed
    rw [heq]
    refine ⟨⟨[], List.nil_prefix, ?_⟩, ?_, ?_, fun _ => ⟨rfl, e, rfl⟩, ?_⟩
    · rw [hnot]
      rfl
    · intro hd
      rw [hnot] at hd
      cases hd
    · intro n e' hopened
      rw [hclosed] at hopened
      cases hopened
    · intro response h
      cases h
  · have hnot := hfails.not_delivers
    rw [heq]
    refine ⟨⟨_, List.take_prefix n script.chunks, ?_⟩, ?_, ?_, ?_, ?_⟩
    · rw [hnot]
      exact (List.append_nil _).symm
    · intro hd
      rw [hnot] at hd
      cases hd
    · intro n' e' _ hfails'
      obtain ⟨rfl, rfl⟩ := hfails.unique hfails'
      exact ⟨rfl, rfl⟩
    · intro hclosed
      rw [hopened] at hclosed
      cases hclosed
    · intro response h
      cases h
  · rw [heq]
    refine ⟨⟨_, List.prefix_refl _, ?_⟩, fun _ => rfl, ?_, ?_, ?_⟩
    · rw [hdel]
      rfl
    · intro n e _ hfails
      rw [hfails.not_delivers] at hdel
      cases hdel
    · intro hclosed
      rw [hopen hdel] at hclosed
      cases hclosed
    · exact fun response _ => ⟨hdel, List.getLast?_concat⟩

end MonoioTransports.Http
