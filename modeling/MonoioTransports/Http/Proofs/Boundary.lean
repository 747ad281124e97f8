/-
Where `send_request` leaves a connection: the await-by-await code and
the run to completion are one function, and when the connection stays
open at the end of a sequence of calls.

# Two readings of one function

`drive_events`: driving the future with the events of a script is
`sendRequest` on that script. `exists_script`: every sequence of events
that drives the future to a return is the events of some script, so the
scripts miss no run.

# The message boundary

Five of the exits are errors. Four of them close the connection; the
fixed body's does not, for it feeds the error to the payload and returns
a response. So the connection is open exactly when no call took one of
the four (`isOpen_sendRequests`), which is the clean boundary unless a
fixed body failed and nothing else did (`cleanBoundary_iff`).
-/
import MonoioTransports.Http.Connection

namespace MonoioTransports.Http

open Pool

variable {Io π δ ε : Type}

-- ==================================================== one function, twice

/-- Driving the loop over a streamed body. -/
private theorem drive_streamed (self : Http1Connection Io) (parts : π)
    (stop : Option (HttpError ε)) :
    ∀ (chunks : List δ) (fed : List (Option δ)),
      self.drive (.streamed parts fed)
          (BodyScript.streamed chunks stop).events
        = some (match streamLoop fed chunks stop with
          | .ok fed => (self, .ok ⟨parts, .stream fed⟩, false)
          | .error e => (self.close, .error e, false)) := by
  intro chunks
  induction chunks with
  | nil =>
      intro fed
      cases stop <;> rfl
  | cons data rest ih =>
      intro fed
      exact ih (fed ++ [some data])

/-- Driving the future with the events of a script is the call run to
completion. -/
theorem drive_events (self : Http1Connection Io) (script : Script π δ ε) :
    self.drive .sending script.events = some (self.sendRequest script) := by
  cases script with
  | sendErr e => rfl
  | eof => rfl
  | headErr e => rfl
  | response parts body =>
      cases body with
      | none => rfl
      | fixed item => rfl
      | streamed chunks stop =>
          refine (drive_streamed self parts stop chunks []).trans ?_
          cases hloop : streamLoop [] chunks stop with
          | ok fed => simp only [Http1Connection.sendRequest, hloop]
          | error e => simp only [Http1Connection.sendRequest, hloop]

/-- Events that drive the streamed loop to a return are a body's. -/
private theorem exists_streamed {self : Http1Connection Io} {parts : π} :
    ∀ {evs : List (CodecEvent π δ ε)} {fed : List (Option δ)}
      {r : Http1Connection Io × Outcome π δ ε},
      self.drive (.streamed parts fed) evs = some r →
      ∃ chunks stop, evs = (BodyScript.streamed chunks stop).events := by
  intro evs
  induction evs with
  | nil =>
      intro fed r h
      cases h
  | cons ev rest ih =>
      intro fed r h
      cases ev with
      | sent s => cases h
      | head hd => cases h
      | data item =>
          cases item with
          | none =>
              cases rest with
              | nil => exact ⟨[], none, rfl⟩
              | cons ev' rest => cases h
          | some item =>
              cases item with
              | error e =>
                  cases rest with
                  | nil => exact ⟨[], some e, rfl⟩
                  | cons ev' rest => cases h
              | ok data =>
                  have hrest : self.drive
                      (.streamed parts (fed ++ [some data])) rest
                        = some r := h
                  obtain ⟨chunks, stop, rfl⟩ := ih hrest
                  exact ⟨data :: chunks, stop, rfl⟩

/-- Events that drive the future to a return are some script's. -/
theorem exists_script {self : Http1Connection Io}
    {evs : List (CodecEvent π δ ε)}
    {r : Http1Connection Io × Outcome π δ ε}
    (h : self.drive .sending evs = some r) :
    ∃ script : Script π δ ε, evs = script.events := by
  rcases evs with _ | ⟨ev, evs⟩
  · cases h
  rcases ev with s | hd | item
  case head => cases h
  case data => cases h
  rcases s with e | u
  · cases evs with
    | nil => exact ⟨.sendErr e, rfl⟩
    | cons ev' rest => cases h
  have h' : self.drive .head evs = some r := h
  rcases evs with _ | ⟨ev, evs⟩
  · cases h'
  rcases ev with s | hd | item
  case sent => cases h'
  case data => cases h'
  rcases hd with _ | e | ⟨parts, decoder⟩
  · cases evs with
    | nil => exact ⟨.eof, rfl⟩
    | cons ev' rest => cases h'
  · cases evs with
    | nil => exact ⟨.headErr e, rfl⟩
    | cons ev' rest => cases h'
  cases decoder with
  | none =>
      cases evs with
      | nil => exact ⟨.response parts .none, rfl⟩
      | cons ev' rest => cases h'
  | fixed =>
      have h'' : self.drive (.fixed parts) evs = some r := h'
      rcases evs with _ | ⟨ev, evs⟩
      · cases h''
      rcases ev with s | hd | item
      case sent => cases h''
      case head => cases h''
      cases evs with
      | nil => exact ⟨.response parts (.fixed item), rfl⟩
      | cons ev' rest => cases h''
  | streamed =>
      have h'' : self.drive (.streamed parts []) evs = some r := h'
      obtain ⟨chunks, stop, rfl⟩ := exists_streamed h''
      exact ⟨.response parts (.streamed chunks stop), rfl⟩

-- ====================================================== the open flag

/-- The call leaves through an exit that closes the connection. -/
def Script.closes : Script π δ ε → Bool
  | .sendErr _ => true
  | .eof => true
  | .headErr _ => true
  | .response _ (.streamed _ (some _)) => true
  | .response _ _ => false

/-- The call's body is fixed and its decoding ends in an error. -/
def Script.fixedError : Script π δ ε → Bool
  | .response _ (.fixed (some (.error _))) => true
  | _ => false

/-- The call sent its request and decoded its whole response, head and
body, without an error. No decoder is no body, by assumption: the codec
reports none, too, for a body that the end of the connection ends. -/
def Script.clean : Script π δ ε → Bool
  | .response _ .none => true
  | .response _ (.fixed none) => true
  | .response _ (.fixed (some (.ok _))) => true
  | .response _ (.streamed _ none) => true
  | _ => false

/-- An error is one or the other. -/
theorem Script.clean_eq (script : Script π δ ε) :
    script.clean = (!script.closes && !script.fixedError) := by
  rcases script with e | _ | e | ⟨parts, body⟩
  · rfl
  · rfl
  · rfl
  rcases body with _ | item | ⟨chunks, stop⟩
  · rfl
  · rcases item with _ | e | data <;> rfl
  · cases stop <;> rfl

theorem streamLoop_ok (chunks : List δ) :
    ∀ fed : List (Option δ),
      streamLoop (ε := ε) fed chunks none
        = .ok (fed ++ chunks.map some ++ [none]) := by
  induction chunks with
  | nil =>
      intro fed
      simp [streamLoop]
  | cons data rest ih =>
      intro fed
      rw [streamLoop, ih]
      simp

theorem streamLoop_error (chunks : List δ) (e : HttpError ε) :
    ∀ fed : List (Option δ),
      streamLoop fed chunks (some e) = .error e := by
  induction chunks with
  | nil =>
      intro fed
      rfl
  | cons data rest ih =>
      intro fed
      rw [streamLoop, ih]

/-- A call closes the connection or leaves it as it was. -/
theorem sendRequest_fst (self : Http1Connection Io)
    (script : Script π δ ε) :
    (self.sendRequest script).1
      = if script.closes then self.close else self := by
  rcases script with e | _ | e | ⟨parts, body⟩
  · rfl
  · rfl
  · rfl
  rcases body with _ | item | ⟨chunks, stop⟩
  · rfl
  · rfl
  · cases stop with
    | none =>
        rw [Http1Connection.sendRequest, streamLoop_ok]
        rfl
    | some e =>
        rw [Http1Connection.sendRequest, streamLoop_error]
        rfl

@[simp] theorem isOpen_close (self : Http1Connection Io) :
    self.close.isOpen = false := by
  simp [Http1Connection.isOpen, Http1Connection.close]

/-- After one call: open when it was and the call did not close it. -/
theorem isOpen_sendRequest (self : Http1Connection Io)
    (script : Script π δ ε) :
    (self.sendRequest script).1.isOpen
      = (self.isOpen && !script.closes) := by
  rw [sendRequest_fst]
  cases script.closes <;> simp

/-- After a sequence: open when it was and no call closed it. -/
theorem isOpen_sendRequests (scripts : List (Script π δ ε)) :
    ∀ self : Http1Connection Io,
      (self.sendRequests scripts).isOpen
        = (self.isOpen && scripts.all fun s => !s.closes) := by
  induction scripts with
  | nil =>
      intro self
      simp [Http1Connection.sendRequests]
  | cons s rest ih =>
      intro self
      rw [List.all_cons, ← Bool.and_assoc, ← isOpen_sendRequest]
      exact ih _

-- ================================================ the message boundary

/-- The connection is poolable exactly at a clean message boundary,
after this sequence of calls on a new one. -/
structure CleanBoundary (io : Io) (scripts : List (Script π δ ε)) :
    Prop where
  open_iff :
    ((Http1Connection.new io).sendRequests scripts).isOpen = true
      ↔ ∀ s ∈ scripts, s.clean = true
  /-- Once false it never becomes true again. -/
  stays_closed : ∀ before after, scripts = before ++ after →
    ((Http1Connection.new io).sendRequests before).isOpen = false →
    ((Http1Connection.new io).sendRequests scripts).isOpen = false
  /-- Dropping the handle then never returns it to the pool. -/
  not_pooled : (¬ ∀ s ∈ scripts, s.clean = true) →
    ∀ (K : Type) [DecidableEq K] (p : Pooled K (Http1Connection Io))
      (now : Nat) (shared : Option (PoolInner K (Http1Connection Io))),
      p.value = (Http1Connection.new io).sendRequests scripts →
      p.drop now p.value.isOpen shared = (shared, [p.value])

/-- A new connection after a sequence of calls. -/
theorem isOpen_sendRequests_new (io : Io)
    (scripts : List (Script π δ ε)) :
    ((Http1Connection.new io).sendRequests scripts).isOpen = true
      ↔ ∀ s ∈ scripts, s.closes = false := by
  rw [isOpen_sendRequests]
  simp [Http1Connection.new, Http1Connection.isOpen]

/-- The boundary is clean exactly when no fixed body failed, or some
call closed the connection through another error exit. -/
theorem cleanBoundary_iff (io : Io) (scripts : List (Script π δ ε)) :
    CleanBoundary io scripts
      ↔ (∀ s ∈ scripts, s.fixedError = false)
        ∨ ∃ s ∈ scripts, s.closes = true := by
  constructor
  · intro h
    by_cases hc : ∃ s ∈ scripts, s.closes = true
    · exact Or.inr hc
    · have hopen : ∀ s ∈ scripts, s.closes = false := fun s hs =>
        Bool.eq_false_iff.mpr fun ht => hc ⟨s, hs, ht⟩
      have hclean := h.open_iff.mp
        ((isOpen_sendRequests_new io scripts).mpr hopen)
      refine Or.inl fun s hs => ?_
      have := hclean s hs
      rw [Script.clean_eq, Bool.and_eq_true] at this
      simpa using this.2
  · intro h
    have hiff : ((Http1Connection.new io).sendRequests scripts).isOpen
        = true ↔ ∀ s ∈ scripts, s.clean = true := by
      rw [isOpen_sendRequests_new]
      constructor
      · intro hopen s hs
        rcases h with hfixed | ⟨s', hs', hc⟩
        · rw [Script.clean_eq, hopen s hs, hfixed s hs]
          rfl
        · rw [hopen s' hs'] at hc
          cases hc
      · intro hclean s hs
        have := hclean s hs
        rw [Script.clean_eq, Bool.and_eq_true] at this
        simpa using this.1
    refine ⟨hiff, ?_, ?_⟩
    · intro before after heq hfalse
      subst heq
      rw [isOpen_sendRequests] at hfalse ⊢
      rw [List.all_append, ← Bool.and_assoc, hfalse]
      rfl
    · intro hdirty K _ p now shared hp
      have hclosed : p.value.isOpen = false := by
        rw [hp]
        exact Bool.eq_false_iff.mpr fun ht => hdirty (hiff.mp ht)
      rw [hclosed]
      rfl

/-- A body of known length that is cut short leaves the connection
open. -/
theorem not_cleanBoundary :
    ¬ ∀ (io : Unit) (scripts : List (Script Unit Unit Unit)),
      CleanBoundary io scripts := by
  intro h
  have hcut := (h ()
    [.response () (.fixed (some (.error .unexpectedEof)))]).open_iff.mp rfl
  exact absurd (hcut _ List.mem_cons_self) (by decide)

end MonoioTransports.Http
