/-
The exchanges on the connections of a pool (src/http/connection.rs,
src/pool/mod.rs).

# One connection, many tasks

Tasks take turns with a connection through the pool, and a call of
`send_request` awaits several times, so the calls of a run are
interleaved. On each connection they are not: what happened there is one
exchange after another, each a whole call (`Exchange.whole`, and what it
returned is what `sendRequest` returns on what its awaits resolved to)
or one dropped at an await (`Exchange.abandoned`), and at most one is
under way (`Serial`). The fields of the connection are those that the
whole calls leave, run to completion one after the other.

# The argument

- A call runs while its handle is live, and a handle is the only one of
  its connection; so a step that goes on with a call goes on with the
  exchange under way on that connection.
- A step that does not concern the connection leaves the connection and
  its call as they were (`Undisturbed`).
- From one await to the next the connection stays as it is, and what
  the call does next does not depend on it (`resume_progress`).
-/
import MonoioTransports.Http.Proofs.Abandoned
import MonoioTransports.Lib.History

namespace MonoioTransports.Http

open Lib Pool

variable {Io Io' K C π δ ε : Type}

-- ======================================================= await after await

/-- The await a call is at, when the ones before resolved so. -/
def Http1Connection.follow (self : Http1Connection Io) :
    SendState π δ → List (CodecEvent π δ ε) → Option (SendState π δ)
  | st, [] => some st
  | st, ev :: rest =>
      match self.resume st ev with
      | some (_, .pending st) => self.follow st rest
      | _ => none

/-- What a call does next does not depend on the connection. -/
theorem resume_progress (self : Http1Connection Io)
    (other : Http1Connection Io') (st : SendState π δ)
    (ev : CodecEvent π δ ε) :
    (self.resume st ev).map Prod.snd = (other.resume st ev).map Prod.snd := by
  unfold Http1Connection.resume
  split <;> rfl

/-- At the next await the connection is as it was. -/
theorem resume_pending {self conn : Http1Connection Io}
    {st st' : SendState π δ} {ev : CodecEvent π δ ε}
    (h : self.resume st ev = some (conn, .pending st')) : conn = self := by
  unfold Http1Connection.resume at h
  split at h <;> cases h
  all_goals rfl

/-- One await more. -/
theorem follow_append {self : Http1Connection Io}
    {other : Http1Connection Io'} {ev : CodecEvent π δ ε} :
    ∀ {evs : List (CodecEvent π δ ε)} {st st₁ st₂ : SendState π δ}
      {conn : Http1Connection Io'}, self.follow st evs = some st₁ →
      other.resume st₁ ev = some (conn, .pending st₂) →
      self.follow st (evs ++ [ev]) = some st₂ := by
  intro evs
  induction evs with
  | nil =>
      intro st st₁ st₂ conn h hres
      obtain rfl : st = st₁ := Option.some.inj h
      have hsame := resume_progress self other st ev
      rw [hres] at hsame
      obtain ⟨⟨conn', pr⟩, hself, rfl⟩ := Option.map_eq_some_iff.mp hsame
      show self.follow st [ev] = some st₂
      rw [Http1Connection.follow, hself]
      rfl
  | cons ev' rest ih =>
      intro st st₁ st₂ conn h hres
      unfold Http1Connection.follow at h
      split at h
      next conn' st' hself =>
        show self.follow st (ev' :: (rest ++ [ev])) = some st₂
        rw [Http1Connection.follow, hself]
        exact ih h hres
      next => cases h

/-- The last await: the events drive the call to its return. -/
theorem drive_append {self conn : Http1Connection Io}
    {other : Http1Connection Io'} {ev : CodecEvent π δ ε}
    {out : Outcome π δ ε} :
    ∀ {evs : List (CodecEvent π δ ε)} {st st₁ : SendState π δ},
      other.follow st evs = some st₁ →
      self.resume st₁ ev = some (conn, .ready out) →
      self.drive st (evs ++ [ev]) = some (conn, out) := by
  intro evs
  induction evs with
  | nil =>
      intro st st₁ h hres
      obtain rfl : st = st₁ := Option.some.inj h
      show self.drive st [ev] = some (conn, out)
      unfold Http1Connection.drive
      rw [hres]
  | cons ev' rest ih =>
      intro st st₁ h hres
      unfold Http1Connection.follow at h
      split at h
      next conn' st' hother =>
        have hsame := resume_progress other self st ev'
        rw [hother] at hsame
        obtain ⟨⟨conn₁, pr⟩, hself, rfl⟩ :=
          Option.map_eq_some_iff.mp hsame.symm
        obtain rfl := resume_pending hself
        show conn₁.drive st (ev' :: (rest ++ [ev])) = some (conn, out)
        unfold Http1Connection.drive
        rw [hself]
        exact ih h hres
      next => cases h

-- ============================================================== exchanges

/-- What happens on a connection, and through which handle. -/
inductive H1Event (C π δ ε : Type)
  | start (h : Nat) (c : C)
  | resolved (h : Nat) (c : C) (ev : CodecEvent π δ ε)
  | finish (h : Nat) (c : C) (out : Outcome π δ ε)
  | abandon (h : Nat) (c : C)

/-- The connection an event is about. -/
def H1Event.conn : H1Event C π δ ε → C
  | .start _ c => c
  | .resolved _ c _ => c
  | .finish _ c _ => c
  | .abandon _ c => c

/-- A call of `send_request`: whole, or dropped at an await it had
reached. -/
inductive Exchange (π δ ε : Type)
  | whole (h : Nat) (script : Script π δ ε)
  | abandoned (h : Nat) (evs : List (CodecEvent π δ ε))
      (reached : ((Http1Connection.new ()).follow .sending evs).isSome
        = true)

namespace Exchange

/-- The events of a call on a connection, in order. -/
def events (c : C) : Exchange π δ ε → List (H1Event C π δ ε)
  | .whole h script =>
      .start h c :: script.events.map (.resolved h c)
        ++ [.finish h c ((Http1Connection.new c).sendRequest script).2]
  | .abandoned h evs _ =>
      .start h c :: evs.map (.resolved h c) ++ [.abandon h c]

/-- What the codec did, if the call ran to its end. -/
def script : Exchange π δ ε → Option (Script π δ ε)
  | .whole _ script => some script
  | .abandoned _ _ _ => none

end Exchange

/-- A call under way: its handle, and what its awaits resolved to. -/
def underEvents (c : C) :
    Option (Nat × List (CodecEvent π δ ε)) → List (H1Event C π δ ε)
  | some (h, evs) => .start h c :: evs.map (.resolved h c)
  | none => []

namespace H1World

variable [DecidableEq K] [DecidableEq C] {s s' : H1World K C π δ}

/-- The events of a step, the latest first. -/
def events (s : H1World K C π δ) (a : H1Action K C π δ ε)
    (_ : H1World K C π δ) : List (H1Event C π δ ε) :=
  match a with
  | .sendRequest h =>
      match s.world.handles h with
      | some p => [.start h p.value]
      | none => []
  | .resume h ev =>
      match s.world.handles h, s.sends h with
      | some p, some st =>
          match (s.conns p.value).resume st ev with
          | some (_, .ready out) =>
              [.finish h p.value out, .resolved h p.value ev]
          | _ => [.resolved h p.value ev]
      | _, _ => []
  | .cancel h =>
      match s.world.handles h with
      | some p => [.abandon h p.value]
      | none => []
  | _ => []

/-- A pool, its tasks, and the history of its connections. -/
abbrev recorded (idleInterval maxIdle : Option Nat) :
    Machine (Recorded (H1World K C π δ) (H1Event C π δ ε))
      (H1Action K C π δ ε) :=
  (machine idleInterval maxIdle).recording events

-- ========================================================= the invariant

/-- The history of a connection, the earliest first. -/
def onConn (c : C) (history : List (H1Event C π δ ε)) :
    List (H1Event C π δ ε) :=
  (history.filter fun e => e.conn = c).reverse

/-- A call on the connection is at this await. -/
def Calling (s : H1World K C π δ) (h : Nat) (c : C)
    (st : SendState π δ) : Prop :=
  s.world.Owns h c ∧ s.sends h = some st

/-- The connection has seen these exchanges, one after the other, and
this call is under way. -/
structure Serial (s : H1World K C π δ) (history : List (H1Event C π δ ε))
    (c : C) (done : List (Exchange π δ ε))
    (under : Option (Nat × List (CodecEvent π δ ε))) : Prop where
  trace : onConn c history
    = done.flatMap (Exchange.events c) ++ underEvents c under
  conn : s.conns c
    = (Http1Connection.new c).sendRequests (done.filterMap Exchange.script)
  free : under = none → ∀ h st, ¬ s.Calling h c st
  busy : ∀ h evs, under = some (h, evs) → ∃ st, s.Calling h c st
    ∧ (Http1Connection.new ()).follow .sending evs = some st

/-- Every connection has, and what is idle is open. -/
structure Traced (s : H1World K C π δ)
    (history : List (H1Event C π δ ε)) : Prop where
  called : ∀ h, s.sends h ≠ none → s.world.handles h ≠ none
  started : ∀ e ∈ history, ¬ s.world.Fresh e.conn
  idle : ∀ k c, c ∈ s.world.conns k → (s.conns c).isOpen = true
  serial : ∀ c, ∃ done under, s.Serial history c done under

/-- A step leaves a connection and its call alone. -/
structure Undisturbed (s s' : H1World K C π δ) (c : C) : Prop where
  conn : s'.conns c = s.conns c
  calls : ∀ h st, s'.Calling h c st ↔ s.Calling h c st

omit [DecidableEq K] in
theorem onConn_append (c : C) (evs history : List (H1Event C π δ ε)) :
    onConn c (evs ++ history) = onConn c history ++ onConn c evs := by
  simp only [onConn, List.filter_append, List.reverse_append]

omit [DecidableEq K] in
theorem onConn_eq_nil {c : C} {history : List (H1Event C π δ ε)}
    (h : ∀ e ∈ history, e.conn ≠ c) : onConn c history = [] := by
  rw [onConn, List.reverse_eq_nil_iff, List.filter_eq_nil_iff]
  intro e he
  rw [decide_eq_true_eq]
  exact h e he

omit [DecidableEq K] in
theorem Serial.keep {history : List (H1Event C π δ ε)} {c : C}
    {done : List (Exchange π δ ε)}
    {under : Option (Nat × List (CodecEvent π δ ε))}
    (hs : s.Serial history c done under) (hu : s.Undisturbed s' c) :
    s'.Serial history c done under := by
  refine ⟨hs.trace, hu.conn.trans hs.conn, ?_, ?_⟩
  · intro hnone h st hcall
    exact hs.free hnone h st ((hu.calls h st).mp hcall)
  · intro h evs heq
    obtain ⟨st, hcall, hfollow⟩ := hs.busy h evs heq
    exact ⟨st, (hu.calls h st).mpr hcall, hfollow⟩

omit [DecidableEq K] in
theorem Serial.aside {history evs : List (H1Event C π δ ε)} {c : C}
    {done : List (Exchange π δ ε)}
    {under : Option (Nat × List (CodecEvent π δ ε))}
    (hs : s.Serial history c done under) (hevs : ∀ e ∈ evs, e.conn ≠ c) :
    s.Serial (evs ++ history) c done under := by
  refine ⟨?_, hs.conn, hs.free, hs.busy⟩
  rw [onConn_append, onConn_eq_nil hevs, List.append_nil]
  exact hs.trace

/-- The call of a live handle is the one under way on its connection. -/
theorem Serial.under_of_calling {l : Custody C K Nat}
    (t : s.world.Tracks l) {history : List (H1Event C π δ ε)} {c : C}
    {done : List (Exchange π δ ε)}
    {under : Option (Nat × List (CodecEvent π δ ε))}
    (hs : s.Serial history c done under) {h : Nat} {st : SendState π δ}
    (hcall : s.Calling h c st) :
    ∃ evs, under = some (h, evs)
      ∧ (Http1Connection.new ()).follow .sending evs = some st := by
  cases hunder : under with
  | none => exact absurd hcall (hs.free hunder h st)
  | some call =>
      obtain ⟨h', evs⟩ := call
      obtain ⟨st', hcall', hfollow⟩ := hs.busy h' evs hunder
      obtain rfl : h' = h := t.owner_unique hcall.1 hcall'.1
      obtain rfl : st = st' := Option.some.inj (hcall.2.symm.trans hcall'.2)
      exact ⟨evs, rfl, hfollow⟩

/-- The pool moves and drops no handle with a call: those stay. -/
theorem handles_of_called {l : Custody C K Nat} (t : s.world.Tracks l)
    (hcalled : ∀ h, s.sends h ≠ none → s.world.handles h ≠ none)
    {a : Action K C} {w : World K C} (hw : s.world.step a = some w)
    (hdrop : ∀ h isOpen, a = .drop h isOpen → s.sends h = none) {h : Nat}
    (hsend : s.sends h ≠ none) : w.handles h = s.world.handles h := by
  refine handles_of_step hw (fun heq => hcalled h hsend ?_)
    (fun isOpen heq => hsend (hdrop h isOpen heq))
  rw [heq]
  exact t.fresh _ (Nat.le_refl _)

/-- So do the calls. -/
theorem calling_moved {l : Custody C K Nat} (t : s.world.Tracks l)
    (hcalled : ∀ h, s.sends h ≠ none → s.world.handles h ≠ none)
    {a : Action K C} {w : World K C} (hw : s.world.step a = some w)
    (hdrop : ∀ h isOpen, a = .drop h isOpen → s.sends h = none)
    {entered : Option C} {h : Nat} {c : C} {st : SendState π δ} :
    (s.moved w entered).Calling h c st ↔ s.Calling h c st := by
  refine and_congr_left fun hst => ?_
  have hst : s.sends h = some st := hst
  show (∃ p, w.handles h = some p ∧ p.value = c) ↔ s.world.Owns h c
  rw [handles_of_called t hcalled hw hdrop (by simp [hst])]
  rfl

omit [DecidableEq K] [DecidableEq C] in
/-- A call goes on, on another connection. -/
theorem undisturbed_elsewhere {h : Nat} {p : Pooled K C} {c : C}
    (hp : s.world.handles h = some p) (hne : c ≠ p.value)
    (hworld : s'.world = s.world) (hconn : s'.conns c = s.conns c)
    (hsends : ∀ h', h' ≠ h → s'.sends h' = s.sends h') :
    s.Undisturbed s' c := by
  refine ⟨hconn, fun h' st => ?_⟩
  unfold Calling
  rw [hworld]
  refine and_congr_right fun hown => ?_
  have hh : h' ≠ h := by
    intro heq
    subst heq
    obtain ⟨p', hp', rfl⟩ := hown
    rw [hp, Option.some.injEq] at hp'
    exact hne (hp' ▸ rfl)
  rw [hsends h' hh]

-- ========================================================= the four arms

/-- A call starts. -/
theorem Serial.start {l : Custody C K Nat} (t : s.world.Tracks l)
    {history : List (H1Event C π δ ε)} {c : C}
    {done : List (Exchange π δ ε)}
    {under : Option (Nat × List (CodecEvent π δ ε))}
    (hs : s.Serial history c done under) {h : Nat}
    (hown : s.world.Owns h c) (hidle : s.sends h = none)
    (hworld : s'.world = s.world) (hconn : s'.conns c = s.conns c)
    (hsends : s'.sends h = some .sending) :
    s'.Serial ([.start h c] ++ history) c done (some (h, [])) := by
  have hnone : under = none := by
    cases hunder : under with
    | none => rfl
    | some call =>
        obtain ⟨h', evs⟩ := call
        obtain ⟨st, hcall, -⟩ := hs.busy h' evs hunder
        obtain rfl : h' = h := t.owner_unique hown hcall.1
        exact absurd (hidle.symm.trans hcall.2) (by simp)
  subst hnone
  refine ⟨?_, hconn.trans hs.conn, fun hnone => (by cases hnone), ?_⟩
  · rw [onConn_append, hs.trace]
    simp [onConn, underEvents, H1Event.conn]
  · intro h' evs heq
    cases heq
    exact ⟨.sending, ⟨hworld ▸ hown, hsends⟩, rfl⟩

omit [DecidableEq K] in
/-- A call goes on to its next await. -/
theorem Serial.next {history : List (H1Event C π δ ε)} {c : C}
    {done : List (Exchange π δ ε)} {h : Nat}
    {evs : List (CodecEvent π δ ε)} {ev : CodecEvent π δ ε}
    {st : SendState π δ}
    (hs : s.Serial history c done (some (h, evs)))
    (hown : s.world.Owns h c)
    (hfollow : (Http1Connection.new ()).follow .sending (evs ++ [ev])
      = some st)
    (hworld : s'.world = s.world) (hconn : s'.conns c = s.conns c)
    (hsends : s'.sends h = some st) :
    s'.Serial ([.resolved h c ev] ++ history) c done
      (some (h, evs ++ [ev])) := by
  refine ⟨?_, hconn.trans hs.conn, fun hnone => (by cases hnone), ?_⟩
  · rw [onConn_append, hs.trace]
    simp [onConn, underEvents, H1Event.conn]
  · intro h' evs' heq
    cases heq
    exact ⟨st, ⟨hworld ▸ hown, hsends⟩, hfollow⟩

omit [DecidableEq C] in
/-- A call leaves, and there is no other on the connection. -/
theorem free_of_left {l : Custody C K Nat} (t : s.world.Tracks l) {c : C}
    {h : Nat} (hown : s.world.Owns h c) (hworld : s'.world = s.world)
    (hsends : s'.sends h = none) :
    ∀ h' st, ¬ s'.Calling h' c st := by
  intro h' st hcall
  obtain ⟨hown', hst⟩ := hcall
  rw [hworld] at hown'
  obtain rfl : h' = h := t.owner_unique hown hown'
  exact absurd (hsends.symm.trans hst) (by simp)

/-- What a call returns does not depend on the connection. -/
theorem sendRequest_snd (self : Http1Connection Io)
    (other : Http1Connection Io') (script : Script π δ ε) :
    (self.sendRequest script).2 = (other.sendRequest script).2 := by
  unfold Http1Connection.sendRequest
  split
  case h_6 parts chunks stop => cases streamLoop [] chunks stop <;> rfl
  all_goals rfl

/-- A call returns. -/
theorem Serial.finish {l : Custody C K Nat} (t : s.world.Tracks l)
    {history : List (H1Event C π δ ε)} {c : C}
    {done : List (Exchange π δ ε)} {h : Nat}
    {evs : List (CodecEvent π δ ε)} {ev : CodecEvent π δ ε}
    {st : SendState π δ} {conn : Http1Connection C} {out : Outcome π δ ε}
    (hs : s.Serial history c done (some (h, evs)))
    (hown : s.world.Owns h c)
    (hfollow : (Http1Connection.new ()).follow .sending evs = some st)
    (hres : (s.conns c).resume st ev = some (conn, .ready out))
    (hworld : s'.world = s.world) (hconn : s'.conns c = conn)
    (hsends : s'.sends h = none) :
    ∃ done under, s'.Serial
      ([.finish h c out, .resolved h c ev] ++ history) c done under := by
  have hdrive := drive_append hfollow hres
  obtain ⟨script, hscript⟩ := exists_script hdrive
  rw [hscript, drive_events, Option.some.injEq] at hdrive
  obtain ⟨hleft, hout⟩ : ((s.conns c).sendRequest script).1 = conn
      ∧ ((s.conns c).sendRequest script).2 = out := Prod.ext_iff.mp hdrive
  refine ⟨done ++ [.whole h script], none, ?_, ?_,
    fun _ => free_of_left t hown hworld hsends,
    fun _ _ heq => (by cases heq)⟩
  · rw [onConn_append, hs.trace, List.flatMap_append, List.append_assoc,
      ← hout, sendRequest_snd (s.conns c) (Http1Connection.new c)]
    simp [onConn, underEvents, H1Event.conn, Exchange.events, ← hscript]
  · rw [hconn, ← hleft, hs.conn, List.filterMap_append]
    simp [Exchange.script, Http1Connection.sendRequests]

/-- A call is dropped at its await. -/
theorem Serial.abandon {l : Custody C K Nat} (t : s.world.Tracks l)
    {history : List (H1Event C π δ ε)} {c : C}
    {done : List (Exchange π δ ε)} {h : Nat}
    {evs : List (CodecEvent π δ ε)} {st : SendState π δ}
    (hs : s.Serial history c done (some (h, evs)))
    (hown : s.world.Owns h c)
    (hfollow : (Http1Connection.new ()).follow .sending evs = some st)
    (hworld : s'.world = s.world) (hconn : s'.conns c = s.conns c)
    (hsends : s'.sends h = none) :
    s'.Serial ([.abandon h c] ++ history) c
      (done ++ [.abandoned h evs (by rw [hfollow]; rfl)]) none := by
  refine ⟨?_, ?_, fun _ => free_of_left t hown hworld hsends,
    fun _ _ heq => (by cases heq)⟩
  · rw [onConn_append, hs.trace, List.flatMap_append, List.append_assoc]
    simp [onConn, underEvents, H1Event.conn, Exchange.events]
  · rw [hconn, hs.conn, List.filterMap_append]
    exact congrArg _ (List.append_nil _).symm

-- =============================================================== the step

/-- A move of the pool: what comes in has seen nothing yet. -/
theorem Traced.moved {l : Custody C K Nat} (t : s.world.Tracks l)
    (ho : l.Orderly) {history : List (H1Event C π δ ε)}
    (ht : s.Traced history) {a : Action K C} {w : World K C}
    (hw : s.world.step a = some w) (hput : ∀ k c, a ≠ .put k c)
    (hdrop : ∀ h isOpen, a = .drop h isOpen → s.sends h = none)
    (hclose : ∀ h c, a = .drop h true → s.world.Owns h c →
      (s.conns c).isOpen = true) :
    (s.moved w a.entering).Traced history := by
  refine ⟨?_, ?_, ?_, ?_⟩
  · intro h hsend
    show w.handles h ≠ none
    rw [handles_of_called t ht.called hw hdrop hsend]
    exact ht.called h hsend
  · exact fun e he hfresh => ht.started e he (fresh_of_step hw hfresh)
  · intro k c hc
    rcases conns_moved hw c with heq | ⟨-, heq⟩
    · rw [heq]
      rcases idle_of_step hw hc with hidle | hp | ⟨h, hd, hown⟩
      · exact ht.idle k c hidle
      · exact absurd hp (hput k c)
      · exact hclose h c hd hown
    · rw [heq]
      rfl
  · intro c
    rcases conns_moved hw c with heq | ⟨hfresh, heq⟩
    · obtain ⟨done, under, hs⟩ := ht.serial c
      exact ⟨done, under, hs.keep
        ⟨heq, fun h st => calling_moved t ht.called hw hdrop⟩⟩
    · have hnil : onConn c history = [] :=
        onConn_eq_nil fun e he hc => ht.started e he (hc ▸ hfresh)
      refine ⟨[], none, hnil, heq, fun _ h st hcall => ?_,
        fun _ _ heq => (by cases heq)⟩
      have hcall := (calling_moved t ht.called hw hdrop).mp hcall
      exact t.not_fresh_of_owns ho hcall.1 hfresh

/-- A move of a call: only its own connection is concerned. -/
theorem Traced.call {l : Custody C K Nat} (t : s.world.Tracks l)
    (ho : l.Orderly) {history evs : List (H1Event C π δ ε)}
    (ht : s.Traced history) {h : Nat} {p : Pooled K C}
    (hp : s.world.handles h = some p) (hworld : s'.world = s.world)
    (hconns : ∀ c, c ≠ p.value → s'.conns c = s.conns c)
    (hsends : ∀ h', h' ≠ h → s'.sends h' = s.sends h')
    (hevs : ∀ e ∈ evs, e.conn = p.value)
    (hserial : ∀ done under, s.Serial history p.value done under →
      ∃ done under, s'.Serial (evs ++ history) p.value done under) :
    s'.Traced (evs ++ history) := by
  have hown : s.world.Owns h p.value := ⟨p, hp, rfl⟩
  refine ⟨?_, ?_, ?_, ?_⟩
  · intro h' hsend
    rw [hworld]
    by_cases hh : h' = h
    · rw [hh, hp]
      exact Option.some_ne_none p
    · rw [hsends h' hh] at hsend
      exact ht.called h' hsend
  · intro e he hfresh
    rw [hworld] at hfresh
    rcases List.mem_append.mp he with he | he
    · rw [hevs e he] at hfresh
      exact t.not_fresh_of_owns ho hown hfresh
    · exact ht.started e he hfresh
  · intro k c hc
    rw [hworld] at hc
    rw [hconns c ?_]
    · exact ht.idle k c hc
    · intro heq
      subst heq
      exact t.not_idle_of_owns hown k hc
  · intro c
    obtain ⟨done, under, hs⟩ := ht.serial c
    by_cases hc : c = p.value
    · subst hc
      exact hserial done under hs
    · refine ⟨done, under, (hs.keep (undisturbed_elsewhere hp hc hworld
        (hconns c hc) hsends)).aside fun e he heq => hc ?_⟩
      rw [← heq, hevs e he]

omit [DecidableEq K] in
/-- A call runs on to its next await or to its return. -/
theorem resume_arms {h : Nat} {ev : CodecEvent π δ ε}
    (hs : s.resume h ev = some s') :
    ∃ p st, s.world.handles h = some p ∧ s.sends h = some st
      ∧ ((∃ st', (s.conns p.value).resume st ev
            = some (s.conns p.value, .pending st')
          ∧ s' = { s with sends := Function.update s.sends h (some st') })
        ∨ ∃ conn out, (s.conns p.value).resume st ev
            = some (conn, .ready out)
          ∧ s' = { s with
            conns := Function.update s.conns p.value conn
            sends := Function.update s.sends h none }) := by
  unfold resume at hs
  split at hs
  next p st hp hst =>
    refine ⟨p, st, hp, hst, ?_⟩
    split at hs
    next conn st' hres =>
      cases hs
      obtain rfl := resume_pending hres
      exact Or.inl ⟨st', hres, by rw [Function.update_eq_self]⟩
    next conn out hres =>
      cases hs
      exact Or.inr ⟨conn, out, hres, rfl⟩
    next => cases hs
  next => cases hs

theorem sends_of_dropHandle {h : Nat} (hs : s.dropHandle h = some s') :
    s.sends h = none := by
  unfold dropHandle at hs
  split at hs
  next hnone => exact hnone
  next => cases hs

theorem Traced.step {l : Custody C K Nat} (t : s.world.Tracks l)
    (ho : l.Orderly) {history : List (H1Event C π δ ε)}
    (ht : s.Traced history) {a : H1Action K C π δ ε}
    (hs : s.step a = some s') :
    s'.Traced (s.events a s' ++ history) := by
  cases a with
  | pool b =>
      obtain ⟨htaken, w, hw, rfl⟩ := pool_eq_some hs
      refine ht.moved t ho hw ?_ ?_ ?_
      · intro k c heq
        subst heq
        cases htaken
      · intro h isOpen heq
        subst heq
        cases htaken
      · intro h c heq
        subst heq
        cases htaken
  | sendRequest h =>
      obtain ⟨p, hp, hfree, rfl⟩ := sendRequest_eq_some hs
      simp only [events, hp]
      refine ht.call t ho hp rfl (fun _ _ => rfl)
        (fun h' hne => Function.update_of_ne hne ..)
        (fun e he => List.mem_singleton.mp he ▸ rfl) ?_
      intro done under hserial
      exact ⟨done, _, hserial.start t ⟨p, hp, rfl⟩ hfree rfl rfl
        (Function.update_self ..)⟩
  | resume h ev =>
      obtain ⟨p, st, hp, hst, harm⟩ := resume_arms hs
      have hown : s.world.Owns h p.value := ⟨p, hp, rfl⟩
      rcases harm with ⟨st', hres, rfl⟩ | ⟨conn, out, hres, rfl⟩
      · simp only [events, hp, hst, hres]
        refine ht.call t ho hp rfl (fun _ _ => rfl)
          (fun h' hne => Function.update_of_ne hne ..)
          (fun e he => List.mem_singleton.mp he ▸ rfl) ?_
        intro done under hserial
        obtain ⟨evs, rfl, hfollow⟩ :=
          hserial.under_of_calling t ⟨hown, hst⟩
        exact ⟨done, _, hserial.next hown (follow_append hfollow hres) rfl
          rfl (Function.update_self ..)⟩
      · simp only [events, hp, hst, hres]
        refine ht.call t ho hp rfl
          (fun c hne => Function.update_of_ne hne ..)
          (fun h' hne => Function.update_of_ne hne ..) ?_ ?_
        · intro e he
          rcases List.mem_cons.mp he with rfl | he
          · rfl
          · exact List.mem_singleton.mp he ▸ rfl
        · intro done under hserial
          obtain ⟨evs, rfl, hfollow⟩ :=
            hserial.under_of_calling t ⟨hown, hst⟩
          exact hserial.finish t hown hfollow hres rfl
            (Function.update_self ..) (Function.update_self ..)
  | cancel h =>
      obtain ⟨p, hp, hsend, rfl⟩ := cancel_eq_some hs
      obtain ⟨st, hst⟩ := Option.ne_none_iff_exists'.mp hsend
      have hown : s.world.Owns h p.value := ⟨p, hp, rfl⟩
      simp only [events, hp]
      refine ht.call t ho hp rfl (fun _ _ => rfl)
        (fun h' hne => Function.update_of_ne hne ..)
        (fun e he => List.mem_singleton.mp he ▸ rfl) ?_
      intro done under hserial
      obtain ⟨evs, rfl, hfollow⟩ := hserial.under_of_calling t ⟨hown, hst⟩
      exact ⟨_, _, hserial.abandon t hown hfollow rfl rfl
        (Function.update_self ..)⟩
  | dropHandle h =>
      have hfree := sends_of_dropHandle hs
      obtain ⟨p, w, hp, hw, rfl⟩ := dropHandle_eq_some hs
      refine ht.moved t ho hw (fun _ _ => by simp) ?_ ?_
      · intro h' isOpen heq
        obtain ⟨rfl, -⟩ := Action.drop.inj heq
        exact hfree
      · intro h' c heq hown
        obtain ⟨rfl, hopen⟩ := Action.drop.inj heq
        obtain ⟨p', hp', rfl⟩ := hown
        rw [hp, Option.some.injEq] at hp'
        rw [← hp']
        exact hopen

theorem traced_of_recorded {idleInterval maxIdle : Option Nat}
    {r : Recorded (H1World K C π δ) (H1Event C π δ ε)}
    (hr : (recorded idleInterval maxIdle).Reachable r) :
    r.state.Traced r.history := by
  refine Machine.recorded_invariant (C := fun _ _ => True)
    (I := Traced) ?_ ?_ hr
  · intro s hinit
    obtain ⟨now, rfl⟩ := hinit
    exact ⟨fun _ h => absurd rfl h, fun _ h => (by cases h),
      fun _ _ _ => rfl, fun c => ⟨[], none, rfl, rfl,
        fun _ _ _ hcall => (by cases hcall.2), fun _ _ h => (by cases h)⟩⟩
  · intro s history a s' hr ht _ hs
    obtain ⟨l, hl, t⟩ := exists_custody (world_reachable hr)
    exact ht.step t (Custody.orderly_of_reachable hl) hs

/-- On each connection calls are one after the other; on an idle one
none is under way, and none took an exit that closes it. -/
def OneByOne (s : H1World K C π δ) (history : List (H1Event C π δ ε)) :
    Prop :=
  ∀ c, ∃ done under, s.Serial history c done under
    ∧ ∀ k, c ∈ s.world.conns k → under = none
      ∧ ∀ script ∈ done.filterMap Exchange.script, script.closes = false

theorem Traced.oneByOne {l : Custody C K Nat} (t : s.world.Tracks l)
    {history : List (H1Event C π δ ε)} (ht : s.Traced history) :
    s.OneByOne history := by
  intro c
  obtain ⟨done, under, hs⟩ := ht.serial c
  refine ⟨done, under, hs, fun k hidle => ⟨?_, ?_⟩⟩
  · cases hunder : under with
    | none => rfl
    | some call =>
        obtain ⟨h, evs⟩ := call
        obtain ⟨st, hcall, -⟩ := hs.busy h evs hunder
        exact absurd hidle (t.not_idle_of_owns hcall.1 k)
  · have hopen := ht.idle k c hidle
    rw [hs.conn] at hopen
    exact (isOpen_sendRequests_new c _).mp hopen

theorem oneByOne_of_recorded {idleInterval maxIdle : Option Nat}
    {r : Recorded (H1World K C π δ) (H1Event C π δ ε)}
    (hr : (recorded idleInterval maxIdle).Reachable r) :
    r.state.OneByOne r.history := by
  have hreach : (machine (ε := ε) idleInterval maxIdle).Reachable
      r.state := hr.forget
  obtain ⟨l, -, t⟩ := exists_custody (world_reachable hreach)
  exact (traced_of_recorded hr).oneByOne t

end H1World

-- ===================================================== the other connector

namespace HttpConnector

variable [DecidableEq K] [DecidableEq C]

/-- What a step does on the HTTP/1.1 connections. -/
def h1Events (s : HttpConnector K C π δ) (a : ConnectorAction K C π δ ε)
    (s' : HttpConnector K C π δ) : List (H1Event C π δ ε) :=
  match a with
  | .h1 b => s.h1.events b s'.h1
  | _ => []

/-- A connector and the history of its HTTP/1.1 connections. -/
abbrev h1Recorded (protocol : Protocol) :
    Machine (Recorded (HttpConnector K C π δ) (H1Event C π δ ε))
      (ConnectorAction K C π δ ε) :=
  (machine protocol).recording h1Events

/-- Its HTTP/1.1 half is reached with that history. -/
theorem h1_of_recorded {protocol : Protocol}
    {r : Recorded (HttpConnector K C π δ) (H1Event C π δ ε)}
    (hr : (h1Recorded protocol).Reachable r) :
    (H1World.recorded none none).Reachable
      ⟨r.state.h1, r.history⟩ := by
  refine Machine.recorded_invariant (C := fun _ _ => True)
    (I := fun (s : HttpConnector K C π δ) history =>
      (H1World.recorded none none).Reachable ⟨s.h1, history⟩) ?_ ?_ hr
  · intro s hinit
    obtain ⟨now, rfl⟩ := hinit
    exact .init ⟨⟨now, rfl⟩, rfl⟩
  · intro s history a s' _ ih _ h
    -- a step of the half, with what it does
    have hstep : ∀ {b : H1Action K C π δ ε} {h1 : H1World K C π δ},
        s.h1.step b = some h1 → (H1World.recorded none none).Reachable
          ⟨h1, s.h1.events b h1 ++ history⟩ := fun hs =>
      .step ih trivial (Machine.recording_step_eq_some.mpr ⟨_, hs, rfl⟩)
    have h : s.step a = some s' := h
    cases a with
    | h1 b =>
        simp only [HttpConnector.step] at h
        split at h
        next =>
          obtain ⟨h1, hs, rfl⟩ := Option.map_eq_some_iff.mp h
          exact hstep hs
        next => cases h
    | _ =>
        show (H1World.recorded none none).Reachable ⟨s'.h1, history⟩
        rcases (transition_step h).h1_step with heq | ⟨b, hb, hwhy⟩
        · rw [heq]
          exact ih
        · rcases hwhy with ⟨p, rfl⟩ | hwhy
          · exact hstep hb
          · cases hwhy

end HttpConnector

-- ============================================================ the promise

/-- On each HTTP/1.1 connection of either connector, in every run, the
calls of `send_request` are one after the other, however many tasks take
turns with it: its history is that of whole calls and abandoned ones,
and of at most one under way; each whole call returned what it returns
run to completion alone, and they leave the connection as they leave it
run one after the other. On an idle connection no call is under way, and
none took an exit that closes it. -/
theorem exchanges_serial [DecidableEq K] [DecidableEq C] :
    (∀ (idleInterval maxIdle : Option Nat)
      (r : Recorded (H1World K C π δ) (H1Event C π δ ε)),
      (H1World.recorded idleInterval maxIdle).Reachable r →
      r.state.OneByOne r.history)
    ∧ ∀ (protocol : Protocol)
      (r : Recorded (HttpConnector K C π δ) (H1Event C π δ ε)),
      (HttpConnector.h1Recorded protocol).Reachable r →
      r.state.h1.OneByOne r.history :=
  ⟨fun _ _ _ hr => H1World.oneByOne_of_recorded hr,
    fun _ _ hr => H1World.oneByOne_of_recorded
      (HttpConnector.h1_of_recorded hr)⟩

open H1World in
/-- Two connections, calls on both: on the first a whole call and one
under way, whatever happens on the second meanwhile. -/
theorem exchanges_serial_two :
    ∃ r : Recorded (H1World Nat Nat Unit Nat) (H1Event Nat Unit Nat Unit),
      (recorded none none).run ⟨new 0 none none, []⟩
          [.pool (.link 7 1), .pool (.link 7 2), .sendRequest 0,
            .sendRequest 1, .resume 0 (.sent (.ok ())),
            .resume 1 (.sent (.ok ())),
            .resume 0 (.head (some (.ok ((), .none)))), .dropHandle 0,
            .pool (.get 7), .sendRequest 2, .cancel 1] = some r
        ∧ onConn 1 r.history
          = (Exchange.whole 0 (.response () .none)).events 1
            ++ [.start 2 1]
        ∧ r.state.OneByOne r.history := by
  obtain ⟨r, hrun, htrace⟩ :
      ∃ r : Recorded (H1World Nat Nat Unit Nat) (H1Event Nat Unit Nat Unit),
        (recorded none none).run ⟨new 0 none none, []⟩
            [.pool (.link 7 1), .pool (.link 7 2), .sendRequest 0,
              .sendRequest 1, .resume 0 (.sent (.ok ())),
              .resume 1 (.sent (.ok ())),
              .resume 0 (.head (some (.ok ((), .none)))), .dropHandle 0,
              .pool (.get 7), .sendRequest 2, .cancel 1] = some r
          ∧ onConn 1 r.history
            = (Exchange.whole 0 (.response () .none)).events 1
              ++ [.start 2 1] := ⟨_, rfl, rfl⟩
  exact ⟨r, hrun, htrace, exchanges_serial.1 none none r
    (Machine.Reachable.run (.init ⟨⟨0, rfl⟩, rfl⟩) hrun)⟩

end MonoioTransports.Http
