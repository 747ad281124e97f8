/-
The body adaptors lose nothing, repeat nothing and keep the order.

# Monoio over hyper over monoio

`HyperBody` is the operation with its future in a slot
(`pollFrame_eq`), and gives data frames only, so the loop of
`MonoioBody` over it never goes round (`pollLoop_pollFrame`). A poll of
the outer future is then a poll of the slot, and abandoning the outer
future abandons nothing: what is obtained is what the inner body yields.

# Hyper over monoio over hyper

A poll goes over the frames that are not data to the next answer that
is kept (`answers_pollLoop`, `answers_of_pollLoop`): the answers are
those of the inner body without these frames.
-/
import MonoioTransports.Http.Body

namespace MonoioTransports.Http

open Lib

variable {σ φ τ D T ε : Type}

-- ============================================================== HyperBody

/-- What `HyperBody` makes of what `next_data` returned. -/
def asFrames (r : Option (Except ε D)) : Option (Except ε (Frame D T)) :=
  r.map fun d => d.map Frame.data

/-- `HyperBody` is `next_data` with its future in a slot. -/
theorem pollFrame_eq (inner : MonoioHttpBody σ φ D ε)
    (st : Option φ × σ) :
    HyperBody.pollFrame (T := T) inner { fut := st.1, body := st.2 }
      = (inner.armed st).map fun x =>
        ({ fut := x.1.1, body := x.1.2 }, x.2.map asFrames) := by
  obtain ⟨slot, s⟩ := st
  cases slot with
  | none =>
      simp only [HyperBody.pollFrame, Operation.armed, Operation.live]
      rcases inner.poll (inner.start s) with _ | ⟨⟨_, _⟩, _ | _⟩ <;> rfl
  | some fut =>
      simp only [HyperBody.pollFrame, Operation.armed, Operation.live]
      rcases inner.poll (fut, s) with _ | ⟨⟨_, _⟩, _ | _⟩ <;> rfl

/-- A data frame, an error or an end goes through the loop at once. -/
theorem pollLoop_asFrames {inner : HyperHttpBody τ D T ε} {s : τ}
    {x : Option (τ × Poll (Option (Except ε D)))}
    (h : inner s = x.map fun x => (x.1, x.2.map asFrames)) (fuel : Nat) :
    MonoioBody.pollLoop inner (fuel + 1) s = x := by
  rw [MonoioBody.pollLoop, h]
  cases x with
  | none => rfl
  | some x =>
      obtain ⟨s', r⟩ := x
      cases r with
      | pending => rfl
      | ready r =>
          cases r with
          | none => rfl
          | some d => cases d <;> rfl

-- =========================================== monoio over hyper over monoio

/-- A poll of `MonoioBody` over `HyperBody` is one of the slot. -/
theorem pollLoop_pollFrame (inner : MonoioHttpBody σ φ D ε) (fuel : Nat)
    (st : Option φ × σ) :
    MonoioBody.pollLoop (HyperBody.pollFrame (T := T) inner) (fuel + 1)
        { fut := st.1, body := st.2 }
      = (inner.armed st).map fun x =>
        ({ fut := x.1.1, body := x.1.2 }, x.2.map id) := by
  apply pollLoop_asFrames
  rw [pollFrame_eq, Option.map_map]
  refine congrArg (Option.map · _) (funext fun x => ?_)
  rw [Function.comp_apply, Poll.map_id]

/-- Whatever the caller abandons, it gets what polls of the slot give. -/
theorem drive_pollFrame (inner : MonoioHttpBody σ φ D ε) (fuel : Nat)
    (turns : List Turn) (body : σ) :
    ((MonoioBody.nextData (fuel + 1)
        (HyperBody.pollFrame (T := T) inner)).drive turns
          (none, HyperBody.new body)).map Prod.snd
      = (inner.armed.answers (turns.count .poll) (none, body)).map
        fun x => Poll.values x.2 := by
  have hdrive := congrArg (Option.map Prod.snd)
    (Operation.drive_operation
      (p := MonoioBody.pollLoop (HyperBody.pollFrame (T := T) inner)
        (fuel + 1)) turns none (HyperBody.new body))
  have hanswers := Polled.answers_map
    (fun st : Option φ × σ => HyperBody.mk st.1 st.2) id
    (pollLoop_pollFrame (T := T) inner fuel) (turns.count .poll)
    (none, body)
  have hnew : HyperBody.new body
      = HyperBody.mk (none : Option φ) body := rfl
  rw [hnew, hanswers] at hdrive
  simp only [Option.map_map] at hdrive
  refine Eq.trans hdrive (congrArg (Option.map · _) (funext fun x => ?_))
  show Poll.values (x.2.map (Poll.map id)) = Poll.values x.2
  rw [List.map_id'' Poll.map_id]

/-- What the caller gets, the inner body yields. -/
theorem yields_of_drive {b : MonoioHttpBody σ φ D ε} {body : σ}
    {fuel : Nat} {turns : List Turn} {st : Option Unit × HyperBody σ φ}
    {items : List (Option (Except ε D))}
    (h : (MonoioBody.nextData (fuel + 1)
      (HyperBody.pollFrame (T := T) b)).drive turns
        (none, HyperBody.new body) = some (st, items)) :
    ∃ n body', n ≤ turns.count .poll ∧ b.Yields body n items body' := by
  have hdrive := drive_pollFrame (T := T) b fuel turns body
  rw [h] at hdrive
  obtain ⟨⟨st', rs⟩, hrs, hitems⟩ := Option.map_eq_some_iff.mp hdrive.symm
  obtain ⟨n, body', hle, hyields⟩ := Operation.yields_of_answers hrs
  have hvals : Poll.values rs = items := hitems
  rw [hvals] at hyields
  exact ⟨n, body', hle, hyields⟩

/-- What the inner body yields in as many polls, the caller gets. -/
theorem drive_of_yields {b : MonoioHttpBody σ φ D ε} {body body' : σ}
    (fuel : Nat) {turns : List Turn} {items : List (Option (Except ε D))}
    (h : b.Yields body (turns.count .poll) items body') :
    ∃ st, (MonoioBody.nextData (fuel + 1)
      (HyperBody.pollFrame (T := T) b)).drive turns
        (none, HyperBody.new body) = some (st, items) := by
  obtain ⟨rs, hrs, hvals⟩ := h.answers
  have hdrive := drive_pollFrame (T := T) b fuel turns body
  rw [hrs] at hdrive
  obtain ⟨⟨st, items'⟩, hrun, hitems⟩ := Option.map_eq_some_iff.mp hdrive
  have heq : items' = items := hitems.trans hvals
  rw [heq] at hrun
  exact ⟨st, hrun⟩

-- ============================================ hyper over monoio over hyper

/-- All answers but a frame that is not data. -/
def keeps : Poll (Option (Except ε (Frame D T))) → Bool
  | .ready (some (.ok (.trailers _))) => false
  | _ => true

/-- An answer is a frame that is not data, or kept as it is. -/
theorem keeps_cases (r : Poll (Option (Except ε (Frame D T)))) :
    (∃ t, r = .ready (some (.ok (.trailers t))) ∧ keeps r = false)
      ∨ ∃ r' : Poll (Option (Except ε D)),
        r = r'.map asFrames ∧ keeps r = true := by
  cases r with
  | pending => exact Or.inr ⟨.pending, rfl, rfl⟩
  | ready r =>
      cases r with
      | none => exact Or.inr ⟨.ready none, rfl, rfl⟩
      | some d =>
          cases d with
          | error e => exact Or.inr ⟨.ready (some (.error e)), rfl, rfl⟩
          | ok frame =>
              cases frame with
              | data d => exact Or.inr ⟨.ready (some (.ok d)), rfl, rfl⟩
              | trailers t => exact Or.inl ⟨t, rfl, rfl⟩

section Frames

variable {inner : HyperHttpBody τ D T ε} {s s₁ s' : τ}
  {rs : List (Poll (Option (Except ε (Frame D T))))} {n : Nat}

/-- A kept answer ends the loop. -/
theorem pollLoop_kept {r : Poll (Option (Except ε D))}
    (h : inner s = some (s', r.map asFrames)) (fuel : Nat) :
    MonoioBody.pollLoop inner (fuel + 1) s = some (s', r) :=
  pollLoop_asFrames (x := some (s', r)) h fuel

/-- Another frame is passed over. -/
theorem pollLoop_skipped {t : T}
    (h : inner s = some (s', .ready (some (.ok (.trailers t)))))
    (fuel : Nat) :
    MonoioBody.pollLoop inner (fuel + 1) s
      = MonoioBody.pollLoop inner fuel s' := by
  rw [MonoioBody.pollLoop, h]

/-- Of the answers of the inner body, none is kept; or the loop comes to
the first that is, and the others are still to come. -/
theorem pollLoop_of_answers (h : inner.answers n s = some (s', rs)) :
    rs.filter keeps = []
      ∨ ∃ m s₁ r rs₁, m < n ∧ inner.answers m s₁ = some (s', rs₁)
        ∧ rs.filter keeps = r.map asFrames :: rs₁.filter keeps
        ∧ ∀ fuel, n ≤ fuel →
          MonoioBody.pollLoop inner fuel s = some (s₁, r) := by
  induction n generalizing s rs with
  | zero =>
      cases h
      exact Or.inl rfl
  | succ n ih =>
      obtain ⟨s₁, r, rs₁, hp, hrest, rfl⟩ :=
        Polled.answers_succ_eq_some.mp h
      have hfuel : ∀ {fuel}, n + 1 ≤ fuel → fuel = fuel - 1 + 1 := by
        omega
      rcases keeps_cases r with ⟨t, rfl, hskip⟩ | ⟨r', rfl, hkeep⟩
      · rw [List.filter_cons_of_neg (by rw [hskip]; decide)]
        rcases ih hrest with hnil | ⟨m, s₂, r, rs₂, hlt, hm, hrs, hloop⟩
        · exact Or.inl hnil
        · refine Or.inr ⟨m, s₂, r, rs₂, by omega, hm, hrs, ?_⟩
          intro fuel hle
          rw [hfuel hle, pollLoop_skipped hp]
          exact hloop (fuel - 1) (by omega)
      · rw [List.filter_cons_of_pos hkeep]
        refine Or.inr ⟨n, s₁, r', rs₁, by omega, hrest, rfl, ?_⟩
        intro fuel hle
        rw [hfuel hle]
        exact pollLoop_kept hp _

/-- Enough fuel, and the loop gives what is kept of the answers of the
inner body. -/
theorem answers_pollLoop {fuel : Nat}
    (h : inner.answers n s = some (s', rs)) (hle : n ≤ fuel) :
    ∃ s₁ rs₁, (MonoioBody.pollLoop inner fuel).answers
        (rs.filter keeps).length s = some (s₁, rs₁)
      ∧ rs₁.map (Poll.map asFrames) = rs.filter keeps := by
  induction n using Nat.strongRecOn generalizing s rs with
  | ind n ih =>
      rcases pollLoop_of_answers h with
        hnil | ⟨m, s₁, r, rs₁, hlt, hm, hrs, hloop⟩
      · rw [hnil]
        exact ⟨s, [], rfl, rfl⟩
      · obtain ⟨s₂, rs₂, hrun, hmap⟩ := ih m hlt hm (by omega)
        rw [hrs]
        refine ⟨s₂, r :: rs₂,
          Polled.answers_succ (hloop fuel hle) hrun, ?_⟩
        rw [List.map_cons, hmap]

/-- A poll of the loop that returns has come to the first answer that is
kept. -/
theorem answers_of_pollLoop_one {fuel : Nat}
    {r : Poll (Option (Except ε D))}
    (h : MonoioBody.pollLoop inner fuel s = some (s', r)) :
    ∃ n rs, inner.answers n s = some (s', rs)
      ∧ rs.filter keeps = [r.map asFrames] := by
  induction fuel generalizing s with
  | zero => cases h
  | succ fuel ih =>
      cases hp : inner s with
      | none =>
          rw [MonoioBody.pollLoop, hp] at h
          cases h
      | some x =>
          obtain ⟨s₁, r₁⟩ := x
          rcases keeps_cases r₁ with ⟨t, rfl, hskip⟩ | ⟨r', rfl, hkeep⟩
          · rw [pollLoop_skipped hp] at h
            obtain ⟨n, rs, hrest, hrs⟩ := ih h
            refine ⟨n + 1, _, Polled.answers_succ hp hrest, ?_⟩
            rw [List.filter_cons_of_neg (by rw [hskip]; decide), hrs]
          · rw [pollLoop_kept hp] at h
            cases h
            refine ⟨1, _,
              Polled.answers_succ hp (Polled.answers_zero _ _), ?_⟩
            rw [List.filter_cons_of_pos hkeep, List.filter_nil]

/-- What the loop gives is kept of answers of the inner body. -/
theorem answers_of_pollLoop {fuel k : Nat}
    {rs : List (Poll (Option (Except ε D)))}
    (h : (MonoioBody.pollLoop inner fuel).answers k s = some (s', rs)) :
    ∃ n rs₁, inner.answers n s = some (s', rs₁)
      ∧ rs₁.filter keeps = rs.map (Poll.map asFrames) := by
  induction k generalizing s rs with
  | zero =>
      cases h
      exact ⟨0, [], rfl, rfl⟩
  | succ k ih =>
      obtain ⟨s₁, r, rs₁, hp, hrest, rfl⟩ :=
        Polled.answers_succ_eq_some.mp h
      obtain ⟨n, hs, hn, hfirst⟩ := answers_of_pollLoop_one hp
      obtain ⟨m, hs', hm, hothers⟩ := ih hrest
      refine ⟨n + m, hs ++ hs', Polled.answers_add hn hm, ?_⟩
      rw [List.filter_append, hfirst, hothers]
      rfl

/-- `HyperBody` over `MonoioBody` answers what the loop gives. -/
theorem answers_pollFrame (inner : HyperHttpBody τ D T ε)
    (fuel k : Nat) (s : τ) :
    ((HyperBody.pollFrame (T := T)
        (MonoioBody.nextData fuel inner)).answers k
          (HyperBody.new s)).map (fun x => (x.1.body, x.2))
      = ((MonoioBody.pollLoop inner fuel).answers k s).map
        fun x => (x.1, x.2.map (Poll.map asFrames)) := by
  have hanswers := Polled.answers_map
    (fun st : Option Unit × τ => HyperBody.mk st.1 st.2) asFrames
    (pollFrame_eq (T := T) (MonoioBody.nextData fuel inner)) k (none, s)
  have hnew : HyperBody.new s = HyperBody.mk (none : Option Unit) s := rfl
  rw [hnew, hanswers, ← Operation.answers_armed_operation k none s,
    Option.map_map, Option.map_map]
  rfl

/-- Enough fuel, and what is kept of the answers of the inner body is
what the outer one answers. -/
theorem answers_pollFrame_of_answers {fuel : Nat}
    (h : inner.answers n s = some (s', rs)) (hle : n ≤ fuel) :
    ∃ st, (HyperBody.pollFrame (T := T)
      (MonoioBody.nextData fuel inner)).answers (rs.filter keeps).length
        (HyperBody.new s) = some (st, rs.filter keeps) := by
  obtain ⟨s₁, rs₁, hloop, hmap⟩ := answers_pollLoop h hle
  have hanswers := answers_pollFrame inner fuel (rs.filter keeps).length s
  rw [hloop] at hanswers
  obtain ⟨⟨st, out⟩, hrun, hout⟩ := Option.map_eq_some_iff.mp hanswers
  have heq : out = rs.filter keeps := (congrArg Prod.snd hout).trans hmap
  rw [heq] at hrun
  exact ⟨st, hrun⟩

/-- What the outer one answers is kept of answers of the inner one. -/
theorem answers_of_answers_pollFrame {fuel k : Nat}
    {st : HyperBody τ Unit}
    (h : (HyperBody.pollFrame (T := T)
      (MonoioBody.nextData fuel inner)).answers k (HyperBody.new s)
        = some (st, rs)) :
    ∃ n s' rs₁, inner.answers n s = some (s', rs₁)
      ∧ rs₁.filter keeps = rs := by
  have hanswers := answers_pollFrame inner fuel k s
  rw [h] at hanswers
  obtain ⟨⟨s', out⟩, hloop, hout⟩ :=
    Option.map_eq_some_iff.mp hanswers.symm
  obtain ⟨n, rs₁, hn, hfilter⟩ := answers_of_pollLoop hloop
  exact ⟨n, s', rs₁, hn, hfilter.trans (congrArg Prod.snd hout)⟩

end Frames

-- =============================================== nothing lost, nothing added

/-- The adaptors lose nothing under any schedule. What a caller of
`MonoioBody(HyperBody(b))` obtains, whatever it abandons, is what `b`
yields in as many polls; and the answers of `HyperBody(MonoioBody(h))`
are those of `h` without the frames that are not data. -/
theorem adaptors_lose_nothing :
    (∀ (b : MonoioHttpBody σ φ D ε) (body : σ) (fuel : Nat)
        (turns : List Turn),
      (∀ st items,
        (MonoioBody.nextData (fuel + 1)
          (HyperBody.pollFrame (T := T) b)).drive turns
            (none, HyperBody.new body) = some (st, items) →
        ∃ n body', n ≤ turns.count .poll ∧ b.Yields body n items body')
      ∧ ∀ items body', b.Yields body (turns.count .poll) items body' →
        ∃ st, (MonoioBody.nextData (fuel + 1)
          (HyperBody.pollFrame (T := T) b)).drive turns
            (none, HyperBody.new body) = some (st, items))
    ∧ ∀ (h : HyperHttpBody τ D T ε) (body : τ) (fuel : Nat),
      (∀ n body' rs, h.answers n body = some (body', rs) → n ≤ fuel →
        ∃ st, (HyperBody.pollFrame (T := T)
          (MonoioBody.nextData fuel h)).answers (rs.filter keeps).length
            (HyperBody.new body) = some (st, rs.filter keeps))
      ∧ ∀ k st rs',
        (HyperBody.pollFrame (T := T)
          (MonoioBody.nextData fuel h)).answers k (HyperBody.new body)
            = some (st, rs') →
        ∃ n body' rs, h.answers n body = some (body', rs)
          ∧ rs.filter keeps = rs' := by
  constructor
  · intro b body fuel turns
    exact ⟨fun st items h => yields_of_drive h,
      fun items body' h => drive_of_yields fuel h⟩
  · intro h body fuel
    exact ⟨fun n body' rs hrs hle => answers_pollFrame_of_answers hrs hle,
      fun k st rs' hrs => answers_of_answers_pollFrame hrs⟩

/-- A monoio body whose futures each take a second poll. -/
def twicePolled : MonoioHttpBody (List Nat) Bool Nat Unit where
  start := fun items => (false, items)
  poll := fun live =>
    if live.1 then
      some ((true, live.2.tail), .ready (live.2.head?.map Except.ok))
    else some ((true, live.2), .pending)

/-- A hyper body that gives listed answers, and then its end. -/
def listed (rs : List (Poll (Option (Except Unit (Frame Nat Nat))))) :
    Option (List (Poll (Option (Except Unit (Frame Nat Nat))))
      × Poll (Option (Except Unit (Frame Nat Nat)))) :=
  match rs with
  | [] => some ([], .ready none)
  | r :: rs => some (rs, r)

/-- A chunk whose outer future is abandoned while pending is obtained by
the next; trailers in front of a chunk are passed over. -/
theorem adaptors_lose_nothing_seven :
    (∃ st, (MonoioBody.nextData 1
        (HyperBody.pollFrame (T := Nat) twicePolled)).drive
          [.call, .poll, .abandon, .poll, .poll, .call, .poll]
          (none, HyperBody.new [7]) = some (st, [some (.ok 7), none]))
      ∧ ∃ st, (HyperBody.pollFrame (T := Nat)
          (MonoioBody.nextData 3 listed)).answers 2
            (HyperBody.new
              [.ready (some (.ok (.trailers 1))), .pending,
                .ready (some (.ok (.data 7)))])
        = some (st, [.pending, .ready (some (.ok (.data 7)))]) := by
  obtain ⟨hmonoio, hhyper⟩ := adaptors_lose_nothing (σ := List Nat)
    (φ := Bool) (τ := List (Poll (Option (Except Unit (Frame Nat Nat)))))
    (D := Nat) (T := Nat) (ε := Unit)
  have hyields : twicePolled.Yields [7] 4 [some (.ok 7), none] [] :=
    .cons (n := 2) (m := 2) (.pending rfl (.ready rfl))
      (.cons (n := 2) (m := 0) (.pending rfl (.ready rfl)) (.nil []))
  constructor
  · exact (hmonoio twicePolled [7] 0
      [.call, .poll, .abandon, .poll, .poll, .call, .poll]).2 _ [] hyields
  · exact (hhyper listed
      [.ready (some (.ok (.trailers 1))), .pending,
        .ready (some (.ok (.data 7)))] 3).1 3 [] _ rfl (Nat.le_refl 3)

end MonoioTransports.Http
