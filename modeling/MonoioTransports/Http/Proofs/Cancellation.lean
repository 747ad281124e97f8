/-
Abandoned requests and the pool of HTTP/1.1 connections.

# What goes wrong

`send_request` never sets `using`, so dropping its future midway leaves
`is_open` as it was. An open connection with half an exchange on it is
then given back to the pool when its handle is dropped, and the next
`get` hands it out.

# When it does not

`Careful` is a condition on a step: a future is dropped midway only on a
connection that is not open any more, or whose pool is gone, and a
handle on which one was dropped is not used for another request. Under
it (`safe_of_reachable`) no unfinished connection is idle or handed out,
and no request is started over a leftover response.

# The invariant

An abandoned connection is shut, or the pool is gone; only the handle
that abandoned it owns it; and what is idle is open. Shut connections
stay shut (`resume_fst`), which carries the first through any number of
further awaits.
-/
import MonoioTransports.Http.H1World
import MonoioTransports.Http.Proofs.Boundary
import MonoioTransports.Pool.Proofs.Accounting

namespace MonoioTransports.Http

open Lib Pool

variable {K C π δ ε : Type}

-- ============================================================ statements

/-- A request was started on the connection and has not run to
completion: its future is pending, or was dropped. -/
def H1World.Unfinished (s : H1World K C π δ) (c : C) : Prop :=
  (∃ h, s.sends h ≠ none ∧ s.world.Owns h c)
    ∨ c ∈ s.abandoned.map Prod.fst

/-- The pool is safe under cancellation. -/
structure H1World.Safe [DecidableEq K] (s : H1World K C π δ) : Prop where
  /-- No unfinished connection is idle. -/
  idle : ∀ k c, c ∈ s.world.conns k → ¬ s.Unfinished c
  /-- No `get` returns one, nor does a `connect`. -/
  got : ∀ k w' p, s.world.get k = some (w', some p) →
    ¬ s.Unfinished p.value
  connected : ∀ k w' p, s.world.connect k = some (w', some p) →
    ¬ s.Unfinished p.value
  /-- No request was started over a leftover response. -/
  leftover : s.leftover = []

/-- A future is dropped midway only on a connection that is not open or
whose pool is gone; no request is started on a handle that abandoned
one. -/
def H1World.Careful (s : H1World K C π δ) :
    H1Action K C π δ ε → Prop
  | .cancel h => ∀ p, s.world.handles h = some p →
      (s.conns p.value).isOpen = false ∨ s.world.pool = none
  | .sendRequest h => ∀ p, s.world.handles h = some p →
      (p.value, h) ∉ s.abandoned
  | _ => True

/-- Carefulness can be decided. -/
instance H1World.decidableCareful [DecidableEq C] (s : H1World K C π δ) :
    (a : H1Action K C π δ ε) → Decidable (s.Careful a)
  | .cancel h => inferInstanceAs (Decidable (∀ p ∈ s.world.handles h,
      (s.conns p.value).isOpen = false ∨ s.world.pool = none))
  | .sendRequest h => inferInstanceAs (Decidable
      (∀ p ∈ s.world.handles h, (p.value, h) ∉ s.abandoned))
  | .pool _ | .resume .. | .dropHandle _ => .isTrue trivial

-- ======================================================== spec lemmas

/-- Running on leaves the connection as it was, or closes it. -/
theorem resume_fst {Io : Type} {conn conn' : Http1Connection Io}
    {st : SendState π δ} {ev : CodecEvent π δ ε} {pr : Progress π δ ε}
    (h : conn.resume st ev = some (conn', pr)) :
    conn' = conn ∨ conn' = conn.close := by
  unfold Http1Connection.resume at h
  split at h <;> cases h
  case h_1 => exact Or.inr rfl
  case h_6 => exact Or.inr rfl
  case h_7 => exact Or.inr rfl
  case h_10 => exact Or.inr rfl
  all_goals exact Or.inl rfl

section Specs

variable [DecidableEq C] {s s' : H1World K C π δ} {h : Nat}

theorem H1World.sendRequest_eq_some (hs : s.sendRequest h = some s') :
    ∃ p, s.world.handles h = some p ∧ s.sends h = none ∧ s' = { s with
      sends := Function.update s.sends h (some .sending)
      leftover :=
        if p.value ∈ s.abandoned.map Prod.fst then
          p.value :: s.leftover
        else s.leftover } := by
  unfold H1World.sendRequest at hs
  split at hs
  next p hp hn =>
    cases hs
    exact ⟨p, hp, hn, rfl⟩
  next => cases hs

theorem H1World.resume_eq_some {ev : CodecEvent π δ ε}
    (hs : s.resume h ev = some s') :
    ∃ p conn st, s.world.handles h = some p
      ∧ (conn = s.conns p.value ∨ conn = (s.conns p.value).close)
      ∧ s' = { s with
        conns := Function.update s.conns p.value conn
        sends := Function.update s.sends h st } := by
  unfold H1World.resume at hs
  split at hs
  next p st hp hst =>
    split at hs
    next conn st' hres =>
      cases hs
      exact ⟨p, conn, some st', hp, resume_fst hres, rfl⟩
    next conn out hres =>
      cases hs
      exact ⟨p, conn, none, hp, resume_fst hres, rfl⟩
    next => cases hs
  next => cases hs

omit [DecidableEq C] in
theorem H1World.cancel_eq_some (hs : s.cancel h = some s') :
    ∃ p, s.world.handles h = some p ∧ s.sends h ≠ none ∧ s' = { s with
      sends := Function.update s.sends h none
      abandoned := (p.value, h) :: s.abandoned } := by
  unfold H1World.cancel at hs
  split at hs
  next p st hp hst =>
    cases hs
    exact ⟨p, hp, by rw [hst]; simp, rfl⟩
  next => cases hs

theorem H1World.dropHandle_eq_some [DecidableEq K]
    (hs : s.dropHandle h = some s') :
    ∃ p w, s.world.handles h = some p
      ∧ s.world.step (.drop h (s.conns p.value).isOpen) = some w
      ∧ s' = s.moved w none := by
  unfold H1World.dropHandle at hs
  split at hs
  next p hp hn =>
    obtain ⟨w, hw, rfl⟩ := Option.map_eq_some_iff.mp hs
    exact ⟨p, w, hp, hw, rfl⟩
  next => cases hs

theorem H1World.pool_eq_some [DecidableEq K] {a : Action K C}
    (hs : s.step (.pool a : H1Action K C π δ ε) = some s') :
    taken a = true ∧ ∃ w, s.world.step a = some w
      ∧ s' = s.moved w a.entering := by
  simp only [H1World.step] at hs
  split at hs
  next ht =>
    obtain ⟨w, hw, rfl⟩ := Option.map_eq_some_iff.mp hs
    exact ⟨ht, w, hw, rfl⟩
  next => cases hs

end Specs

variable [DecidableEq K] [DecidableEq C] {s s' : H1World K C π δ}

/-- Every step moves the pool's world by one of its steps, or not at
all. -/
theorem H1World.world_step {a : H1Action K C π δ ε}
    (hs : s.step a = some s') :
    s'.world = s.world ∨ ∃ b, s.world.step b = some s'.world := by
  cases a with
  | pool b =>
      obtain ⟨-, w, hw, rfl⟩ := H1World.pool_eq_some hs
      exact Or.inr ⟨b, hw⟩
  | sendRequest h =>
      obtain ⟨p, -, -, rfl⟩ := H1World.sendRequest_eq_some hs
      exact Or.inl rfl
  | resume h ev =>
      obtain ⟨p, conn, st, -, -, rfl⟩ := H1World.resume_eq_some hs
      exact Or.inl rfl
  | cancel h =>
      obtain ⟨p, -, -, rfl⟩ := H1World.cancel_eq_some hs
      exact Or.inl rfl
  | dropHandle h =>
      obtain ⟨p, w, -, hw, rfl⟩ := H1World.dropHandle_eq_some hs
      exact Or.inr ⟨_, hw⟩

/-- The pool's world of a state reached is a world reached. -/
theorem H1World.world_reachable {idleInterval maxIdle : Option Nat}
    {P : H1World K C π δ → H1Action K C π δ ε → Prop}
    (hr : (H1World.machine idleInterval maxIdle).ReachableUnder P s) :
    (World.machine idleInterval maxIdle).Reachable s.world := by
  refine hr.invariant (I := fun s => (World.machine idleInterval
    maxIdle).Reachable s.world) ?_ ?_
  · intro s hinit
    obtain ⟨now, rfl⟩ := hinit
    exact .init ⟨now, rfl⟩
  · intro s a s' _ ih _ hs
    rcases H1World.world_step hs with heq | ⟨b, hb⟩
    · rw [heq]
      exact ih
    · exact .step ih trivial hb

-- ========================================================= the invariant

/-- Idle connections are open; an abandoned one is shut, or its pool is
gone, and nobody but the task that abandoned it can have its handle. So
no request is ever started on one. -/
structure H1World.Inv (s : H1World K C π δ) : Prop where
  idle_open : ∀ k c, c ∈ s.world.conns k → (s.conns c).isOpen = true
  entered : ∀ c h, (c, h) ∈ s.abandoned → ¬ s.world.Fresh c
  shut : ∀ c h, (c, h) ∈ s.abandoned →
    (s.conns c).isOpen = false ∨ s.world.pool = none
  owner : ∀ c h, (c, h) ∈ s.abandoned →
    ∀ h', s.world.Owns h' c → h' = h
  leftover : s.leftover = []

omit [DecidableEq C] in
/-- An abandoned connection is not idle. -/
theorem H1World.Inv.not_idle (hi : s.Inv) {c : C} {h : Nat}
    (hc : (c, h) ∈ s.abandoned) (k : K) : c ∉ s.world.conns k := by
  intro hidle
  rcases hi.shut c h hc with hshut | hnone
  · rw [hi.idle_open k c hidle] at hshut
    cases hshut
  · rw [World.conns_of_none hnone] at hidle
    cases hidle

/-- What comes in is new; every other connection is as it was. -/
theorem H1World.conns_moved {a : Action K C} {w : World K C}
    (hw : s.world.step a = some w) (c : C) :
    (s.moved w a.entering).conns c = s.conns c
      ∨ (s.world.Fresh c
        ∧ (s.moved w a.entering).conns c = Http1Connection.new c) := by
  rcases entered_step hw with ⟨hnone, -⟩ | ⟨k, d, hd, hfresh, -⟩
  · rw [hnone]
    exact Or.inl rfl
  · rw [hd]
    by_cases hc : c = d
    · rw [hc]
      exact Or.inr ⟨hfresh, Function.update_self ..⟩
    · exact Or.inl (Function.update_of_ne hc ..)

/-- The invariant over a step of the pool's world: what comes to rest
was open, and what comes in is new. -/
theorem H1World.Inv.moved (hi : s.Inv) {a : Action K C} {w : World K C}
    (hw : s.world.step a = some w) (hput : ∀ k c, a ≠ .put k c)
    (hdrop : ∀ h c, a = .drop h true → s.world.Owns h c →
      (s.conns c).isOpen = true) :
    (s.moved w a.entering).Inv where
  idle_open := by
    intro k c hc
    rcases H1World.conns_moved hw c with heq | ⟨-, heq⟩
    · rw [heq]
      rcases idle_of_step hw hc with hidle | hp | ⟨h, hd, hown⟩
      · exact hi.idle_open k c hidle
      · exact absurd hp (hput k c)
      · exact hdrop h c hd hown
    · rw [heq]
      rfl
  entered := fun c h hc hfresh =>
    hi.entered c h hc (fresh_of_step hw hfresh)
  shut := by
    intro c h hc
    rcases hi.shut c h hc with hshut | hnone
    · rcases H1World.conns_moved hw c with heq | ⟨hfresh, -⟩
      · rw [heq]
        exact Or.inl hshut
      · exact absurd hfresh (hi.entered c h hc)
    · exact Or.inr (pool_none_of_step hw hnone)
  owner := by
    intro c h hc h' hown
    rcases owns_of_step hw hown with hold | ⟨k, hidle⟩ | ⟨-, hfresh⟩
    · exact hi.owner c h hc h' hold
    · exact absurd hidle (hi.not_idle hc k)
    · exact absurd hfresh (hi.entered c h hc)
  leftover := hi.leftover

/-- Every careful step keeps the invariant. -/
theorem H1World.Inv.step {l : Custody C K Nat} (hi : s.Inv)
    (t : s.world.Tracks l) (ho : l.Orderly) {a : H1Action K C π δ ε}
    (hc : s.Careful a) (hs : s.step a = some s') : s'.Inv := by
  cases a with
  | pool b =>
      obtain ⟨ht, w, hw, rfl⟩ := H1World.pool_eq_some hs
      refine hi.moved hw ?_ ?_
      · intro k c he
        subst he
        cases ht
      · intro h c he
        subst he
        cases ht
  | sendRequest h =>
      obtain ⟨p, hp, -, rfl⟩ := H1World.sendRequest_eq_some hs
      refine ⟨hi.idle_open, hi.entered, hi.shut, hi.owner, ?_⟩
      -- the task that abandoned a request owns its connection, and a careful
      -- one starts none on it: so this connection has none behind it
      have hnot : p.value ∉ s.abandoned.map Prod.fst := by
        intro hmem
        obtain ⟨⟨c, h₀⟩, hc₀, heq⟩ := List.mem_map.mp hmem
        dsimp only at heq
        subst heq
        have hh : h = h₀ := hi.owner _ _ hc₀ h ⟨p, hp, rfl⟩
        exact hc p hp (hh ▸ hc₀)
      show (if _ then _ else _) = _
      rw [if_neg hnot]
      exact hi.leftover
  | resume h ev =>
      obtain ⟨p, conn, st, hp, hconn, rfl⟩ := H1World.resume_eq_some hs
      have hown : s.world.Owns h p.value := ⟨p, hp, rfl⟩
      refine ⟨?_, hi.entered, ?_, hi.owner, hi.leftover⟩
      · intro k c hidle
        -- what is resumed is held, not idle
        have hne : c ≠ p.value := by
          intro he
          subst he
          exact t.not_idle_of_owns hown k hidle
        show (Function.update s.conns p.value conn c).isOpen = true
        rw [Function.update_of_ne hne]
        exact hi.idle_open k c hidle
      · intro c h₀ hc₀
        refine (hi.shut c h₀ hc₀).imp_left fun hshut => ?_
        show (Function.update s.conns p.value conn c).isOpen = false
        by_cases hcp : c = p.value
        · rw [hcp, Function.update_self]
          rcases hconn with rfl | rfl
          · rw [← hcp]
            exact hshut
          · exact isOpen_close _
        · rw [Function.update_of_ne hcp]
          exact hshut
  | cancel h =>
      obtain ⟨p, hp, -, rfl⟩ := H1World.cancel_eq_some hs
      have hown : s.world.Owns h p.value := ⟨p, hp, rfl⟩
      refine ⟨hi.idle_open, ?_, ?_, ?_, hi.leftover⟩
      · intro c h₀ hc₀
        rcases List.mem_cons.mp hc₀ with heq | hold
        · cases heq
          exact t.not_fresh_of_owns ho hown
        · exact hi.entered c h₀ hold
      · intro c h₀ hc₀
        rcases List.mem_cons.mp hc₀ with heq | hold
        -- abandoned now: shut already, or its pool is gone, as a careful
        -- task sees to
        · cases heq
          exact hc p hp
        · exact hi.shut c h₀ hold
      · intro c h₀ hc₀ h' hown'
        rcases List.mem_cons.mp hc₀ with heq | hold
        · cases heq
          exact t.owner_unique hown hown'
        · exact hi.owner c h₀ hold h' hown'
  | dropHandle h =>
      obtain ⟨p, w, hp, hw, rfl⟩ := H1World.dropHandle_eq_some hs
      refine hi.moved hw (fun k c => by simp) ?_
      intro h' c heq hex
      obtain ⟨p', hp', rfl⟩ := hex
      obtain ⟨rfl, hopen⟩ := Action.drop.inj heq
      rw [hp, Option.some.injEq] at hp'
      rw [← hp']
      exact hopen

omit [DecidableEq C] in
theorem H1World.inv_new (now : Nat) (idleInterval maxIdle : Option Nat) :
    (H1World.new now idleInterval maxIdle : H1World K C π δ).Inv where
  idle_open := fun _ _ _ => rfl
  entered := fun _ _ h => nomatch h
  shut := fun _ _ h => nomatch h
  owner := fun _ _ h => nomatch h
  leftover := rfl

/-- Every state reached by careful steps satisfies the invariant. -/
theorem H1World.inv_of_reachable {idleInterval maxIdle : Option Nat}
    (hr : (H1World.machine idleInterval maxIdle).ReachableUnder
      (fun (s : H1World K C π δ) (a : H1Action K C π δ ε) => s.Careful a)
      s) : s.Inv := by
  apply hr.invariant
  · intro s hinit
    obtain ⟨now, rfl⟩ := hinit
    exact H1World.inv_new now idleInterval maxIdle
  · intro s a s' hrs ih hc hs
    obtain ⟨l, hl, t⟩ := exists_custody (H1World.world_reachable hrs)
    exact ih.step t (Custody.orderly_of_reachable hl) hc hs

omit [DecidableEq C] in
/-- The invariant says what safety asks. -/
theorem H1World.Inv.safe {l : Custody C K Nat} (hi : s.Inv)
    (t : s.world.Tracks l) : s.Safe := by
  have hidle : ∀ k c, c ∈ s.world.conns k → ¬ s.Unfinished c := by
    intro k c hc hor
    rcases hor with ⟨h, -, hown⟩ | hab
    · exact t.not_idle_of_owns hown k hc
    · obtain ⟨⟨c', h⟩, hmem, rfl⟩ := List.mem_map.mp hab
      exact hi.not_idle hmem k hc
  have hgot : ∀ k w' p, s.world.get k = some (w', some p) →
      ¬ s.Unfinished p.value := by
    intro k w' p hget
    obtain ⟨pool, hg⟩ := World.get_eq_some hget
    exact hidle k p.value hg.rested
  refine ⟨hidle, hgot, ?_, hi.leftover⟩
  intro k w' p hconn
  exact hgot k w' p (World.connect_some hconn)

/-- Every state reached by careful steps is safe. -/
theorem H1World.safe_of_reachable {idleInterval maxIdle : Option Nat}
    (hr : (H1World.machine idleInterval maxIdle).ReachableUnder
      (fun (s : H1World K C π δ) (a : H1Action K C π δ ε) => s.Careful a)
      s) : s.Safe := by
  obtain ⟨l, -, t⟩ := exists_custody (H1World.world_reachable hr)
  exact (H1World.inv_of_reachable hr).safe t

/-- A step that is not careful leads to a state that is not safe, at
once or with the drop of a handle. So carefulness asks for nothing that
could not go wrong; it is not the weakest condition, since a caller that
abandons a request may still keep the handle for ever. -/
theorem H1World.unsafe_of_careless {idleInterval maxIdle : Option Nat}
    {a : H1Action K C π δ ε}
    (hr : (World.machine idleInterval maxIdle).Reachable s.world)
    (hs : s.step a = some s') (hc : ¬ s.Careful a) :
    ¬ s'.Safe ∨ ∃ h s'',
      s'.step (.dropHandle h : H1Action K C π δ ε) = some s''
        ∧ ¬ s''.Safe := by
  obtain ⟨l, -, t⟩ := exists_custody hr
  cases a with
  | pool b => exact absurd trivial hc
  | resume h ev => exact absurd trivial hc
  | dropHandle h => exact absurd trivial hc
  | sendRequest h =>
      obtain ⟨p, hp, -, rfl⟩ := H1World.sendRequest_eq_some hs
      refine Or.inl fun hsafe => hc fun p' hp' hmem => ?_
      rw [hp, Option.some.injEq] at hp'
      have hin : p.value ∈ s.abandoned.map Prod.fst :=
        List.mem_map_of_mem (hp' ▸ hmem)
      have hnil := hsafe.leftover
      dsimp only at hnil
      rw [if_pos hin] at hnil
      cases hnil
  | cancel h =>
      obtain ⟨p, hp, -, rfl⟩ := H1World.cancel_eq_some hs
      have hopen : (s.conns p.value).isOpen = true := by
        by_contra hshut
        refine hc fun p' hp' => Or.inl ?_
        rw [hp, Option.some.injEq] at hp'
        exact hp' ▸ Bool.eq_false_iff.mpr hshut
      obtain ⟨pool, hpool⟩ : ∃ pool, s.world.pool = some pool :=
        Option.ne_none_iff_exists'.mp fun hnone =>
          hc fun p' hp' => Or.inr hnone
      obtain ⟨hpl, -⟩ := t.key h p hp
      obtain ⟨k, hk⟩ := Option.isSome_iff_exists.mp (p.key_isSome hpl)
      -- the drop of this handle brings the abandoned connection to rest
      obtain ⟨w, hw, hidle⟩ := World.idle_of_drop hp hpl hk hpool
      refine Or.inr ⟨h, { s with
        world := w
        sends := Function.update s.sends h none
        abandoned := (p.value, h) :: s.abandoned }, ?_, fun hsafe => ?_⟩
      · show H1World.dropHandle _ h = _
        unfold H1World.dropHandle
        simp only [hp, Function.update_self, hopen, hw]
        rfl
      · exact hsafe.idle k p.value hidle (Or.inr List.mem_cons_self)

end MonoioTransports.Http
