/-
What one step can do to a `HyperH1Connector`, said once, and the pool's
world of a state reached, which is a world the pool alone reaches.

`HyperH1Transition` lists the states a step may leave, one constructor
per await and outcome. The loop is in there as what it comes to
(`Drains`), so that nothing above this file runs it.
-/
import MonoioTransports.Http.Proofs.Drain

namespace MonoioTransports.Http

open Lib Pool

variable {K C : Type} [DecidableEq K]

/-- Where a call stands after the loop. -/
def HyperH1Connect.after (key : K) : Option Nat → HyperH1Connect K
  | some h => .ready key h
  | none => .underlying key

open HyperH1Connector

/-- What the loop from one await to the next comes to. -/
structure Scanned (closed : C → Bool) (key : K) (w : World K C)
    (r : Drained K C) : Prop where
  loop : whileGet closed (fun c => !closed c) key (w.queue key).length w
    = some r
  drains : Drains closed key w r

/-- From one await to the next the loop drains what is closed. -/
theorem scan_spec {s : HyperH1Connector K C} {m : Nat}
    (hw : s.world.Alive m) (t : Nat) (key : K) :
    ∃ r, Scanned s.closed key s.world r
      ∧ s.scan t key = some ({ s with world := r.world }.goTo t
          (some (.after key r.pooled))) := by
  have hclosed : ∀ c, s.closed c = true → s.isOpen c = false := by
    intro c hc
    simp [HyperH1Connector.isOpen, hc]
  obtain ⟨r, hloop, hr⟩ := whileGet_spec hclosed key
    (s.world.queue key) s.world m hw rfl _ (Nat.le_refl _)
  refine ⟨r, ⟨hloop, hr⟩, ?_⟩
  unfold HyperH1Connector.scan
  rw [hloop]
  cases hp : r.pooled with
  | none => simp only [hp, HyperH1Connect.after]
  | some h => simp only [hp, HyperH1Connect.after]

-- =========================================================== transitions

section Transitions

variable [DecidableEq C]

/-- The states a step with this action may leave. -/
inductive HyperH1Transition (s : HyperH1Connector K C) :
    HyperH1Action K C → HyperH1Connector K C → Prop
  | connect (key : K) (r : Drained K C)
      (hr : Scanned s.closed key s.world r) :
      HyperH1Transition s (.connect key)
        ({ s with world := r.world, nextCall := s.nextCall + 1 }.goTo
          s.nextCall (some (.after key r.pooled)))
  /-- The pooled connection is ready. -/
  | reused (t : Nat) (key : K) (h : Nat)
      (hcall : s.calls t = some (.ready key h)) :
      HyperH1Transition s (.ready t true) (s.finish t h)
  /-- It is not: its handle is dropped, and the loop goes on. -/
  | again (t : Nat) (key : K) (h : Nat) (p : Pooled K C) (w : World K C)
      (r : Drained K C) (hcall : s.calls t = some (.ready key h))
      (hp : s.world.handles h = some p)
      (hdrop : s.world.drop h (s.isOpen p.value) = some w)
      (hr : Scanned s.closed key w r) :
      HyperH1Transition s (.ready t false)
        ({ s with world := r.world }.goTo t (some (.after key r.pooled)))
  | connected (t : Nat) (key : K)
      (hcall : s.calls t = some (.underlying key)) :
      HyperH1Transition s (.connected t true)
        (s.goTo t (some (.handshake key)))
  /-- A call that holds nothing ends with an error, or is cancelled. -/
  | leave (a : HyperH1Action K C) (t : Nat) (key : K)
      (ha : a = .connected t false ∨ a = .handshake t none
        ∨ a = .cancel t)
      (hcall : s.calls t = some (.underlying key)
        ∨ s.calls t = some (.handshake key)) :
      HyperH1Transition s a (s.goTo t none)
  /-- The handshake is done. -/
  | linked (t : Nat) (key : K) (c : C) (w : World K C)
      (hcall : s.calls t = some (.handshake key))
      (hlink : s.world.link key c = some w) :
      HyperH1Transition s (.handshake t (some c))
        ({ s with world := w }.finish t s.world.nextHandle)
  /-- A call is cancelled at the `ready` of a handle it holds. -/
  | giveUp (t : Nat) (key : K) (h : Nat) (p : Pooled K C)
      (w : World K C) (hcall : s.calls t = some (.ready key h))
      (hp : s.world.handles h = some p)
      (hdrop : s.world.drop h (s.isOpen p.value) = some w) :
      HyperH1Transition s (.cancel t)
        ({ s with world := w }.goTo t none)
  | closed (c : C) :
      HyperH1Transition s (.closed c)
        { s with closed := Function.update s.closed c true
                 returned := none }
  | dropHandle (h : Nat) (p : Pooled K C) (w : World K C)
      (hp : s.world.handles h = some p) (hfree : s.Unheld h)
      (hdrop : s.world.drop h (s.isOpen p.value) = some w) :
      HyperH1Transition s (.dropHandle h)
        { s with world := w, returned := none }
  | pool (a : Action K C) (w : World K C) (hothers : others a = true)
      (hs : s.world.step a = some w) :
      HyperH1Transition s (.pool a)
        { s with world := w, returned := none }

variable {s s' : HyperH1Connector K C} {m : Nat}

private theorem hyperH1_connect (hw : s.world.Alive m) {key : K}
    (h : s.connect key = some s') :
    HyperH1Transition s (.connect key) s' := by
  obtain ⟨r, hr, hscan⟩ := scan_spec
    (s := { s with nextCall := s.nextCall + 1 }) hw s.nextCall key
  unfold HyperH1Connector.connect at h
  rw [hscan] at h
  cases h
  exact .connect key r hr

private theorem hyperH1_ready (hw : s.world.Alive m) {t : Nat} {ok : Bool}
    (h : s.ready t ok = some s') :
    HyperH1Transition s (.ready t ok) s' := by
  unfold HyperH1Connector.ready at h
  split at h
  next key hd hcall =>
    cases ok with
    | true =>
        cases h
        exact .reused t key hd hcall
    | false =>
        simp only [Bool.false_eq_true, if_false] at h
        split at h
        next p hp =>
          split at h
          next w hdrop =>
            have hw' : w.Alive m :=
              alive_of_step (a := .drop hd _) hdrop nofun hw
            obtain ⟨r, hr, hscan⟩ :=
              scan_spec (s := { s with world := w }) hw' t key
            rw [hscan] at h
            cases h
            exact .again t key hd p w r hcall hp hdrop hr
          next => cases h
        next => cases h
  next => cases h

private theorem hyperH1_connected {t : Nat} {ok : Bool}
    (h : s.connected t ok = some s') :
    HyperH1Transition s (.connected t ok) s' := by
  unfold HyperH1Connector.connected at h
  split at h
  next key hcall =>
    cases ok with
    | false =>
        cases h
        exact .leave _ t key (Or.inl rfl) (Or.inl hcall)
    | true =>
        cases h
        exact .connected t key hcall
  next => cases h

private theorem hyperH1_handshake {t : Nat} {result : Option C}
    (h : s.handshake t result = some s') :
    HyperH1Transition s (.handshake t result) s' := by
  unfold HyperH1Connector.handshake at h
  split at h
  next key hcall =>
    cases h
    exact .leave _ t key (Or.inr (Or.inl rfl)) (Or.inr hcall)
  next key c hcall =>
    obtain ⟨w, hlink, rfl⟩ := Option.map_eq_some_iff.mp h
    exact .linked t key c w hcall hlink
  next => cases h

private theorem hyperH1_cancel {t : Nat} (h : s.cancel t = some s') :
    HyperH1Transition s (.cancel t) s' := by
  unfold HyperH1Connector.cancel at h
  split at h
  next key hd hcall =>
    split at h
    next p hp =>
      obtain ⟨w, hdrop, rfl⟩ := Option.map_eq_some_iff.mp h
      exact .giveUp t key hd p w hcall hp hdrop
    next => cases h
  next call hnot hcall =>
    cases h
    cases call with
    | ready key hd => exact absurd rfl (hnot key hd)
    | underlying key =>
        exact .leave _ t key (Or.inr (Or.inr rfl)) (Or.inl hcall)
    | handshake key =>
        exact .leave _ t key (Or.inr (Or.inr rfl)) (Or.inr hcall)
  next => cases h

/-- Every step is one of these. -/
theorem hyperH1_transition (hw : s.world.Alive m)
    {a : HyperH1Action K C} (h : s.step a = some s') :
    HyperH1Transition s a s' := by
  cases a with
  | connect key => exact hyperH1_connect hw h
  | ready t ok => exact hyperH1_ready hw h
  | connected t ok => exact hyperH1_connected h
  | handshake t result => exact hyperH1_handshake h
  | cancel t => exact hyperH1_cancel h
  | closed c =>
      cases h
      exact .closed c
  | dropHandle hd =>
      simp only [HyperH1Connector.step,
        HyperH1Connector.dropHandle] at h
      split at h
      next p hp =>
        split at h
        next hfree =>
          obtain ⟨w, hdrop, rfl⟩ := Option.map_eq_some_iff.mp h
          exact .dropHandle hd p w hp hfree hdrop
        next => cases h
      next => cases h
  | pool a =>
      simp only [HyperH1Connector.step] at h
      split at h
      next hothers =>
        obtain ⟨w, hs, rfl⟩ := Option.map_eq_some_iff.mp h
        exact .pool a w hothers hs
      next => cases h

-- ==================================================== the pool's world

/-- The loop is a run of `get`s and drops. -/
theorem whileGet_reachable {idleInterval maxIdle : Option Nat}
    {D : World K C → Action K C → Prop} (hget : ∀ w k, D w (.get k))
    (hdrop : ∀ w h isOpen, D w (.drop h isOpen))
    {passes isOpen : C → Bool} {key : K} (fuel : Nat) :
    ∀ {w : World K C} {r : Drained K C},
      whileGet passes isOpen key fuel w = some r →
      (World.machine idleInterval maxIdle).ReachableUnder D w →
      (World.machine idleInterval maxIdle).ReachableUnder D r.world := by
  have htake : ∀ {w w₁ : World K C} {p : Option (Pooled K C)},
      w.get key = some (w₁, p) →
      (World.machine idleInterval maxIdle).ReachableUnder D w →
      (World.machine idleInterval maxIdle).ReachableUnder D w₁ := by
    intro w w₁ p h hr
    refine .step hr (hget w key) ?_
    show (w.get key).map Prod.fst = some w₁
    rw [h]
    rfl
  induction fuel with
  | zero =>
      intro w r h hr
      unfold whileGet at h
      split at h
      next => cases h
      next w₁ hg =>
        cases h
        exact htake hg hr
      next => cases h
  | succ fuel ih =>
      intro w r h hr
      unfold whileGet at h
      split at h
      next => cases h
      next w₁ hg =>
        cases h
        exact htake hg hr
      next w₁ p hg =>
        have hr₁ := htake hg hr
        dsimp only at h
        split at h
        next =>
          split at h
          next w₂ hd =>
            obtain ⟨r', hr', rfl⟩ := Option.map_eq_some_iff.mp h
            have hrest := ih hr' (.step hr₁ (hdrop w₁ _ _) hd)
            exact hrest
          next => cases h
        next =>
          cases h
          exact hr₁

/-- The pool's world of a state reached is a world reached, through
steps that are the pool's own or what others did. -/
theorem HyperH1Connector.world_reachable
    {idleInterval maxIdle : Option Nat}
    {P : HyperH1Connector K C → HyperH1Action K C → Prop}
    {D : World K C → Action K C → Prop} (hD : ∀ w, ¬ D w .dropPool)
    (hget : ∀ w k, D w (.get k))
    (hdrop : ∀ w h isOpen, D w (.drop h isOpen))
    (hlink : ∀ w k c, D w (.link k c))
    (hpool : ∀ s a, P s (.pool a) → others a = true → D s.world a)
    (hr : (HyperH1Connector.machine idleInterval maxIdle).ReachableUnder
      P s) :
    (World.machine idleInterval maxIdle).ReachableUnder D s.world := by
  refine hr.invariant (I := fun s : HyperH1Connector K C =>
    (World.machine idleInterval maxIdle).ReachableUnder D s.world) ?_ ?_
  · intro s hinit
    obtain ⟨now, rfl⟩ := hinit
    exact .init ⟨now, rfl⟩
  · intro s a s' _ ih hP h
    cases hyperH1_transition (alive_of_reachable hD ih) h with
    | reused | connected | leave | closed => exact ih
    | connect key r hr => exact whileGet_reachable hget hdrop _ hr.loop ih
    | again t key hd p w r hcall hp hdw hr =>
        exact whileGet_reachable hget hdrop _ hr.loop
          (.step ih (hdrop _ _ _) hdw)
    | linked t key c w hcall hlw => exact .step ih (hlink _ _ _) hlw
    | giveUp t key hd p w hcall hp hdw =>
        exact .step ih (hdrop _ _ _) hdw
    | dropHandle hd p w hp hfree hdw => exact .step ih (hdrop _ _ _) hdw
    | pool a w hothers hs => exact .step ih (hpool s a hP hothers) hs

end Transitions

end MonoioTransports.Http
