/-
Views: a part of a machine's state that depends on its own events only.

A view reads off a part of the state and the events that concern it, and
says how the part answers an event. When each step of the machine moves
the part by that step's events (`Faithful`), the machine has nothing
else to move it by. The part is then a little machine of its own, and
what the rest of the system does cannot be observed through it.

# The rules

- `Faithful.run`: after a run the part is what its events make of it;
- `Faithful.agree`: runs with the same events leave the same part.
-/
import MonoioTransports.Lib.Machine

namespace Lib

universe u v w x

/-- A part of the state, the events a step is to it, and what they do. -/
structure View (σ : Type u) (α : Type v) (τ : Type w) (ω : Type x) where
  part : σ → τ
  sees : σ → α → List ω
  apply : τ → ω → τ

namespace View

variable {σ : Type u} {α : Type v} {τ : Type w} {ω : Type x}
  {m : Machine σ α} {view : View σ α τ ω}

/-- What the events make of the part, one after another. -/
def after (view : View σ α τ ω) (t : τ) (events : List ω) : τ :=
  events.foldl view.apply t

/-- The events of a run. -/
def trace (view : View σ α τ ω) (m : Machine σ α) : σ → List α → List ω
  | _, [] => []
  | s, a :: as =>
      match m.step s a with
      | some s' => view.sees s a ++ view.trace m s' as
      | none => []

/-- Every step from a reachable state moves the part by its events. -/
def Faithful (view : View σ α τ ω) (m : Machine σ α) : Prop :=
  ∀ s a s', m.Reachable s → m.step s a = some s' →
    view.part s' = view.after (view.part s) (view.sees s a)

/-- After a run the part is what its events make of it. -/
theorem Faithful.run (hv : view.Faithful m) {s s' : σ} {as : List α}
    (hr : m.Reachable s) (h : m.run s as = some s') :
    view.part s' = view.after (view.part s) (view.trace m s as) := by
  induction as generalizing s with
  | nil =>
      rw [Machine.run_nil, Option.some.injEq] at h
      rw [h]
      rfl
  | cons a as ih =>
      obtain ⟨s₁, hstep, hrest⟩ := Machine.run_cons_eq_some.mp h
      rw [ih (.step hr trivial hstep) hrest, hv s a s₁ hr hstep, trace,
        hstep]
      exact (List.foldl_append ..).symm

/-- Runs with the same events leave the same part. -/
theorem Faithful.agree (hv : view.Faithful m) {s s₁ s₂ : σ}
    {as bs : List α} (hr : m.Reachable s) (h₁ : m.run s as = some s₁)
    (h₂ : m.run s bs = some s₂)
    (hsame : view.trace m s as = view.trace m s bs) :
    view.part s₁ = view.part s₂ := by
  rw [hv.run hr h₁, hv.run hr h₂, hsame]

end View

end Lib
