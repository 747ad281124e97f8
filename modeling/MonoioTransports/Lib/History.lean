/-
Machines that write down what happened.

A state keeps what the system needs to go on, not where it came from. A
promise about origins ("what is handed out was opened for the one who
asks") or about totals ("as many began as ended") is a promise about the
run. `recording` runs a machine beside the list of the events its steps
make, the latest first, so that such a promise is an invariant of a
machine like any other.

# The rules

- `recorded`: every state reached is reached with some history;
- `forget`: a state reached with a history is reached without;
- `recorded_invariant`: what holds of the state and the history, and is
  kept by each step and its events, holds throughout.
-/
import MonoioTransports.Lib.Machine

namespace Lib

universe u v w

/-- A state, and the events on the way to it, the latest first. -/
structure Recorded (σ : Type u) (ω : Type w) where
  state : σ
  history : List ω

namespace Machine

variable {σ : Type u} {α : Type v} {ω : Type w} {m : Machine σ α}
  {events : σ → α → σ → List ω} {C : σ → α → Prop}

/-- The machine beside its history. -/
def recording (m : Machine σ α) (events : σ → α → σ → List ω) :
    Machine (Recorded σ ω) α where
  init := fun r => m.init r.state ∧ r.history = []
  step := fun r a => (m.step r.state a).map fun s =>
    { state := s, history := events r.state a s ++ r.history }

/-- A recorded step is a step and its events. -/
theorem recording_step_eq_some {r r' : Recorded σ ω} {a : α} :
    (m.recording events).step r a = some r' ↔
      ∃ s, m.step r.state a = some s
        ∧ r' = { state := s,
                 history := events r.state a s ++ r.history } := by
  refine Option.map_eq_some_iff.trans (exists_congr fun s => ?_)
  exact and_congr_right fun _ => eq_comm

/-- Every state reached is reached with some history. -/
theorem ReachableUnder.recorded {s : σ} (hr : m.ReachableUnder C s)
    (events : σ → α → σ → List ω) :
    ∃ history, (m.recording events).ReachableUnder
      (fun r a => C r.state a) { state := s, history := history } := by
  induction hr with
  | init h => exact ⟨[], .init ⟨h, rfl⟩⟩
  | @step s s' a _ hc h ih =>
      obtain ⟨history, hrec⟩ := ih
      exact ⟨events s a s' ++ history,
        .step hrec hc (recording_step_eq_some.mpr ⟨s', h, rfl⟩)⟩

/-- A state reached with a history is reached without. -/
theorem ReachableUnder.forget {r : Recorded σ ω}
    (hr : (m.recording events).ReachableUnder
      (fun r a => C r.state a) r) : m.ReachableUnder C r.state := by
  induction hr with
  | init h => exact .init h.1
  | step _ hc h ih =>
      obtain ⟨s, hstep, rfl⟩ := recording_step_eq_some.mp h
      exact .step ih hc hstep

/-- What holds initially and is kept by every step and its events holds
of every state reached with its history. -/
theorem recorded_invariant {I : σ → List ω → Prop}
    (hinit : ∀ s, m.init s → I s [])
    (hstep : ∀ s history a s', m.ReachableUnder C s → I s history →
      C s a → m.step s a = some s' →
      I s' (events s a s' ++ history))
    {r : Recorded σ ω} (hr : (m.recording events).ReachableUnder
      (fun r a => C r.state a) r) : I r.state r.history := by
  refine hr.invariant (I := fun r => I r.state r.history) ?_ ?_
  · intro r hr
    rw [hr.2]
    exact hinit r.state hr.1
  · intro r a r' hr hi hc h
    obtain ⟨s, hs, rfl⟩ := recording_step_eq_some.mp h
    exact hstep r.state r.history a s hr.forget hi hc hs

end Machine

end Lib
