/-
Labelled machines: the states a system may start in and a partial step
function whose action carries every choice of the environment.

# Runs under a condition

`ReachableUnder C` is reachability by runs all of whose steps meet `C`,
a condition on the state before the step and the action taken; plain
reachability is the condition `True`. A system that keeps a promise
only while its callers behave is stated over `ReachableUnder`.

# The rules

- `invariant`: what holds initially and is kept by every step holds in
  every state reached (the step may use that its source was reached);
- `mono`: a weaker condition reaches more;
- `along_iff_of_kept`, `along_iff`: two conditions that agree on the
  enabled steps, where an invariant holds or of reachable states, are met
  by the same runs;
- `Underway.reachable`: what one task's activity passes through is
  reachable;
- `Simulation.reachable`: when every concrete step is matched by a
  finite abstract run, every concrete state reached is related to an
  abstract state reached, so abstract invariants pull back.
-/
import Mathlib.Data.Option.Basic

namespace Lib

universe u v w x

/-- A labelled machine: initial states and a partial step function. -/
structure Machine (σ : Type u) (α : Type v) where
  init : σ → Prop
  step : σ → α → Option σ

namespace Machine

variable {σ : Type u} {α : Type v} {m : Machine σ α}

-- ================================================================ runs

/-- Take the actions in order, failing on the first disabled one. -/
def run (m : Machine σ α) (s : σ) : List α → Option σ
  | [] => some s
  | a :: rest =>
      match m.step s a with
      | some s' => run m s' rest
      | none => none

/-- Some run whose steps all meet `C` ends in the state. -/
inductive ReachableUnder (m : Machine σ α) (C : σ → α → Prop) : σ → Prop
  | init {s : σ} (h : m.init s) : ReachableUnder m C s
  | step {s s' : σ} {a : α} (hr : ReachableUnder m C s) (hc : C s a)
      (h : m.step s a = some s') : ReachableUnder m C s'

/-- Some run ends in the state. -/
abbrev Reachable (m : Machine σ α) : σ → Prop :=
  m.ReachableUnder fun _ _ => True

@[simp] theorem run_nil (s : σ) : m.run s [] = some s := rfl

/-- A run, one action at a time. -/
theorem run_cons_eq_some {s s' : σ} {a : α} {rest : List α} :
    m.run s (a :: rest) = some s'
      ↔ ∃ s₁, m.step s a = some s₁ ∧ m.run s₁ rest = some s' := by
  rw [run]
  cases hstep : m.step s a with
  | none => simp
  | some s₁ => simp

/-- A single step is a run. -/
theorem run_singleton {s s' : σ} {a : α} (h : m.step s a = some s') :
    m.run s [a] = some s' :=
  run_cons_eq_some.mpr ⟨s', h, rfl⟩

/-- Runs compose. -/
theorem run_append {s s₁ s' : σ} {as bs : List α}
    (h₁ : m.run s as = some s₁) (h₂ : m.run s₁ bs = some s') :
    m.run s (as ++ bs) = some s' := by
  induction as generalizing s with
  | nil =>
      rw [run_nil, Option.some.injEq] at h₁
      rw [h₁]
      exact h₂
  | cons a as ih =>
      obtain ⟨s₂, hstep, hrest⟩ := run_cons_eq_some.mp h₁
      exact run_cons_eq_some.mpr ⟨s₂, hstep, ih hrest⟩

-- ====================================================== the run rules

/-- A run from a reachable state ends in one. -/
theorem Reachable.run {s s' : σ} {as : List α} (hr : m.Reachable s)
    (h : m.run s as = some s') : m.Reachable s' := by
  induction as generalizing s with
  | nil =>
      rw [run_nil, Option.some.injEq] at h
      rw [← h]
      exact hr
  | cons a as ih =>
      obtain ⟨s₁, hstep, hrest⟩ := run_cons_eq_some.mp h
      exact ih (.step hr trivial hstep) hrest

/-- What holds initially and is kept by every step that meets the
condition holds in every state reached. -/
theorem ReachableUnder.invariant {C : σ → α → Prop} {I : σ → Prop}
    (hinit : ∀ s, m.init s → I s)
    (hstep : ∀ s a s', m.ReachableUnder C s → I s → C s a →
      m.step s a = some s' → I s')
    {s : σ} (hr : m.ReachableUnder C s) : I s := by
  induction hr with
  | init h => exact hinit _ h
  | step hr hc h ih => exact hstep _ _ _ hr ih hc h

/-- A weaker condition on the steps reaches at least as much. -/
theorem ReachableUnder.mono {C D : σ → α → Prop}
    (hCD : ∀ s a, C s a → D s a) {s : σ} (hr : m.ReachableUnder C s) :
    m.ReachableUnder D s := by
  induction hr with
  | init h => exact .init h
  | step _ hc h ih => exact .step ih (hCD _ _ hc) h

/-- Reachable under a condition is reachable. -/
theorem ReachableUnder.reachable {C : σ → α → Prop} {s : σ}
    (hr : m.ReachableUnder C s) : m.Reachable s :=
  hr.mono fun _ _ _ => trivial

-- ================================================ conditions along a run

/-- Every step of the run meets the condition. -/
def Along (m : Machine σ α) (C : σ → α → Prop) : σ → List α → Prop
  | _, [] => True
  | s, a :: as => C s a ∧ ∀ s', m.step s a = some s' → m.Along C s' as

/-- Conditions that agree where an invariant holds are met by the same
runs, when the invariant is kept by the steps that meet them. -/
theorem along_iff_of_kept {C D : σ → α → Prop} {I : σ → Prop}
    (hCD : ∀ s a s', I s → m.step s a = some s' → (C s a ↔ D s a))
    (hkeep : ∀ s a s', I s → D s a → m.step s a = some s' → I s')
    {s s' : σ} {as : List α} (hi : I s) (h : m.run s as = some s') :
    m.Along C s as ↔ m.Along D s as := by
  induction as generalizing s with
  | nil => exact Iff.rfl
  | cons a as ih =>
      obtain ⟨s₁, hstep, hrest⟩ := run_cons_eq_some.mp h
      have hhead := hCD s a s₁ hi hstep
      simp only [Along, hstep, Option.some.injEq, forall_eq', hhead]
      refine and_congr_right fun hd => ?_
      exact ih (hkeep s a s₁ hi hd hstep) hrest

/-- Conditions that agree on the steps of reachable states are met by
the same runs. -/
theorem along_iff {C D : σ → α → Prop}
    (hCD : ∀ s a s', m.Reachable s → m.step s a = some s' →
      (C s a ↔ D s a))
    {s s' : σ} {as : List α} (hr : m.Reachable s)
    (h : m.run s as = some s') : m.Along C s as ↔ m.Along D s as :=
  along_iff_of_kept hCD (fun _ _ _ hr _ hstep => hr.step trivial hstep)
    hr h

/-- A step in the middle of a run meets the condition. -/
theorem Along.step {C : σ → α → Prop} {s s₁ : σ} {as bs : List α} {a : α}
    (h : m.Along C s (as ++ a :: bs)) (hrun : m.run s as = some s₁) :
    C s₁ a := by
  induction as generalizing s with
  | nil =>
      rw [run_nil, Option.some.injEq] at hrun
      rw [← hrun]
      exact h.1
  | cons b as ih =>
      obtain ⟨s₂, hstep, hrest⟩ := run_cons_eq_some.mp hrun
      exact ih (h.2 s₂ hstep) hrest

/-- A condition that can be decided can be decided along a run. -/
instance decidableAlong {C : σ → α → Prop} [∀ s a, Decidable (C s a)] :
    ∀ (s : σ) (as : List α), Decidable (m.Along C s as)
  | _, [] => .isTrue trivial
  | s, a :: as =>
      match h : m.step s a with
      | none =>
          decidable_of_iff (C s a) (by
            rw [Along, h]
            simp)
      | some s' =>
          have : Decidable (m.Along C s' as) := decidableAlong s' as
          decidable_of_iff (C s a ∧ m.Along C s' as) (by
            rw [Along, h]
            simp)

/-- A run whose steps meet the condition, from a state reached by such,
ends in one. -/
theorem ReachableUnder.along {C : σ → α → Prop} {s s' : σ} {as : List α}
    (hr : m.ReachableUnder C s) (hc : m.Along C s as)
    (h : m.run s as = some s') : m.ReachableUnder C s' := by
  induction as generalizing s with
  | nil =>
      rw [run_nil, Option.some.injEq] at h
      rw [← h]
      exact hr
  | cons a as ih =>
      obtain ⟨s₁, hstep, hrest⟩ := run_cons_eq_some.mp h
      exact ih (.step hr hc.1 hstep) (hc.2 s₁ hstep) hrest

-- ============================================= one task's activity alone

/-- A task's activity is under way: `start` began it in `s`, steps of
its own followed and nothing else, and it was `live` ever since. -/
inductive Underway (m : Machine σ α) (start : α) (own : σ → α → Prop)
    (live : σ → Prop) (s : σ) : σ → Prop
  | start {s₁ : σ} (h : m.step s start = some s₁) (hl : live s₁) :
      Underway m start own live s s₁
  | step {s₁ s₂ : σ} {a : α} (hu : Underway m start own live s s₁)
      (ho : own s₁ a) (h : m.step s₁ a = some s₂) (hl : live s₂) :
      Underway m start own live s s₂

/-- A task's activity from its beginning in `s` to its end in `s'`. -/
inductive Episode (m : Machine σ α) (start : α) (own : σ → α → Prop)
    (live : σ → Prop) (s s' : σ) : Prop
  | mk {s₁ : σ} {a : α} (hu : Underway m start own live s s₁)
      (ho : own s₁ a) (h : m.step s₁ a = some s') (hl : ¬ live s')

/-- What an activity passes through is reachable. -/
theorem Underway.reachable {C : σ → α → Prop} {start : α}
    {own : σ → α → Prop} {live : σ → Prop} {s s₁ : σ}
    (hu : Underway m start own live s s₁) (hstart : C s start)
    (hown : ∀ s a, own s a → C s a) (hr : m.ReachableUnder C s) :
    m.ReachableUnder C s₁ := by
  induction hu with
  | start h _ => exact .step hr hstart h
  | step _ ho h _ ih => exact .step ih (hown _ _ ho) h

end Machine

-- ========================================================== simulation

/-- A relation `R` under which the abstract machine `a` explains the
concrete one: every step of `c` that meets `C` is matched by a finite
run of `a`, possibly empty, whose steps meet `D`. -/
structure Simulation {σ : Type u} {α : Type v} {τ : Type w} {β : Type x}
    (c : Machine σ α) (C : σ → α → Prop)
    (a : Machine τ β) (D : τ → β → Prop) (R : σ → τ → Prop) : Prop where
  init : ∀ s, c.init s → ∃ t, a.init t ∧ R s t
  step : ∀ s x s' t, c.ReachableUnder C s → C s x →
    c.step s x = some s' → a.ReachableUnder D t → R s t →
    ∃ t', a.ReachableUnder D t' ∧ R s' t'

/-- Every state reached is related to one the abstract machine
reaches. -/
theorem Simulation.reachable {σ : Type u} {α : Type v} {τ : Type w}
    {β : Type x} {c : Machine σ α} {C : σ → α → Prop} {a : Machine τ β}
    {D : τ → β → Prop} {R : σ → τ → Prop} (sim : Simulation c C a D R)
    {s : σ} (hr : c.ReachableUnder C s) :
    ∃ t, a.ReachableUnder D t ∧ R s t := by
  refine hr.invariant (I := fun s => ∃ t, a.ReachableUnder D t ∧ R s t)
    ?_ ?_
  · intro s h
    obtain ⟨t, ht, hR⟩ := sim.init s h
    exact ⟨t, .init ht, hR⟩
  · intro s x s' hrs ih hc h
    obtain ⟨t, ht, hR⟩ := ih
    exact sim.step s x s' t hrs hc h ht hR

end Lib
