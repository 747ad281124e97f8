/-
Poll-driven computations: things that are polled, and operations whose
futures are.

# Two kinds of things

A `Polled` thing has a state and is asked again and again; each poll is
pending or ready with a value. An `Operation` is called on a state and
gives a future; the future is polled until it is ready and then gone,
and the state is the operation's to change meanwhile. Whether a poll is
pending is decided by the states, so every schedule of pending polls is
that of some states. A poll that does not return is `none`.

# What an operation yields

`Awaits` is one future polled to its end, and `Yields` one call after
another, each awaited: what the operation has to give.

- `Yields.answers`, `yields_of_answers`: keeping the future in a slot
  (`armed`) and polling the slot gives exactly what is yielded.
- `drive_operation`: an operation whose future carries nothing may be
  abandoned and called again at any time.
-/
import Mathlib.Data.List.Basic

namespace Lib

universe u v w

-- ================================================================= polls

/-- What a poll answers. -/
inductive Poll (α : Type u)
  | pending
  | ready (a : α)
  deriving DecidableEq, Repr

variable {σ : Type u} {φ : Type v} {α : Type w}

namespace Poll

variable {β : Type v}

/-- Change the value that is ready. -/
def map (f : α → β) : Poll α → Poll β
  | .pending => .pending
  | .ready a => .ready (f a)

@[simp] theorem map_id (r : Poll α) : r.map id = r := by
  cases r <;> rfl

/-- The value, if it is ready. -/
def value? : Poll α → Option α
  | .pending => none
  | .ready a => some a

/-- The values among a list of answers. -/
def values (rs : List (Poll α)) : List α := rs.filterMap value?

theorem values_cons (r : Poll α) (rs : List (Poll α)) :
    values (r :: rs) = r.value?.toList ++ values rs := by
  cases r <;> rfl

theorem values_append (rs rs' : List (Poll α)) :
    values (rs ++ rs') = values rs ++ values rs' :=
  List.filterMap_append

end Poll

/-- What a poll makes of the state and what it answers, if it returns. -/
abbrev Polled (σ : Type u) (α : Type w) := σ → Option (σ × Poll α)

namespace Polled

/-- The state after so many polls, and their answers. -/
def answers (p : Polled σ α) : Nat → σ → Option (σ × List (Poll α))
  | 0, s => some (s, [])
  | n + 1, s =>
      (p s).bind fun x =>
        (p.answers n x.1).map fun y => (y.1, x.2 :: y.2)

variable {p : Polled σ α} {s s₁ s' : σ} {r : Poll α} {rs : List (Poll α)}
  {n : Nat}

@[simp] theorem answers_zero (p : Polled σ α) (s : σ) :
    p.answers 0 s = some (s, []) := rfl

/-- The first poll, and the others. -/
theorem answers_succ_eq_some :
    p.answers (n + 1) s = some (s', rs)
      ↔ ∃ s₁ r rs₁, p s = some (s₁, r)
        ∧ p.answers n s₁ = some (s', rs₁) ∧ rs = r :: rs₁ := by
  rw [answers, Option.bind_eq_some_iff]
  constructor
  · intro hex
    obtain ⟨⟨s₁, r⟩, hp, h⟩ := hex
    obtain ⟨⟨s₂, rs₁⟩, hrest, heq⟩ := Option.map_eq_some_iff.mp h
    cases heq
    exact ⟨s₁, r, rs₁, hp, hrest, rfl⟩
  · intro hex
    obtain ⟨s₁, r, rs₁, hp, hrest, rfl⟩ := hex
    exact ⟨(s₁, r), hp, Option.map_eq_some_iff.mpr ⟨(s', rs₁), hrest, rfl⟩⟩

theorem answers_succ (hp : p s = some (s₁, r))
    (hrest : p.answers n s₁ = some (s', rs)) :
    p.answers (n + 1) s = some (s', r :: rs) :=
  answers_succ_eq_some.mpr ⟨s₁, r, rs, hp, hrest, rfl⟩

/-- Polls compose. -/
theorem answers_add {m : Nat} {rs' : List (Poll α)}
    (h₁ : p.answers n s = some (s₁, rs))
    (h₂ : p.answers m s₁ = some (s', rs')) :
    p.answers (n + m) s = some (s', rs ++ rs') := by
  induction n generalizing s rs with
  | zero =>
      cases h₁
      rw [Nat.zero_add]
      exact h₂
  | succ n ih =>
      obtain ⟨s₂, r, rs₁, hp, hrest, rfl⟩ := answers_succ_eq_some.mp h₁
      rw [Nat.succ_add]
      exact answers_succ hp (ih hrest)

/-- Things that poll alike, up to a map of the states and one of the
values, answer alike. -/
theorem answers_map {τ : Type v} {β : Type u} {q : Polled τ β} (g : σ → τ)
    (f : α → β)
    (hpq : ∀ s, q (g s) = (p s).map fun x => (g x.1, x.2.map f))
    (n : Nat) (s : σ) :
    q.answers n (g s)
      = (p.answers n s).map fun x => (g x.1, x.2.map (Poll.map f)) := by
  induction n generalizing s with
  | zero => rfl
  | succ n ih =>
      rw [answers, answers, hpq, Option.bind_map, Option.map_bind]
      refine congrArg _ (funext fun x => ?_)
      simp only [Function.comp_apply, ih, Option.map_map]
      rfl

end Polled

-- ============================================================= operations

/-- An operation: what calling it makes of the state, with the future it
gives, and what polling the future does to both. -/
structure Operation (σ : Type u) (φ : Type v) (α : Type w) where
  start : σ → φ × σ
  poll : Polled (φ × σ) α

namespace Operation

/-- The future is polled `n` times and is ready the last time. -/
inductive Awaits (op : Operation σ φ α) : φ × σ → Nat → α → σ → Prop
  | ready {live : φ × σ} {fut : φ} {a : α} {s' : σ}
      (h : op.poll live = some ((fut, s'), .ready a)) :
      Awaits op live 1 a s'
  | pending {live live₁ : φ × σ} {n : Nat} {a : α} {s' : σ}
      (h : op.poll live = some (live₁, .pending))
      (hrest : Awaits op live₁ n a s') : Awaits op live (n + 1) a s'

/-- Called over and over, each future awaited, the operation gives these
values in `n` polls. -/
inductive Yields (op : Operation σ φ α) : σ → Nat → List α → σ → Prop
  | nil (s : σ) : Yields op s 0 [] s
  | cons {s s₁ s' : σ} {n m : Nat} {a : α} {as : List α}
      (hfirst : op.Awaits (op.start s) n a s₁)
      (hrest : Yields op s₁ m as s') : Yields op s (n + m) (a :: as) s'

/-- The future in the slot, or a new one. -/
def live (op : Operation σ φ α) : Option φ × σ → φ × σ
  | (some fut, s) => (fut, s)
  | (none, s) => op.start s

/-- The operation with its future kept in a slot: a poll goes to the
future there or to a new one, and a future that is ready is gone. -/
def armed (op : Operation σ φ α) : Polled (Option φ × σ) α := fun st =>
  match op.poll (op.live st) with
  | none => none
  | some ((fut, s), .pending) => some ((some fut, s), .pending)
  | some ((_, s), .ready a) => some ((none, s), .ready a)

variable {op : Operation σ φ α} {st st' : Option φ × σ} {s s' : σ} {a : α}
  {as : List α} {n : Nat}

theorem armed_pending {fut : φ}
    (h : op.poll (op.live st) = some ((fut, s), .pending)) :
    op.armed st = some ((some fut, s), .pending) := by
  simp only [armed, h]

theorem armed_ready {fut : φ}
    (h : op.poll (op.live st) = some ((fut, s), .ready a)) :
    op.armed st = some ((none, s), .ready a) := by
  simp only [armed, h]

/-- What a poll of the slot does. -/
theorem armed_cases {r : Poll α} (h : op.armed st = some (st', r)) :
    (∃ fut s, op.poll (op.live st) = some ((fut, s), .pending)
        ∧ st' = (some fut, s) ∧ r = .pending)
      ∨ ∃ fut s a, op.poll (op.live st) = some ((fut, s), .ready a)
        ∧ st' = (none, s) ∧ r = .ready a := by
  unfold armed at h
  split at h
  next => cases h
  next fut s hpoll =>
    cases h
    exact Or.inl ⟨fut, s, hpoll, rfl, rfl⟩
  next fut s a hpoll =>
    cases h
    exact Or.inr ⟨fut, s, a, hpoll, rfl, rfl⟩

/-- A future in the slot is polled to its end. -/
theorem Awaits.answers {live : φ × σ} (h : op.Awaits live n a s') :
    ∀ st, op.live st = live →
      ∃ rs, op.armed.answers n st = some ((none, s'), rs)
        ∧ Poll.values rs = [a] := by
  induction h with
  | ready h =>
      intro st hst
      rw [← hst] at h
      exact ⟨_, Polled.answers_succ (armed_ready h)
        (Polled.answers_zero _ _), rfl⟩
  | @pending _ live₁ _ _ _ h _ ih =>
      intro st hst
      rw [← hst] at h
      obtain ⟨rs, hrest, hvals⟩ := ih (some live₁.1, live₁.2) rfl
      exact ⟨_, Polled.answers_succ (armed_pending h) hrest, hvals⟩

/-- Polled as often as the operation needs for some values, the slot
gives these. -/
theorem Yields.answers (h : op.Yields s n as s') :
    ∃ rs, op.armed.answers n (none, s) = some ((none, s'), rs)
      ∧ Poll.values rs = as := by
  induction h with
  | nil s => exact ⟨[], rfl, rfl⟩
  | cons hfirst _ ih =>
      obtain ⟨rs₁, hrun₁, hvals₁⟩ := hfirst.answers (none, _) rfl
      obtain ⟨rs₂, hrun₂, hvals₂⟩ := ih
      refine ⟨rs₁ ++ rs₂, Polled.answers_add hrun₁ hrun₂, ?_⟩
      rw [Poll.values_append, hvals₁, hvals₂]
      rfl

/-- What polls of the slot gave is nothing yet, or the value its future
gave when awaited and what the operation yielded then. -/
private theorem awaits_of_answers {rs : List (Poll α)}
    (h : op.armed.answers n st = some (st', rs)) :
    Poll.values rs = []
      ∨ ∃ k m a as s₁ s₂, k + m ≤ n ∧ Poll.values rs = a :: as
        ∧ op.Awaits (op.live st) k a s₁ ∧ op.Yields s₁ m as s₂ := by
  induction n generalizing st rs with
  | zero =>
      cases h
      exact Or.inl rfl
  | succ n ih =>
      obtain ⟨st₁, r, rs₁, hp, hrest, rfl⟩ :=
        Polled.answers_succ_eq_some.mp h
      rcases armed_cases hp with
        ⟨fut, s, hpoll, rfl, rfl⟩ | ⟨fut, s, a, hpoll, rfl, rfl⟩
      · rcases ih hrest with hnil | ⟨k, m, a, as, s₁, s₂, hle, hvals, ha, hy⟩
        · exact Or.inl hnil
        · exact Or.inr ⟨k + 1, m, a, as, s₁, s₂, by omega, hvals,
            .pending hpoll ha, hy⟩
      · apply Or.inr
        rcases ih hrest with hnil | ⟨k, m, b, as, s₁, s₂, hle, hvals, ha, hy⟩
        · refine ⟨1, 0, a, [], s, s, by omega, ?_, .ready hpoll, .nil s⟩
          show a :: Poll.values rs₁ = [a]
          rw [hnil]
        · refine ⟨1, k + m, a, b :: as, s, s₂, by omega, ?_, .ready hpoll,
            .cons ha hy⟩
          show a :: Poll.values rs₁ = a :: b :: as
          rw [hvals]

/-- What polls of the slot gave, the operation yields. -/
theorem yields_of_answers {rs : List (Poll α)}
    (h : op.armed.answers n (none, s) = some (st', rs)) :
    ∃ m s₁, m ≤ n ∧ op.Yields s m (Poll.values rs) s₁ := by
  rcases awaits_of_answers h with
    hnil | ⟨k, m, a, as, s₁, s₂, hle, hvals, ha, hy⟩
  · rw [hnil]
    exact ⟨0, s, Nat.zero_le n, .nil s⟩
  · rw [hvals]
    exact ⟨k + m, s₂, hle, .cons ha hy⟩

end Operation

-- ============================================================ abandonment

/-- What the caller of an operation does: it calls the operation, giving
up the future it has; polls its future, calling first if it has none;
or drops its future. -/
inductive Turn
  | call
  | poll
  | abandon
  deriving DecidableEq, Repr

namespace Operation

/-- The values the caller gets by these turns. -/
def drive (op : Operation σ φ α) :
    List Turn → Option φ × σ → Option ((Option φ × σ) × List α)
  | [], st => some (st, [])
  | .call :: turns, (_, s) =>
      op.drive turns (some (op.start s).1, (op.start s).2)
  | .abandon :: turns, (_, s) => op.drive turns (none, s)
  | .poll :: turns, st =>
      (op.armed st).bind fun x =>
        (op.drive turns x.1).map fun y => (y.1, x.2.value?.toList ++ y.2)

end Operation

/-- The operation that polls; its future carries nothing. -/
def Polled.operation (p : Polled σ α) : Operation σ Unit α where
  start := fun s => ((), s)
  poll := fun live => (p live.2).map fun x => (((), x.1), x.2)

namespace Operation

variable {p : Polled σ α} {s s' : σ}

/-- A slot with a future that carries nothing polls as if there were
none. -/
theorem armed_operation (slot : Option Unit) :
    p.operation.armed (slot, s)
      = (p s).map fun x =>
        ((x.2.value?.elim (some ()) fun _ => none, x.1), x.2) := by
  have hlive : p.operation.live (slot, s) = ((), s) := by
    cases slot <;> rfl
  have hpoll : p.operation.poll ((), s)
      = (p s).map fun x => (((), x.1), x.2) := rfl
  rw [armed, hlive, hpoll]
  cases p s with
  | none => rfl
  | some x =>
      obtain ⟨s₁, r⟩ := x
      cases r <;> rfl

/-- Its answers are those of what it polls. -/
theorem answers_armed_operation (n : Nat) (slot : Option Unit) (s : σ) :
    (p.operation.armed.answers n (slot, s)).map (fun x => (x.1.2, x.2))
      = p.answers n s := by
  induction n generalizing slot s with
  | zero => rfl
  | succ n ih =>
      rw [Polled.answers, Polled.answers, armed_operation,
        Option.bind_map, Option.map_bind]
      refine congrArg _ (funext fun x => ?_)
      rw [← ih (x.2.value?.elim (some ()) fun _ => none) x.1]
      simp only [Function.comp_apply, Option.map_map]
      rfl

/-- A caller that abandons it and calls it again gets what its polls
give. -/
theorem drive_operation (turns : List Turn) (slot : Option Unit) (s : σ) :
    (p.operation.drive turns (slot, s)).map (fun x => (x.1.2, x.2))
      = (p.answers (turns.count .poll) s).map
        fun x => (x.1, Poll.values x.2) := by
  induction turns generalizing slot s with
  | nil => rfl
  | cons turn turns ih =>
      cases turn with
      | call => exact ih _ _
      | abandon => exact ih _ _
      | poll =>
          rw [List.count_cons_self, Polled.answers, drive, armed_operation,
            Option.bind_map, Option.map_bind, Option.map_bind]
          refine congrArg _ (funext fun x => ?_)
          have hrest := congrArg
            (Option.map fun y => (y.1, x.2.value?.toList ++ y.2))
            (ih (x.2.value?.elim (some ()) fun _ => none) x.1)
          simp only [Option.map_map] at hrest
          simp only [Function.comp_apply, Option.map_map]
          refine Eq.trans hrest (congrArg (Option.map · _) (funext ?_))
          intro y
          rw [Function.comp_apply, Function.comp_apply, Poll.values_cons]

end Operation

end Lib
