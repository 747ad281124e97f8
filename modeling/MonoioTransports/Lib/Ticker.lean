/-
Periodic timers that are polled.

A timer is armed for a deadline. A poll before the deadline is pending;
a poll at the deadline or later is a tick, and arms the timer again: for
a later deadline, but at most one period after the poll. How late ticks
are made up for is left open. A timer that catches up tick by tick, one
that skips what it missed and one that starts over from the poll all
obey `Lawful`; `burst` is the first of them.

# The rules

- `drain`: a task that polls until a poll is pending. `drain_eq_some`
  says that it stops, after how many polls at most, and what deadline it
  leaves behind; more polls change nothing (`drain_mono`).
- `drain_of_pending`: before the deadline it stops at once.
-/
import Mathlib.Data.Option.Basic

namespace Lib

universe u

/-- A timer: how it starts, when it is due, and what a poll does to it.
A pending poll is `none`. -/
structure Ticker (ι : Type u) where
  start : Nat → Nat → ι
  deadline : ι → Nat
  period : ι → Nat
  pollTick : Nat → ι → Option ι

namespace Ticker

variable {ι : Type u}

/-- The first tick is due at once, a poll ticks from the deadline on, and
a tick arms the timer for later, within a period. -/
structure Lawful (timer : Ticker ι) : Prop where
  deadline_start : ∀ now period, timer.deadline (timer.start now period)
    = now
  period_start : ∀ now period, timer.period (timer.start now period)
    = period
  pending_iff : ∀ now i, timer.pollTick now i = none
    ↔ now < timer.deadline i
  period_tick : ∀ now i i', timer.pollTick now i = some i' →
    timer.period i' = timer.period i
  deadline_lt : ∀ now i i', 0 < timer.period i →
    timer.pollTick now i = some i' → timer.deadline i < timer.deadline i'
  deadline_le : ∀ now i i', timer.pollTick now i = some i' →
    timer.deadline i' ≤ now + timer.period i

/-- Late ticks follow one another until they are made up for: each
deadline is one period after the last. -/
def burst : Ticker (Nat × Nat) where
  start := fun now period => (now, period)
  deadline := Prod.fst
  period := Prod.snd
  pollTick := fun now i =>
    if now < i.1 then none else some (i.1 + i.2, i.2)

theorem burst_lawful : burst.Lawful where
  deadline_start := fun _ _ => rfl
  period_start := fun _ _ => rfl
  pending_iff := by
    intro now i
    simp [burst]
  period_tick := by
    intro now i i' h
    simp only [burst, Option.ite_none_left_eq_some, Option.some.injEq] at h
    rw [← h.2]
    rfl
  deadline_lt := by
    intro now i i' hp h
    simp only [burst, Option.ite_none_left_eq_some, Option.some.injEq] at h
    rw [← h.2]
    exact Nat.lt_add_of_pos_right hp
  deadline_le := by
    intro now i i' h
    simp only [burst, Option.ite_none_left_eq_some, Option.some.injEq] at h
    rw [← h.2]
    exact Nat.add_le_add_right (Nat.le_of_not_lt h.1) _

-- ================================================================ draining

/-- Poll until a poll is pending, `fuel` times at most: how many ticks
there were, and the timer they left. -/
def drain (timer : Ticker ι) (now : Nat) : Nat → ι → Option (Nat × ι)
  | 0, _ => none
  | fuel + 1, i =>
      match timer.pollTick now i with
      | none => some (0, i)
      | some i' => (timer.drain now fuel i').map fun r => (r.1 + 1, r.2)

variable {timer : Ticker ι} {now fuel : Nat} {i : ι}

/-- Before the deadline there is nothing to drain. -/
theorem drain_of_pending (hl : timer.Lawful)
    (h : now < timer.deadline i) :
    timer.drain now (fuel + 1) i = some (0, i) := by
  rw [drain, (hl.pending_iff now i).mpr h]

/-- More polls than it takes change nothing. -/
theorem drain_mono {fuel' : Nat} {r : Nat × ι}
    (h : timer.drain now fuel i = some r) (hle : fuel ≤ fuel') :
    timer.drain now fuel' i = some r := by
  induction fuel generalizing i fuel' r with
  | zero => cases h
  | succ fuel ih =>
      obtain ⟨fuel', rfl⟩ := Nat.exists_eq_add_of_le' hle
      rw [← Nat.add_assoc, drain]
      rw [drain] at h
      cases htick : timer.pollTick now i with
      | none =>
          rw [htick] at h
          exact h
      | some i₁ =>
          rw [htick] at h
          obtain ⟨r₁, hrest, hr⟩ := Option.map_eq_some_iff.mp h
          show Option.map _ (timer.drain now (fuel' + fuel) i₁) = _
          rw [ih hrest (Nat.le_add_left _ _), ← hr]
          rfl

/-- What draining leaves: a timer of the same period, due later than now
and no later than a period from now, unless it was before; and the same
timer when there was no tick. -/
structure Drained (timer : Ticker ι) (now : Nat) (i : ι) (ticks : Nat)
    (i' : ι) : Prop where
  period : timer.period i' = timer.period i
  later : now < timer.deadline i'
  soon : timer.deadline i' ≤ max (timer.deadline i)
    (now + timer.period i)
  ticks_iff : ticks = 0 ↔ now < timer.deadline i
  kept : now < timer.deadline i → i' = i

/-- Draining stops: every tick moves the deadline on, and past `now` the
poll is pending. -/
theorem drain_eq_some (now fuel : Nat) (hl : timer.Lawful)
    (hp : 0 < timer.period i)
    (hfuel : now + 1 - timer.deadline i < fuel) :
    ∃ ticks i', timer.drain now fuel i = some (ticks, i')
      ∧ timer.Drained now i ticks i' := by
  induction fuel generalizing i with
  | zero => exact absurd hfuel (Nat.not_lt_zero _)
  | succ fuel ih =>
      by_cases hdue : now < timer.deadline i
      · refine ⟨0, i, drain_of_pending hl hdue, rfl, hdue, ?_, ?_,
          fun _ => rfl⟩
        · exact Nat.le_max_left _ _
        · exact ⟨fun _ => hdue, fun _ => rfl⟩
      · cases htick : timer.pollTick now i with
        | none => exact absurd ((hl.pending_iff now i).mp htick) hdue
        | some i₁ =>
            have hper := hl.period_tick now i i₁ htick
            have hlt := hl.deadline_lt now i i₁ hp htick
            have hle := hl.deadline_le now i i₁ htick
            obtain ⟨ticks, i', hrest, hd⟩ :=
              ih (i := i₁) (by rw [hper]; exact hp) (by omega)
            refine ⟨ticks + 1, i', ?_, hd.period.trans hper, hd.later,
              ?_, ?_, fun h => absurd h hdue⟩
            · rw [drain, htick]
              show Option.map _ (timer.drain now fuel i₁) = _
              rw [hrest]
              rfl
            · have := hd.soon
              rw [hper] at this
              omega
            · exact ⟨fun h => absurd h (Nat.succ_ne_zero ticks),
                fun h => absurd h hdue⟩

end Ticker

end Lib
