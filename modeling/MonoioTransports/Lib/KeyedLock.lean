/-
A table of locks, one per key, filled as keys are first asked for.

`LockTable` is the table and the holder of each lock; a lock has one
permit. The tasks' side is `phase`: out of the protocol, waiting for the
lock of a key, or holding it. `Coherent` ties the two together, and each
move of a task keeps it:

- `enter`: look the lock up, creating it if need be, and wait;
- `acquire`: take the free lock one waits for;
- `release`: give it back and leave;
- `leave`: stop waiting.

What follows is mutual exclusion per key (`Coherent.exclusive`): no two
tasks hold the lock of one key, whenever each looked it up.
-/
import Mathlib.Data.List.AList
import Mathlib.Logic.Function.Basic

namespace Lib

universe u v

/-- The locks made so far, by key, and who holds each. -/
structure LockTable (κ : Type u) where
  locks : AList fun _ : κ => Nat
  next : Nat
  holder : Nat → Option Nat

/-- Where a task is. -/
inductive LockPhase (κ : Type u)
  | out
  | waiting (k : κ) (l : Nat)
  | holding (k : κ) (l : Nat)

namespace LockTable

variable {κ : Type u}

/-- No locks yet. -/
def empty : LockTable κ where
  locks := ∅
  next := 0
  holder := fun _ => none

/-- Take a lock, if it is free. -/
def acquire (tbl : LockTable κ) (l t : Nat) : Option (LockTable κ) :=
  match tbl.holder l with
  | some _ => none
  | none =>
      some { tbl with holder := Function.update tbl.holder l (some t) }

/-- Give a lock back. -/
def release (tbl : LockTable κ) (l : Nat) : LockTable κ :=
  { tbl with holder := Function.update tbl.holder l none }

variable [DecidableEq κ]

/-- The lock of a key, made on the first request. -/
def entry (tbl : LockTable κ) (k : κ) : LockTable κ × Nat :=
  match tbl.locks.lookup k with
  | some l => (tbl, l)
  | none =>
      ({ tbl with locks := tbl.locks.insert k tbl.next
                  next := tbl.next + 1 }, tbl.next)

-- =========================================================== coherence

/-- The table and the tasks agree. -/
structure Coherent (tbl : LockTable κ) (phase : Nat → LockPhase κ) :
    Prop where
  fresh : ∀ k l, tbl.locks.lookup k = some l → l < tbl.next
  inj : ∀ k k' l, tbl.locks.lookup k = some l →
    tbl.locks.lookup k' = some l → k = k'
  waiting : ∀ t k l, phase t = .waiting k l →
    tbl.locks.lookup k = some l
  holding : ∀ t k l, phase t = .holding k l →
    tbl.locks.lookup k = some l ∧ tbl.holder l = some t
  held : ∀ l t, tbl.holder l = some t → ∃ k, phase t = .holding k l

theorem coherent_empty :
    (empty : LockTable κ).Coherent fun _ => .out where
  fresh := fun k l h => by simp [empty] at h
  inj := fun k k' l h => by simp [empty] at h
  waiting := fun _ _ _ h => nomatch h
  holding := fun _ _ _ h => nomatch h
  held := fun _ _ h => nomatch h

variable {tbl tbl' : LockTable κ} {phase : Nat → LockPhase κ}

/-- What stands somewhere after an update with another value stood
there before. -/
theorem of_update_eq {β : Type v} {f : Nat → β} {t t' : Nat} {a b : β}
    (hne : a ≠ b) (h : Function.update f t a t' = b) :
    t' ≠ t ∧ f t' = b := by
  by_cases ht : t' = t
  · rw [ht, Function.update_self] at h
    exact absurd h hne
  · rw [Function.update_of_ne ht] at h
    exact ⟨ht, h⟩

/-- Mutual exclusion per key. -/
theorem Coherent.exclusive (h : tbl.Coherent phase) {t t' : Nat} {k : κ}
    {l l' : Nat} (ht : phase t = .holding k l)
    (ht' : phase t' = .holding k l') : t = t' := by
  obtain ⟨hl, hheld⟩ := h.holding t k l ht
  obtain ⟨hl', hheld'⟩ := h.holding t' k l' ht'
  rw [hl, Option.some.injEq] at hl'
  rw [← hl', hheld] at hheld'
  exact Option.some.inj hheld'

/-- What a task waits for is free, or a task that holds it is not
waiting: there are no chains. -/
theorem Coherent.free_or_held (h : tbl.Coherent phase) {t : Nat} {k : κ}
    {l : Nat} (ht : phase t = .waiting k l) :
    tbl.holder l = none ∨ ∃ t', phase t' = .holding k l := by
  cases hheld : tbl.holder l with
  | none => exact Or.inl rfl
  | some t' =>
      obtain ⟨k', hk'⟩ := h.held l t' hheld
      have hkey : k' = k :=
        h.inj k' k l (h.holding t' k' l hk').1 (h.waiting t k l ht)
      rw [hkey] at hk'
      exact Or.inr ⟨t', hk'⟩

/-- When nobody holds a lock, all are free. -/
theorem Coherent.all_free (h : tbl.Coherent phase)
    (hnone : ∀ t k l, phase t ≠ .holding k l) (l : Nat) :
    tbl.holder l = none := by
  cases hheld : tbl.holder l with
  | none => rfl
  | some t =>
      obtain ⟨k, hk⟩ := h.held l t hheld
      exact absurd hk (hnone t k l)

/-- A held lock has a holder that waits for nothing. -/
theorem Coherent.holder_of_waiting (h : tbl.Coherent phase) {t : Nat}
    {k : κ} {l : Nat} (ht : phase t = .waiting k l) (l' : Nat) :
    tbl.holder l' ≠ some t := by
  intro hheld
  obtain ⟨k', hk'⟩ := h.held l' t hheld
  rw [ht] at hk'
  cases hk'

/-- A task outside holds nothing. -/
theorem Coherent.holder_of_out (h : tbl.Coherent phase) {t : Nat}
    (ht : phase t = .out) (l : Nat) : tbl.holder l ≠ some t := by
  intro hheld
  obtain ⟨k, hk⟩ := h.held l t hheld
  rw [ht] at hk
  cases hk

-- ============================================================== the moves

/-- What `entry` leaves: the old locks, and the one asked for. -/
theorem entry_spec (tbl : LockTable κ) (k : κ) :
    (tbl.entry k).1.locks.lookup k = some (tbl.entry k).2
      ∧ (tbl.entry k).1.holder = tbl.holder
      ∧ (∀ k', k' ≠ k → (tbl.entry k).1.locks.lookup k'
        = tbl.locks.lookup k')
      ∧ ∀ l, tbl.locks.lookup k = some l → (tbl.entry k).2 = l := by
  unfold entry
  split
  next l hl =>
    refine ⟨hl, rfl, fun _ _ => rfl, fun l' hl' => ?_⟩
    rw [hl, Option.some.injEq] at hl'
    exact hl'
  next hl =>
    refine ⟨AList.lookup_insert _, rfl, fun k' hk' => ?_, fun l' hl' => ?_⟩
    · exact AList.lookup_insert_ne hk'
    · rw [hl] at hl'
      cases hl'

/-- The lock asked for is made, and no other. -/
theorem mem_entry (tbl : LockTable κ) (key k : κ) :
    k ∈ (tbl.entry key).1.locks ↔ k = key ∨ k ∈ tbl.locks := by
  unfold entry
  split
  next l hl =>
    refine ⟨Or.inr, fun h => ?_⟩
    rcases h with rfl | h
    · exact AList.lookup_isSome.mp (by rw [hl]; rfl)
    · exact h
  next => exact AList.mem_insert _

omit [DecidableEq κ] in
theorem locks_of_acquire {l t : Nat} (h : tbl.acquire l t = some tbl') :
    tbl'.locks = tbl.locks := by
  unfold acquire at h
  split at h
  next => cases h
  next =>
    cases h
    rfl

/-- A new lock has no other key. -/
private theorem entry_inj (h : tbl.Coherent phase) (k : κ) {k₁ : κ}
    (hk₁ : (tbl.entry k).1.locks.lookup k₁ = some (tbl.entry k).2) :
    k₁ = k := by
  obtain ⟨-, -, hother, hold⟩ := entry_spec tbl k
  by_contra hne
  rw [hother k₁ hne] at hk₁
  cases hk : tbl.locks.lookup k with
  | some l =>
      rw [hold l hk] at hk₁
      exact hne (h.inj _ _ _ hk₁ hk)
  | none =>
      have hlt := h.fresh _ _ hk₁
      simp [entry, hk] at hlt

/-- A task looks the lock of a key up and waits for it. -/
theorem Coherent.enter (h : tbl.Coherent phase) {t : Nat}
    (ht : phase t = .out) (k : κ) :
    (tbl.entry k).1.Coherent
      (Function.update phase t (.waiting k (tbl.entry k).2)) := by
  obtain ⟨hself, hholder, hother, -⟩ := entry_spec tbl k
  have hkeep : ∀ k' l, tbl.locks.lookup k' = some l →
      (tbl.entry k).1.locks.lookup k' = some l := by
    intro k' l hl
    by_cases hk : k' = k
    · subst hk
      rw [hself]
      exact congrArg some ((entry_spec tbl k').2.2.2 l hl)
    · rw [hother k' hk]
      exact hl
  refine ⟨?_, ?_, ?_, ?_, ?_⟩
  · intro k' l hl
    unfold entry at hl ⊢
    split at hl
    next => exact h.fresh k' l hl
    next =>
      by_cases hk : k' = k
      · rw [hk, AList.lookup_insert, Option.some.injEq] at hl
        rw [← hl]
        exact Nat.lt_succ_self _
      · rw [AList.lookup_insert_ne hk] at hl
        exact Nat.lt_succ_of_lt (h.fresh k' l hl)
  · intro k₁ k₂ l h₁ h₂
    by_cases hk₁ : k₁ = k
    · rw [hk₁, hself, Option.some.injEq] at h₁
      rw [hk₁]
      exact (entry_inj h k (h₁ ▸ h₂)).symm
    · by_cases hk₂ : k₂ = k
      · rw [hk₂, hself, Option.some.injEq] at h₂
        exact absurd (entry_inj h k (h₂ ▸ h₁)) hk₁
      · rw [hother k₁ hk₁] at h₁
        rw [hother k₂ hk₂] at h₂
        exact h.inj _ _ _ h₁ h₂
  · intro t' k' l hw
    by_cases htt : t' = t
    · rw [htt, Function.update_self] at hw
      cases hw
      exact hself
    · rw [Function.update_of_ne htt] at hw
      exact hkeep _ _ (h.waiting _ _ _ hw)
  · intro t' k' l hh
    obtain ⟨hl, hheld⟩ := h.holding _ _ _ (of_update_eq (by nofun) hh).2
    rw [hholder]
    exact ⟨hkeep _ _ hl, hheld⟩
  · intro l t' hl
    rw [hholder] at hl
    have htt : t' ≠ t := fun he =>
      h.holder_of_out ht l (he ▸ hl)
    rw [Function.update_of_ne htt]
    exact h.held l t' hl

/-- A waiting task takes the lock it waits for. -/
theorem Coherent.acquire (h : tbl.Coherent phase) {t : Nat} {k : κ}
    {l : Nat} (ht : phase t = .waiting k l)
    (ha : tbl.acquire l t = some tbl') :
    tbl'.Coherent (Function.update phase t (.holding k l)) := by
  unfold LockTable.acquire at ha
  split at ha
  next => cases ha
  next hfree =>
    cases ha
    refine ⟨h.fresh, h.inj, ?_, ?_, ?_⟩
    · intro t' k' l' hw
      exact h.waiting _ _ _ (of_update_eq (by nofun) hw).2
    · intro t' k' l' hh
      by_cases htt : t' = t
      · rw [htt, Function.update_self] at hh
        cases hh
        refine ⟨h.waiting _ _ _ ht, ?_⟩
        rw [htt]
        exact Function.update_self ..
      · rw [Function.update_of_ne htt] at hh
        obtain ⟨hl, hheld⟩ := h.holding _ _ _ hh
        refine ⟨hl, ?_⟩
        have hne : l' ≠ l := fun he => by
          rw [he, hfree] at hheld
          cases hheld
        exact (Function.update_of_ne hne ..).trans hheld
    · intro l' t' hl'
      by_cases hll : l' = l
      · rw [hll] at hl' ⊢
        have htt : t = t' := by simpa using hl'
        exact ⟨k, htt ▸ Function.update_self ..⟩
      · have hold : tbl.holder l' = some t' := by simpa [hll] using hl'
        have htt : t' ≠ t := fun he =>
          h.holder_of_waiting ht l' (he ▸ hold)
        rw [Function.update_of_ne htt]
        exact h.held l' t' hold

/-- A task gives its lock back and leaves. -/
theorem Coherent.release (h : tbl.Coherent phase) {t : Nat} {k : κ}
    {l : Nat} (ht : phase t = .holding k l) :
    (tbl.release l).Coherent (Function.update phase t .out) := by
  obtain ⟨hl, hheld⟩ := h.holding t k l ht
  refine ⟨h.fresh, h.inj, ?_, ?_, ?_⟩
  · intro t' k' l' hw
    exact h.waiting _ _ _ (of_update_eq (by nofun) hw).2
  · intro t' k' l' hh
    obtain ⟨htt, hh⟩ := of_update_eq (by nofun) hh
    obtain ⟨hl', hheld'⟩ := h.holding _ _ _ hh
    have hne : l' ≠ l := by
      intro he
      rw [he, hheld] at hheld'
      exact htt (Option.some.inj hheld').symm
    exact ⟨hl', (Function.update_of_ne hne ..).trans hheld'⟩
  · intro l' t' hl'
    by_cases hll : l' = l
    · rw [hll] at hl'
      simp [LockTable.release] at hl'
    · have hold : tbl.holder l' = some t' := by
        simpa [LockTable.release, hll] using hl'
      obtain ⟨k', hk'⟩ := h.held l' t' hold
      have htt : t' ≠ t := fun he => by
        rw [he, ht] at hk'
        exact hll (LockPhase.holding.inj hk').2.symm
      rw [Function.update_of_ne htt]
      exact ⟨k', hk'⟩

/-- A task that takes the lock it waits for and gives it back at once
leaves. -/
theorem Coherent.acquire_release (h : tbl.Coherent phase) {t : Nat}
    {k : κ} {l : Nat} (ht : phase t = .waiting k l)
    (ha : tbl.acquire l t = some tbl') :
    (tbl'.release l).Coherent (Function.update phase t .out) := by
  have hrel := (h.acquire ht ha).release (Function.update_self ..)
  rw [Function.update_idem] at hrel
  exact hrel

/-- A task stops waiting. -/
theorem Coherent.leave (h : tbl.Coherent phase) {t : Nat} {k : κ}
    {l : Nat} (ht : phase t = .waiting k l) :
    tbl.Coherent (Function.update phase t .out) := by
  refine ⟨h.fresh, h.inj, ?_, ?_, ?_⟩
  · intro t' k' l' hw
    exact h.waiting _ _ _ (of_update_eq (by nofun) hw).2
  · intro t' k' l' hh
    exact h.holding _ _ _ (of_update_eq (by nofun) hh).2
  · intro l' t' hl'
    have htt : t' ≠ t := fun he => h.holder_of_waiting ht l' (he ▸ hl')
    rw [Function.update_of_ne htt]
    exact h.held l' t' hl'

-- ================================================= tasks and their calls

-- `phase` is often read off what each task is doing: it is `f` of the
-- task's entry in `calls`.

section Calls

variable {β : Type u} {f : β → LockPhase κ} {calls : Nat → β} {t : Nat}
  {call : β}

/-- A task moves as the table says. -/
theorem Coherent.of_move
    (h : tbl.Coherent (Function.update (f ∘ calls) t (f call))) :
    tbl.Coherent (f ∘ Function.update calls t call) := by
  rw [Function.comp_update]
  exact h

/-- A task moves without touching a lock. -/
theorem Coherent.of_stay (h : tbl.Coherent (f ∘ calls))
    (hstay : f call = f (calls t)) :
    tbl.Coherent (f ∘ Function.update calls t call) := by
  have hself : Function.update (f ∘ calls) t (f (calls t)) = f ∘ calls :=
    Function.update_eq_self t _
  apply Coherent.of_move
  rw [hstay, hself]
  exact h

end Calls

end LockTable

end Lib
