/-
Custody of items: who has what, as a machine of its own.

Items enter once, under a home. From then on each item is in exactly
one place, for its place is a function of the item: with a holder, at
rest at its home, or gone. The moves are the only ways to change place,
and their guards are the accounting rules:

- a holder is given one item and holds it alone;
- only an item at rest can be lent, and only an item that is held can
  come to rest, at its home;
- what is gone stays gone.

A store of reusable resources is correct when its states track a
reachable state of this machine.
-/
import MonoioTransports.Lib.Machine

namespace Lib

open Classical

universe u v w

/-- Where an item that entered can be. -/
inductive Place (κ : Type v) (η : Type w)
  | held (h : η)
  | idle (k : κ)
  | gone

/-- Who has what: each item's place, and the home it entered with. -/
structure Custody (ι : Type u) (κ : Type v) (η : Type w) where
  place : ι → Option (Place κ η)
  home : ι → Option κ

namespace Custody

/-- The moves of items between places. -/
inductive Move (ι : Type u) (κ : Type v) (η : Type w)
  | enterHeld (c : ι) (k : κ) (h : η)
  | enterIdle (c : ι) (k : κ)
  | lend (c : ι) (h : η)
  | rest (c : ι)
  | discard (c : ι)

variable {ι : Type u} {κ : Type v} {η : Type w}

/-- The item is with a holder or at rest. -/
def Live (l : Custody ι κ η) (c : ι) : Prop :=
  (∃ h, l.place c = some (.held h)) ∨ ∃ k, l.place c = some (.idle k)

/-- The holder has nothing. -/
def Free (l : Custody ι κ η) (h : η) : Prop :=
  ∀ c, l.place c ≠ some (.held h)

/-- Put an item somewhere. -/
noncomputable def moveTo (l : Custody ι κ η) (c : ι) (p : Place κ η) :
    Custody ι κ η :=
  { l with place := fun d => if d = c then some p else l.place d }

/-- Let an item enter with a home. -/
noncomputable def enter (l : Custody ι κ η) (c : ι) (k : κ)
    (p : Place κ η) : Custody ι κ η where
  place := fun d => if d = c then some p else l.place d
  home := fun d => if d = c then some k else l.home d

/-- The guarded moves. -/
noncomputable def step (l : Custody ι κ η) :
    Move ι κ η → Option (Custody ι κ η)
  | .enterHeld c k h =>
      if l.place c = none ∧ l.Free h then some (l.enter c k (.held h))
      else none
  | .enterIdle c k =>
      if l.place c = none then some (l.enter c k (.idle k)) else none
  | .lend c h =>
      if (∃ k, l.place c = some (.idle k)) ∧ l.Free h then
        some (l.moveTo c (.held h))
      else none
  | .rest c =>
      if ∃ h, l.place c = some (.held h) then
        (l.home c).map fun k => l.moveTo c (.idle k)
      else none
  | .discard c => if l.Live c then some (l.moveTo c .gone) else none

/-- Nothing has entered. -/
def empty : Custody ι κ η where
  place := fun _ => none
  home := fun _ => none

/-- The custody machine. -/
noncomputable def machine : Machine (Custody ι κ η) (Move ι κ η) where
  init := fun l => l = empty
  step := step

-- ========================================================== invariants

/-- What every run keeps: items rest at home, a holder has one item, and
an item has a home exactly once it has entered. -/
structure Orderly (l : Custody ι κ η) : Prop where
  idle_home : ∀ c k, l.place c = some (.idle k) → l.home c = some k
  held_inj : ∀ c d h, l.place c = some (.held h) →
    l.place d = some (.held h) → c = d
  entered : ∀ c, l.place c = none ↔ l.home c = none

theorem orderly_empty : (empty : Custody ι κ η).Orderly where
  idle_home := fun _ _ h => nomatch h
  held_inj := fun _ _ _ h => nomatch h
  entered := fun _ => ⟨fun _ => rfl, fun _ => rfl⟩

/-- Entering keeps order when the place is the home or a free holder. -/
theorem Orderly.enter {l : Custody ι κ η} (ho : l.Orderly) {c : ι} {k : κ}
    {p : Place κ η} (hp : p = .idle k ∨ ∃ h, p = .held h ∧ l.Free h) :
    (l.enter c k p).Orderly where
  idle_home := by
    intro d k' hd
    simp only [Custody.enter] at hd ⊢
    by_cases hdc : d = c
    · rw [if_pos hdc] at hd ⊢
      rcases hp with rfl | ⟨h, rfl, -⟩
      · simpa using hd
      · simp at hd
    · rw [if_neg hdc] at hd ⊢
      exact ho.idle_home d k' hd
  held_inj := by
    intro d e h hd he
    simp only [Custody.enter] at hd he
    by_cases hdc : d = c <;> by_cases hec : e = c
    · rw [hdc, hec]
    · rw [if_pos hdc] at hd
      rw [if_neg hec] at he
      rcases hp with rfl | ⟨h', rfl, hfree⟩
      · simp at hd
      · have hh : h' = h := by simpa using hd
        exact absurd (hh ▸ he) (hfree e)
    · rw [if_neg hdc] at hd
      rw [if_pos hec] at he
      rcases hp with rfl | ⟨h', rfl, hfree⟩
      · simp at he
      · have hh : h' = h := by simpa using he
        exact absurd (hh ▸ hd) (hfree d)
    · rw [if_neg hdc] at hd
      rw [if_neg hec] at he
      exact ho.held_inj d e h hd he
  entered := by
    intro d
    simp only [Custody.enter]
    by_cases hdc : d = c
    · simp [hdc]
    · simp only [hdc, if_false]
      exact ho.entered d

/-- Moving an entered item keeps order when it goes home, to a free
holder, or away. -/
theorem Orderly.moveTo {l : Custody ι κ η} (ho : l.Orderly) {c : ι}
    {p : Place κ η} (hc : l.place c ≠ none)
    (hp : (∃ k, l.home c = some k ∧ p = .idle k)
      ∨ (∃ h, p = .held h ∧ l.Free h) ∨ p = .gone) :
    (l.moveTo c p).Orderly where
  idle_home := by
    intro d k' hd
    simp only [Custody.moveTo] at hd ⊢
    by_cases hdc : d = c
    · rw [if_pos hdc] at hd
      rcases hp with ⟨k, hk, rfl⟩ | ⟨h, rfl, -⟩ | rfl
      · have hkk : k = k' := by simpa using hd
        rw [hdc, hk, hkk]
      · simp at hd
      · simp at hd
    · rw [if_neg hdc] at hd
      exact ho.idle_home d k' hd
  held_inj := by
    intro d e h hd he
    simp only [Custody.moveTo] at hd he
    have hnew : p = .held h → l.Free h := by
      intro hph
      rcases hp with ⟨k, -, rfl⟩ | ⟨h', rfl, hfree⟩ | rfl
      · cases hph
      · cases hph
        exact hfree
      · cases hph
    by_cases hdc : d = c <;> by_cases hec : e = c
    · rw [hdc, hec]
    · rw [if_pos hdc] at hd
      rw [if_neg hec] at he
      exact absurd he (hnew (by simpa using hd) e)
    · rw [if_neg hdc] at hd
      rw [if_pos hec] at he
      exact absurd hd (hnew (by simpa using he) d)
    · rw [if_neg hdc] at hd
      rw [if_neg hec] at he
      exact ho.held_inj d e h hd he
  entered := by
    intro d
    simp only [Custody.moveTo]
    by_cases hdc : d = c
    · rw [if_pos hdc, hdc, ← ho.entered c]
      simp [hc]
    · rw [if_neg hdc]
      exact ho.entered d

/-- A live item has entered. -/
theorem Live.place_ne_none {l : Custody ι κ η} {c : ι} (h : l.Live c) :
    l.place c ≠ none := by
  rcases h with ⟨h, hp⟩ | ⟨k, hp⟩ <;> rw [hp] <;> simp

/-- A held item may come to rest at its home. -/
theorem step_rest {l : Custody ι κ η} {c : ι} {h : η} {k : κ}
    (hheld : l.place c = some (.held h)) (hhome : l.home c = some k) :
    l.step (.rest c) = some (l.moveTo c (.idle k)) := by
  rw [step, if_pos ⟨h, hheld⟩, hhome]
  rfl

/-- Every move keeps order. -/
theorem Orderly.step {l l' : Custody ι κ η} {mv : Move ι κ η}
    (ho : l.Orderly) (h : l.step mv = some l') : l'.Orderly := by
  cases mv with
  | enterHeld c k hd =>
      simp only [Custody.step] at h
      split at h
      next hg =>
        cases h
        exact ho.enter (Or.inr ⟨hd, rfl, hg.2⟩)
      next => cases h
  | enterIdle c k =>
      simp only [Custody.step] at h
      split at h
      next =>
        cases h
        exact ho.enter (Or.inl rfl)
      next => cases h
  | lend c hd =>
      simp only [Custody.step] at h
      split at h
      next hg =>
        cases h
        exact ho.moveTo (Live.place_ne_none (Or.inr hg.1))
          (Or.inr (Or.inl ⟨hd, rfl, hg.2⟩))
      next => cases h
  | rest c =>
      simp only [Custody.step] at h
      split at h
      next hg =>
        obtain ⟨k, hk, rfl⟩ := Option.map_eq_some_iff.mp h
        exact ho.moveTo (Live.place_ne_none (Or.inl hg))
          (Or.inl ⟨k, hk, rfl⟩)
      next => cases h
  | discard c =>
      simp only [Custody.step] at h
      split at h
      next hg =>
        cases h
        exact ho.moveTo hg.place_ne_none (Or.inr (Or.inr rfl))
      next => cases h

/-- Every custody reached is orderly. -/
theorem orderly_of_reachable {l : Custody ι κ η}
    (hr : (machine (ι := ι) (κ := κ) (η := η)).Reachable l) : l.Orderly :=
  hr.invariant (fun _ h => h ▸ orderly_empty)
    (fun _ _ _ _ ho _ h => ho.step h)

-- ===================================================== many discards

/-- Discard the items of a list. -/
noncomputable def discardAll (l : Custody ι κ η) (cs : List ι) :
    Custody ι κ η :=
  { l with place := fun d => if d ∈ cs then some .gone else l.place d }

@[simp] theorem discardAll_nil (l : Custody ι κ η) :
    l.discardAll [] = l := by
  simp [discardAll]

theorem place_discardAll (l : Custody ι κ η) (cs : List ι) (d : ι) :
    (l.discardAll cs).place d
      = if d ∈ cs then some .gone else l.place d := rfl

/-- Discarding distinct live items is a run of discards. -/
theorem reachable_discardAll {l : Custody ι κ η} {cs : List ι}
    (hr : machine.Reachable l) (hnd : cs.Nodup)
    (hlive : ∀ c ∈ cs, l.Live c) : machine.Reachable (l.discardAll cs) := by
  induction cs generalizing l with
  | nil =>
      rw [discardAll_nil]
      exact hr
  | cons c cs ih =>
      obtain ⟨hc, hnd'⟩ := List.nodup_cons.mp hnd
      have hlc : l.Live c := hlive c List.mem_cons_self
      have hstep : machine.step l (.discard c) = some (l.moveTo c .gone) :=
        if_pos hlc
      have hrest : ∀ d ∈ cs, (l.moveTo c .gone).Live d := by
        intro d hd
        have hdc : d ≠ c := fun h => hc (h ▸ hd)
        have := hlive d (List.mem_cons_of_mem c hd)
        simpa [Live, moveTo, hdc] using this
      have heq : (l.moveTo c .gone).discardAll cs
          = l.discardAll (c :: cs) := by
        simp only [discardAll, moveTo, Custody.mk.injEq, and_true]
        funext d
        by_cases hdc : d = c <;> by_cases hd : d ∈ cs <;> simp [hdc, hd]
      rw [← heq]
      exact ih (.step hr trivial hstep) hnd' hrest

end Custody

end Lib
