/-
Reference-counted boxes.

`RcHeap α` is the heap behind shared pointers to values of type `α`: a
box holds a value and the number of references to it. `new` makes a box
with one reference, `clone` adds a reference, `drop` takes one away and
frees the box with the last.

A reference is an address and is copied freely, so nothing here keeps a
program from using one it has dropped. `Counts heap refs` is the
contract of a program that does not: `refs` lists the references it
holds, one entry each, and every strong count is the number of entries.
Each operation keeps it (`Counts.new`, `clone`, `drop`, `dropAll`), the
order of the list does not matter (`Counts.perm`), and under it a box
that is referred to is there (`Counts.live`).

A box keeps its value until it is freed, so a property all values have
stays (`Holds`).
-/
import Mathlib.Data.List.Basic
import Mathlib.Logic.Function.Basic

namespace Lib

universe u

/-- A reference: the address of its box. -/
@[ext] structure Rc where
  addr : Nat
  deriving DecidableEq, Repr

/-- A value and how many references to it there are. -/
structure RcBox (α : Type u) where
  strong : Nat
  value : α
  deriving DecidableEq, Repr

/-- The boxes by address, and the first address not used yet. -/
structure RcHeap (α : Type u) where
  boxes : Nat → Option (RcBox α)
  next : Nat

namespace RcHeap

variable {α : Type u}

/-- No boxes. -/
def empty : RcHeap α where
  boxes := fun _ => none
  next := 0

/-- Make a box. -/
def new (heap : RcHeap α) (value : α) : RcHeap α × Rc :=
  ({ boxes := Function.update heap.boxes heap.next
      (some { strong := 1, value := value })
     next := heap.next + 1 }, ⟨heap.next⟩)

/-- Add a reference. -/
def clone (heap : RcHeap α) (rc : Rc) : RcHeap α :=
  { heap with
    boxes := Function.update heap.boxes rc.addr
      ((heap.boxes rc.addr).map fun b =>
        { b with strong := b.strong + 1 }) }

/-- Take a reference away; the last one frees the box. -/
def drop (heap : RcHeap α) (rc : Rc) : RcHeap α :=
  { heap with
    boxes := Function.update heap.boxes rc.addr
      ((heap.boxes rc.addr).bind fun b =>
        if b.strong ≤ 1 then none
        else some { b with strong := b.strong - 1 }) }

/-- Take references away, in order. -/
def dropAll (heap : RcHeap α) (rcs : List Rc) : RcHeap α :=
  rcs.foldl drop heap

/-- How many references there are; none to a box that is freed. -/
def strongCount (heap : RcHeap α) (rc : Rc) : Nat :=
  match heap.boxes rc.addr with
  | some b => b.strong
  | none => 0

/-- What a reference refers to, unless its box is freed. -/
def value (heap : RcHeap α) (rc : Rc) : Option α :=
  (heap.boxes rc.addr).map RcBox.value

-- ====================================================== counts, pointwise

theorem strongCount_of_boxes {heap : RcHeap α} {rc : Rc} {b : RcBox α}
    (h : heap.boxes rc.addr = some b) : heap.strongCount rc = b.strong := by
  rw [strongCount, h]

/-- A box that is referred to. -/
theorem exists_box {heap : RcHeap α} {rc : Rc}
    (h : 0 < heap.strongCount rc) :
    ∃ b, heap.boxes rc.addr = some b := by
  unfold strongCount at h
  split at h
  next b hb => exact ⟨b, hb⟩
  next => cases h

/-- Changing one box leaves the counts of the others. -/
theorem strongCount_update_of_ne (heap : RcHeap α) {rc rc' : Rc}
    (hne : rc' ≠ rc) (b : Option (RcBox α)) (next : Nat) :
    strongCount { boxes := Function.update heap.boxes rc.addr b
                  next := next } rc' = heap.strongCount rc' := by
  have haddr : rc'.addr ≠ rc.addr := fun h => hne (Rc.ext h)
  unfold strongCount
  dsimp only
  rw [Function.update_of_ne haddr]

theorem strongCount_clone_self {heap : RcHeap α} {rc : Rc}
    (h : 0 < heap.strongCount rc) :
    (heap.clone rc).strongCount rc = heap.strongCount rc + 1 := by
  obtain ⟨b, hb⟩ := exists_box h
  rw [strongCount_of_boxes hb]
  refine strongCount_of_boxes (b := { b with strong := b.strong + 1 }) ?_
  simp [clone, hb]

theorem strongCount_drop_self (heap : RcHeap α) (rc : Rc) :
    (heap.drop rc).strongCount rc = heap.strongCount rc - 1 := by
  unfold strongCount drop
  dsimp only
  rw [Function.update_self]
  cases heap.boxes rc.addr with
  | none => rfl
  | some b =>
      by_cases hle : b.strong ≤ 1
      · simp only [Option.bind_some, hle, if_true]
        omega
      · simp only [Option.bind_some, hle, if_false]

/-- Dropping a reference raises no count. -/
theorem strongCount_drop_le (heap : RcHeap α) (rc rc' : Rc) :
    (heap.drop rc).strongCount rc' ≤ heap.strongCount rc' := by
  by_cases hne : rc' = rc
  · rw [hne, strongCount_drop_self]
    exact Nat.sub_le _ _
  · exact Nat.le_of_eq (strongCount_update_of_ne heap hne _ _)

/-- A value found after a reference was dropped was there before. -/
theorem value_of_drop {heap : RcHeap α} {rc rc' : Rc} {v : α}
    (h : (heap.drop rc).value rc' = some v) : heap.value rc' = some v := by
  by_cases hne : rc' = rc
  · rw [hne] at h ⊢
    unfold value drop at h
    dsimp only at h
    rw [Function.update_self] at h
    obtain ⟨b, hb, rfl⟩ := Option.map_eq_some_iff.mp h
    obtain ⟨b₀, hb₀, hb⟩ := Option.bind_eq_some_iff.mp hb
    split at hb
    next => cases hb
    next =>
      cases hb
      rw [value, hb₀]
      rfl
  · have haddr : rc'.addr ≠ rc.addr := fun h => hne (Rc.ext h)
    unfold value drop at h
    dsimp only at h
    rw [Function.update_of_ne haddr] at h
    exact h

theorem strongCount_dropAll_le (rcs : List Rc) (rc' : Rc) :
    ∀ heap : RcHeap α,
      (heap.dropAll rcs).strongCount rc' ≤ heap.strongCount rc' := by
  induction rcs with
  | nil => exact fun heap => Nat.le_refl _
  | cons rc rcs ih =>
      exact fun heap => Nat.le_trans (ih (heap.drop rc))
        (strongCount_drop_le heap rc rc')

theorem value_of_dropAll {rcs : List Rc} {rc' : Rc} {v : α} :
    ∀ {heap : RcHeap α}, (heap.dropAll rcs).value rc' = some v →
      heap.value rc' = some v := by
  induction rcs with
  | nil => exact fun h => h
  | cons rc rcs ih => exact fun h => value_of_drop (ih h)

-- ================================================== the references held

/-- The strong counts are those of the references in the list. -/
structure Counts (heap : RcHeap α) (refs : List Rc) : Prop where
  strong : ∀ rc, heap.strongCount rc = refs.count rc
  fresh : ∀ rc ∈ refs, rc.addr < heap.next

theorem counts_empty : (empty : RcHeap α).Counts [] where
  strong := fun _ => rfl
  fresh := fun _ h => nomatch h

variable {heap : RcHeap α} {refs refs' : List Rc} {rc : Rc}

theorem Counts.perm (h : heap.Counts refs) (hp : refs.Perm refs') :
    heap.Counts refs' where
  strong := fun rc => (h.strong rc).trans (hp.count_eq rc)
  fresh := fun rc hrc => h.fresh rc (hp.mem_iff.mpr hrc)

/-- What is referred to is there, with its count. -/
theorem Counts.live (h : heap.Counts refs) (hrc : rc ∈ refs) :
    ∃ b, heap.boxes rc.addr = some b ∧ b.strong = refs.count rc := by
  have hcount := h.strong rc
  have hpos : 0 < heap.strongCount rc := by
    rw [hcount]
    exact List.count_pos_iff.mpr hrc
  obtain ⟨b, hb⟩ := exists_box hpos
  rw [strongCount_of_boxes hb] at hcount
  exact ⟨b, hb, hcount⟩

theorem Counts.new (h : heap.Counts refs) (v : α) :
    (heap.new v).1.Counts ((heap.new v).2 :: refs) := by
  have hzero : refs.count (heap.new v).2 = 0 := by
    refine List.count_eq_zero.mpr fun hmem => ?_
    exact Nat.lt_irrefl _ (h.fresh _ hmem)
  refine ⟨fun rc => ?_, fun rc hrc => ?_⟩
  · by_cases hrc : rc = (heap.new v).2
    · rw [hrc, List.count_cons_self, hzero]
      exact strongCount_of_boxes (b := { strong := 1, value := v })
        (Function.update_self ..)
    · rw [List.count_cons_of_ne (Ne.symm hrc), ← h.strong rc]
      exact strongCount_update_of_ne heap hrc _ _
  · rcases List.mem_cons.mp hrc with rfl | hrc
    · exact Nat.lt_succ_self _
    · exact Nat.lt_succ_of_lt (h.fresh rc hrc)

theorem Counts.clone (h : heap.Counts refs) (hrc : rc ∈ refs) :
    (heap.clone rc).Counts (rc :: refs) := by
  have hpos : 0 < heap.strongCount rc := by
    rw [h.strong rc]
    exact List.count_pos_iff.mpr hrc
  refine ⟨fun rc' => ?_, fun rc' hrc' => ?_⟩
  · by_cases hne : rc' = rc
    · rw [hne, List.count_cons_self, strongCount_clone_self hpos,
        h.strong rc]
    · rw [List.count_cons_of_ne (Ne.symm hne), ← h.strong rc']
      exact strongCount_update_of_ne heap hne _ _
  · rcases List.mem_cons.mp hrc' with rfl | hrc'
    · exact h.fresh _ hrc
    · exact h.fresh rc' hrc'

theorem Counts.drop (h : heap.Counts (rc :: refs)) :
    (heap.drop rc).Counts refs := by
  refine ⟨fun rc' => ?_, fun rc' hrc' =>
    h.fresh rc' (List.mem_cons_of_mem _ hrc')⟩
  by_cases hne : rc' = rc
  · rw [hne, strongCount_drop_self, h.strong rc, List.count_cons_self,
      Nat.add_sub_cancel]
  · have hcount := h.strong rc'
    rw [List.count_cons_of_ne (Ne.symm hne)] at hcount
    rw [← hcount]
    exact strongCount_update_of_ne heap hne _ _

theorem Counts.dropAll {rcs : List Rc} (h : heap.Counts (rcs ++ refs)) :
    (heap.dropAll rcs).Counts refs := by
  induction rcs generalizing heap with
  | nil => exact h
  | cons rc rcs ih => exact ih h.drop

-- ===================================================== the values held

/-- Every value in a box has the property. -/
def Holds (heap : RcHeap α) (P : α → Prop) : Prop :=
  ∀ a b, heap.boxes a = some b → P b.value

variable {P : α → Prop}

theorem holds_empty : (empty : RcHeap α).Holds P := fun _ _ h => nomatch h

/-- Replacing a box by one whose value has the property, or by none. -/
private theorem Holds.update (h : heap.Holds P) (a : Nat)
    {b : Option (RcBox α)} (hb : ∀ b', b = some b' → P b'.value)
    (next : Nat) :
    Holds { boxes := Function.update heap.boxes a b, next := next } P := by
  intro a' b' hb'
  dsimp only at hb'
  by_cases ha : a' = a
  · rw [ha, Function.update_self] at hb'
    exact hb b' hb'
  · rw [Function.update_of_ne ha] at hb'
    exact h a' b' hb'

theorem Holds.new (h : heap.Holds P) {v : α} (hv : P v) :
    (heap.new v).1.Holds P := by
  refine h.update _ ?_ _
  intro b hb
  cases hb
  exact hv

theorem Holds.clone (h : heap.Holds P) (rc : Rc) :
    (heap.clone rc).Holds P := by
  refine h.update _ ?_ _
  intro b hb
  obtain ⟨b₀, hb₀, rfl⟩ := Option.map_eq_some_iff.mp hb
  exact h _ b₀ hb₀

theorem Holds.drop (h : heap.Holds P) (rc : Rc) :
    (heap.drop rc).Holds P := by
  refine h.update _ ?_ _
  intro b hb
  obtain ⟨b₀, hb₀, hb⟩ := Option.bind_eq_some_iff.mp hb
  split at hb
  next => cases hb
  next =>
    cases hb
    exact h _ b₀ hb₀

theorem Holds.dropAll (h : heap.Holds P) (rcs : List Rc) :
    (heap.dropAll rcs).Holds P := by
  induction rcs generalizing heap with
  | nil => exact h
  | cons rc rcs ih => exact ih (h.drop rc)

end RcHeap

end Lib
