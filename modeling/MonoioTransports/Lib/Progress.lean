/-
Machines that work off what is outstanding.

# The measure

A system of numbered tasks has its work in a table; `tally` weighs the
table by what each task still has to do. Only a task that moves changes
its own summand, so one step's effect on the whole is that of one
update (`tally_update`).

# The rule

`WorkedOff` says of some of a machine's actions that each lowers the
measure, and that one of them is enabled while the machine is busy.
Then every run of such actions is at most as long as the measure
(`WorkedOff.length_le`), and from every state there is one that ends
the business (`WorkedOff.completes`): no state is a dead end, and no
schedule goes on for ever.
-/
import MonoioTransports.Lib.Machine
import Mathlib.Algebra.BigOperators.Group.Finset.Basic
import Mathlib.Algebra.BigOperators.Ring.Finset
import Mathlib.Algebra.Order.BigOperators.Group.Finset
import Mathlib.Logic.Function.Basic

namespace Lib

universe u v w

-- ============================================================ the tally

section Tally

variable {β : Type u}

/-- The weight of a table's first `n` entries. -/
def tally (weight : β → Nat) (table : Nat → β) (n : Nat) : Nat :=
  ∑ t ∈ Finset.range n, weight (table t)

variable {weight : β → Nat} {table : Nat → β} {n t : Nat}

/-- One entry changes: the tally changes by the difference. -/
theorem tally_update (weight : β → Nat) (table : Nat → β) (ht : t < n)
    (b : β) :
    tally weight (Function.update table t b) n + weight (table t)
      = tally weight table n + weight b := by
  have hmem : t ∈ Finset.range n := Finset.mem_range.mpr ht
  have hsplit : ∀ f : Nat → β, tally weight f n
      = weight (f t) + ∑ u ∈ (Finset.range n).erase t, weight (f u) :=
    fun f => (Finset.add_sum_erase _ (fun u => weight (f u)) hmem).symm
  have hrest : ∑ u ∈ (Finset.range n).erase t,
        weight (Function.update table t b u)
      = ∑ u ∈ (Finset.range n).erase t, weight (table u) := by
    refine Finset.sum_congr rfl fun u hu => ?_
    rw [Function.update_of_ne (Finset.ne_of_mem_erase hu)]
  rw [hsplit table, hsplit (Function.update table t b), hrest,
    Function.update_self]
  omega

/-- The next entry of the table comes in. -/
theorem tally_update_next (b : β) :
    tally weight (Function.update table n b) (n + 1)
      = tally weight table n + weight b := by
  unfold tally
  rw [Finset.sum_range_succ, Function.update_self]
  congr 1
  refine Finset.sum_congr rfl fun u hu => ?_
  rw [Function.update_of_ne (Nat.ne_of_lt (Finset.mem_range.mp hu))]

/-- Nothing is outstanding when every entry weighs nothing. -/
theorem tally_eq_zero_iff :
    tally weight table n = 0 ↔ ∀ t, t < n → weight (table t) = 0 := by
  unfold tally
  rw [Finset.sum_eq_zero_iff]
  exact forall_congr' fun t => imp_congr_left Finset.mem_range

/-- A positive tally has a weighty entry. -/
theorem exists_of_tally_pos (h : 0 < tally weight table n) :
    ∃ t, t < n ∧ 0 < weight (table t) := by
  by_contra hno
  have hzero : tally weight table n = 0 := by
    refine tally_eq_zero_iff.mpr fun t ht => ?_
    by_contra hne
    exact hno ⟨t, ht, Nat.pos_of_ne_zero hne⟩
  omega

/-- When at most one entry weighs something, and no more than one, so
does the table. -/
theorem tally_le_one (hle : ∀ b, weight b ≤ 1)
    (hone : ∀ t t', t < n → t' < n → 0 < weight (table t) →
      0 < weight (table t') → t = t') : tally weight table n ≤ 1 := by
  by_contra hlt
  obtain ⟨t, ht, hpos⟩ := exists_of_tally_pos (by omega :
    0 < tally weight table n)
  have hrest : tally weight table n = weight (table t) := by
    refine Finset.sum_eq_single t (fun t' ht' hne => ?_) fun hmem => ?_
    · by_contra hnz
      exact hne (hone t' t (Finset.mem_range.mp ht') ht
        (Nat.pos_of_ne_zero hnz) hpos)
    · exact absurd (Finset.mem_range.mpr ht) hmem
  have := hle (table t)
  omega

/-- Weights bounded by a multiple of others tally to at most that
multiple. -/
theorem tally_le_mul {weight' : β → Nat} (m : Nat)
    (h : ∀ b, weight b ≤ m * weight' b) :
    tally weight table n ≤ m * tally weight' table n := by
  unfold tally
  rw [Finset.mul_sum]
  exact Finset.sum_le_sum fun t _ => h (table t)

end Tally

-- ======================================================= working it off

/-- Where `I` holds, the actions `own` keep it, each lowers `rest`, and
one of them is enabled while the machine is `busy`. -/
structure WorkedOff {σ : Type v} {α : Type w} (m : Machine σ α)
    (I : σ → Prop) (own : σ → α → Prop) (busy : σ → Prop)
    (rest : σ → Nat) : Prop where
  keeps : ∀ s a s', I s → own s a → m.step s a = some s' → I s'
  lowers : ∀ s a s', I s → own s a → m.step s a = some s' →
    rest s' < rest s
  enabled : ∀ s, I s → busy s → ∃ a s', own s a ∧ m.step s a = some s'

namespace WorkedOff

variable {σ : Type v} {α : Type w} {m : Machine σ α} {I : σ → Prop}
  {own : σ → α → Prop} {busy : σ → Prop} {rest : σ → Nat}

/-- Every run of own actions is paid for by what is outstanding. -/
theorem length_le (h : WorkedOff m I own busy rest) {s s' : σ}
    {as : List α} (hi : I s) (hrun : m.run s as = some s')
    (hown : m.Along own s as) : as.length + rest s' ≤ rest s := by
  induction as generalizing s with
  | nil =>
      rw [Machine.run_nil, Option.some.injEq] at hrun
      rw [hrun, List.length_nil, Nat.zero_add]
  | cons a as ih =>
      obtain ⟨s₁, hstep, htail⟩ := Machine.run_cons_eq_some.mp hrun
      have hle := ih (h.keeps s a s₁ hi hown.1 hstep) htail
        (hown.2 s₁ hstep)
      have hlt := h.lowers s a s₁ hi hown.1 hstep
      rw [List.length_cons]
      omega

/-- From every state some run of own actions ends the business. -/
theorem completes (h : WorkedOff m I own busy rest) {s : σ} (hi : I s) :
    ∃ as s', m.run s as = some s' ∧ m.Along own s as ∧ I s'
      ∧ ¬ busy s' := by
  -- on the measure, with the state free
  induction hn : rest s using Nat.strong_induction_on generalizing s with
  | _ n ih =>
      by_cases hbusy : busy s
      · obtain ⟨a, s₁, hown, hstep⟩ := h.enabled s hi hbusy
        have hlt := h.lowers s a s₁ hi hown hstep
        obtain ⟨as, s', hrun, halong, hi', hdone⟩ :=
          ih (rest s₁) (hn ▸ hlt) (h.keeps s a s₁ hi hown hstep) rfl
        refine ⟨a :: as, s', Machine.run_cons_eq_some.mpr
          ⟨s₁, hstep, hrun⟩, ⟨hown, fun s₂ hs₂ => ?_⟩, hi', hdone⟩
        rw [hstep, Option.some.injEq] at hs₂
        rw [← hs₂]
        exact halong
      · exact ⟨[], s, rfl, trivial, hi, hbusy⟩

end WorkedOff

end Lib
