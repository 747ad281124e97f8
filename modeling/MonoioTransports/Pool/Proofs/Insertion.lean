/-
The two ways into the pool: `put`, and `link` with the handle dropped
afterwards.

# Where they part

Both pop the excess over the limit and one entry more before they push:
`Pooled::drop` from a queue at the limit or above it, `put` only from
one above it. A queue that is exactly at a limit other than zero tells
them apart (`evictions_eq`, `evictions_at`): `put` leaves it one above
the limit. Below a limit of zero an empty queue has nothing to pop.
-/
import MonoioTransports.Pool.Proofs.Limits

namespace MonoioTransports.Pool

open Lib

variable {K T : Type} [DecidableEq K]

-- ============================================================= evictions

/-- The guard of `Pooled::drop`. -/
abbrev fullOnDrop (len maxIdle : Nat) : Bool := decide (len ≥ maxIdle)

/-- The guard of `put`. -/
abbrev fullOnPut (len maxIdle : Nat) : Bool := decide (len > maxIdle)

/-- Away from the limit both pop the same. -/
theorem evictions_eq {len maxIdle : Nat} (h : len ≠ maxIdle) :
    evictions fullOnPut len maxIdle = evictions fullOnDrop len maxIdle := by
  have hguard : fullOnPut len maxIdle = fullOnDrop len maxIdle := by
    refine decide_eq_decide.mpr ⟨Nat.le_of_lt, fun hge => ?_⟩
    exact Nat.lt_of_le_of_ne hge (Ne.symm h)
  rw [evictions, hguard, evictions]

/-- At the limit the drop pops one entry and `put` none. -/
theorem evictions_at (maxIdle : Nat) :
    evictions fullOnPut maxIdle maxIdle = 0
      ∧ evictions fullOnDrop maxIdle maxIdle = 1 := by
  simp [evictions]

-- ============================================================ the queues

variable [DecidableEq T]

/-- The queues after an insertion with this guard at this instant. -/
def World.Inserted (w : World K T) (full : Nat → Nat → Bool) (m : Nat)
    (k : K) (idle : Idle T) (w' : World K T) : Prop :=
  ∀ k', w'.queue k' = if k' = k then
    (w.queue k).drop (evictions full (w.queue k).length m) ++ [idle]
    else w.queue k'

variable {w w₁ w₂ : World K T} {pool : PoolInner K T} {k : K} {c : T}

omit [DecidableEq T] in
/-- An insertion into the pool of a world. -/
theorem inserted_of_pool (hw : w.pool = some pool)
    (full : Nat → Nat → Bool) (now : Nat) {w' : World K T}
    (hw' : w'.pool = some (insertIdle full pool now k c).pool) :
    w.Inserted full pool.maxIdle k (Idle.new now c) w' := by
  intro k'
  rw [World.queue_of_pool hw', World.queue_of_pool hw,
    World.queue_of_pool hw, queue_insertIdle]

/-- `put` inserts. -/
theorem put_spec (hw : w.pool = some pool) (hfresh : w.Fresh c) :
    ∃ w₁, w.step (.put k c) = some w₁
      ∧ w.Inserted fullOnPut pool.maxIdle k (Idle.new w.now c) w₁ := by
  refine ⟨{ w with entered := (k, c) :: w.entered }.settle
    (pool.put w.now k c), ?_, inserted_of_pool hw _ _ rfl⟩
  show w.put k c = _
  unfold World.put
  rw [hw]
  exact if_pos hfresh

/-- `link` and the drop of its handle insert, at the instant of the
drop. -/
theorem link_drop_spec {idleInterval maxIdle : Option Nat}
    (hw : w.pool = some pool) (hfresh : w.Fresh c) (dt : Nat) :
    ∃ w₂, (World.machine idleInterval maxIdle).run w
        [.link k c, .tick dt, .drop w.nextHandle true] = some w₂
      ∧ w.Inserted fullOnDrop pool.maxIdle k (Idle.new (w.now + dt) c)
        w₂ := by
  have hlink : w.step (.link k c)
      = some ({ w with entered := (k, c) :: w.entered }.issue
          (Pool.link k c)) := by
    refine if_pos ⟨?_, hfresh⟩
    rw [hw]
    rfl
  let wt : World K T := { { w with entered := (k, c) :: w.entered }.issue
    (Pool.link k c) with now := w.now + dt }
  have hheld : wt.handles w.nextHandle = some (Pool.link k c) :=
    Function.update_self ..
  have hback : ((Pool.link k c).drop wt.now true wt.pool).1
      = some (pool.giveBack (w.now + dt) k c).pool := by
    rw [show wt.pool = some pool from hw]
    rfl
  obtain ⟨w₂, hdrop, hpool⟩ : ∃ w₂, wt.drop w.nextHandle true = some w₂
      ∧ w₂.pool = ((Pool.link k c).drop wt.now true wt.pool).1 := by
    unfold World.drop
    rw [hheld]
    exact ⟨_, rfl, rfl⟩
  refine ⟨w₂, Machine.run_cons_eq_some.mpr ⟨_, hlink,
    Machine.run_cons_eq_some.mpr ⟨wt, rfl, Machine.run_singleton hdrop⟩⟩,
    inserted_of_pool hw _ _ (hpool.trans hback)⟩

-- ============================================================ the promise

/-- The same idle queues, but for the instant the newest entry of the
key came to rest. -/
structure SameIdle (w₁ w₂ : World K T) (k : K) : Prop where
  others : ∀ k', k' ≠ k → w₁.queue k' = w₂.queue k'
  conns : w₁.conns k = w₂.conns k
  older : (w₁.queue k).dropLast = (w₂.queue k).dropLast

/-- `put` of an open connection, and `link` with the drop of the handle
`dt` later, leave the same idle queues; neither takes the queue over the
limit, when that is not zero. -/
def World.InsertionsAgree (w : World K T)
    (idleInterval maxIdle : Option Nat) (k : K) (c : T) : Prop :=
  ∀ dt w₁ w₂, w.step (.put k c) = some w₁ →
    (World.machine idleInterval maxIdle).run w
      [.link k c, .tick dt, .drop w.nextHandle true] = some w₂ →
    SameIdle w₁ w₂ k
      ∧ (1 ≤ resolveMaxIdle maxIdle →
        (w.queue k).length ≤ resolveMaxIdle maxIdle →
        (w₁.queue k).length ≤ resolveMaxIdle maxIdle
          ∧ (w₂.queue k).length ≤ resolveMaxIdle maxIdle)

omit [DecidableEq T] in
/-- Insertions that pop the same leave the same queues. -/
theorem sameIdle_of_evictions {m now now' : Nat}
    (h₁ : w.Inserted fullOnPut m k (Idle.new now c) w₁)
    (h₂ : w.Inserted fullOnDrop m k (Idle.new now' c) w₂)
    (hpop : (w.queue k).drop (evictions fullOnPut (w.queue k).length m)
      = (w.queue k).drop (evictions fullOnDrop (w.queue k).length m)) :
    SameIdle w₁ w₂ k := by
  have hq₁ := (h₁ k).trans (if_pos rfl)
  have hq₂ := (h₂ k).trans (if_pos rfl)
  rw [hpop] at hq₁
  refine ⟨fun k' hk' => ?_, ?_, ?_⟩
  · rw [h₁ k', h₂ k', if_neg hk', if_neg hk']
  · rw [World.conns, World.conns, hq₁, hq₂, List.map_append,
      List.map_append]
    rfl
  · rw [hq₁, hq₂, List.dropLast_concat, List.dropLast_concat]

omit [DecidableEq T] in
/-- What the insertion of `Pooled::drop` leaves of a queue within a
limit that is not zero. -/
theorem length_inserted_le {m : Nat} {idle : Idle T}
    (h : w.Inserted fullOnDrop m k idle w₂) (hm : 1 ≤ m)
    (hlen : (w.queue k).length ≤ m) : (w₂.queue k).length ≤ m := by
  rw [h k, if_pos rfl, List.length_append, List.length_drop,
    List.length_singleton]
  have hle := length_evicted_le (Nat.le_trans hlen (Nat.le_max_left m 1))
  rw [Nat.max_eq_left hm] at hle
  exact hle

/-- In every state reached with the pool there, and for every connection
that is new to it: the two ways in agree exactly when the queue of the
key is not full, or the limit is zero. -/
theorem insertionsAgree_iff {idleInterval maxIdle : Option Nat}
    (hr : (World.machine idleInterval maxIdle).Reachable w)
    (hw : w.pool = some pool) (hfresh : w.Fresh c) (k : K) :
    w.InsertionsAgree idleInterval maxIdle k c
      ↔ (w.queue k).length ≠ resolveMaxIdle maxIdle
        ∨ resolveMaxIdle maxIdle = 0 := by
  have hmax := (limits_of_reachable hr pool hw).1
  constructor
  · intro hagree
    by_contra hnot
    rw [not_or, not_not] at hnot
    obtain ⟨hfull, hpos⟩ := hnot
    obtain ⟨w₁, hput, h₁⟩ := put_spec (k := k) hw hfresh
    obtain ⟨w₂, hrun, h₂⟩ := link_drop_spec (k := k) hw hfresh 0
    obtain ⟨-, hlimit⟩ := hagree 0 w₁ w₂ hput hrun
    have hle := (hlimit (Nat.one_le_iff_ne_zero.mpr hpos)
      (Nat.le_of_eq hfull)).1
    -- `put` pops nothing and pushes
    rw [h₁ k, if_pos rfl, hmax, hfull, (evictions_at _).1,
      List.drop_zero, List.length_append, List.length_singleton,
      hfull] at hle
    exact Nat.not_succ_le_self _ hle
  · intro hcond dt w₁' w₂' hput' hrun'
    obtain ⟨w₁, hput, h₁⟩ := put_spec (k := k) hw hfresh
    obtain ⟨w₂, hrun, h₂⟩ := link_drop_spec (k := k) hw hfresh dt
    rw [hput'] at hput
    rw [hrun'] at hrun
    cases hput
    cases hrun
    rw [hmax] at h₁ h₂
    have hpop : (w.queue k).drop (evictions fullOnPut
        (w.queue k).length (resolveMaxIdle maxIdle))
        = (w.queue k).drop (evictions fullOnDrop
          (w.queue k).length (resolveMaxIdle maxIdle)) := by
      by_cases hlen : (w.queue k).length = resolveMaxIdle maxIdle
      · have hzero := hcond.resolve_left (not_not.mpr hlen)
        have hnil : w.queue k = [] := by
          rw [hzero] at hlen
          exact List.length_eq_zero_iff.mp hlen
        rw [hnil, List.drop_nil, List.drop_nil]
      · rw [evictions_eq hlen]
    refine ⟨sameIdle_of_evictions h₁ h₂ hpop, fun hm hlen => ?_⟩
    have hle := length_inserted_le h₂ hm hlen
    refine ⟨?_, hle⟩
    have hsame := h₁ k
    rw [if_pos rfl, hpop] at hsame
    rw [h₂ k, if_pos rfl, List.length_append] at hle
    rw [hsame, List.length_append]
    exact hle

/-- Two insertions past a limit of one: into a queue that is over it the
two ways lead alike again. -/
theorem insertionsAgree_overfull :
    ∃ w : World Nat Nat,
      (World.machine none (some 1)).run (World.new 0 none (some 1))
          [.put 7 1, .put 7 2] = some w
        ∧ w.conns 7 = [1, 2] ∧ w.InsertionsAgree none (some 1) 7 3 := by
  obtain ⟨w, pool, hrun, hconns, hpool, hfresh, hlen⟩ :
      ∃ (w : World Nat Nat) (pool : PoolInner Nat Nat),
        (World.machine none (some 1)).run (World.new 0 none (some 1))
            [.put 7 1, .put 7 2] = some w
          ∧ w.conns 7 = [1, 2] ∧ w.pool = some pool ∧ w.Fresh 3
          ∧ (w.queue 7).length = 2 :=
    ⟨_, _, rfl, rfl, rfl, by decide, rfl⟩
  refine ⟨w, hrun, hconns, (insertionsAgree_iff
    (Machine.Reachable.run (.init ⟨0, rfl⟩) hrun) hpool hfresh 7).mpr
    (Or.inl ?_)⟩
  rw [hlen]
  decide

/-- With a limit of one and one idle connection, `put` leaves two. -/
theorem not_insertionsAgree :
    ¬ ∀ (maxIdle : Option Nat) (w : World Nat Nat),
      (World.machine none maxIdle).Reachable w → w.pool.isSome = true →
      ∀ (k : Nat) (c : Nat), w.Fresh c →
        w.InsertionsAgree none maxIdle k c := by
  intro h
  obtain ⟨w, w₁, w₂, hrun, hput, hdrop, hsome, hfresh, hq, hq₁⟩ :
      ∃ w w₁ w₂ : World Nat Nat,
        (World.machine none (some 1)).run (World.new 0 none (some 1))
            [.link 7 1, .drop 0 true] = some w
          ∧ w.step (.put 7 2) = some w₁
          ∧ (World.machine none (some 1)).run w
            [.link 7 2, .tick 0, .drop w.nextHandle true] = some w₂
          ∧ w.pool.isSome = true ∧ w.Fresh 2
          ∧ (w.queue 7).length = 1 ∧ (w₁.queue 7).length = 2 :=
    ⟨_, _, _, rfl, rfl, rfl, rfl, by decide, rfl, rfl⟩
  have hle := ((h (some 1) w (Machine.Reachable.run (.init ⟨0, rfl⟩) hrun)
    hsome 7 2 hfresh 0 w₁ w₂ hput hdrop).2 (by decide)
    (Nat.le_of_eq hq)).1
  rw [hq₁] at hle
  exact absurd hle (by decide)

end MonoioTransports.Pool
