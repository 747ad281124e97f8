/-
Idle queues stand in the order of their timestamps, and every run moves
them in one way only: a prefix goes, at most one entry is pushed.

# Queue moves

`QueueMove q q' now` says that `q'` is `q` without a prefix, possibly
with one entry of timestamp `now` at the back. `queue_step` is the
inversion of the step function in these terms: every action moves every
queue so, and nothing else happens to it. Sweeping fits because on a
queue in idle order the expired entries are a prefix, so the order
invariant and the shape are proved together.
-/
import MonoioTransports.Pool.Proofs.Step

namespace MonoioTransports.Pool

open Lib

variable {K T : Type}

-- ==================================================== the order invariant

/-- Front to back the timestamps do not decrease, and none lies in the
future. -/
structure IdleOrder (now : Nat) (q : List (Idle T)) : Prop where
  sorted : q.Pairwise fun e e' => e.idleAt ≤ e'.idleAt
  past : ∀ e ∈ q, e.idleAt ≤ now

theorem IdleOrder.nil (now : Nat) : IdleOrder now ([] : List (Idle T)) :=
  ⟨List.Pairwise.nil, by simp⟩

/-- Time passes. -/
theorem IdleOrder.mono {now now' : Nat} {q : List (Idle T)}
    (h : IdleOrder now q) (hle : now ≤ now') : IdleOrder now' q :=
  ⟨h.sorted, fun e he => Nat.le_trans (h.past e he) hle⟩

theorem IdleOrder.sublist {now : Nat} {q q' : List (Idle T)}
    (h : IdleOrder now q) (hs : q'.Sublist q) : IdleOrder now q' :=
  ⟨h.sorted.sublist hs, fun e he => h.past e (hs.subset he)⟩

/-- A new entry goes to the back. -/
theorem IdleOrder.push {now : Nat} {q : List (Idle T)}
    (h : IdleOrder now q) (c : T) :
    IdleOrder now (q ++ [Idle.new now c]) := by
  constructor
  · rw [List.pairwise_append]
    refine ⟨h.sorted, List.pairwise_singleton _ _, ?_⟩
    intro e he e' he'
    rw [List.mem_singleton.mp he']
    exact h.past e he
  · intro e he
    rcases List.mem_append.mp he with he | he
    · exact h.past e he
    · rw [List.mem_singleton.mp he]
      exact Nat.le_refl now

/-- On a queue in idle order the expired entries are a prefix. -/
theorem IdleOrder.takeWhile_expired {now : Nat} {q : List (Idle T)}
    (h : IdleOrder now q) (now' dur : Nat) :
    (q.takeWhile fun e => e.expired now' dur)
        ++ q.filter (fun e => !e.expired now' dur) = q := by
  have hmono : q.Pairwise fun e e' =>
      (!e.expired now' dur) = true → (!e'.expired now' dur) = true := by
    refine h.sorted.imp fun {e e'} hle he => ?_
    by_contra hexp
    have := Idle.expired_of_le hle (by simpa using hexp)
    simp [this] at he
  simpa using takeWhile_append_filter hmono

-- ============================================================ queue moves

/-- A prefix goes, and at most one entry with the current timestamp is
pushed. -/
def QueueMove (now : Nat) (q q' : List (Idle T)) : Prop :=
  ∃ pre post new, q = pre ++ post ∧ q' = post ++ new
    ∧ (new = [] ∨ ∃ c, new = [Idle.new now c])

theorem QueueMove.refl (now : Nat) (q : List (Idle T)) :
    QueueMove now q q :=
  ⟨[], q, [], rfl, (List.append_nil q).symm, Or.inl rfl⟩

/-- A queue move keeps the order. -/
theorem IdleOrder.move {now : Nat} {q q' : List (Idle T)}
    (h : IdleOrder now q) (hm : QueueMove now q q') : IdleOrder now q' := by
  obtain ⟨pre, post, new, rfl, rfl, hnew⟩ := hm
  have hpost : IdleOrder now post := h.sublist (List.sublist_append_right ..)
  rcases hnew with rfl | ⟨c, rfl⟩
  · simpa using hpost
  · exact hpost.push c

section Keyed

variable [DecidableEq K]

theorem queueMove_get (pool : PoolInner K T) (now : Nat) (key k : K) :
    QueueMove now (pool.queue k) ((pool.get now key).pool.queue k) := by
  rw [queue_get]
  by_cases hk : k = key
  · subst hk
    rw [if_pos rfl]
    rcases getLoop_cases now pool.idleDur (pool.queue k) with
      ⟨-, heq⟩ | ⟨pre, idle, rest, hq, -, -, heq⟩
    · rw [heq]
      exact ⟨pool.queue k, [], [], by simp, by simp, Or.inl rfl⟩
    · rw [heq]
      exact ⟨pre ++ [idle], rest, [], by rw [hq]; simp, by simp, Or.inl rfl⟩
  · rw [if_neg hk]
    exact QueueMove.refl _ _

theorem queueMove_insertIdle (full : Nat → Nat → Bool)
    (pool : PoolInner K T) (now : Nat) (key : K) (c : T) (k : K) :
    QueueMove now (pool.queue k)
      ((insertIdle full pool now key c).pool.queue k) := by
  rw [queue_insertIdle]
  by_cases hk : k = key
  · subst hk
    rw [if_pos rfl]
    exact ⟨_, _, _, (List.take_append_drop _ _).symm, rfl, Or.inr ⟨c, rfl⟩⟩
  · rw [if_neg hk]
    exact QueueMove.refl _ _

theorem queueMove_clearExpired {pool : PoolInner K T} {now : Nat}
    (h : ∀ k, IdleOrder now (pool.queue k)) (dur : Nat) (k : K) :
    QueueMove now (pool.queue k)
      ((pool.clearExpired now dur).pool.queue k) := by
  rw [queue_clearExpired]
  exact ⟨_, _, [], ((h k).takeWhile_expired now dur).symm, by simp,
    Or.inl rfl⟩

theorem queueMove_poll {shared : Option (PoolInner K T)} {now : Nat}
    (h : ∀ k, IdleOrder now (sharedQueue shared k)) (task : IdleTask)
    (ticks : Nat) (k : K) :
    QueueMove now (sharedQueue shared k)
      (sharedQueue (task.poll now ticks shared).2.1 k) := by
  cases shared with
  | none =>
      rw [poll_none]
      exact QueueMove.refl _ _
  | some pool =>
      rw [queue_poll]
      by_cases ht : ticks = 0
      · rw [if_pos ht]
        exact QueueMove.refl _ _
      · rw [if_neg ht]
        exact ⟨_, _, [], ((h k).takeWhile_expired now task.idleDur).symm,
          (List.append_nil _).symm, Or.inl rfl⟩

end Keyed

-- ========================================================= whole worlds

section Worlds

variable [DecidableEq K] {w w' : World K T}

/-- Every queue of the world is in idle order. -/
def World.Ordered (w : World K T) : Prop :=
  ∀ k, IdleOrder w.now (w.queue k)

variable [DecidableEq T]

/-- Every action but the drop of the pool moves every queue by cutting
a prefix and pushing at most one entry. -/
theorem queue_step {a : Action K T} (ho : w.Ordered)
    (h : w.step a = some w') :
    (∀ k, QueueMove w.now (w.queue k) (w'.queue k))
      ∨ (a = .dropPool ∧ ∀ k, w'.queue k = []) := by
  obtain ⟨hs, -⟩ := pool_step h
  unfold World.queue
  generalize w'.pool = shared at hs
  cases hs with
  | keep => exact Or.inl fun k => QueueMove.refl _ _
  | get k ha hw =>
      rw [hw]
      exact Or.inl (queueMove_get _ w.now k)
  | put k c hw =>
      rw [hw]
      exact Or.inl (queueMove_insertIdle _ _ w.now k c)
  | giveBack hw hp hk =>
      rw [hw]
      exact Or.inl (queueMove_insertIdle _ _ w.now _ _)
  | clearExpired dur hw =>
      have hord : ∀ k, IdleOrder w.now (sharedQueue w.pool k) := ho
      rw [hw] at hord ⊢
      exact Or.inl (queueMove_clearExpired hord dur)
  | pollIdle ticks htask => exact Or.inl (queueMove_poll ho _ ticks)
  | dropPool => exact Or.inr ⟨rfl, fun _ => rfl⟩

/-- Every world reached is in idle order. -/
theorem ordered_of_reachable {idleInterval maxIdle : Option Nat}
    (hr : (World.machine idleInterval maxIdle).Reachable w) :
    w.Ordered := by
  refine hr.invariant (I := World.Ordered) ?_ ?_
  · intro w hinit k
    obtain ⟨now, rfl⟩ := hinit
    have hq : (World.new now idleInterval maxIdle : World K T).queue k
        = [] := by
      rw [World.queue_of_pool rfl]
      cases idleInterval <;> simp [newWithIdleInterval]
    rw [hq]
    exact IdleOrder.nil _
  · intro w a w' _ ho _ h k
    rcases queue_step ho h with hq | ⟨-, hnil⟩
    · exact ((ho k).move (hq k)).mono (pool_step h).2
    · rw [hnil k]
      exact IdleOrder.nil _

end Worlds

end MonoioTransports.Pool
