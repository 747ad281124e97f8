/-
Conservation: what a pool holds as a whole, under each operation.

`contents` lists every connection in every queue. An operation that
drops connections reports them, and `contents` after it together with
what it dropped is, up to order, `contents` before it together with what
it was given. For `and_then_mut` the balance is over the queue its
closure rewrites.
-/
import MonoioTransports.Pool.Queues

namespace MonoioTransports.Pool

open Lib

variable {K T : Type}

/-- Every connection the pool holds. -/
def PoolInner.contents (pool : PoolInner K T) : List T :=
  (collect id pool.idleConns).map Idle.conn

@[simp] theorem contents_newWithIdleInterval
    (idleInterval maxIdle : Option Nat) :
    (newWithIdleInterval (K := K) (T := T) idleInterval maxIdle).1.contents
      = [] := by
  cases idleInterval <;> rfl

variable [DecidableEq K]

theorem mem_contents {pool : PoolInner K T} {c : T} :
    c ∈ pool.contents ↔ ∃ k, ∃ e ∈ pool.queue k, e.conn = c := by
  unfold PoolInner.contents
  rw [List.mem_map]
  constructor
  · intro h
    obtain ⟨e, he, rfl⟩ := h
    obtain ⟨k, hk⟩ := (mem_collect rfl).mp he
    exact ⟨k, e, hk, rfl⟩
  · intro h
    obtain ⟨k, e, he, rfl⟩ := h
    exact ⟨e, (mem_collect rfl).mpr ⟨k, he⟩, rfl⟩

/-- A new queue for a key takes the place of the old one. -/
theorem perm_contents_insert (pool : PoolInner K T) (key : K)
    (q : List (Idle T)) :
    (PoolInner.contents { pool with
        idleConns := pool.idleConns.insert key q }
      ++ (pool.queue key).map Idle.conn).Perm
        (q.map Idle.conn ++ pool.contents) := by
  unfold PoolInner.contents PoolInner.queue
  rw [← List.map_append, ← List.map_append]
  exact (perm_collect_insert pool.idleConns key q).map Idle.conn

/-- An insertion adds its connection and drops what it evicts. -/
theorem perm_contents_insertIdle (full : Nat → Nat → Bool)
    (pool : PoolInner K T) (now : Nat) (key : K) (conn : T) :
    ((insertIdle full pool now key conn).pool.contents
      ++ (insertIdle full pool now key conn).dropped).Perm
        (conn :: pool.contents) := by
  have hq := queue_insertIdle full pool now key conn key
  rw [if_pos rfl] at hq
  have hdrop := dropped_insertIdle full pool now key conn
  generalize evictions full (pool.queue key).length pool.maxIdle = n
    at hq hdrop
  -- what is kept stands on both sides of the balance of the queue
  have hins := perm_contents_insert pool key
    ((insertIdle full pool now key conn).pool.queue key)
  have hpool : PoolInner.mk (pool.idleConns.insert key
      ((insertIdle full pool now key conn).pool.queue key))
        pool.maxIdle pool.idleDur pool.dropRx
      = (insertIdle full pool now key conn).pool := by
    unfold insertIdle PoolInner.queue
    rw [queue_insert_self]
  rw [hpool, hq, List.map_append] at hins
  rw [hdrop]
  refine (List.perm_append_left_iff
    (((pool.queue key).drop n).map Idle.conn)).mp ?_
  refine List.Perm.trans ?_ (hins.trans ?_)
  · rw [← List.append_assoc]
    refine List.Perm.trans (List.perm_append_comm.append_right _) ?_
    rw [List.append_assoc]
    refine List.Perm.append_left _ (List.perm_append_comm.trans ?_)
    rw [← List.map_append, List.take_append_drop]
  · rw [List.append_assoc]
    exact List.Perm.refl _

theorem perm_contents_put (pool : PoolInner K T) (now : Nat) (key : K)
    (conn : T) :
    ((pool.put now key conn).pool.contents
      ++ (pool.put now key conn).dropped).Perm (conn :: pool.contents) :=
  perm_contents_insertIdle _ pool now key conn

omit [DecidableEq K] in
/-- A sweep drops what it takes out. -/
theorem perm_contents_clearExpired (pool : PoolInner K T)
    (now dur : Nat) :
    ((pool.clearExpired now dur).pool.contents
      ++ (pool.clearExpired now dur).dropped).Perm pool.contents := by
  have hdrop : (pool.clearExpired now dur).dropped
      = (collect (List.filter fun e => !!e.expired now dur)
          pool.idleConns).map Idle.conn := by
    rw [dropped_clearExpired]
    unfold collect
    rw [List.map_flatMap]
    simp only [Bool.not_not]
  unfold PoolInner.contents
  rw [hdrop, ← List.map_append]
  exact (perm_collect_filter (fun e : Idle T => !e.expired now dur)
    pool.idleConns).map Idle.conn

omit [DecidableEq K] in
/-- The idle task drops what it takes out. -/
theorem perm_contents_poll (task : IdleTask) (now ticks : Nat) :
    ∀ pool : PoolInner K T, ∃ pool',
      (task.poll now ticks (some pool)).2.1 = some pool'
        ∧ (pool'.contents ++ (task.poll now ticks (some pool)).2.2).Perm
          pool.contents := by
  induction ticks with
  | zero =>
      intro pool
      refine ⟨pool, rfl, ?_⟩
      exact List.Perm.of_eq (List.append_nil _)
  | succ ticks ih =>
      intro pool
      obtain ⟨pool', hpool, hperm⟩ :=
        ih (pool.clearExpired now task.idleDur).pool
      refine ⟨pool', hpool, ?_⟩
      refine List.Perm.trans ?_
        (perm_contents_clearExpired pool now task.idleDur)
      refine List.Perm.trans ?_ (hperm.append_right _)
      rw [List.append_assoc]
      exact List.Perm.append_left _ List.perm_append_comm

/-- `and_then_mut` exchanges the queue of its key. -/
theorem perm_contents_andThenMut {ε ο : Type} (pool : PoolInner K T)
    (key : K) (env : ε)
    {f : ε → List (Idle T) → ε × List (Idle T) × Option ο}
    (hnil : f env [] = (env, [], none)) :
    ((pool.andThenMut key env f).2.1.contents
      ++ (pool.queue key).map Idle.conn).Perm
        ((f env (pool.queue key)).2.1.map Idle.conn ++ pool.contents) := by
  unfold PoolInner.andThenMut
  cases hk : pool.idleConns.lookup key with
  | some v =>
      have hq : pool.queue key = v := queue_of_lookup hk
      rw [hq]
      have hins := perm_contents_insert pool key (f env v).2.1
      rw [hq] at hins
      exact hins
  | none =>
      have hq : pool.queue key = [] := queue_of_lookup_none hk
      rw [hq, hnil]
      exact List.Perm.of_eq (List.append_nil _)

end MonoioTransports.Pool
