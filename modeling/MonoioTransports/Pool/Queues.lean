/-
The pool operations read off their queues: one equation per operation
for the queue of each key and one for the dropped values. Nothing above
this file unfolds an operation of `Pool/Basic.lean`; an absent key and
an empty queue are told apart there and nowhere else.

# The shape of every operation

Each operation cuts a prefix off one queue (`get`, the two insertions)
or off all of them (`clear_expired`, on queues in idle order), and at
most one entry is pushed at the back. What was cut is handed out or
dropped; `getLoop_cases`, `dropped_insertIdle` and
`mem_dropped_clearExpired` say which.
-/
import MonoioTransports.Pool.Basic

namespace MonoioTransports.Pool

open Lib

variable {K T : Type}

-- ============================================================== expiry

/-- An entry that came to rest earlier expires no later. -/
theorem Idle.expired_of_le {now d : Nat} {e e' : Idle T}
    (hle : e.idleAt ≤ e'.idleAt) (h : e'.expired now d = true) :
    e.expired now d = true := by
  simp only [Idle.expired, decide_eq_true_eq] at h ⊢
  omega

-- ============================================================ get's loop

/-- The loop of `get` either passes over everything or stops at the
first entry that is not expired, leaving what is behind it. -/
theorem getLoop_cases (now : Nat) (dur : Option Nat) (q : List (Idle T)) :
    ((∀ e ∈ q, e.expiredOpt now dur = true)
        ∧ getLoop now dur q
          = { conn := none, rest := [], dropped := q.map Idle.conn })
      ∨ ∃ pre idle rest, q = pre ++ idle :: rest
          ∧ (∀ e ∈ pre, e.expiredOpt now dur = true)
          ∧ idle.expiredOpt now dur = false
          ∧ getLoop now dur q
            = { conn := some idle.conn, rest := rest,
                dropped := pre.map Idle.conn } := by
  induction q with
  | nil => exact Or.inl ⟨by simp, rfl⟩
  | cons a q ih =>
      cases ha : a.expiredOpt now dur with
      | false =>
          refine Or.inr ⟨[], a, q, rfl, by simp, ha, ?_⟩
          simp [getLoop, ha]
      | true =>
          rcases ih with ⟨hall, heq⟩ | ⟨pre, idle, rest, hq, hpre, hid, heq⟩
          · refine Or.inl ⟨?_, ?_⟩
            · intro e he
              rcases List.mem_cons.mp he with rfl | he'
              · exact ha
              · exact hall e he'
            · simp [getLoop, ha, heq]
          · refine Or.inr ⟨a :: pre, idle, rest, by rw [hq]; rfl, ?_, hid, ?_⟩
            · intro e he
              rcases List.mem_cons.mp he with rfl | he'
              · exact ha
              · exact hpre e he'
            · simp [getLoop, ha, heq]

/-- Without a limit the loop is a single pop. -/
theorem getLoop_none (now : Nat) (q : List (Idle T)) :
    getLoop now none q
      = { conn := q.head?.map Idle.conn, rest := q.tail, dropped := [] } := by
  cases q with
  | nil => rfl
  | cons a q => simp [getLoop, Idle.expiredOpt]

-- =============================================================== evictions

/-- How many entries an insertion pops from a queue of length `len`. -/
def evictions (full : Nat → Nat → Bool) (len maxIdle : Nat) : Nat :=
  if full len maxIdle then len - maxIdle + 1 else 0

section Keyed

variable [DecidableEq K]

-- ================================================== queues after each op

@[simp] theorem queue_new (maxIdle : Option Nat) (k : K) :
    (PoolInner.new maxIdle : PoolInner K T).queue k = [] := queue_empty k

@[simp] theorem queue_newWithDropper (maxIdle : Option Nat) (k : K) :
    (PoolInner.newWithDropper maxIdle : PoolInner K T).queue k = [] :=
  queue_empty k

/-- `get` runs its loop on the queue of its key, present or not. -/
theorem get_eq (pool : PoolInner K T) (now : Nat) (key : K) :
    (pool.get now key).result
        = (getLoop now pool.idleDur (pool.queue key)).conn.map
            (fun conn => Pooled.new key conn true)
      ∧ (pool.get now key).dropped
        = (getLoop now pool.idleDur (pool.queue key)).dropped
      ∧ (∀ k, (pool.get now key).pool.queue k
        = if k = key then (getLoop now pool.idleDur (pool.queue key)).rest
          else pool.queue k) := by
  unfold PoolInner.get PoolInner.queue
  cases hk : pool.idleConns.lookup key with
  | some v =>
      rw [queue_of_lookup hk]
      exact ⟨rfl, rfl, fun k => queue_insert _ _ _ _⟩
  | none =>
      rw [queue_of_lookup_none hk]
      refine ⟨rfl, rfl, fun k => ?_⟩
      by_cases h : k = key
      · rw [if_pos h, h, queue_of_lookup_none hk]
        rfl
      · rw [if_neg h]

theorem queue_get (pool : PoolInner K T) (now : Nat) (key k : K) :
    (pool.get now key).pool.queue k
      = if k = key then (getLoop now pool.idleDur (pool.queue key)).rest
        else pool.queue k :=
  (get_eq pool now key).2.2 k

/-- The popped part and the kept part of an insertion. -/
private theorem insertIdle_popped (full : Nat → Nat → Bool)
    (q : List (Idle T)) (maxIdle : Nat) :
    (if full q.length maxIdle then
        let excess := popFronts (q.length - maxIdle) q
        let last := popFront excess.2
        (excess.1 ++ last.1.toList, last.2)
      else ([], q))
      = (q.take (evictions full q.length maxIdle),
          q.drop (evictions full q.length maxIdle)) := by
  unfold evictions
  by_cases hfull : full q.length maxIdle = true
  · simp only [hfull, if_true, popFronts_eq]
    generalize q.length - maxIdle = n
    rw [List.take_add_one, ← List.drop_drop]
    cases hd : q.drop n with
    | nil =>
        have hlen : q.length ≤ n := List.drop_eq_nil_iff.mp hd
        simp [popFront, List.getElem?_eq_none hlen]
    | cons a r =>
        have hget : q[n]? = some a := by
          rw [← List.head?_drop, hd]
          rfl
        simp [popFront, hget]
  · simp [hfull]

/-- An insertion drops the front of the queue, as many entries as it
evicts, and pushes the new entry at the back. -/
theorem queue_insertIdle (full : Nat → Nat → Bool) (pool : PoolInner K T)
    (now : Nat) (key : K) (conn : T) (k : K) :
    (insertIdle full pool now key conn).pool.queue k
      = if k = key then
          (pool.queue key).drop
              (evictions full (pool.queue key).length pool.maxIdle)
            ++ [Idle.new now conn]
        else pool.queue k := by
  unfold insertIdle PoolInner.queue
  show Lib.queue (AList.insert key _ _) k = _
  rw [queue_insert, ← Lib.queue]
  simp only [insertIdle_popped]

theorem dropped_insertIdle (full : Nat → Nat → Bool)
    (pool : PoolInner K T) (now : Nat) (key : K) (conn : T) :
    (insertIdle full pool now key conn).dropped
      = ((pool.queue key).take
          (evictions full (pool.queue key).length pool.maxIdle)).map
            Idle.conn := by
  unfold insertIdle PoolInner.queue
  rw [← Lib.queue]
  simp only [insertIdle_popped]

/-- What an insertion leaves in a queue was there, or is the new
entry. -/
theorem mem_insertIdle {full : Nat → Nat → Bool} {pool : PoolInner K T}
    {now : Nat} {key k : K} {conn : T} {e : Idle T}
    (he : e ∈ (insertIdle full pool now key conn).pool.queue k) :
    e ∈ pool.queue k ∨ (k = key ∧ e = Idle.new now conn) := by
  rw [queue_insertIdle] at he
  split at he
  next hk =>
    rcases List.mem_append.mp he with he | he
    · exact Or.inl (hk ▸ List.mem_of_mem_drop he)
    · exact Or.inr ⟨hk, List.mem_singleton.mp he⟩
  next => exact Or.inl he

/-- A `put` on an empty queue leaves the new entry alone in it. -/
theorem queue_put_nil {pool : PoolInner K T} {key : K} (now : Nat)
    (conn : T) (hnil : pool.queue key = []) (k : K) :
    (pool.put now key conn).pool.queue k
      = if k = key then [Idle.new now conn] else pool.queue k := by
  rw [PoolInner.put, queue_insertIdle, hnil, List.drop_nil, List.nil_append]

/-- Sweeping filters every queue. -/
theorem queue_clearExpired (pool : PoolInner K T) (now dur : Nat) (k : K) :
    (pool.clearExpired now dur).pool.queue k
      = (pool.queue k).filter fun e => !e.expired now dur :=
  queue_retainMut (g := List.filter fun e : Idle T => !e.expired now dur)
    List.filter_nil pool.idleConns k

omit [DecidableEq K] in
theorem dropped_clearExpired (pool : PoolInner K T) (now dur : Nat) :
    (pool.clearExpired now dur).dropped
      = collect
          (fun q => (q.filter fun e : Idle T => e.expired now dur).map
            Idle.conn)
          pool.idleConns := rfl

/-- Sweeping drops exactly the expired entries. -/
theorem mem_dropped_clearExpired {pool : PoolInner K T} {now dur : Nat}
    {c : T} :
    c ∈ (pool.clearExpired now dur).dropped
      ↔ ∃ k, ∃ e ∈ pool.queue k, e.expired now dur = true ∧ e.conn = c := by
  rw [dropped_clearExpired, mem_collect (by simp)]
  constructor
  · intro h
    obtain ⟨k, hk⟩ := h
    obtain ⟨e, he, rfl⟩ := List.mem_map.mp hk
    obtain ⟨hmem, hexp⟩ := List.mem_filter.mp he
    exact ⟨k, e, hmem, hexp, rfl⟩
  · intro h
    obtain ⟨k, e, he, hexp, rfl⟩ := h
    exact ⟨k, List.mem_map_of_mem (List.mem_filter.mpr ⟨he, hexp⟩)⟩

/-- Connections that rest once are dropped once. -/
theorem nodup_dropped_clearExpired {pool : PoolInner K T} {now dur : Nat}
    (hone : ∀ k, ((pool.queue k).map Idle.conn).Nodup)
    (hdis : ∀ k k' c, c ∈ (pool.queue k).map Idle.conn →
      c ∈ (pool.queue k').map Idle.conn → k = k') :
    (pool.clearExpired now dur).dropped.Nodup := by
  rw [dropped_clearExpired]
  apply nodup_collect
  · intro k
    exact (hone k).sublist (List.filter_sublist.map _)
  · intro k k' c hc hc'
    exact hdis k k' c ((List.filter_sublist.map _).subset hc)
      ((List.filter_sublist.map _).subset hc')

/-- `and_then_mut` runs its closure on the queue of its key, provided
the closure finds nothing in an empty queue. -/
theorem andThenMut_eq {ε ο : Type} (pool : PoolInner K T) (key : K)
    (env : ε) {f : ε → List (Idle T) → ε × List (Idle T) × Option ο}
    (hnil : f env [] = (env, [], none)) :
    (pool.andThenMut key env f).1 = (f env (pool.queue key)).1
      ∧ (pool.andThenMut key env f).2.2 = (f env (pool.queue key)).2.2
      ∧ ∀ k, (pool.andThenMut key env f).2.1.queue k
        = if k = key then (f env (pool.queue key)).2.1
          else pool.queue k := by
  unfold PoolInner.andThenMut PoolInner.queue
  cases hk : pool.idleConns.lookup key with
  | some v =>
      rw [queue_of_lookup hk]
      exact ⟨rfl, rfl, fun k => queue_insert _ _ _ _⟩
  | none =>
      rw [queue_of_lookup_none hk, hnil]
      refine ⟨rfl, rfl, fun k => ?_⟩
      by_cases h : k = key
      · rw [if_pos h, h, queue_of_lookup_none hk]
      · rw [if_neg h]

-- ======================================== what no operation touches

@[simp] theorem maxIdle_get (pool : PoolInner K T) (now : Nat) (key : K) :
    (pool.get now key).pool.maxIdle = pool.maxIdle := by
  unfold PoolInner.get
  split <;> rfl

@[simp] theorem idleDur_get (pool : PoolInner K T) (now : Nat) (key : K) :
    (pool.get now key).pool.idleDur = pool.idleDur := by
  unfold PoolInner.get
  split <;> rfl

end Keyed

end MonoioTransports.Pool
