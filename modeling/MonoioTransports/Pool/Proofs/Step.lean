/-
What one step can do to the shared pool, to the clock and to the
handles, said once.

`PoolStep` lists the pools a step may leave, per action: the pool as it
was, what one operation of Basic.lean makes of it, or none.
`HandleStep` does the same for the table of handles. `pool_step` and
`handle_step` are the inversion of the step function in these terms;
facts about whole runs are case analyses of the two and never unfold
`World.step`.

Two readings of them close the file: where a connection that is owned,
or idle, after a step was before it.
-/
import MonoioTransports.Pool.World

namespace MonoioTransports.Pool

open Lib

variable {K T : Type} [DecidableEq K]

/-- The pools a step with this action may leave. -/
inductive PoolStep (w : World K T) :
    Action K T → Option (PoolInner K T) → Prop
  | keep (a : Action K T) : PoolStep w a w.pool
  | get {a : Action K T} {pool : PoolInner K T} (k : K)
      (ha : a = .get k ∨ a = .connect k) (hw : w.pool = some pool) :
      PoolStep w a (some (pool.get w.now k).pool)
  | put {pool : PoolInner K T} (k : K) (c : T) (hw : w.pool = some pool) :
      PoolStep w (.put k c) (some (pool.put w.now k c).pool)
  | giveBack {pool : PoolInner K T} {h : Nat} {p : Pooled K T} {k : K}
      (hw : w.pool = some pool) (hp : w.handles h = some p)
      (hk : p.key = some k) :
      PoolStep w (.drop h true) (some (pool.giveBack w.now k p.value).pool)
  | clearExpired {pool : PoolInner K T} (dur : Nat)
      (hw : w.pool = some pool) :
      PoolStep w (.clearExpired dur)
        (some (pool.clearExpired w.now dur).pool)
  | pollIdle {task : IdleTask} (ticks : Nat)
      (htask : w.idleTask = some task) :
      PoolStep w (.pollIdle ticks) (task.poll w.now ticks w.pool).2.1
  | dropPool : PoolStep w .dropPool none

/-- The handles a step with this action may leave. -/
inductive HandleStep (w : World K T) :
    Action K T → (Nat → Option (Pooled K T)) → Prop
  | keep (a : Action K T) : HandleStep w a w.handles
  | lend {a : Action K T} {p : Pooled K T} (k : K)
      (ha : a = .get k ∨ a = .connect k) (hrest : p.value ∈ w.conns k) :
      HandleStep w a (Function.update w.handles w.nextHandle (some p))
  | enter {a : Action K T} {p : Pooled K T}
      (ha : a.entering = some p.value) (hfresh : w.Fresh p.value) :
      HandleStep w a (Function.update w.handles w.nextHandle (some p))
  | drop (h : Nat) (isOpen : Bool) :
      HandleStep w (.drop h isOpen) (Function.update w.handles h none)

variable {w w' : World K T}

-- ============================================== one spec per operation

/-- What a `get` that came to `r` leaves of the world. -/
structure World.Got (w : World K T) (k : K) (w' : World K T)
    (r : Option (Pooled K T)) (pool : PoolInner K T) : Prop where
  before : w.pool = some pool
  after : w'.pool = some (pool.get w.now k).pool
  result : r = (pool.get w.now k).result
  now : w'.now = w.now
  handles : w'.handles = match r with
    | some p => Function.update w.handles w.nextHandle (some p)
    | none => w.handles
  entered : w'.entered = w.entered
  discarded : w'.discarded = w.discarded ++ (pool.get w.now k).dropped

theorem World.get_eq_some {k : K} {r : Option (Pooled K T)}
    (h : w.get k = some (w', r)) : ∃ pool, w.Got k w' r pool := by
  unfold World.get at h
  split at h
  next pool hpool =>
    refine ⟨pool, ?_⟩
    dsimp only at h
    split at h
    next p hp =>
      cases h
      exact ⟨hpool, rfl, hp.symm, rfl, rfl, rfl, rfl⟩
    next hp =>
      cases h
      exact ⟨hpool, rfl, hp.symm, rfl, rfl, rfl, rfl⟩
  next => cases h

/-- What `get` returns was at rest under its key. -/
theorem World.Got.rested {k : K} {p : Pooled K T} {pool : PoolInner K T}
    (h : w.Got k w' (some p) pool) : p.value ∈ w.conns k := by
  have hres := h.result
  rw [(get_eq pool w.now k).1] at hres
  rw [World.conns_of_pool pool h.before]
  rcases getLoop_cases w.now pool.idleDur (pool.queue k) with
    ⟨-, heq⟩ | ⟨pre, idle, rest, hk, -, -, heq⟩
  · rw [heq] at hres
    cases hres
  · rw [heq] at hres
    cases hres
    simp only [hk, List.map_append, List.map_cons, Pooled.new]
    exact List.mem_append_right _ List.mem_cons_self

/-- `connect` up to its await does what `get` does, and may suspend. -/
theorem World.connect_eq_some {k : K} {r : Option (Pooled K T)}
    (h : w.connect k = some (w', r)) :
    ∃ w₁, w.get k = some (w₁, r)
      ∧ w' = { w₁ with connecting := w'.connecting }
      ∧ (r.isSome → w' = w₁) := by
  unfold World.connect at h
  split at h
  next hget =>
    cases h
    exact ⟨_, hget, rfl, fun _ => rfl⟩
  next hget =>
    cases h
    exact ⟨_, hget, rfl, fun hr => nomatch hr⟩
  next => cases h

/-- What dropping a handle leaves. -/
theorem World.drop_eq_some {h : Nat} {isOpen : Bool}
    (hs : w.drop h isOpen = some w') :
    ∃ p, w.handles h = some p ∧ w' = { w with
      pool := (p.drop w.now isOpen w.pool).1
      handles := Function.update w.handles h none
      discarded := w.discarded ++ (p.drop w.now isOpen w.pool).2 } := by
  unfold World.drop at hs
  split at hs
  next p hp =>
    cases hs
    exact ⟨p, hp, rfl⟩
  next => cases hs

/-- An open connection given back to a live pool is idle. -/
theorem World.idle_of_drop {h : Nat} {p : Pooled K T} {k : K}
    {pool : PoolInner K T} (hp : w.handles h = some p)
    (hpool : p.pool = true) (hk : p.key = some k)
    (hw : w.pool = some pool) :
    ∃ w', w.drop h true = some w' ∧ p.value ∈ w'.conns k := by
  have hdrop : (p.drop w.now true w.pool).1
      = some (pool.giveBack w.now k p.value).pool := by
    simp [Pooled.drop, hpool, hw, hk]
  refine ⟨_, by unfold World.drop; rw [hp], ?_⟩
  rw [World.conns_of_pool _ hdrop, PoolInner.giveBack]
  dsimp only
  rw [queue_insertIdle, if_pos rfl]
  simp [Idle.new]

variable [DecidableEq T]

omit [DecidableEq K] in
/-- What `link` leaves. -/
theorem World.link_eq_some {k : K} {c : T} (h : w.link k c = some w') :
    w.Fresh c ∧ w' = { w with entered := (k, c) :: w.entered }.issue
      (Pool.link k c) := by
  unfold World.link at h
  split at h
  next hg =>
    cases h
    exact ⟨hg.2, rfl⟩
  next => cases h

/-- `connected` is a `link` for a suspended call. -/
theorem World.connected_eq_some {k : K} {c : T}
    (h : w.connected k c = some w') :
    { w with connecting := w.connecting.erase k }.link k c = some w' := by
  unfold World.connected at h
  split at h
  next hk => exact h
  next => cases h

/-- What `put` leaves. -/
theorem World.put_eq_some {k : K} {c : T} (h : w.put k c = some w') :
    ∃ pool, w.pool = some pool ∧ w.Fresh c
      ∧ w' = { w with entered := (k, c) :: w.entered }.settle
          (pool.put w.now k c) := by
  unfold World.put at h
  split at h
  next pool hpool =>
    split at h
    next hfresh =>
      cases h
      exact ⟨pool, hpool, hfresh, rfl⟩
    next => cases h
  next => cases h

omit [DecidableEq K] [DecidableEq T] in
/-- What polling the idle task leaves. -/
theorem World.pollIdle_eq_some {ticks : Nat}
    (h : w.pollIdle ticks = some w') :
    ∃ task, w.idleTask = some task ∧ w' = { w with
      pool := (task.poll w.now ticks w.pool).2.1
      idleTask :=
        if (task.poll w.now ticks w.pool).1 then none else some task
      discarded :=
        w.discarded ++ (task.poll w.now ticks w.pool).2.2 } := by
  unfold World.pollIdle at h
  split at h
  next task htask =>
    cases h
    exact ⟨task, htask, rfl⟩
  next => cases h

omit [DecidableEq K] [DecidableEq T] in
/-- What dropping the pool leaves. -/
theorem World.dropPool_eq_some (h : w.dropPool = some w') :
    ∃ pool, w.pool = some pool ∧ w' = { w with
      pool := none
      discarded := w.discarded
        ++ collect (List.map Idle.conn) pool.idleConns } := by
  unfold World.dropPool at h
  split at h
  next pool hpool =>
    split at h
    next =>
      cases h
      exact ⟨pool, hpool, rfl⟩
    next => cases h
  next => cases h

/-- A failed `connect` only leaves the list of suspended calls. -/
theorem World.connectFailed_eq_some {k : K}
    (h : w.step (.connectFailed k) = some w') :
    w' = { w with connecting := w.connecting.erase k } := by
  simp only [World.step] at h
  split at h
  next =>
    cases h
    rfl
  next => cases h

-- =========================================================== inversions

/-- Every step is one of these to the pool, and never turns the clock
back. -/
theorem pool_step {a : Action K T} (h : w.step a = some w') :
    PoolStep w a w'.pool ∧ w.now ≤ w'.now := by
  cases a with
  | tick dt =>
      cases h
      exact ⟨.keep _, Nat.le_add_right _ _⟩
  | link k c =>
      obtain ⟨-, rfl⟩ := World.link_eq_some h
      exact ⟨.keep _, Nat.le_refl _⟩
  | put k c =>
      obtain ⟨pool, hpool, -, rfl⟩ := World.put_eq_some h
      exact ⟨.put k c hpool, Nat.le_refl _⟩
  | get k =>
      obtain ⟨⟨w₁, r⟩, hget, rfl⟩ := Option.map_eq_some_iff.mp h
      obtain ⟨pool, hg⟩ := World.get_eq_some hget
      rw [hg.after, hg.now]
      exact ⟨.get k (Or.inl rfl) hg.before, Nat.le_refl _⟩
  | drop hd isOpen =>
      obtain ⟨p, hp, rfl⟩ := World.drop_eq_some h
      refine ⟨?_, Nat.le_refl _⟩
      show PoolStep w _ (p.drop w.now isOpen w.pool).1
      unfold Pooled.drop
      split
      · exact .keep _
      -- open, with a pool that lives: it goes back; else nothing moves
      next hopen =>
        have htrue : isOpen = true := by simpa using hopen
        subst htrue
        split
        · split
          next pool key hw hk => exact .giveBack hw hp hk
          next => exact .keep _
        · exact .keep _
  | clearExpired dur =>
      obtain ⟨pool, hw, rfl⟩ := Option.map_eq_some_iff.mp h
      exact ⟨.clearExpired dur hw, Nat.le_refl _⟩
  | pollIdle ticks =>
      obtain ⟨task, htask, rfl⟩ := World.pollIdle_eq_some h
      exact ⟨.pollIdle ticks htask, Nat.le_refl _⟩
  | dropPool =>
      obtain ⟨pool, -, rfl⟩ := World.dropPool_eq_some h
      exact ⟨.dropPool, Nat.le_refl _⟩
  | connect k =>
      obtain ⟨⟨w₁, r⟩, hconn, rfl⟩ := Option.map_eq_some_iff.mp h
      obtain ⟨w₂, hget, heq, -⟩ := World.connect_eq_some hconn
      obtain ⟨pool, hg⟩ := World.get_eq_some hget
      dsimp only at heq ⊢
      rw [heq]
      dsimp only
      rw [hg.after, hg.now]
      exact ⟨.get k (Or.inr rfl) hg.before, Nat.le_refl _⟩
  | connected k c =>
      obtain ⟨-, rfl⟩ := World.link_eq_some (World.connected_eq_some h)
      exact ⟨.keep _, Nat.le_refl _⟩
  | connectFailed k =>
      rw [World.connectFailed_eq_some h]
      exact ⟨.keep _, Nat.le_refl _⟩

omit [DecidableEq T] in
/-- What a `get` leaves of the handles. -/
private theorem World.Got.handleStep {k : K} {r : Option (Pooled K T)}
    {pool : PoolInner K T} {a : Action K T} (hg : w.Got k w' r pool)
    (ha : a = .get k ∨ a = .connect k) : HandleStep w a w'.handles := by
  rw [hg.handles]
  cases r with
  | none => exact .keep a
  | some p => exact .lend k ha hg.rested

/-- Every step is one of these to the handles. -/
theorem handle_step {a : Action K T} (h : w.step a = some w') :
    HandleStep w a w'.handles := by
  cases a with
  | tick dt =>
      cases h
      exact .keep _
  | link k c =>
      obtain ⟨hfresh, rfl⟩ := World.link_eq_some h
      exact .enter rfl hfresh
  | put k c =>
      obtain ⟨pool, -, -, rfl⟩ := World.put_eq_some h
      exact .keep _
  | get k =>
      obtain ⟨⟨w₁, r⟩, hget, rfl⟩ := Option.map_eq_some_iff.mp h
      obtain ⟨pool, hg⟩ := World.get_eq_some hget
      exact hg.handleStep (Or.inl rfl)
  | drop hd isOpen =>
      obtain ⟨p, -, rfl⟩ := World.drop_eq_some h
      exact .drop hd isOpen
  | clearExpired dur =>
      obtain ⟨pool, hw, rfl⟩ := Option.map_eq_some_iff.mp h
      exact .keep _
  | pollIdle ticks =>
      obtain ⟨task, -, rfl⟩ := World.pollIdle_eq_some h
      exact .keep _
  | dropPool =>
      obtain ⟨pool, -, rfl⟩ := World.dropPool_eq_some h
      exact .keep _
  | connect k =>
      obtain ⟨⟨w₁, r⟩, hconn, rfl⟩ := Option.map_eq_some_iff.mp h
      obtain ⟨w₂, hget, heq, -⟩ := World.connect_eq_some hconn
      obtain ⟨pool, hg⟩ := World.get_eq_some hget
      dsimp only at heq ⊢
      rw [heq]
      exact hg.handleStep (Or.inr rfl)
  | connected k c =>
      obtain ⟨hfresh, rfl⟩ :=
        World.link_eq_some (World.connected_eq_some h)
      exact .enter rfl hfresh
  | connectFailed k =>
      rw [World.connectFailed_eq_some h]
      exact .keep _

/-- A step leaves the handles that it neither makes nor drops. -/
theorem handles_of_step {a : Action K T} (h : w.step a = some w')
    {hd : Nat} (hnew : hd ≠ w.nextHandle)
    (hdrop : ∀ isOpen, a ≠ .drop hd isOpen) :
    w'.handles hd = w.handles hd := by
  have hs := handle_step h
  generalize w'.handles = handles at hs ⊢
  cases hs with
  | keep => rfl
  | lend k ha hrest => exact Function.update_of_ne hnew ..
  | enter ha hfresh => exact Function.update_of_ne hnew ..
  | drop hd' isOpen =>
      refine Function.update_of_ne (fun heq => ?_) ..
      subst heq
      exact hdrop isOpen rfl

/-- Every step lets at most one connection enter, a new one. -/
theorem entered_step {a : Action K T} (h : w.step a = some w') :
    (a.entering = none ∧ w'.entered = w.entered)
      ∨ ∃ k c, a.entering = some c ∧ w.Fresh c
        ∧ w'.entered = (k, c) :: w.entered := by
  cases a with
  | tick dt =>
      cases h
      exact Or.inl ⟨rfl, rfl⟩
  | link k c =>
      obtain ⟨hfresh, rfl⟩ := World.link_eq_some h
      exact Or.inr ⟨k, c, rfl, hfresh, rfl⟩
  | put k c =>
      obtain ⟨pool, -, hfresh, rfl⟩ := World.put_eq_some h
      exact Or.inr ⟨k, c, rfl, hfresh, rfl⟩
  | get k =>
      obtain ⟨⟨w₁, r⟩, hget, rfl⟩ := Option.map_eq_some_iff.mp h
      obtain ⟨pool, hg⟩ := World.get_eq_some hget
      exact Or.inl ⟨rfl, hg.entered⟩
  | drop hd isOpen =>
      obtain ⟨p, -, rfl⟩ := World.drop_eq_some h
      exact Or.inl ⟨rfl, rfl⟩
  | clearExpired dur =>
      obtain ⟨pool, hw, rfl⟩ := Option.map_eq_some_iff.mp h
      exact Or.inl ⟨rfl, rfl⟩
  | pollIdle ticks =>
      obtain ⟨task, -, rfl⟩ := World.pollIdle_eq_some h
      exact Or.inl ⟨rfl, rfl⟩
  | dropPool =>
      obtain ⟨pool, -, rfl⟩ := World.dropPool_eq_some h
      exact Or.inl ⟨rfl, rfl⟩
  | connect k =>
      obtain ⟨⟨w₁, r⟩, hconn, rfl⟩ := Option.map_eq_some_iff.mp h
      obtain ⟨w₂, hget, heq, -⟩ := World.connect_eq_some hconn
      obtain ⟨pool, hg⟩ := World.get_eq_some hget
      dsimp only at heq ⊢
      rw [heq]
      exact Or.inl ⟨rfl, hg.entered⟩
  | connected k c =>
      obtain ⟨hfresh, rfl⟩ :=
        World.link_eq_some (World.connected_eq_some h)
      exact Or.inr ⟨k, c, rfl, hfresh, rfl⟩
  | connectFailed k =>
      rw [World.connectFailed_eq_some h]
      exact Or.inl ⟨rfl, rfl⟩

-- ==================================================== where it was before

omit [DecidableEq K] [DecidableEq T] in
@[simp] theorem poll_none (task : IdleTask) (now ticks : Nat) :
    task.poll now ticks (none : Option (PoolInner K T))
      = (true, none, []) := by
  cases ticks <;> rfl

/-- What never entered after a step never entered before it. -/
theorem fresh_of_step {a : Action K T} (h : w.step a = some w') {c : T}
    (hf : w'.Fresh c) : w.Fresh c := by
  intro k hk
  rcases entered_step h with ⟨-, heq⟩ | ⟨k', c', -, -, heq⟩
  · exact hf k (heq ▸ hk)
  · exact hf k (heq ▸ List.mem_cons_of_mem _ hk)

/-- A pool that is gone stays gone. -/
theorem pool_none_of_step {a : Action K T} (h : w.step a = some w')
    (hw : w.pool = none) : w'.pool = none := by
  obtain ⟨hs, -⟩ := pool_step h
  generalize w'.pool = shared at hs
  cases hs with
  | keep => exact hw
  | get k ha hw' => simp [hw] at hw'
  | put k c hw' => simp [hw] at hw'
  | giveBack hw' hp hk => simp [hw] at hw'
  | clearExpired dur hw' => simp [hw] at hw'
  | pollIdle ticks htask =>
      rw [hw, poll_none]
  | dropPool => rfl

omit [DecidableEq T] in
/-- Nothing is idle in a pool that is gone. -/
theorem World.conns_of_none (hw : w.pool = none) (k : K) :
    w.conns k = [] := by
  rw [World.conns, World.queue, hw]
  rfl

/-- A connection owned after a step was owned by that handle, was idle,
or just came in. -/
theorem owns_of_step {a : Action K T} (h : w.step a = some w')
    {hd : Nat} {c : T} (hown : w'.Owns hd c) :
    w.Owns hd c ∨ (∃ k, c ∈ w.conns k)
      ∨ (a.entering = some c ∧ w.Fresh c) := by
  obtain ⟨p, hp, rfl⟩ := hown
  have hs := handle_step h
  generalize w'.handles = handles at hs hp
  cases hs with
  | keep => exact Or.inl ⟨p, hp, rfl⟩
  | @lend _ p' k ha hrest =>
      by_cases hh : hd = w.nextHandle
      · rw [hh, Function.update_self, Option.some.injEq] at hp
        exact Or.inr (Or.inl ⟨k, hp ▸ hrest⟩)
      · rw [Function.update_of_ne hh] at hp
        exact Or.inl ⟨p, hp, rfl⟩
  | @enter _ p' ha hfresh =>
      by_cases hh : hd = w.nextHandle
      · rw [hh, Function.update_self, Option.some.injEq] at hp
        rw [hp] at ha hfresh
        exact Or.inr (Or.inr ⟨ha, hfresh⟩)
      · rw [Function.update_of_ne hh] at hp
        exact Or.inl ⟨p, hp, rfl⟩
  | drop hd' isOpen =>
      by_cases hh : hd = hd'
      · rw [hh, Function.update_self] at hp
        cases hp
      · rw [Function.update_of_ne hh] at hp
        exact Or.inl ⟨p, hp, rfl⟩

omit [DecidableEq T] in
/-- Any number of ticks at one instant filters each queue once. -/
theorem queue_poll (task : IdleTask) (now : Nat) :
    ∀ (ticks : Nat) (pool : PoolInner K T) (k : K),
      sharedQueue (task.poll now ticks (some pool)).2.1 k
        = if ticks = 0 then pool.queue k
          else (pool.queue k).filter fun e => !e.expired now task.idleDur := by
  intro ticks
  induction ticks with
  | zero => intro pool k; rfl
  | succ ticks ih =>
      intro pool k
      show sharedQueue (task.poll now ticks
        (some (pool.clearExpired now task.idleDur).pool)).2.1 k = _
      rw [ih, queue_clearExpired, if_neg (Nat.succ_ne_zero ticks)]
      by_cases h : ticks = 0 <;> simp [h]

/-- A connection idle after a step was idle, just came in, or its handle
was dropped while it was open. -/
theorem idle_of_step {a : Action K T} (h : w.step a = some w') {k : K}
    {c : T} (hc : c ∈ w'.conns k) :
    c ∈ w.conns k ∨ a = .put k c
      ∨ ∃ hd, a = .drop hd true ∧ w.Owns hd c := by
  obtain ⟨e, he, rfl⟩ := List.mem_map.mp hc
  have hold : e ∈ w.queue k → e.conn ∈ w.conns k := fun hq =>
    List.mem_map_of_mem hq
  have hpoolq : ∀ {pool}, w.pool = some pool → e ∈ pool.queue k →
      e ∈ w.queue k := fun hw hq => (World.queue_of_pool hw k).symm ▸ hq
  obtain ⟨hs, -⟩ := pool_step h
  unfold World.queue at he
  generalize w'.pool = shared at hs he
  cases hs with
  | keep => exact Or.inl (hold he)
  | @get _ pool k' ha hw =>
      refine Or.inl (hold (hpoolq hw ?_))
      have he' : e ∈ (pool.get w.now k').pool.queue k := he
      rw [queue_get] at he'
      split at he'
      next hk =>
        rcases getLoop_cases w.now pool.idleDur (pool.queue k') with
          ⟨-, heq⟩ | ⟨pre, idle, rest, hq, -, -, heq⟩
        · rw [heq] at he'
          cases he'
        -- what `get` leaves stood behind what it returned
        · rw [heq] at he'
          rw [hk, hq]
          exact List.mem_append_right _ (List.mem_cons_of_mem _ he')
      next => exact he'
  | @put pool k' c hw =>
      rcases mem_insertIdle he with hq | ⟨hk, rfl⟩
      · exact Or.inl (hold (hpoolq hw hq))
      · exact Or.inr (Or.inl (hk ▸ rfl))
  | @giveBack pool hd p k' hw hp hk =>
      rcases mem_insertIdle he with hq | ⟨-, rfl⟩
      · exact Or.inl (hold (hpoolq hw hq))
      · exact Or.inr (Or.inr ⟨hd, rfl, p, hp, rfl⟩)
  | @clearExpired pool dur hw =>
      have he' : e ∈ (pool.clearExpired w.now dur).pool.queue k := he
      rw [queue_clearExpired] at he'
      exact Or.inl (hold (hpoolq hw (List.mem_of_mem_filter he')))
  | @pollIdle task ticks htask =>
      cases hw : w.pool with
      | none =>
          rw [hw, poll_none] at he
          cases he
      | some pool =>
          rw [hw, queue_poll] at he
          refine Or.inl (hold (hpoolq hw ?_))
          split at he
          · exact he
          · exact List.mem_of_mem_filter he
  | dropPool => cases he

end MonoioTransports.Pool
