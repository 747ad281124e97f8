/-
What a keyed pool is for: to each key a small pool of its own.

# The abstract pool

A `Lane` is a queue of connections at rest, a clock, and nothing else:
what comes to rest joins at the back, what is asked for leaves at the
front, and of those that rested before only the newest are kept when
another joins. It knows no keys, no handles and no other lane.

# The refinement

`laneOf k` reads a lane off the world and, off each action, what it is
to that lane: an action on another key is nothing, a handle's drop is a
return if the handle is of this key and its connection open. The world
moves each lane by these events (`laneOf_faithful`), so

- what rests under a key is what the abstract pool makes of the key's
  own events (`keyed_pool_refines`);
- runs that differ only in what happens to other keys cannot be told
  apart at this one (`keys_independent`).
-/
import MonoioTransports.Lib.View
import MonoioTransports.Pool.Proofs.Counting
import MonoioTransports.Pool.Proofs.Insertion
import Mathlib.Data.List.DropRight

namespace MonoioTransports.Pool

open Lib

variable {K T : Type}

-- ====================================================== the abstract pool

/-- The pool of one key; `none` when it is gone. -/
structure Lane (T : Type) where
  now : Nat
  rest : Option (List (Idle T))
  deriving DecidableEq, Repr

/-- What can happen to the pool of one key. -/
inductive LaneEvent (T : Type)
  | elapse (dt : Nat)
  | take
  | giveBack (c : T)
  | put (c : T)
  | sweep (dur : Nat)
  | close
  deriving DecidableEq, Repr

/-- Room for one more under the limit: the newest stay. A queue exactly
at the limit makes room for what is given back, not for what is put. -/
def makeRoom (limit : Nat) (putting : Bool) (q : List (Idle T)) :
    List (Idle T) :=
  if putting ∧ q.length = limit then q else q.rtake (limit - 1)

/-- What an event makes of a lane. -/
def Lane.apply (limit : Nat) (lane : Lane T) : LaneEvent T → Lane T
  | .elapse dt => { lane with now := lane.now + dt }
  | .take => { lane with rest := lane.rest.map List.tail }
  | .giveBack c => { lane with
      rest := lane.rest.map fun q =>
        makeRoom limit false q ++ [Idle.new lane.now c] }
  | .put c => { lane with
      rest := lane.rest.map fun q =>
        makeRoom limit true q ++ [Idle.new lane.now c] }
  | .sweep dur => { lane with
      rest := lane.rest.map (List.filter fun e =>
        !e.expired lane.now dur) }
  | .close => { lane with rest := none }

-- ==================================================== lanes of the world

section Views

variable [DecidableEq K]

/-- The lane of a key. -/
def World.lane (w : World K T) (k : K) : Lane T where
  now := w.now
  rest := w.pool.map fun pool => pool.queue k

/-- What an action is to a key. -/
def World.laneEvents (w : World K T) (k : K) :
    Action K T → List (LaneEvent T)
  | .tick dt => [.elapse dt]
  | .link _ _ => []
  | .put k' c => if k' = k then [.put c] else []
  | .get k' => if k' = k then [.take] else []
  | .drop h isOpen =>
      match w.handles h with
      | some p =>
          if isOpen ∧ p.pool ∧ p.key = some k then [.giveBack p.value]
          else []
      | none => []
  | .clearExpired dur => [.sweep dur]
  | .pollIdle ticks =>
      match w.idleTask with
      | some task => if ticks = 0 then [] else [.sweep task.idleDur]
      | none => []
  | .dropPool => [.close]
  | .connect k' => if k' = k then [.take] else []
  | .connected _ _ => []
  | .connectFailed _ => []

/-- The world as a key sees it. -/
def laneOf (limit : Nat) (k : K) :
    View (World K T) (Action K T) (Lane T) (LaneEvent T) where
  part := fun w => w.lane k
  sees := fun w a => w.laneEvents k a
  apply := Lane.apply limit

end Views

-- ============================================================ insertions

/-- What `Pooled::drop` pops makes room. -/
theorem drop_evictions_fullOnDrop (limit : Nat) (q : List (Idle T)) :
    q.drop (evictions fullOnDrop q.length limit)
      = makeRoom limit false q := by
  have hmake : makeRoom limit false q = q.rtake (limit - 1) := by
    simp [makeRoom]
  rw [hmake, List.rtake]
  by_cases hlt : q.length < limit
  · have hev : evictions fullOnDrop q.length limit = 0 := by
      simp [evictions, hlt]
    rw [hev, Nat.sub_eq_zero_of_le (by omega)]
  · have hev : evictions fullOnDrop q.length limit
        = q.length - limit + 1 := by
      simp [evictions, hlt]
    rw [hev]
    cases limit with
    | zero =>
        rw [List.drop_eq_nil_of_le (by omega),
          List.drop_eq_nil_of_le (by omega)]
    | succ limit =>
        congr 1
        omega

/-- What `put` pops makes room, except at the limit. -/
theorem drop_evictions_fullOnPut (limit : Nat) (q : List (Idle T)) :
    q.drop (evictions fullOnPut q.length limit)
      = makeRoom limit true q := by
  by_cases hlen : q.length = limit
  · rw [hlen, (evictions_at limit).1, makeRoom, if_pos ⟨rfl, hlen⟩]
    rfl
  · rw [evictions_eq hlen, drop_evictions_fullOnDrop, makeRoom, makeRoom,
      if_neg (by simp), if_neg (fun h => hlen h.2)]

-- ========================================================= faithfulness

section Faithful

variable [DecidableEq K] {w w' : World K T} {limit : Nat}

theorem World.lane_of_pool {pool : PoolInner K T} (h : w.pool = some pool)
    (k : K) : w.lane k = { now := w.now, rest := some (pool.queue k) } := by
  rw [World.lane, h]
  rfl

/-- `get` takes the front of its lane. -/
theorem World.lane_get (limit : Nat) {key : K} {r : Option (Pooled K T)}
    (hlimits : ∀ pool, w.pool = some pool → pool.idleDur = none)
    (h : w.get key = some (w', r)) (k : K) :
    w'.lane k = (laneOf limit k).after (w.lane k)
      (if key = k then [.take] else []) := by
  obtain ⟨pool, hg⟩ := World.get_eq_some h
  rw [World.lane_of_pool hg.before, World.lane_of_pool hg.after, hg.now,
    queue_get, hlimits pool hg.before, getLoop_none]
  by_cases hk : key = k
  · rw [if_pos hk, if_pos hk.symm, hk]
    rfl
  · rw [if_neg hk, if_neg (Ne.symm hk)]
    rfl

/-- An insertion joins its lane at the back. -/
theorem lane_insertIdle {full : Nat → Nat → Bool} {pool : PoolInner K T}
    {now : Nat} {key : K} {c : T} (k : K) :
    (insertIdle full pool now key c).pool.queue k
      = if key = k then
          (pool.queue k).drop
            (evictions full (pool.queue k).length pool.maxIdle)
              ++ [Idle.new now c]
        else pool.queue k := by
  rw [queue_insertIdle]
  by_cases hk : key = k
  · rw [if_pos hk, if_pos hk.symm, hk]
  · rw [if_neg hk, if_neg (Ne.symm hk)]

/-- Dropping a handle gives its connection back to its lane, or leaves
every lane alone. -/
theorem World.lane_drop {hd : Nat} {isOpen : Bool}
    (hlimits : ∀ pool, w.pool = some pool → pool.maxIdle = limit)
    (h : w.drop hd isOpen = some w') (k : K) :
    w'.lane k = (laneOf limit k).after (w.lane k)
      (w.laneEvents k (.drop hd isOpen)) := by
  obtain ⟨p, hp, rfl⟩ := World.drop_eq_some h
  simp only [World.laneEvents, hp]
  cases hpool : w.pool with
  | none =>
      have hlane : w.lane k = { now := w.now, rest := none } := by
        rw [World.lane, hpool]
        rfl
      have hgone : (p.drop w.now isOpen (none : Option (PoolInner K T))).1
          = none := by
        unfold Pooled.drop
        split
        · rfl
        · split <;> rfl
      rw [hlane, World.lane]
      dsimp only
      rw [hgone]
      split <;> rfl
  | some pool =>
      rw [World.lane_of_pool hpool]
      cases isOpen with
      | false =>
          rw [if_neg (by simp)]
          rfl
      | true =>
          cases hin : p.pool with
          | false =>
              rw [if_neg (by simp)]
              simp [World.lane, Pooled.drop, hin, View.after]
          | true =>
              obtain ⟨key, hkey⟩ := Option.isSome_iff_exists.mp
                (p.key_isSome hin)
              have hdrop : (p.drop w.now true (some pool)).1
                  = some (pool.giveBack w.now key p.value).pool := by
                simp [Pooled.drop, hin, hkey]
              -- open and from this pool: given back, to the lane of its key
              rw [World.lane]
              dsimp only
              rw [hdrop, Option.map_some, PoolInner.giveBack,
                lane_insertIdle, hkey, hlimits pool hpool,
                drop_evictions_fullOnDrop]
              by_cases hk : key = k
              · rw [if_pos hk, if_pos ⟨rfl, rfl, congrArg some hk⟩]
                rfl
              · rw [if_neg hk, if_neg fun hall =>
                  hk (Option.some.inj hall.2.2)]
                rfl

variable [DecidableEq T]

/-- The world moves each lane by the events of its key. -/
theorem laneOf_faithful (idleInterval maxIdle : Option Nat) (k : K) :
    (laneOf (T := T) (resolveMaxIdle maxIdle) k).Faithful
      (World.machine idleInterval maxIdle) := by
  intro w a w' hr h
  have hlimits := limits_of_reachable hr
  have hmax : ∀ pool, w.pool = some pool →
      pool.maxIdle = resolveMaxIdle maxIdle :=
    fun pool hpool => (hlimits pool hpool).1
  have hdur : ∀ pool, w.pool = some pool → pool.idleDur = none :=
    fun pool hpool => (hlimits pool hpool).2
  show w'.lane k = (laneOf (resolveMaxIdle maxIdle) k).after (w.lane k)
    (w.laneEvents k a)
  have hstep : w.step a = some w' := h
  cases a with
  | tick dt =>
      cases hstep
      rfl
  | link key c =>
      obtain ⟨-, rfl⟩ := World.link_eq_some hstep
      rfl
  | put key c =>
      obtain ⟨pool, hpool, -, rfl⟩ := World.put_eq_some hstep
      rw [World.lane_of_pool hpool]
      show ({ now := w.now,
              rest := some ((pool.put w.now key c).pool.queue k) } : Lane T)
        = _
      rw [PoolInner.put, lane_insertIdle, hmax pool hpool,
        drop_evictions_fullOnPut, World.laneEvents]
      split <;> rfl
  | get key =>
      obtain ⟨⟨w₁, r⟩, hget, rfl⟩ := Option.map_eq_some_iff.mp hstep
      exact World.lane_get _ hdur hget k
  | drop hd isOpen => exact World.lane_drop hmax hstep k
  | clearExpired dur =>
      obtain ⟨pool, hpool, rfl⟩ := Option.map_eq_some_iff.mp hstep
      rw [World.lane_of_pool hpool]
      show ({ now := w.now,
              rest := some ((pool.clearExpired w.now dur).pool.queue k) }
        : Lane T) = _
      rw [queue_clearExpired]
      rfl
  | pollIdle ticks =>
      obtain ⟨task, htask, rfl⟩ := World.pollIdle_eq_some hstep
      simp only [World.laneEvents, htask]
      cases hpool : w.pool with
      | none =>
          rw [World.lane, World.lane, hpool, poll_none]
          dsimp only
          -- a closed lane stays closed, swept or not
          by_cases ht : ticks = 0
          · rw [if_pos ht]
            rfl
          · rw [if_neg ht]
            rfl
      | some pool =>
          obtain ⟨pool', hpoll, -⟩ :=
            perm_contents_poll task w.now ticks pool
          have hq := queue_poll task w.now ticks pool k
          rw [hpoll] at hq
          rw [World.lane_of_pool hpool, World.lane]
          dsimp only
          rw [hpoll, Option.map_some,
            show pool'.queue k = _ from hq]
          split <;> rfl
  | dropPool =>
      obtain ⟨pool, -, rfl⟩ := World.dropPool_eq_some hstep
      rfl
  | connect key =>
      obtain ⟨⟨w₁, r⟩, hconn, rfl⟩ := Option.map_eq_some_iff.mp hstep
      obtain ⟨w₂, hget, heq, -⟩ := World.connect_eq_some hconn
      have hlane := World.lane_get (resolveMaxIdle maxIdle) hdur hget k
      dsimp only at heq ⊢
      rw [heq]
      exact hlane
  | connected key c =>
      obtain ⟨-, rfl⟩ := World.link_eq_some (World.connected_eq_some hstep)
      rfl
  | connectFailed key =>
      rw [World.connectFailed_eq_some hstep]
      rfl

-- ========================================================= the promises

/-- What `get` would return, read off a lane. -/
def Lane.offer (k : K) (lane : Lane T) : Option (Option (Pooled K T)) :=
  lane.rest.map fun q => q.head?.map fun e => Pooled.new k e.conn true

omit [DecidableEq T] in
/-- `get` returns what its lane offers. -/
theorem World.get_eq_offer
    (hlimits : ∀ pool, w.pool = some pool → pool.idleDur = none) (k : K) :
    (w.get k).map Prod.snd = (w.lane k).offer k := by
  cases hpool : w.pool with
  | none =>
      rw [World.get, hpool, World.lane, hpool]
      rfl
  | some pool =>
      obtain ⟨w', hget, -⟩ := World.get_front hpool (hlimits pool hpool) k
      rw [hget, World.queue_of_pool hpool, World.lane_of_pool hpool]
      rfl

/-- A new pool is an empty lane to every key. -/
def Lane.new (now : Nat) : Lane T where
  now := now
  rest := some []

/-- After any run, what rests under a key, and what `get` returns for it,
is what the abstract pool makes of the events of that key. -/
theorem keyed_pool_refines {idleInterval maxIdle : Option Nat} {now : Nat}
    {as : List (Action K T)}
    (h : (World.machine idleInterval maxIdle).run
      (World.new now idleInterval maxIdle) as = some w) (k : K) :
    let lane := (laneOf (resolveMaxIdle maxIdle) k).after (Lane.new now)
      ((laneOf (resolveMaxIdle maxIdle) k).trace
        (World.machine idleInterval maxIdle)
        (World.new now idleInterval maxIdle) as)
    w.lane k = lane ∧ (w.get k).map Prod.snd = lane.offer k := by
  have hinit : (World.machine idleInterval maxIdle).Reachable
      (World.new now idleInterval maxIdle : World K T) := .init ⟨now, rfl⟩
  have hnew : (World.new now idleInterval maxIdle : World K T).lane k
      = Lane.new now := by
    rw [World.lane_of_pool rfl, Lane.new]
    cases idleInterval with
    | none => exact congrArg _ (congrArg some (queue_new maxIdle k))
    | some dur =>
        exact congrArg _ (congrArg some (queue_newWithDropper maxIdle k))
  have hlane := (laneOf_faithful idleInterval maxIdle k).run hinit h
  have hlane' : w.lane k = _ := hlane
  refine ⟨?_, ?_⟩
  · rw [← hnew]
    exact hlane'
  · rw [World.get_eq_offer
      (fun pool hpool => (limits_of_reachable (hinit.run h) pool hpool).2),
      hlane', ← hnew]
    rfl

/-- Two connections under one key and one under another: the first is
offered the older of its two. -/
theorem keyed_pool_refines_older :
    ∃ w : World Nat Nat,
      (World.machine none none).run (World.new 0 none none)
          [.put 7 1, .put 8 5, .tick 3, .put 7 2, .get 8] = some w
        ∧ (w.get 7).map Prod.snd = some (some (Pooled.new 7 1 true)) := by
  obtain ⟨w, hrun⟩ : ∃ w : World Nat Nat,
      (World.machine none none).run (World.new 0 none none)
          [.put 7 1, .put 8 5, .tick 3, .put 7 2, .get 8] = some w :=
    ⟨_, rfl⟩
  refine ⟨w, hrun, ?_⟩
  rw [(keyed_pool_refines hrun 7).2]
  rfl

/-- Runs from one state with the same events for a key leave the same
connections at rest under it, and `get` returns the same for it, whatever
they do to other keys. -/
theorem keys_independent {idleInterval maxIdle : Option Nat}
    {w₁ w₂ : World K T} {as bs : List (Action K T)}
    (hr : (World.machine idleInterval maxIdle).Reachable w)
    (h₁ : (World.machine idleInterval maxIdle).run w as = some w₁)
    (h₂ : (World.machine idleInterval maxIdle).run w bs = some w₂) {k : K}
    (hsame : (laneOf (resolveMaxIdle maxIdle) k).trace
        (World.machine idleInterval maxIdle) w as
      = (laneOf (resolveMaxIdle maxIdle) k).trace
        (World.machine idleInterval maxIdle) w bs) :
    w₁.queue k = w₂.queue k
      ∧ (w₁.get k).map Prod.snd = (w₂.get k).map Prod.snd := by
  have hlane : w₁.lane k = w₂.lane k :=
    (laneOf_faithful idleInterval maxIdle k).agree hr h₁ h₂ hsame
  refine ⟨?_, ?_⟩
  · have hqueue : ∀ w : World K T, w.queue k = (w.lane k).rest.getD [] := by
      intro w
      rw [World.queue, World.lane]
      cases w.pool <;> rfl
    rw [hqueue, hqueue, hlane]
  · rw [World.get_eq_offer
      (fun pool hpool => (limits_of_reachable (hr.run h₁) pool hpool).2),
      World.get_eq_offer
      (fun pool hpool => (limits_of_reachable (hr.run h₂) pool hpool).2),
      hlane]

end Faithful

/-- Nobody at key 7 can tell whether key 8 was used. -/
theorem keys_independent_two :
    ∃ w₁ w₂ : World Nat Nat,
      (World.machine none (some 1)).run (World.new 0 none (some 1))
          [.link 7 1, .put 8 2, .put 8 3, .drop 0 true, .get 8] = some w₁
        ∧ (World.machine none (some 1)).run (World.new 0 none (some 1))
          [.link 7 1, .drop 0 true] = some w₂
        ∧ w₁.queue 7 = w₂.queue 7 := by
  obtain ⟨w₁, h₁⟩ : ∃ w₁ : World Nat Nat,
      (World.machine none (some 1)).run (World.new 0 none (some 1))
          [.link 7 1, .put 8 2, .put 8 3, .drop 0 true, .get 8] = some w₁ :=
    ⟨_, rfl⟩
  obtain ⟨w₂, h₂⟩ : ∃ w₂ : World Nat Nat,
      (World.machine none (some 1)).run (World.new 0 none (some 1))
          [.link 7 1, .drop 0 true] = some w₂ := ⟨_, rfl⟩
  refine ⟨w₁, w₂, h₁, h₂, ?_⟩
  exact (keys_independent (.init ⟨0, rfl⟩) h₁ h₂ rfl).1

end MonoioTransports.Pool
