/-
What the idle task comes to: it sweeps in time, and stops.

`get` takes the front of a queue at any age, so how long a connection
rests is for the idle task alone to bound. It does so only as promptly
as it is polled; `Timely` puts that lateness into a number.

# The argument

- Every poll ends: a tick moves the deadline on, and a poll before the
  deadline is pending. So the loop is `Ticker.drain` beside the sweeps
  of `IdleTask.poll`, and the machine with the timer runs inside
  `World.machine`.
- What a sweep leaves is at most `dur` old, and the next one is due
  within a period. What comes to rest later is younger still. So the
  deadline is never later than `dur` and a period after any entry came
  to rest (`Armed.swept`).
- The clock passes the deadline by no more than the lateness.

The bound is met: an entry that is exactly `dur` old at a sweep stays
for another period.
-/
import MonoioTransports.Pool.Timed
import MonoioTransports.Pool.Proofs.Limits

namespace MonoioTransports.Pool

open Lib

variable {K T ι : Type}

-- ============================================================== the loop

section Loop

variable {timer : Ticker ι} {task : IdleTask} {now turns : Nat}
  {interval : ι}

/-- When the pool is gone the task is ready at its next poll. -/
theorem pollLoop_none :
    task.pollLoop timer now (turns + 1) interval
        (none : Option (PoolInner K T))
      = some { finished := true, interval := interval, shared := none,
               dropped := [] } := rfl

/-- What the loop comes to after so many ticks. -/
def IdleTask.ticked (task : IdleTask) (now : Nat)
    (shared : Option (PoolInner K T)) (r : Nat × ι) : Woken K T ι where
  finished := (task.poll now r.1 shared).1
  interval := r.2
  shared := (task.poll now r.1 shared).2.1
  dropped := (task.poll now r.1 shared).2.2

/-- While the pool is there, the loop drains the interval and sweeps once
a tick. -/
theorem pollLoop_some (pool : PoolInner K T) :
    task.pollLoop timer now turns interval (some pool)
      = (timer.drain now turns interval).map
          (task.ticked now (some pool)) := by
  induction turns generalizing interval pool with
  | zero => rfl
  | succ turns ih =>
      rw [IdleTask.pollLoop, Ticker.drain]
      cases htick : timer.pollTick now interval with
      | none => rfl
      | some interval =>
          show Option.map _ (task.pollLoop timer now turns interval _) = _
          rw [ih, Option.map_map, Option.map_map]
          rfl

/-- A task whose pool is there is not ready. -/
theorem not_finished_poll (ticks : Nat) (pool : PoolInner K T) :
    (task.poll now ticks (some pool)).1 = false := by
  induction ticks generalizing pool with
  | zero => rfl
  | succ ticks ih => exact ih _

end Loop

-- ============================================================= the states

/-- The task a pool of this interval is built with. -/
def taskOf (dur : Nat) : IdleTask where
  interval := max dur minInterval
  idleDur := dur

theorem taskOf_interval_pos (dur : Nat) : 0 < (taskOf dur).interval :=
  Nat.lt_of_lt_of_le (by decide) (Nat.le_max_right dur minInterval)

variable [DecidableEq K] {timer : Ticker ι} {dur : Nat}

/-- What holds of the timer in every state. -/
structure Timed.Armed (s : Timed K T ι) (timer : Ticker ι) (dur : Nat) :
    Prop where
  task : ∀ task, s.world.idleTask = some task → task = taskOf dur
  running : s.world.pool.isSome → s.world.idleTask.isSome
  period : timer.period s.interval = (taskOf dur).interval
  soon : timer.deadline s.interval
    ≤ s.world.now + (taskOf dur).interval
  swept : ∀ k, ∀ e ∈ s.world.queue k, timer.deadline s.interval
    ≤ e.idleAt + dur + (taskOf dur).interval

/-- How a poll of the idle task turns out. -/
structure Timed.Wakes (s : Timed K T ι) (timer : Ticker ι)
    (task : IdleTask) (r : Woken K T ι) : Prop where
  /-- It returns, whatever the number of turns it is given beyond these. -/
  returns : ∀ turns, s.world.now + 1 < turns →
    task.pollLoop timer s.world.now turns s.interval s.world.pool = some r
  /-- When the pool is gone the task ends. -/
  gone : s.world.pool = none →
    r = { finished := true, interval := s.interval, shared := none,
          dropped := [] }
  /-- A task that goes on has armed its timer for later, within a
  period. -/
  goes_on : s.world.pool.isSome → r.finished = false
    ∧ s.world.now < timer.deadline r.interval
    ∧ timer.deadline r.interval ≤ s.world.now + task.interval
  period : timer.period r.interval = timer.period s.interval
  /-- Without a tick the timer is as it was. -/
  kept : s.world.now < timer.deadline s.interval →
    r.interval = s.interval
  /-- When a tick was due, what is left has not expired. -/
  swept : ∀ k, sharedQueue r.shared k
    = if s.world.now < timer.deadline s.interval then s.world.queue k
      else (s.world.queue k).filter fun e =>
        !e.expired s.world.now task.idleDur

variable {s s' : Timed K T ι}

/-- A poll of the idle task ends, and turns out so. -/
theorem Timed.Armed.wakes (hl : timer.Lawful) (ha : s.Armed timer dur) :
    ∃ r, s.Wakes timer (taskOf dur) r := by
  cases hpool : s.world.pool with
  | none =>
      refine ⟨⟨true, s.interval, none, []⟩, ?_, fun _ => rfl, ?_, rfl,
        fun _ => rfl, ?_⟩
      · intro turns hturns
        obtain ⟨turns, rfl⟩ := Nat.exists_eq_succ_of_ne_zero
          (Nat.ne_of_gt (Nat.lt_of_le_of_lt (Nat.zero_le _) hturns))
        rw [hpool]
        exact pollLoop_none
      · intro hsome
        rw [hpool] at hsome
        cases hsome
      · intro k
        have hnil : s.world.queue k = [] := by
          rw [World.queue, hpool]
          rfl
        rw [hnil]
        split <;> rfl
  | some pool =>
      have hpos : 0 < timer.period s.interval := by
        rw [ha.period]
        exact taskOf_interval_pos dur
      obtain ⟨ticks, interval, hdrain, hd⟩ :=
        Ticker.drain_eq_some s.world.now (s.world.now + 2) hl hpos
          (by omega)
      refine ⟨(taskOf dur).ticked s.world.now (some pool)
        (ticks, interval), ?_, ?_, ?_, hd.period, hd.kept, ?_⟩
      · intro turns hturns
        rw [hpool, pollLoop_some, Ticker.drain_mono hdrain hturns]
        rfl
      · intro hnone
        rw [hpool] at hnone
        cases hnone
      · intro _
        refine ⟨not_finished_poll ticks pool, hd.later, ?_⟩
        have hsoon := hd.soon
        rw [ha.period] at hsoon
        exact Nat.le_trans hsoon (Nat.max_le.mpr ⟨ha.soon, Nat.le_refl _⟩)
      · intro k
        show sharedQueue
          ((taskOf dur).poll s.world.now ticks (some pool)).2.1 k = _
        rw [queue_poll, World.queue_of_pool hpool]
        simp only [hd.ticks_iff]

-- ============================================================ the steps

section Steps

variable [DecidableEq T] {w w' : World K T}

omit [DecidableEq T] in
/-- `get` leaves the idle task and the clock. -/
private theorem timing_get {k : K} {r : Option (Pooled K T)}
    (h : w.get k = some (w', r)) :
    w'.idleTask = w.idleTask ∧ w'.now = w.now := by
  unfold World.get at h
  split at h
  next pool hpool =>
    dsimp only at h
    split at h <;> (cases h; exact ⟨rfl, rfl⟩)
  next => cases h

/-- Only a sweep concerns the idle task, and only a tick the clock. -/
theorem timing_step {a : Action K T} (h : w.step a = some w')
    (ha : a.sweeps = false) :
    w'.idleTask = w.idleTask
      ∧ ((∃ dt, a = .tick dt ∧ w'.now = w.now + dt)
        ∨ w'.now = w.now) := by
  cases a with
  | tick dt =>
      cases h
      exact ⟨rfl, Or.inl ⟨dt, rfl, rfl⟩⟩
  | link k c =>
      obtain ⟨-, rfl⟩ := World.link_eq_some h
      exact ⟨rfl, Or.inr rfl⟩
  | put k c =>
      obtain ⟨pool, -, -, rfl⟩ := World.put_eq_some h
      exact ⟨rfl, Or.inr rfl⟩
  | get k =>
      obtain ⟨⟨w₁, r⟩, hget, rfl⟩ := Option.map_eq_some_iff.mp h
      obtain ⟨htask, hnow⟩ := timing_get hget
      exact ⟨htask, Or.inr hnow⟩
  | drop hd isOpen =>
      obtain ⟨p, -, rfl⟩ := World.drop_eq_some h
      exact ⟨rfl, Or.inr rfl⟩
  | clearExpired dur => cases ha
  | pollIdle ticks => cases ha
  | dropPool =>
      obtain ⟨pool, -, rfl⟩ := World.dropPool_eq_some h
      exact ⟨rfl, Or.inr rfl⟩
  | connect k =>
      obtain ⟨⟨w₁, r⟩, hconn, rfl⟩ := Option.map_eq_some_iff.mp h
      obtain ⟨w₂, hget, heq, -⟩ := World.connect_eq_some hconn
      obtain ⟨htask, hnow⟩ := timing_get hget
      dsimp only at heq ⊢
      rw [heq]
      exact ⟨htask, Or.inr hnow⟩
  | connected k c =>
      obtain ⟨-, rfl⟩ := World.link_eq_some (World.connected_eq_some h)
      exact ⟨rfl, Or.inr rfl⟩
  | connectFailed k =>
      rw [World.connectFailed_eq_some h]
      exact ⟨rfl, Or.inr rfl⟩

/-- The users' part of a step. -/
theorem Timed.pool_eq_some {a : Action K T}
    (h : s.step timer (.pool a) = some s') :
    a.sweeps = false ∧ ∃ w', s.world.step a = some w'
      ∧ s' = { s with world := w' } := by
  simp only [Timed.step] at h
  split at h
  next => cases h
  next ha =>
    obtain ⟨w', hw, rfl⟩ := Option.map_eq_some_iff.mp h
    exact ⟨by simpa using ha, w', hw, rfl⟩

omit [DecidableEq K] [DecidableEq T] in
/-- A poll of the idle task. -/
theorem Timed.wake_eq_some (h : s.wake timer = some s') :
    ∃ task r, s.world.idleTask = some task
      ∧ task.pollLoop timer s.world.now (s.world.now + 2) s.interval
          s.world.pool = some r
      ∧ s' = s.woken task r := by
  unfold Timed.wake at h
  split at h
  next task htask =>
    obtain ⟨r, hr, rfl⟩ := Option.map_eq_some_iff.mp h
    exact ⟨task, r, htask, hr, rfl⟩
  next => cases h

omit [DecidableEq K] [DecidableEq T] in
/-- A poll of the idle task is one of the polls `World` allows. -/
theorem Timed.pollIdle_of_wake (h : s.wake timer = some s') :
    ∃ ticks, s.world.pollIdle ticks = some s'.world := by
  obtain ⟨task, r, htask, hr, rfl⟩ := Timed.wake_eq_some h
  unfold World.pollIdle
  cases hpool : s.world.pool with
  | none =>
      rw [hpool, pollLoop_none] at hr
      cases hr
      refine ⟨0, ?_⟩
      rw [htask]
      rfl
  | some pool =>
      rw [hpool, pollLoop_some] at hr
      obtain ⟨⟨ticks, interval⟩, -, rfl⟩ := Option.map_eq_some_iff.mp hr
      refine ⟨ticks, ?_⟩
      rw [htask]
      rfl

/-- Every step with the timer is a step of the pool's world. -/
theorem Timed.world_step {a : TimedAction K T}
    (h : s.step timer a = some s') :
    ∃ b, s.world.step b = some s'.world := by
  cases a with
  | pool a =>
      obtain ⟨-, w', hw, rfl⟩ := Timed.pool_eq_some h
      exact ⟨a, hw⟩
  | wake =>
      obtain ⟨ticks, hticks⟩ := Timed.pollIdle_of_wake h
      exact ⟨.pollIdle ticks, hticks⟩

/-- The runs with the timer are among the runs of the pool's world. -/
theorem world_reachable {maxIdle : Option Nat}
    (hr : (Timed.machine timer dur maxIdle).Reachable s) :
    (World.machine (some dur) maxIdle).Reachable s.world := by
  refine hr.invariant (I := fun s : Timed K T ι =>
    (World.machine (some dur) maxIdle).Reachable s.world) ?_ ?_
  · intro s hinit
    obtain ⟨now, rfl⟩ := hinit
    exact .init ⟨now, rfl⟩
  · intro s a s' _ ih _ h
    obtain ⟨b, hb⟩ := Timed.world_step h
    exact .step ih trivial hb

-- ======================================================== the invariant

omit [DecidableEq T] in
/-- A new pool is armed for its first tick, and has nothing to sweep. -/
theorem Timed.armed_new (hl : timer.Lawful) (now : Nat)
    (maxIdle : Option Nat) :
    (Timed.new timer now dur maxIdle : Timed K T ι).Armed timer dur where
  task := by
    intro task htask
    cases htask
    rfl
  running := fun _ => rfl
  period := hl.period_start _ _
  soon := by
    rw [Timed.new, hl.deadline_start]
    exact Nat.le_add_right _ _
  swept := by
    intro k e he
    have hnil : (World.new now (some dur) maxIdle : World K T).queue k
        = [] := by
      rw [World.queue_of_pool rfl]
      exact queue_newWithDropper maxIdle k
    rw [Timed.new, hnil] at he
    cases he

/-- What users do brings in entries of now, at most. -/
theorem Timed.Armed.pool_step {a : Action K T} {w' : World K T}
    (ha : s.Armed timer dur) (ho : s.world.Ordered)
    (h : s.world.step a = some w') (hsweep : a.sweeps = false) :
    ({ s with world := w' } : Timed K T ι).Armed timer dur := by
  obtain ⟨htask, -⟩ := timing_step h hsweep
  have hnow := (Pool.pool_step h).2
  refine ⟨?_, ?_, ha.period, ?_, ?_⟩
  · show ∀ task, w'.idleTask = some task → _
    rw [htask]
    exact ha.task
  · show w'.pool.isSome → w'.idleTask.isSome
    rw [htask]
    intro hsome
    refine ha.running (Option.isSome_iff_ne_none.mpr fun hnone => ?_)
    rw [pool_none_of_step h hnone] at hsome
    cases hsome
  · exact Nat.le_trans ha.soon (Nat.add_le_add_right hnow _)
  · intro k e he
    rcases queue_step ho h with hq | ⟨-, hnil⟩
    · obtain ⟨pre, post, new, hsplit, heq, hnew⟩ := hq k
      show timer.deadline s.interval ≤ _
      rw [show w'.queue k = post ++ new from heq] at he
      rcases List.mem_append.mp he with he | he
      · exact ha.swept k e (hsplit ▸ List.mem_append_right pre he)
      · rcases hnew with rfl | ⟨c, rfl⟩
        · cases he
        -- a new entry rests since now, and the deadline is a period off
        · have hat : e.idleAt = s.world.now := by
            rw [List.mem_singleton.mp he]
            rfl
          have := ha.soon
          omega
    · rw [show w'.queue k = [] from hnil k] at he
      cases he

omit [DecidableEq T] in
/-- A poll of the idle task arms the timer for later and leaves nothing
that should have been swept. -/
theorem Timed.Armed.woken (ha : s.Armed timer dur)
    {r : Woken K T ι} (hw : s.Wakes timer (taskOf dur) r) :
    (s.woken (taskOf dur) r).Armed timer dur := by
  refine ⟨?_, ?_, hw.period.trans ha.period, ?_, ?_⟩
  · intro task htask
    simp only [Timed.woken, Option.ite_none_left_eq_some,
      Option.some.injEq] at htask
    exact htask.2.symm
  · intro hsome
    cases hpool : s.world.pool with
    | none =>
        rw [Timed.woken, hw.gone hpool] at hsome
        cases hsome
    | some pool =>
        have hgoes := (hw.goes_on (by rw [hpool]; rfl)).1
        rw [Timed.woken, hgoes]
        rfl
  · cases hpool : s.world.pool with
    | none =>
        rw [Timed.woken, hw.gone hpool]
        exact ha.soon
    | some pool => exact (hw.goes_on (by rw [hpool]; rfl)).2.2
  · intro k e he
    have hleft : e ∈ sharedQueue r.shared k := he
    rw [hw.swept k] at hleft
    show timer.deadline r.interval ≤ _
    split at hleft
    -- no tick was due: the timer and the queues are as before
    next hpending =>
      rw [hw.kept hpending]
      exact ha.swept k e hleft
    next hdue =>
      obtain ⟨hin, hyoung⟩ := List.mem_filter.mp hleft
      have hsome : s.world.pool.isSome := by
        refine Option.isSome_iff_ne_none.mpr fun hnone => ?_
        rw [World.queue, hnone] at hin
        cases hin
      -- a tick was due: what is left is younger than the limit
      have hsoon := (hw.goes_on hsome).2.2
      simp only [Idle.expired, Bool.not_eq_true', decide_eq_false_iff_not]
        at hyoung
      have hdur : (taskOf dur).idleDur = dur := rfl
      omega

/-- In every run the timer is armed so. -/
theorem armed_of_reachable (hl : timer.Lawful) {maxIdle : Option Nat}
    (hr : (Timed.machine timer dur maxIdle).Reachable s) :
    s.Armed timer dur := by
  refine hr.invariant (I := fun s : Timed K T ι => s.Armed timer dur)
    ?_ ?_
  · intro s hinit
    obtain ⟨now, rfl⟩ := hinit
    exact Timed.armed_new hl now maxIdle
  · intro s a s' hr ha _ h
    cases a with
    | pool a =>
        obtain ⟨hsweep, w', hw, rfl⟩ :=
          Timed.pool_eq_some (show s.step timer (.pool a) = some s' from h)
        exact ha.pool_step (ordered_of_reachable (world_reachable hr)) hw
          hsweep
    | wake =>
        obtain ⟨task, r, htask, hloop, rfl⟩ :=
          Timed.wake_eq_some (show s.wake timer = some s' from h)
        obtain ⟨r', hw⟩ := ha.wakes hl
        rw [ha.task task htask] at hloop ⊢
        rw [hw.returns _ (Nat.lt_succ_self _), Option.some.injEq] at hloop
        rw [← hloop]
        exact ha.woken hw

-- ========================================================= the promises

/-- Every poll of the idle task ends: with the task when the pool is
gone; otherwise with the timer armed for later, within a period, and,
when a tick was due, with nothing expired left in any queue. -/
theorem idleTask_wakes (hl : timer.Lawful) {maxIdle : Option Nat}
    (hr : (Timed.machine timer dur maxIdle).Reachable s)
    {task : IdleTask} (htask : s.world.idleTask = some task) :
    ∃ r, s.Wakes timer task r
      ∧ s.step timer .wake = some (s.woken task r) := by
  have ha := armed_of_reachable hl hr
  obtain ⟨r, hw⟩ := ha.wakes hl
  have heq := ha.task task htask
  subst heq
  refine ⟨r, hw, ?_⟩
  show s.wake timer = _
  unfold Timed.wake
  rw [htask]
  show Option.map _ ((taskOf dur).pollLoop timer s.world.now _ _ _) = _
  rw [hw.returns _ (Nat.lt_succ_self _)]
  rfl

/-- A task that is polled one and a half periods late sweeps twice and
leaves nothing expired. -/
theorem idleTask_wakes_late :
    ∃ s : Timed Nat Nat (Nat × Nat),
      (Timed.machine Ticker.burst 1000000000 none).run
          (Timed.new Ticker.burst 0 1000000000 none)
          [.pool (.put 7 1), .pool (.tick 1500000000)] = some s
        ∧ s.world.queue 7 = [⟨1, 0⟩]
        ∧ ∃ s', s.step Ticker.burst .wake = some s'
          ∧ s'.world.queue 7 = [] := by
  obtain ⟨s, hrun, hobs⟩ := Option.map_eq_some_iff.mp
    (show ((Timed.machine Ticker.burst 1000000000 none).run
        (Timed.new Ticker.burst 0 1000000000 none : Timed Nat Nat _)
        [.pool (.put 7 1), .pool (.tick 1500000000)]).map
          (fun s => (s.world.queue 7, s.world.idleTask, s.interval.1,
            s.world.now))
      = some ([⟨1, 0⟩], some (taskOf 1000000000), 0, 1500000000) from rfl)
  simp only [Prod.mk.injEq] at hobs
  obtain ⟨hq, htask, hdead, hnow⟩ := hobs
  obtain ⟨r, hw, hstep⟩ := idleTask_wakes Ticker.burst_lawful
    (Machine.Reachable.run (.init ⟨0, rfl⟩) hrun) htask
  refine ⟨s, hrun, hq, _, hstep, ?_⟩
  show sharedQueue r.shared 7 = []
  rw [hw.swept 7, hq, hnow, show Ticker.burst.deadline s.interval = 0
    from hdead]
  decide

/-- How far an action moves the clock. -/
def TimedAction.elapsed : TimedAction K T → Nat
  | .pool (.tick dt) => dt
  | _ => 0

/-- The executor polls the idle task before the clock has passed its
deadline by more than `late`. -/
def Timely (timer : Ticker ι) (late : Nat) (s : Timed K T ι)
    (a : TimedAction K T) : Prop :=
  s.world.idleTask.isSome →
    s.world.now + a.elapsed ≤ timer.deadline s.interval + late

/-- Whether a step is timely can be decided. -/
instance (late : Nat) (s : Timed K T ι) (a : TimedAction K T) :
    Decidable (Timely timer late s a) := inferInstanceAs (Decidable (_ → _))

/-- In such runs the clock never passes the deadline further. -/
theorem now_le_of_timely (hl : timer.Lawful) {maxIdle : Option Nat}
    {late : Nat} (hr : (Timed.machine timer dur maxIdle).ReachableUnder
      (Timely timer late) s) :
    s.world.idleTask.isSome →
      s.world.now ≤ timer.deadline s.interval + late := by
  refine hr.invariant (I := fun s : Timed K T ι =>
    s.world.idleTask.isSome →
      s.world.now ≤ timer.deadline s.interval + late) ?_ ?_
  · intro s hinit _
    obtain ⟨now, rfl⟩ := hinit
    rw [Timed.new, hl.deadline_start]
    exact Nat.le_add_right _ _
  · intro s a s' hr ih hc h htask
    cases a with
    | pool a =>
        obtain ⟨hsweep, w', hw, rfl⟩ :=
          Timed.pool_eq_some (show s.step timer (.pool a) = some s' from h)
        obtain ⟨hkeep, hnow⟩ := timing_step hw hsweep
        dsimp only at htask ⊢
        rw [hkeep] at htask
        rcases hnow with ⟨dt, rfl, hnow⟩ | hnow
        · rw [hnow]
          exact hc htask
        · rw [hnow]
          exact ih htask
    | wake =>
        obtain ⟨task, r, htask', hloop, rfl⟩ :=
          Timed.wake_eq_some (show s.wake timer = some s' from h)
        have ha := armed_of_reachable hl hr.reachable
        obtain ⟨r', hw⟩ := ha.wakes hl
        rw [ha.task task htask', hw.returns _ (Nat.lt_succ_self _),
          Option.some.injEq] at hloop
        subst hloop
        cases hpool : s.world.pool with
        | none =>
            rw [Timed.woken, hw.gone hpool] at htask
            cases htask
        | some pool =>
            have hlater := (hw.goes_on (by rw [hpool]; rfl)).2.1
            exact Nat.le_trans (Nat.le_of_lt hlater) (Nat.le_add_right _ _)

/-- When the idle task is polled in time, nothing rests for longer than
the limit, a period and the lateness; nor is anything handed out that
did. -/
theorem rests_at_most (hl : timer.Lawful) {maxIdle : Option Nat}
    {late : Nat} (hr : (Timed.machine timer dur maxIdle).ReachableUnder
      (Timely timer late) s) :
    (∀ k, ∀ e ∈ s.world.queue k,
        s.world.now - e.idleAt ≤ dur + max dur minInterval + late)
      ∧ ∀ k w' p, s.world.get k = some (w', some p) →
        ∃ e ∈ s.world.queue k, e.conn = p.value
          ∧ s.world.now - e.idleAt ≤ dur + max dur minInterval + late := by
  have hrest : ∀ k, ∀ e ∈ s.world.queue k,
      s.world.now - e.idleAt ≤ dur + max dur minInterval + late := by
    intro k e he
    have ha := armed_of_reachable hl hr.reachable
    have hsome : s.world.pool.isSome := by
      refine Option.isSome_iff_ne_none.mpr fun hnone => ?_
      rw [World.queue, hnone] at he
      cases he
    have hnow := now_le_of_timely hl hr (ha.running hsome)
    have hswept := ha.swept k e he
    have hperiod : (taskOf dur).interval = max dur minInterval := rfl
    omega
  refine ⟨hrest, fun k w' p hget => ?_⟩
  obtain ⟨pool, hgot⟩ := World.get_eq_some hget
  obtain ⟨e, he, hconn⟩ := List.mem_map.mp hgot.rested
  exact ⟨e, he, hconn, hrest k e he⟩

end Steps

/-- The bound is met: an entry just as old as the limit allows at a sweep
is still there a period later. -/
theorem rests_at_most_tight :
    ∃ s : Timed Nat Nat (Nat × Nat),
      (Timed.machine Ticker.burst 1000000000 none).ReachableUnder
          (Timely Ticker.burst 5) s
        ∧ s.world.now = 1000000000 + 1000000000 + 5
        ∧ s.world.queue 7 = [⟨1, 0⟩]
        ∧ ∀ e ∈ s.world.queue 7, s.world.now - e.idleAt
          ≤ 1000000000 + max 1000000000 minInterval + 5 := by
  have hinit : (Timed.machine Ticker.burst 1000000000 none).init
      (Timed.new Ticker.burst 0 1000000000 none : Timed Nat Nat _) :=
    ⟨0, rfl⟩
  obtain ⟨s, hrun, hobs⟩ := Option.map_eq_some_iff.mp
    (show ((Timed.machine Ticker.burst 1000000000 none).run
        (Timed.new Ticker.burst 0 1000000000 none : Timed Nat Nat _)
        [.wake, .pool (.put 7 1), .pool (.tick 1000000000), .wake,
          .pool (.tick 1000000005)]).map
          (fun s => (s.world.queue 7, s.world.now))
      = some ([⟨1, 0⟩], 2000000005) from by decide +kernel)
  simp only [Prod.mk.injEq] at hobs
  have hr : (Timed.machine Ticker.burst 1000000000 none).ReachableUnder
      (Timely Ticker.burst 5) s :=
    .along (.init hinit) (by decide +kernel) hrun
  exact ⟨s, hr, by rw [hobs.2], hobs.1,
    (rests_at_most Ticker.burst_lawful hr).1 7⟩

end MonoioTransports.Pool
