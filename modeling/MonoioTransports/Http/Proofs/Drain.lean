/-
The loop of `HyperH1Connector::connect` drains dead connections, keeps
the rest and terminates.

# Why it terminates

Every pass of the body takes one entry off the queue. The handle of a
connection that is passed over is dropped inside the loop, and its
destructor would put an open connection back into the very queue; but
what is passed over is not open any more, so nothing comes back, and one
pass for each entry of the queue is enough (`whileGet_spec`).

# Two uses

The step function of the machine runs the loop from one await to the
next, passing over what is closed; `hyperH1Connect` runs it to the end,
passing over what does not become ready too. `whileGet_spec` is about
both.
-/
import MonoioTransports.Http.HyperH1
import MonoioTransports.Pool.Proofs.Limits

namespace MonoioTransports.Http

open Lib Pool

variable {K C : Type} [DecidableEq K]

-- ============================================================== one pass

/-- What the loop leaves alone while it discards `gone` from the queue
of a key. -/
structure Passed (key : K) (w w' : World K C) (gone : List C) : Prop where
  alive : ∀ m, w.Alive m → w'.Alive m
  others : ∀ k, k ≠ key → w'.queue k = w.queue k
  now : w'.now = w.now
  entered : w'.entered = w.entered
  handles : ∀ h, h < w.nextHandle → w'.handles h = w.handles h
  next : w.nextHandle ≤ w'.nextHandle
  discarded : w'.discarded = w.discarded ++ gone

theorem Passed.trans {key : K} {w w₁ w' : World K C} {gone gone' : List C}
    (h : Passed key w w₁ gone) (h' : Passed key w₁ w' gone') :
    Passed key w w' (gone ++ gone') where
  alive := fun m hw => h'.alive m (h.alive m hw)
  others := fun k hk => (h'.others k hk).trans (h.others k hk)
  now := h'.now.trans h.now
  entered := h'.entered.trans h.entered
  handles := fun hd hlt =>
    (h'.handles hd (Nat.lt_of_lt_of_le hlt h.next)).trans
      (h.handles hd hlt)
  next := Nat.le_trans h.next h'.next
  discarded := by
    rw [h'.discarded, h.discarded, List.append_assoc]

/-- `get` on an empty queue finds nothing. -/
theorem get_of_nil {w : World K C} {m : Nat} {key : K}
    (hw : w.Alive m) (hq : w.queue key = []) :
    ∃ w', w.get key = some (w', none) ∧ Passed key w w' []
      ∧ w'.queue key = [] := by
  obtain ⟨pool, hw, hmax, hdur⟩ := hw
  rw [World.queue_of_pool hw] at hq
  have hres : (pool.get w.now key).result = none := by
    rw [(get_eq pool w.now key).1, hq]
    rfl
  have hqueue : ∀ k, (pool.get w.now key).pool.queue k
      = if k = key then [] else pool.queue k := by
    intro k
    rw [queue_get, hq]
    rfl
  have hdrop : (pool.get w.now key).dropped = [] := by
    rw [(get_eq pool w.now key).2.1, hq]
    rfl
  refine ⟨w.settle (pool.get w.now key), ?_, ⟨?_, ?_, rfl, rfl,
    fun _ _ => rfl, Nat.le_refl _, ?_⟩, ?_⟩
  · unfold World.get
    rw [hw]
    simp only [hres]
  · intro m h
    obtain ⟨pool', hw', hmax', hdur'⟩ := h
    rw [hw] at hw'
    cases hw'
    exact ⟨_, rfl, (maxIdle_get ..).trans hmax',
      (idleDur_get ..).trans hdur'⟩
  · intro k hk
    rw [World.queue_of_pool rfl, World.queue_of_pool hw, hqueue,
      if_neg hk]
  · exact congrArg (w.discarded ++ ·) hdrop
  · rw [World.queue_of_pool rfl, hqueue, if_pos rfl]

/-- `get` takes the front of a queue, and issues a handle of it. -/
theorem get_of_cons {w : World K C} {m : Nat} {key : K}
    {idle : Idle C} {rest : List (Idle C)} (hw : w.Alive m)
    (hq : w.queue key = idle :: rest) :
    ∃ w', w.get key = some (w', some (Pooled.new key idle.conn true))
      ∧ Passed key w w' []
      ∧ w'.queue key = rest
      ∧ w'.handles w.nextHandle = some (Pooled.new key idle.conn true)
      ∧ w'.nextHandle = w.nextHandle + 1 := by
  obtain ⟨pool, hw, hmax, hdur⟩ := hw
  rw [World.queue_of_pool hw] at hq
  have hloop : getLoop w.now pool.idleDur (pool.queue key)
      = { conn := some idle.conn, rest := rest, dropped := [] } := by
    rw [hdur, getLoop_none, hq]
    rfl
  have hres : (pool.get w.now key).result
      = some (Pooled.new key idle.conn true) := by
    rw [(get_eq pool w.now key).1, hloop]
    rfl
  have hqueue : ∀ k, (pool.get w.now key).pool.queue k
      = if k = key then rest else pool.queue k := by
    intro k
    rw [queue_get, hloop]
  have hdrop : (pool.get w.now key).dropped = [] := by
    rw [(get_eq pool w.now key).2.1, hloop]
  refine ⟨(w.settle (pool.get w.now key)).issue
    (Pooled.new key idle.conn true), ?_, ⟨?_, ?_, rfl, rfl, ?_,
    Nat.le_succ _, ?_⟩, ?_, Function.update_self .., rfl⟩
  · unfold World.get
    rw [hw]
    simp only [hres]
  · intro m hex
    obtain ⟨pool', hw', hmax', hdur'⟩ := hex
    rw [hw] at hw'
    cases hw'
    exact ⟨_, rfl, (maxIdle_get ..).trans hmax',
      (idleDur_get ..).trans hdur'⟩
  · intro k hk
    rw [World.queue_of_pool rfl, World.queue_of_pool hw, hqueue,
      if_neg hk]
  · intro h hlt
    exact Function.update_of_ne (Nat.ne_of_lt hlt) ..
  · exact congrArg (w.discarded ++ ·) hdrop
  · rw [World.queue_of_pool rfl, hqueue, if_pos rfl]

/-- A `get` that finds nothing changes no queue. -/
theorem conns_of_get_none {w w' : World K C} {m : Nat} {key : K}
    (hw : w.Alive m) (h : w.get key = some (w', none)) (k : K) :
    w'.conns k = w.conns k := by
  cases hq : w.queue key with
  | nil =>
      obtain ⟨w₁, hget, hpass, hnil⟩ := get_of_nil hw hq
      rw [hget] at h
      cases h
      by_cases hk : k = key
      · rw [World.conns, World.conns, hk, hnil, hq]
      · rw [World.conns, World.conns, hpass.others k hk]
  | cons idle rest =>
      obtain ⟨w₁, hget, -⟩ := get_of_cons hw hq
      rw [hget] at h
      cases h

/-- One pass over a connection that is not open any more: its handle is
dropped, and it goes for good. -/
theorem pass_of_cons {w : World K C} {m : Nat} {key : K}
    {idle : Idle C} {rest : List (Idle C)} (hw : w.Alive m)
    (hq : w.queue key = idle :: rest) :
    ∃ w₁ w₂, w.get key = some (w₁, some (Pooled.new key idle.conn true))
      ∧ w₁.drop w.nextHandle false = some w₂
      ∧ Passed key w w₂ [idle.conn]
      ∧ w₂.queue key = rest := by
  obtain ⟨w₁, hget, hpass, hrest, hheld, hnext⟩ := get_of_cons hw hq
  refine ⟨w₁, { w₁ with
    handles := Function.update w₁.handles w.nextHandle none
    discarded := w₁.discarded ++ [idle.conn] }, hget, ?_, ?_, hrest⟩
  · unfold World.drop
    rw [hheld]
    rfl
  · refine ⟨hpass.alive, hpass.others, hpass.now, hpass.entered, ?_,
      hpass.next, ?_⟩
    · intro h hlt
      exact (Function.update_of_ne (Nat.ne_of_lt hlt) ..).trans
        (hpass.handles h hlt)
    · exact congrArg (· ++ [idle.conn])
        (hpass.discarded.trans (List.append_nil _))

-- ============================================================== the loop

section Equations

variable {passes isOpen : C → Bool} {key : K} {w w₁ w₂ : World K C}
  {pooled : Pooled K C}

theorem whileGet_of_none (hget : w.get key = some (w₁, none))
    (fuel : Nat) :
    whileGet passes isOpen key fuel w
      = some { world := w₁, pooled := none, iterations := 0 } := by
  unfold whileGet
  rw [hget]

theorem whileGet_of_stop (hget : w.get key = some (w₁, some pooled))
    (hstop : passes pooled.value = false) (fuel : Nat) :
    whileGet passes isOpen key (fuel + 1) w
      = some { world := w₁, pooled := some w.nextHandle,
               iterations := 1 } := by
  unfold whileGet
  simp only [hget, hstop, Bool.false_eq_true, if_false]

theorem whileGet_of_pass (hget : w.get key = some (w₁, some pooled))
    (hpass : passes pooled.value = true)
    (hdrop : w₁.drop w.nextHandle (isOpen pooled.value) = some w₂)
    (fuel : Nat) :
    whileGet passes isOpen key (fuel + 1) w
      = (whileGet passes isOpen key fuel w₂).map fun r =>
          { r with iterations := r.iterations + 1 } := by
  rw [whileGet, hget]
  simp only [hpass, if_true, hdrop]

end Equations

/-- What the loop comes to: nothing left, or the first connection that
is not passed over, with what was behind it. -/
inductive Drains (passes : C → Bool) (key : K) (w : World K C)
    (r : Drained K C) : Prop
  | empty (hall : ∀ e ∈ w.queue key, passes e.conn = true)
      (hpass : Passed key w r.world (w.conns key))
      (hnone : r.pooled = none) (hnil : r.world.queue key = [])
      (hiter : r.iterations = (w.queue key).length)
  | found (pre : List (Idle C)) (idle : Idle C) (rest : List (Idle C))
      (h : Nat) (hq : w.queue key = pre ++ idle :: rest)
      (hpre : ∀ e ∈ pre, passes e.conn = true)
      (hidle : passes idle.conn = false)
      (hpass : Passed key w r.world (pre.map Idle.conn))
      (hpooled : r.pooled = some h) (hnew : w.nextHandle ≤ h)
      (hheld : r.world.handles h = some (Pooled.new key idle.conn true))
      (hrest : r.world.queue key = rest)
      (hiter : r.iterations = pre.length + 1)

/-- The loop returns with one pass for each entry of the queue, when
what it passes over is not open any more. -/
theorem whileGet_spec {passes isOpen : C → Bool}
    (hclosed : ∀ c, passes c = true → isOpen c = false) (key : K)
    (q : List (Idle C)) :
    ∀ (w : World K C) (m : Nat), w.Alive m → w.queue key = q →
      ∀ fuel, q.length ≤ fuel →
        ∃ r, whileGet passes isOpen key fuel w = some r
          ∧ Drains passes key w r := by
  induction q with
  | nil =>
      intro w m hw hq fuel hfuel
      obtain ⟨w', hget, hpass, hnil⟩ := get_of_nil hw hq
      refine ⟨_, whileGet_of_none hget fuel, ?_⟩
      · refine .empty ?_ ?_ rfl hnil ?_
        · rw [hq]
          exact List.forall_mem_nil _
        · rw [World.conns, hq]
          exact hpass
        · rw [hq]
          rfl
  | cons idle rest ih =>
      intro w m hw hq fuel hfuel
      obtain ⟨fuel, rfl⟩ : ∃ n, fuel = n + 1 := by
        cases fuel with
        | zero => simp at hfuel
        | succ n => exact ⟨n, rfl⟩
      have hlen : rest.length ≤ fuel := by simpa using hfuel
      -- the front is taken, or passed over: then it is gone for good, for
      -- its drop finds it closed, and the rest is by induction
      cases hidle : passes idle.conn with
      | false =>
          obtain ⟨w₁, hget, hpass, hrest, hheld, hnext⟩ :=
            get_of_cons hw hq
          exact ⟨_, whileGet_of_stop hget hidle fuel,
            .found [] idle rest w.nextHandle hq (List.forall_mem_nil _)
              hidle hpass rfl (Nat.le_refl _) hheld hrest rfl⟩
      | true =>
          obtain ⟨w₁, w₂, hget, hdrop, hpass, hrest⟩ :=
            pass_of_cons hw hq
          obtain ⟨r, hloop, hr⟩ :=
            ih w₂ m (hpass.alive m hw) hrest fuel hlen
          refine ⟨{ r with iterations := r.iterations + 1 }, ?_, ?_⟩
          · have hopen : isOpen idle.conn = false := hclosed _ hidle
            rw [whileGet_of_pass hget hidle (hopen ▸ hdrop), hloop]
            rfl
          · cases hr with
            | empty hall hpass' hnone hnil hiter =>
                refine .empty ?_ ?_ hnone hnil ?_
                · rw [hq, List.forall_mem_cons, ← hrest]
                  exact ⟨hidle, hall⟩
                · rw [World.conns, hq, ← hrest]
                  exact hpass.trans hpass'
                · rw [hq, List.length_cons, ← hrest]
                  exact congrArg (· + 1) hiter
            | found pre idle' rest' h hq' hpre hidle' hpass' hpooled hnew
                hheld hrest' hiter =>
                refine .found (idle :: pre) idle' rest' h ?_ ?_ hidle'
                  (hpass.trans hpass') hpooled
                  (Nat.le_trans hpass.next hnew) hheld hrest' ?_
                · rw [hq, ← hrest, hq']
                  rfl
                · rw [List.forall_mem_cons]
                  exact ⟨hidle, hpre⟩
                · exact congrArg (· + 1) hiter

end MonoioTransports.Http
