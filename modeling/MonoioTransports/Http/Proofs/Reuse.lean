/-
What a whole `HyperH1Connector::connect` returns, with nobody else at
the pool meanwhile.

# Two descriptions

`hyperH1Connect` is the function run to completion; what it comes to is
read off what the loop comes to (`Drains`). The machine of `HyperH1`
runs the same function from await to await; `run_connect` says that the
call's own steps, in the order the pooled connections dictate
(`Fates.script`), end where `hyperH1Connect` ends, so that the promise
(`drains_and_keeps`) is about both. The induction is on the queue: a
connection costs the machine no step when it is closed already, one when
it is ready, and two when its `ready` fails, for it closes first.
-/
import MonoioTransports.Http.Proofs.HyperH1Transition

namespace MonoioTransports.Http

open Lib Pool

variable {K C : Type}

-- ============================================================= the fates

/-- A connection that `connect` returns when it comes to it. -/
def Fates.usable (fates : Fates C) (c : C) : Bool :=
  !fates.isClosed c && fates.ready c

/-- What hyper promises: a connection whose `ready` failed is closed,
and a closed one stays so. -/
structure Fates.Lawful (fates : Fates C) : Prop where
  closed : ∀ c, fates.isClosed c = true → fates.closedAfter c = true
  failed : ∀ c, fates.isClosed c = false → fates.ready c = false →
    fates.closedAfter c = true

/-- The body of the loop passes over what is not usable. -/
theorem Fates.passes_eq (fates : Fates C) (c : C) :
    (if !fates.isClosed c then !fates.ready c else true)
      = !fates.usable c := by
  unfold Fates.usable
  cases fates.isClosed c with
  | true => rfl
  | false => rfl

/-- What is passed over is closed when its handle is dropped. -/
theorem Fates.Lawful.closedAfter {fates : Fates C} (hf : fates.Lawful)
    {c : C} (hc : fates.usable c = false) :
    fates.closedAfter c = true := by
  cases hclosed : fates.isClosed c with
  | true => exact hf.closed c hclosed
  | false =>
      refine hf.failed c hclosed ?_
      simpa [Fates.usable, hclosed] using hc

variable [DecidableEq K] [DecidableEq C] {w : World K C} {m : Nat}
  {fates : Fates C} {fresh : Option C} {key : K} {fuel : Nat}

/-- The loop of a whole call. -/
def Fates.loop (fates : Fates C) (key : K) (fuel : Nat) (w : World K C) :
    Option (Drained K C) :=
  whileGet (fun c => !fates.usable c) (fun c => !fates.closedAfter c) key
    fuel w

/-- The end of a whole call, from what the loop came to. -/
def connectEnd (fresh : Option C) (key : K) (r : Drained K C) :
    Option (HyperH1Run K C) :=
  match r.pooled, fresh with
  | some h, _ =>
      some { world := r.world, returned := some h,
             iterations := r.iterations, attempts := [] }
  | none, none =>
      some { world := r.world, returned := none,
             iterations := r.iterations, attempts := [key] }
  | none, some c =>
      (r.world.link key c).map fun w =>
        { world := w, returned := some r.world.nextHandle,
          iterations := r.iterations, attempts := [key] }

theorem hyperH1Connect_eq (fates : Fates C) (fresh : Option C) (key : K)
    (fuel : Nat) (w : World K C) :
    hyperH1Connect fates fresh key fuel w
      = (fates.loop key fuel w).bind (connectEnd fresh key) := by
  unfold hyperH1Connect Fates.loop connectEnd
  simp only [Fates.passes_eq]
  cases whileGet (fun c => !fates.usable c) (fun c => !fates.closedAfter c)
      key fuel w with
  | none => rfl
  | some r => rfl

omit [DecidableEq C] in
/-- The loop of a whole call returns, having taken off what is not
usable. -/
theorem Fates.loop_spec (hw : w.Alive m) (hf : fates.Lawful)
    (hfuel : (w.queue key).length ≤ fuel) :
    ∃ r, fates.loop key fuel w = some r
      ∧ Drains (fun c => !fates.usable c) key w r := by
  refine whileGet_spec ?_ key (w.queue key) w m hw rfl fuel hfuel
  intro c hc
  rw [hf.closedAfter (by simpa using hc)]
  rfl

section Loop

variable {w₁ w₂ : World K C} {pooled : Pooled K C}

omit [DecidableEq C] in
/-- The loop of a whole call stops at a usable connection. -/
theorem Fates.loop_of_usable (hget : w.get key = some (w₁, some pooled))
    (husable : fates.usable pooled.value = true) (fuel : Nat) :
    fates.loop key (fuel + 1) w
      = some { world := w₁, pooled := some w.nextHandle,
               iterations := 1 } := by
  have hstop : (!fates.usable pooled.value) = false := by
    rw [husable]
    rfl
  exact whileGet_of_stop hget hstop fuel

omit [DecidableEq C] in
/-- It passes over another one, which is closed when it is dropped. -/
theorem Fates.loop_of_dead (hf : fates.Lawful)
    (hget : w.get key = some (w₁, some pooled))
    (hdead : fates.usable pooled.value = false)
    (hdrop : w₁.drop w.nextHandle false = some w₂) (fuel : Nat) :
    fates.loop key (fuel + 1) w
      = (fates.loop key fuel w₂).map fun r =>
          { r with iterations := r.iterations + 1 } := by
  have hpass : (!fates.usable pooled.value) = true := by
    rw [hdead]
    rfl
  have hopen : (!fates.closedAfter pooled.value) = false := by
    rw [hf.closedAfter hdead]
    rfl
  exact whileGet_of_pass hget hpass (hopen.symm ▸ hdrop) fuel

end Loop

-- ======================================================= the whole call

/-- What a call comes to: the first usable connection, or one attempt to
connect when there is none. What stood before it is discarded, what
stands behind it stays. -/
inductive Drained.Outcome (fates : Fates C) (key : K) (w : World K C)
    (run : HyperH1Run K C) : Prop
  | reused (pre : List (Idle C)) (idle : Idle C) (rest : List (Idle C))
      (h : Nat) (hq : w.queue key = pre ++ idle :: rest)
      (hpre : ∀ e ∈ pre, fates.usable e.conn = false)
      (hidle : fates.usable idle.conn = true)
      (hreturned : run.returned = some h)
      (hheld : run.world.handles h
        = some (Pooled.new key idle.conn true))
      (hrest : run.world.queue key = rest)
      (hgone : run.world.discarded = w.discarded ++ pre.map Idle.conn)
      (hattempts : run.attempts = [])
  | connected (hall : ∀ e ∈ w.queue key, fates.usable e.conn = false)
      (hnil : run.world.queue key = [])
      (hgone : run.world.discarded = w.discarded ++ w.conns key)
      (hattempts : run.attempts = [key])

/-- `connect` returns, after one pass for each entry of the queue at
most; it drains what is dead and keeps the rest. -/
theorem hyperH1Connect_spec (hw : w.Alive m) (hf : fates.Lawful)
    (hfresh : ∀ c, fresh = some c → w.Fresh c)
    (hfuel : (w.queue key).length ≤ fuel) :
    ∃ run, hyperH1Connect fates fresh key fuel w = some run
      ∧ run.iterations ≤ (w.queue key).length
      ∧ (∀ k, k ≠ key → run.world.queue k = w.queue k)
      ∧ Drained.Outcome fates key w run := by
  obtain ⟨r, hloop, hr⟩ := Fates.loop_spec hw hf hfuel
  rw [hyperH1Connect_eq, hloop, Option.bind_some]
  cases hr with
  | empty hall hpass hnone hnil hiter =>
      have hall' : ∀ e ∈ w.queue key, fates.usable e.conn = false := by
        intro e he
        simpa using hall e he
      cases hnew : fresh with
      | none =>
          refine ⟨{ world := r.world, returned := none,
                    iterations := r.iterations, attempts := [key] },
            ?_, Nat.le_of_eq hiter, hpass.others,
            .connected hall' hnil hpass.discarded rfl⟩
          simp only [connectEnd, hnone]
      | some c =>
          have hfresh' : r.world.Fresh c := by
            rw [World.Fresh, hpass.entered]
            exact hfresh c hnew
          obtain ⟨pool, hpool, -⟩ := hpass.alive m hw
          have hlink : r.world.link key c
              = some ({ r.world with
                  entered := (key, c) :: r.world.entered }.issue
                    (Pool.link key c)) := by
            refine if_pos ⟨?_, hfresh'⟩
            rw [hpool]
            rfl
          refine ⟨{ world := { r.world with
                      entered := (key, c) :: r.world.entered }.issue
                        (Pool.link key c)
                    returned := some r.world.nextHandle
                    iterations := r.iterations, attempts := [key] },
            ?_, Nat.le_of_eq hiter, hpass.others,
            .connected hall' hnil hpass.discarded rfl⟩
          simp only [connectEnd, hnone, hlink, Option.map_some]
  | found pre idle rest h hq hpre hidle hpass hpooled hnew hheld hrest
      hiter =>
      refine ⟨{ world := r.world, returned := some h,
                iterations := r.iterations, attempts := [] },
        ?_, ?_, hpass.others,
        .reused pre idle rest h hq ?_ (by simpa using hidle) rfl hheld
          hrest hpass.discarded rfl⟩
      · simp only [connectEnd, hpooled]
      · show r.iterations ≤ _
        rw [hq, hiter, List.length_append, List.length_cons]
        omega
      · intro e he
        simpa using hpre e he

-- ====================================================== await by await

/-- The steps of a call that has started, in the order the pooled
connections of its key dictate. -/
def Fates.script (fates : Fates C) (fresh : Option C) (t : Nat) :
    List (Idle C) → List (HyperH1Action K C)
  | [] => [.connected t true, .handshake t fresh]
  | idle :: rest =>
      if fates.isClosed idle.conn then fates.script fresh t rest
      else if fates.ready idle.conn then [.ready t true]
      else .closed idle.conn :: .ready t false :: fates.script fresh t rest

omit [DecidableEq K] [DecidableEq C] in
/-- What a state and a whole call have in common at the end. -/
def HyperH1Run.Matches (run : HyperH1Run K C)
    (s : HyperH1Connector K C) : Prop :=
  s.world = run.world ∧ s.returned = run.returned

variable {s : HyperH1Connector K C} {t : Nat}

/-- A call that finds nothing goes on to the underlying connector. -/
theorem run_of_nil (idleInterval maxIdle : Option Nat)
    {run : HyperH1Run K C} (hcall : s.calls t = some (.underlying key))
    {n : Nat} (hend : connectEnd fresh key
      { world := s.world, pooled := none, iterations := n } = some run) :
    ∃ s', (HyperH1Connector.machine idleInterval maxIdle).run s
        [.connected t true, .handshake t fresh] = some s'
      ∧ run.Matches s' := by
  have hstep : s.step (.connected t true)
      = some (s.goTo t (some (.handshake key))) := by
    simp only [HyperH1Connector.step, HyperH1Connector.connected, hcall,
      Bool.not_true, Bool.false_eq_true, if_false]
  have hcall' : (s.goTo t (some (.handshake key))).calls t
      = some (.handshake key) := Function.update_self ..
  cases fresh with
  | none =>
      cases hend
      refine ⟨(s.goTo t (some (.handshake key))).goTo t none,
        Machine.run_cons_eq_some.mpr ⟨_, hstep,
          Machine.run_singleton ?_⟩, ⟨rfl, rfl⟩⟩
      show HyperH1Connector.handshake _ t none = _
      simp only [HyperH1Connector.handshake, hcall']
  | some c =>
      obtain ⟨w, hlink, rfl⟩ := Option.map_eq_some_iff.mp hend
      refine ⟨{ s.goTo t (some (.handshake key)) with world := w }.finish
        t s.world.nextHandle, Machine.run_cons_eq_some.mpr ⟨_, hstep,
          Machine.run_singleton ?_⟩, ⟨rfl, rfl⟩⟩
      show HyperH1Connector.handshake _ t (some c) = _
      have hlink' : (s.goTo t (some (.handshake key))).world.link key c
          = some w := hlink
      simp only [HyperH1Connector.handshake, hcall', hlink',
        Option.map_some]
      rfl

omit [DecidableEq K] in
/-- The end of a call does not depend on the count. -/
theorem connectEnd_iterations {r : Drained K C} {n : Nat}
    {run : HyperH1Run K C}
    (hend : connectEnd fresh key { r with iterations := n } = some run) :
    ∃ run', connectEnd fresh key r = some run'
      ∧ run'.world = run.world ∧ run'.returned = run.returned := by
  cases hp : r.pooled with
  | some h =>
      simp only [connectEnd, hp, Option.some.injEq] at hend ⊢
      exact ⟨_, rfl, hend ▸ rfl, hend ▸ rfl⟩
  | none =>
      cases fresh with
      | none =>
          simp only [connectEnd, hp, Option.some.injEq] at hend ⊢
          exact ⟨_, rfl, hend ▸ rfl, hend ▸ rfl⟩
      | some c =>
          simp only [connectEnd, hp] at hend ⊢
          obtain ⟨w, hlink, rfl⟩ := Option.map_eq_some_iff.mp hend
          rw [hlink]
          exact ⟨_, rfl, rfl, rfl⟩

omit [DecidableEq C] in
/-- A closed connection costs the call no step. -/
theorem scan_of_pass {w₁ w₂ : World K C} {pooled : Pooled K C}
    (hget : s.world.get key = some (w₁, some pooled))
    (hclosed : s.closed pooled.value = true)
    (hdrop : w₁.drop s.world.nextHandle false = some w₂)
    (hlen : (s.world.queue key).length = (w₂.queue key).length + 1) :
    s.scan t key = { s with world := w₂ }.scan t key := by
  have hopen : s.isOpen pooled.value = false := by
    rw [HyperH1Connector.isOpen, hclosed]
    rfl
  have hsame : HyperH1Connector.isOpen { s with world := w₂ }
      = s.isOpen := rfl
  unfold HyperH1Connector.scan
  rw [hlen, whileGet_of_pass hget hclosed (hopen.symm ▸ hdrop), hsame]
  cases whileGet s.closed s.isOpen key (w₂.queue key).length w₂ with
  | none => rfl
  | some r => rfl

omit [DecidableEq C] in
/-- An open one is awaited. -/
theorem scan_of_stop {w₁ : World K C} {pooled : Pooled K C}
    (hget : s.world.get key = some (w₁, some pooled))
    (hopen : s.closed pooled.value = false)
    {n : Nat} (hlen : (s.world.queue key).length = n + 1) :
    s.scan t key = some ({ s with world := w₁ }.goTo t
      (some (.ready key s.world.nextHandle))) := by
  unfold HyperH1Connector.scan
  rw [hlen, whileGet_of_stop hget hopen]

/-- A connection whose `ready` succeeds is returned. -/
theorem step_of_ready {h : Nat} (hcall : s.calls t = some (.ready key h)) :
    s.step (.ready t true) = some (s.finish t h) := by
  show s.ready t true = _
  simp only [HyperH1Connector.ready, hcall, if_true]

/-- A connection whose `ready` fails closes, its handle is dropped, and
the loop goes on. -/
theorem run_of_failed {idleInterval maxIdle : Option Nat} {c : C}
    {h : Nat} {w₂ : World K C} (hcall : s.calls t = some (.ready key h))
    (hheld : s.world.handles h = some (Pooled.new key c true))
    (hdrop : s.world.drop h false = some w₂)
    {s₁ s' : HyperH1Connector K C} {as : List (HyperH1Action K C)}
    (hscan : { s with closed := Function.update s.closed c true
                      returned := none
                      world := w₂ }.scan t key = some s₁)
    (hrun : (HyperH1Connector.machine idleInterval maxIdle).run s₁ as
      = some s') :
    (HyperH1Connector.machine idleInterval maxIdle).run s
      (.closed c :: .ready t false :: as) = some s' := by
  refine Machine.run_cons_eq_some.mpr ⟨_, rfl,
    Machine.run_cons_eq_some.mpr ⟨s₁, ?_, hrun⟩⟩
  show HyperH1Connector.ready _ t false = _
  have hopen : HyperH1Connector.isOpen { s with
      closed := Function.update s.closed c true
      returned := none } c = false := by
    simp [HyperH1Connector.isOpen]
  unfold HyperH1Connector.ready
  simp only [hcall, Bool.false_eq_true, if_false, hheld, Pooled.new,
    hopen, hdrop, hscan]

/-- From the loop on, the call's own steps end where the whole call
ends. -/
theorem run_scan (idleInterval maxIdle : Option Nat)
    (hf : fates.Lawful) (q : List (Idle C)) :
    ∀ (s : HyperH1Connector K C) (fuel : Nat) (r : Drained K C)
      (run : HyperH1Run K C), s.world.Alive m → s.world.queue key = q →
      (∀ e ∈ q, fates.isClosed e.conn = s.closed e.conn) →
      (q.map Idle.conn).Nodup → fates.loop key fuel s.world = some r →
      connectEnd fresh key r = some run →
      ∃ s₁ s', s.scan t key = some s₁
        ∧ (HyperH1Connector.machine idleInterval maxIdle).run s₁
          (fates.script fresh t q) = some s'
        ∧ run.Matches s' := by
  induction q with
  | nil =>
      intro s fuel r run hw hq _ _ hloop hend
      obtain ⟨w₁, hget, -, -⟩ := get_of_nil hw hq
      rw [Fates.loop, whileGet_of_none hget] at hloop
      cases hloop
      obtain ⟨s', hrun, hm⟩ := run_of_nil idleInterval maxIdle (t := t)
        (s := { s with world := w₁ }.goTo t (some (.underlying key)))
        (Function.update_self ..) hend
      refine ⟨_, s', ?_, hrun, hm⟩
      unfold HyperH1Connector.scan
      rw [whileGet_of_none hget]
  | cons idle rest ih =>
      intro s fuel r run hw hq hagree hnodup hloop hend
      obtain ⟨w₁, w₂, hget, hdrop, hpass, hrest⟩ := pass_of_cons hw hq
      have hw₂ := hpass.alive m hw
      obtain ⟨hnew, hnodup⟩ := List.nodup_cons.mp hnodup
      have hagree' := (List.forall_mem_cons.mp hagree).2
      have hidle : fates.isClosed idle.conn = s.closed idle.conn :=
        hagree idle List.mem_cons_self
      have hlen : (s.world.queue key).length
          = (w₂.queue key).length + 1 := by
        rw [hq, hrest]
        rfl
      cases fuel with
      | zero =>
          rw [Fates.loop, whileGet, hget] at hloop
          cases hloop
      | succ fuel =>
          cases husable : fates.usable idle.conn with
          | true =>
              rw [Fates.loop_of_usable hget husable] at hloop
              cases hloop
              cases hend
              obtain ⟨hopen, hready⟩ : fates.isClosed idle.conn = false
                  ∧ fates.ready idle.conn = true := by
                simpa [Fates.usable] using husable
              let s₁ := { s with world := w₁ }.goTo t
                (some (.ready key s.world.nextHandle))
              have hcall : s₁.calls t
                  = some (.ready key s.world.nextHandle) :=
                Function.update_self ..
              refine ⟨s₁, s₁.finish t s.world.nextHandle,
                scan_of_stop hget (hidle ▸ hopen) hlen, ?_, ⟨rfl, rfl⟩⟩
              rw [Fates.script, hopen, hready]
              exact Machine.run_singleton (step_of_ready hcall)
          | false =>
              -- both loops pass over it
              rw [Fates.loop_of_dead hf hget husable hdrop] at hloop
              obtain ⟨r, hloop', rfl⟩ := Option.map_eq_some_iff.mp hloop
              obtain ⟨run', hend', hworld, hreturned⟩ :=
                connectEnd_iterations hend
              cases hclosed : fates.isClosed idle.conn with
              | true =>
                  obtain ⟨s₁, s', hscan, hrun, hm⟩ :=
                    ih { s with world := w₂ } fuel r run' hw₂ hrest
                      hagree' hnodup hloop' hend'
                  refine ⟨s₁, s', ?_, ?_, ?_⟩
                  · rw [scan_of_pass hget (hidle ▸ hclosed) hdrop hlen]
                    exact hscan
                  · rw [Fates.script, if_pos hclosed]
                    exact hrun
                  · exact ⟨hm.1.trans hworld, hm.2.trans hreturned⟩
              | false =>
                  obtain ⟨w₁', hget', -, -, hheld, -⟩ := get_of_cons hw hq
                  rw [hget] at hget'
                  cases hget'
                  have hready : fates.ready idle.conn = false := by
                    simpa [Fates.usable, hclosed] using husable
                  let s₁ := { s with world := w₁ }.goTo t
                    (some (.ready key s.world.nextHandle))
                  have hagree₁ : ∀ e ∈ rest, fates.isClosed e.conn
                      = Function.update s.closed idle.conn true
                        e.conn := by
                    intro e he
                    have hne : e.conn ≠ idle.conn := fun heq =>
                      hnew (heq ▸ List.mem_map_of_mem he)
                    rw [hagree' e he, Function.update_of_ne hne]
                  obtain ⟨s₂, s', hscan, hrun, hm⟩ :=
                    ih { s₁ with
                        closed := Function.update s.closed idle.conn true
                        returned := none
                        world := w₂ }
                      fuel r run' hw₂ hrest hagree₁ hnodup hloop' hend'
                  refine ⟨s₁, s', scan_of_stop hget (hidle ▸ hclosed)
                    hlen, ?_, ?_⟩
                  · rw [Fates.script, hclosed, hready]
                    exact run_of_failed (s := s₁)
                      (Function.update_self ..) hheld hdrop hscan hrun
                  · exact ⟨hm.1.trans hworld, hm.2.trans hreturned⟩

/-- The call's own steps, one after the other, end where the whole call
ends. -/
theorem run_connect {idleInterval maxIdle : Option Nat}
    (hf : fates.Lawful) (hw : s.world.Alive m)
    (hagree : ∀ e ∈ s.world.queue key,
      fates.isClosed e.conn = s.closed e.conn)
    (hnodup : (s.world.conns key).Nodup) {run : HyperH1Run K C}
    (hrun : hyperH1Connect fates fresh key fuel s.world = some run) :
    ∃ s', (HyperH1Connector.machine idleInterval maxIdle).run s
        (.connect key :: fates.script fresh s.nextCall
          (s.world.queue key)) = some s'
      ∧ run.Matches s' := by
  rw [hyperH1Connect_eq] at hrun
  obtain ⟨r, hloop, hend⟩ := Option.bind_eq_some_iff.mp hrun
  obtain ⟨s₁, s', hscan, hsteps, hm⟩ := run_scan (m := m)
    (t := s.nextCall) idleInterval maxIdle hf (s.world.queue key)
    { s with nextCall := s.nextCall + 1 } fuel r run hw rfl hagree hnodup
    hloop hend
  exact ⟨s', Machine.run_cons_eq_some.mpr ⟨s₁, hscan, hsteps⟩, hm⟩

-- ============================================================ the promise

/-- `connect` returns, after one pass for each entry of the queue at
most; it drains what is dead and keeps the rest. And a connector over
these pools, whose closed connections are those of `fates`, comes to the
same by the steps of the call, when no other step comes between them.
`Alive` is so in every state the connector reaches
(`alive_of_reachable`). -/
theorem drains_and_keeps (hw : w.Alive m) (hf : fates.Lawful)
    (hfresh : ∀ c, fresh = some c → w.Fresh c)
    (hfuel : (w.queue key).length ≤ fuel) :
    ∃ run, hyperH1Connect fates fresh key fuel w = some run
      ∧ run.iterations ≤ (w.queue key).length
      ∧ (∀ k, k ≠ key → run.world.queue k = w.queue k)
      ∧ Drained.Outcome fates key w run
      ∧ ∀ (idleInterval maxIdle : Option Nat) (s : HyperH1Connector K C),
        s.world = w → (w.conns key).Nodup →
        (∀ c ∈ w.conns key, fates.isClosed c = s.closed c) →
        ∃ s', (HyperH1Connector.machine idleInterval maxIdle).run s
            (.connect key :: fates.script fresh s.nextCall
              (w.queue key)) = some s'
          ∧ run.Matches s' := by
  obtain ⟨run, hrun, hiter, hothers, hout⟩ :=
    hyperH1Connect_spec hw hf hfresh hfuel
  refine ⟨run, hrun, hiter, hothers, hout, ?_⟩
  intro idleInterval maxIdle s hs hnodup hagree
  subst hs
  exact run_connect hf hw
    (fun e he => hagree e.conn (List.mem_map_of_mem he)) hnodup hrun

/-- Of four idle connections the first is closed, the `ready` of the
second fails and the third is returned: the fourth stays. -/
theorem drains_and_keeps_third :
    ∃ (s s' : HyperH1Connector Nat Nat) (fates : Fates Nat)
      (run : HyperH1Run Nat Nat),
      (HyperH1Connector.machine none none).run
          (HyperH1Connector.newWithPool 0 none none)
          [.pool (.put 7 1), .pool (.put 7 2), .pool (.put 7 3),
            .pool (.put 7 4), .closed 1] = some s
        ∧ fates = { isClosed := (· == 1), ready := (· != 2)
                    closedAfter := (· < 3) }
        ∧ hyperH1Connect fates none 7 4 s.world = some run
        ∧ run.iterations = 3 ∧ run.world.conns 7 = [4]
        ∧ Drained.Outcome fates 7 s.world run
        ∧ (HyperH1Connector.machine none none).run s
          [.connect 7, .closed 2, .ready 0 false, .ready 0 true] = some s'
        ∧ run.Matches s' := by
  obtain ⟨s, hrun, hw, hlen, hconns, hclosed, hscript, r, hr, hiter,
      hleft⟩ : ∃ s : HyperH1Connector Nat Nat,
      (HyperH1Connector.machine none none).run
          (HyperH1Connector.newWithPool 0 none none)
          [.pool (.put 7 1), .pool (.put 7 2), .pool (.put 7 3),
            .pool (.put 7 4), .closed 1] = some s
        ∧ s.world.Alive 256 ∧ (s.world.queue 7).length ≤ 4
        ∧ s.world.conns 7 = [1, 2, 3, 4]
        ∧ s.closed = Function.update (fun _ => false) 1 true
        ∧ Fates.script { isClosed := (· == 1), ready := (· != 2)
                         closedAfter := (· < 3) }
            (none : Option Nat) s.nextCall (s.world.queue 7)
          = ([.closed 2, .ready 0 false, .ready 0 true]
            : List (HyperH1Action Nat Nat))
        ∧ ∃ r, hyperH1Connect { isClosed := (· == 1), ready := (· != 2)
                                closedAfter := (· < 3) }
            (none : Option Nat) 7 4 s.world = some r
          ∧ r.iterations = 3 ∧ r.world.conns 7 = [4] :=
    ⟨_, rfl, ⟨_, rfl, rfl, rfl⟩, by decide, rfl, rfl, rfl, _, rfl, rfl,
      rfl⟩
  have hf : Fates.Lawful { isClosed := (· == 1), ready := (· != 2)
                           closedAfter := (· < 3) : Fates Nat } := by
    constructor
    · intro c hc
      simp only [beq_iff_eq] at hc
      rw [hc]
      rfl
    · intro c _ hc
      simp only [bne_eq_false_iff_eq] at hc
      rw [hc]
      rfl
  have hnew : ∀ c, (none : Option Nat) = some c → s.world.Fresh c := by
    intro c h
    cases h
  obtain ⟨run, hrun', -, -, hout, hmachine⟩ :=
    drains_and_keeps hw hf hnew hlen
  rw [hr] at hrun'
  cases hrun'
  obtain ⟨s', hsteps, hmatches⟩ := hmachine none none s rfl
    (by rw [hconns]; decide) (by rw [hconns, hclosed]; decide)
  rw [hscript] at hsteps
  exact ⟨s, s', _, r, hrun, rfl, hr, hiter, hleft, hout, hsteps,
    hmatches⟩

end MonoioTransports.Http
