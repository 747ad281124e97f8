/-
The two answers to "is this connection reused": the flag its holder
sets, and the one `Pooled` keeps.

# The argument

Both are about the past, so the run is recorded beside the states
(`Lib/History.lean`): which connections a handle was issued for, and
which were dropped by a holder who had cleared the flag.

- The flag. Only a holder changes it, and only a drop with the flag set
  puts a connection at rest; so whatever rests has it set (`Flagged`).
  What is dropped without it is discarded, and what is discarded has no
  other place.
- `Pooled::is_reused`. A connection comes in by being issued, so what
  was issued is what entered (`Lent`). What rests has entered, and what
  the inner connector returns has not.
-/
import MonoioTransports.Lib.History
import MonoioTransports.Pool.Reuse
import MonoioTransports.Pool.Proofs.Counting

namespace MonoioTransports.Pool

open Lib

variable {K T ε : Type} [DecidableEq K] [DecidableEq T]

-- =============================================================== the steps

/-- What one step of the connector's pool is: the step of the world, and
the connections after it. -/
inductive ReuseStep (s : ReuseWorld K T) :
    ReuseAction K T ε → ReuseWorld K T → Prop
  | pool {a : Action K T} {w : World K T} (ha : a.beside = true)
      (hw : s.world.step a = some w) :
      ReuseStep s (.pool a) { s with world := w }
  | opened {k : K} {c : T} {w : World K T}
      (hw : s.world.step (.connected k c) = some w) :
      ReuseStep s (.resolved k (.ok c))
        { world := w
          conns := Function.update s.conns c (Reuse.new c true) }
  | failed {k : K} {e : ε} {w : World K T}
      (hw : s.world.step (.connectFailed k) = some w) :
      ReuseStep s (.resolved k (.error e)) { s with world := w }
  | flag {h : Nat} {p : Pooled K T} (reuse : Bool)
      (hp : s.world.handles h = some p) :
      ReuseStep s (.setReuse h reuse)
        { s with
          conns := Function.update s.conns p.value
            ((s.conns p.value).setReuse reuse) }
  | drop {h : Nat} {p : Pooled K T} {w : World K T}
      (hp : s.world.handles h = some p)
      (hw : s.world.step (.drop h (s.conns p.value).isOpen) = some w) :
      ReuseStep s (.dropHandle h) { s with world := w }

variable {s s' : ReuseWorld K T}

/-- Every step is one of these. -/
theorem reuse_step {a : ReuseAction K T ε} (h : s.step a = some s') :
    ReuseStep s a s' := by
  cases a with
  | pool a =>
      simp only [ReuseWorld.step] at h
      split at h
      next ha =>
        obtain ⟨w, hw, rfl⟩ := Option.map_eq_some_iff.mp h
        exact .pool ha hw
      next => cases h
  | resolved k r =>
      cases r with
      | ok c =>
          obtain ⟨w, hw, rfl⟩ := Option.map_eq_some_iff.mp h
          exact .opened hw
      | error e =>
          obtain ⟨w, hw, rfl⟩ := Option.map_eq_some_iff.mp h
          exact .failed hw
  | setReuse hd reuse =>
      obtain ⟨p, hp, rfl⟩ := Option.map_eq_some_iff.mp h
      exact .flag reuse hp
  | dropHandle hd =>
      simp only [ReuseWorld.step, ReuseWorld.dropHandle] at h
      split at h
      next p hp =>
        obtain ⟨w, hw, rfl⟩ := Option.map_eq_some_iff.mp h
        exact .drop hp hw
      next => cases h

/-- A step moves the world by one of its own, or not at all. -/
theorem ReuseStep.world {a : ReuseAction K T ε} (h : ReuseStep s a s') :
    s'.world = s.world ∨ ∃ b, s.world.step b = some s'.world := by
  cases h with
  | pool ha hw => exact Or.inr ⟨_, hw⟩
  | opened hw => exact Or.inr ⟨_, hw⟩
  | failed hw => exact Or.inr ⟨_, hw⟩
  | flag reuse hp => exact Or.inl rfl
  | drop hp hw => exact Or.inr ⟨_, hw⟩

/-- The runs of the connector are among the runs of its pool. -/
theorem ReuseWorld.world_reachable {idleInterval maxIdle : Option Nat}
    (hr : (ReuseWorld.machine (ε := ε) idleInterval maxIdle).Reachable s) :
    (World.machine idleInterval maxIdle).Reachable s.world := by
  refine hr.invariant (I := fun s : ReuseWorld K T =>
    (World.machine idleInterval maxIdle).Reachable s.world) ?_ ?_
  · intro s hinit
    obtain ⟨now, rfl⟩ := hinit
    exact .init ⟨now, rfl⟩
  · intro s a s' _ ih _ h
    rcases (reuse_step h).world with heq | ⟨b, hb⟩
    · rw [heq]
      exact ih
    · exact .step ih trivial hb

-- ================================================================ the flag

/-- Whatever rests may be used again. -/
def ReuseWorld.Flagged (s : ReuseWorld K T) : Prop :=
  ∀ k c, c ∈ s.world.conns k → (s.conns c).isOpen = true

theorem ReuseWorld.Flagged.step (hf : s.Flagged) {l : Custody T K Nat}
    (ho : l.Orderly) (t : s.world.Tracks l) {a : ReuseAction K T ε}
    (h : ReuseStep s a s') : s'.Flagged := by
  intro k c hc
  cases h with
  | @pool a w ha hw =>
      rcases idle_of_step hw hc with hold | rfl | ⟨hd, rfl, -⟩
      · exact hf k c hold
      · cases ha
      · cases ha
  | @opened k' c' w hw =>
      rcases idle_of_step hw hc with hold | hput | ⟨hd, hdrop, -⟩
      · have hne : c ≠ c' := by
          intro heq
          obtain ⟨hfresh, -⟩ :=
            World.link_eq_some (World.connected_eq_some hw)
          rw [heq] at hold
          exact hfresh k (t.entered_of_idle ho hold)
        show (Function.update s.conns c' _ c).isOpen = true
        rw [Function.update_of_ne hne]
        exact hf k c hold
      · cases hput
      · cases hdrop
  | failed hw =>
      rcases idle_of_step hw hc with hold | hput | ⟨hd, hdrop, -⟩
      · exact hf k c hold
      · cases hput
      · cases hdrop
  | @flag hd p reuse hp =>
      have hne : c ≠ p.value := by
        intro heq
        exact t.not_idle_of_owns ⟨p, hp, heq.symm⟩ k hc
      show (Function.update s.conns p.value _ c).isOpen = true
      rw [Function.update_of_ne hne]
      exact hf k c hc
  | @drop hd p w hp hw =>
      rcases idle_of_step hw hc with hold | hput | ⟨hd', hdrop, hown⟩
      · exact hf k c hold
      · cases hput
      · simp only [Action.drop.injEq] at hdrop
        obtain ⟨rfl, hopen⟩ := hdrop
        obtain ⟨p', hp', rfl⟩ := hown
        rw [hp, Option.some.injEq] at hp'
        rw [← hp']
        exact hopen

-- ================================================================ the past

/-- What is worth remembering of a step. -/
inductive ReuseEvent (T : Type)
  | issued (c : T)
  | retired (c : T)
  deriving DecidableEq, Repr

/-- The connection a step issued a handle for. -/
def ReuseWorld.issues (s s' : ReuseWorld K T) : Option T :=
  (s'.world.handles s.world.nextHandle).map Pooled.value

/-- The connection a step drops without the flag. -/
def ReuseWorld.retires (s : ReuseWorld K T) : ReuseAction K T ε → Option T
  | .dropHandle h =>
      (s.world.handles h).bind fun p =>
        if (s.conns p.value).isOpen then none else some p.value
  | _ => none

/-- The events of a step, the latest first. -/
def ReuseWorld.events (s : ReuseWorld K T) (a : ReuseAction K T ε)
    (s' : ReuseWorld K T) : List (ReuseEvent T) :=
  ((s.issues s').map ReuseEvent.issued).toList
    ++ ((s.retires a).map ReuseEvent.retired).toList

omit [DecidableEq K] [DecidableEq T] in
/-- Whom a step issued a handle for. -/
theorem issued_mem_events {a : ReuseAction K T ε} {c : T} :
    .issued c ∈ s.events a s'
      ↔ ∃ p, s'.world.handles s.world.nextHandle = some p
        ∧ p.value = c := by
  simp [ReuseWorld.events, ReuseWorld.issues]

omit [DecidableEq K] [DecidableEq T] in
/-- Whom a step retired. -/
theorem retired_mem_events {a : ReuseAction K T ε} {c : T} :
    .retired c ∈ s.events a s' ↔ s.retires a = some c := by
  simp [ReuseWorld.events]

/-- A connection that came in and has no place but the bin. -/
structure World.Retired (w : World K T) (c : T) : Prop where
  entered : ¬ w.Fresh c
  owned : ∀ h, ¬ w.Owns h c
  idle : ∀ k, c ∉ w.conns k

/-- Retired is retired. -/
theorem World.Retired.step {w w' : World K T} {c : T} (hc : w.Retired c)
    {a : Action K T} (h : w.step a = some w') : w'.Retired c where
  entered := fun hf => hc.entered (fresh_of_step h hf)
  owned := by
    intro hd hown
    rcases owns_of_step h hown with hold | ⟨k, hidle⟩ | ⟨-, hfresh⟩
    · exact hc.owned hd hold
    · exact hc.idle k hidle
    · exact hc.entered hfresh
  idle := by
    intro k hidle
    rcases idle_of_step h hidle with hold | rfl | ⟨hd, -, hown⟩
    · exact hc.idle k hold
    · obtain ⟨-, -, hfresh, -⟩ := World.put_eq_some h
      exact hc.entered hfresh
    · exact hc.owned hd hown

/-- A closed connection is retired with its handle. -/
theorem World.Tracks.retired {w w' : World K T} {l : Custody T K Nat}
    (t : w.Tracks l) (ho : l.Orderly) {hd : Nat} {p : Pooled K T}
    (hp : w.handles hd = some p) (h : w.step (.drop hd false) = some w') :
    w'.Retired p.value := by
  have hown : w.Owns hd p.value := ⟨p, hp, rfl⟩
  have hentered := t.not_fresh_of_owns ho hown
  refine ⟨fun hf => hentered (fresh_of_step h hf), ?_, ?_⟩
  · intro hd' hown'
    have hne : hd' ≠ hd := by
      intro heq
      obtain ⟨p₁, -, rfl⟩ := World.drop_eq_some h
      obtain ⟨p', hp', -⟩ := hown'
      rw [heq] at hp'
      simp at hp'
    rcases owns_of_step h hown' with hold | ⟨k, hidle⟩ | ⟨hin, -⟩
    · exact hne (t.owner_unique hown hold)
    · exact t.not_idle_of_owns hown k hidle
    · cases hin
  · intro k hidle
    rcases idle_of_step h hidle with hold | hput | ⟨hd', hdrop, -⟩
    · exact t.not_idle_of_owns hown k hold
    · cases hput
    · cases hdrop

omit [DecidableEq T] in
/-- A handle out of `get` says that its connection rested. -/
theorem World.Got.isReused {w w' : World K T} {k : K} {p : Pooled K T}
    {pool : PoolInner K T} (hg : w.Got k w' (some p) pool) :
    p.isReused = true := by
  have hres := hg.result
  rw [(get_eq pool w.now k).1] at hres
  obtain ⟨c, -, rfl⟩ := Option.map_eq_some_iff.mp hres.symm
  rfl

/-- A handle that was not there before was issued for a connection that
rested, and says so, or for one that came in, and does not. -/
theorem issued_of_step {w w' : World K T} {a : Action K T}
    (h : w.step a = some w') {hd : Nat} {p : Pooled K T}
    (hp : w'.handles hd = some p) (hnew : w.handles hd = none) :
    hd = w.nextHandle
      ∧ ((p.isReused = true ∧ a.entering = none
          ∧ ∃ k, p.value ∈ w.conns k)
        ∨ (p.isReused = false ∧ a.entering = some p.value
          ∧ w.Fresh p.value)) := by
  -- a step that leaves the table as it is issued no handle; one that
  -- issues a handle issues this one; what `get` issues was at rest
  have hold : w'.handles = w.handles → False := by
    intro heq
    rw [heq, hnew] at hp
    cases hp
  have hissue : ∀ {p'}, w'.handles
      = Function.update w.handles w.nextHandle (some p') →
      hd = w.nextHandle ∧ p = p' := by
    intro p' heq
    rw [heq] at hp
    by_cases hh : hd = w.nextHandle
    · rw [hh, Function.update_self, Option.some.injEq] at hp
      exact ⟨hh, hp.symm⟩
    · rw [Function.update_of_ne hh, hnew] at hp
      cases hp
  have hgot : ∀ {k w₁ r pool}, w.Got k w₁ r pool →
      w'.handles = w₁.handles → hd = w.nextHandle
        ∧ p.isReused = true ∧ ∃ k, p.value ∈ w.conns k := by
    intro k w₁ r pool hg heq
    cases r with
    | none => exact (hold (heq.trans hg.handles)).elim
    | some p' =>
        obtain ⟨hh, rfl⟩ := hissue (heq.trans hg.handles)
        exact ⟨hh, hg.isReused, k, hg.rested⟩
  cases a with
  | tick dt =>
      cases h
      exact (hold rfl).elim
  | link k c =>
      obtain ⟨hfresh, rfl⟩ := World.link_eq_some h
      obtain ⟨hh, rfl⟩ := hissue rfl
      exact ⟨hh, Or.inr ⟨rfl, rfl, hfresh⟩⟩
  | put k c =>
      obtain ⟨pool, -, -, rfl⟩ := World.put_eq_some h
      exact (hold rfl).elim
  | get k =>
      obtain ⟨⟨w₁, r⟩, hget, rfl⟩ := Option.map_eq_some_iff.mp h
      obtain ⟨pool, hg⟩ := World.get_eq_some hget
      obtain ⟨hh, hreused, hrest⟩ := hgot hg rfl
      exact ⟨hh, Or.inl ⟨hreused, rfl, hrest⟩⟩
  | drop hd' isOpen =>
      obtain ⟨p₁, -, rfl⟩ := World.drop_eq_some h
      dsimp only at hp
      by_cases hh : hd = hd'
      · rw [hh, Function.update_self] at hp
        cases hp
      · rw [Function.update_of_ne hh, hnew] at hp
        cases hp
  | clearExpired dur =>
      obtain ⟨pool, hw, rfl⟩ := Option.map_eq_some_iff.mp h
      exact (hold rfl).elim
  | pollIdle ticks =>
      obtain ⟨task, -, rfl⟩ := World.pollIdle_eq_some h
      exact (hold rfl).elim
  | dropPool =>
      obtain ⟨pool, -, rfl⟩ := World.dropPool_eq_some h
      exact (hold rfl).elim
  | connect k =>
      obtain ⟨⟨w₁, r⟩, hconn, rfl⟩ := Option.map_eq_some_iff.mp h
      obtain ⟨w₂, hget, heq, -⟩ := World.connect_eq_some hconn
      obtain ⟨pool, hg⟩ := World.get_eq_some hget
      dsimp only at heq hp
      obtain ⟨hh, hreused, hrest⟩ := hgot hg (by
        dsimp only
        rw [heq])
      exact ⟨hh, Or.inl ⟨hreused, rfl, hrest⟩⟩
  | connected k c =>
      obtain ⟨hfresh, rfl⟩ :=
        World.link_eq_some (World.connected_eq_some h)
      obtain ⟨hh, rfl⟩ := hissue rfl
      exact ⟨hh, Or.inr ⟨rfl, rfl, hfresh⟩⟩
  | connectFailed k =>
      rw [World.connectFailed_eq_some h] at hp
      exact (hold (by rw [World.connectFailed_eq_some h])).elim

/-- What the history has to do with the state. -/
structure ReuseWorld.Past (s : ReuseWorld K T)
    (history : List (ReuseEvent T)) : Prop where
  flagged : s.Flagged
  retired : ∀ c, .retired c ∈ history → s.world.Retired c
  issued : ∀ c, .issued c ∈ history ↔ ¬ s.world.Fresh c

omit [DecidableEq K] [DecidableEq T] in
/-- What entered is what is not fresh. -/
theorem World.not_fresh_iff {w : World K T} {c : T} :
    ¬ w.Fresh c ↔ ∃ k, (k, c) ∈ w.entered := by
  simp [World.Fresh]

/-- A connection that comes in has a handle issued for it: the inner
connector's, at the end of a call. -/
theorem ReuseStep.issued_of_entered {a : ReuseAction K T ε}
    (h : ReuseStep s a s') {c : T} (hin : ¬ s'.world.Fresh c)
    (hold : s.world.Fresh c) :
    ∃ p, s'.world.handles s.world.nextHandle = some p ∧ p.value = c := by
  have hother : ∀ {b w}, s.world.step b = some w → b.entering = none →
      ¬ w.Fresh c → False := by
    intro b w hw hnone hin
    rcases entered_step hw with ⟨-, heq⟩ | ⟨k, c', hsome, -⟩
    · rw [World.Fresh, heq] at hin
      exact hin hold
    · rw [hnone] at hsome
      cases hsome
  cases h with
  | @pool b w hb hw =>
      have hnone : b.entering = none := by
        cases b <;> first | rfl | cases hb
      exact (hother hw hnone hin).elim
  | @opened k c' w hw =>
      obtain ⟨-, hw'⟩ := World.link_eq_some (World.connected_eq_some hw)
      obtain ⟨k', hk'⟩ := World.not_fresh_iff.mp hin
      rw [hw'] at hk'
      rcases List.mem_cons.mp hk' with heq | hmem
      · simp only [Prod.mk.injEq] at heq
        obtain ⟨rfl, rfl⟩ := heq
        refine ⟨Pool.link k' c, ?_, rfl⟩
        rw [hw']
        exact Function.update_self ..
      · exact absurd hmem (hold k')
  | failed hw => exact (hother hw rfl hin).elim
  | flag reuse hp => exact absurd hold hin
  | drop hp hw => exact (hother hw rfl hin).elim

/-- One step keeps it, with what the step adds. -/
theorem ReuseWorld.Past.step {history : List (ReuseEvent T)}
    (hpast : s.Past history) {l : Custody T K Nat} (ho : l.Orderly)
    (t : s.world.Tracks l) {a : ReuseAction K T ε}
    (h : ReuseStep s a s') : s'.Past (s.events a s' ++ history) where
  flagged := hpast.flagged.step ho t h
  retired := by
    intro c hc
    rcases List.mem_append.mp hc with hnow | hold
    · have hret := retired_mem_events.mp hnow
      cases h with
      | @drop hd p w hp hw =>
          simp only [ReuseWorld.retires, hp, Option.bind_some,
            Option.ite_none_left_eq_some, Option.some.injEq] at hret
          obtain ⟨hopen, rfl⟩ := hret
          rw [Bool.eq_false_iff.mpr hopen] at hw
          exact t.retired ho hp hw
      | pool | opened | failed | flag => cases hret
    · rcases h.world with heq | ⟨b, hb⟩
      · rw [heq]
        exact hpast.retired c hold
      · exact (hpast.retired c hold).step hb
  issued := by
    intro c
    rw [List.mem_append, hpast.issued, issued_mem_events]
    have hnext := t.fresh s.world.nextHandle (Nat.le_refl _)
    constructor
    · intro hc hfresh
      rcases h.world with heq | ⟨b, hb⟩
      · rw [heq] at hc hfresh
        rcases hc with ⟨p, hp, -⟩ | hold
        · rw [hnext] at hp
          cases hp
        · exact hold hfresh
      · have hbefore := fresh_of_step hb hfresh
        rcases hc with ⟨p, hp, rfl⟩ | hold
        · obtain ⟨-, ⟨-, -, k, hidle⟩ | ⟨-, hin, -⟩⟩ :=
            issued_of_step hb hp hnext
          -- issued again: it rests, so it entered; issued first: it enters
          -- with this step
          · exact hbefore k (t.entered_of_idle ho hidle)
          · rcases entered_step hb with ⟨hnone, -⟩ | ⟨k, c, hsome, -, heq⟩
            · rw [hin] at hnone
              cases hnone
            · rw [hin, Option.some.injEq] at hsome
              exact hfresh k (by
                rw [heq, hsome]
                exact List.mem_cons_self)
        · exact hold hbefore
    · intro hin
      by_cases hold : s.world.Fresh c
      · exact Or.inl (h.issued_of_entered hin hold)
      · exact Or.inr hold

/-- In every run the history has that to do with the state. -/
theorem past_of_recorded {idleInterval maxIdle : Option Nat}
    {r : Recorded (ReuseWorld K T) (ReuseEvent T)}
    (hr : ((ReuseWorld.machine (ε := ε) idleInterval maxIdle).recording
      ReuseWorld.events).Reachable r) : r.state.Past r.history := by
  refine Machine.recorded_invariant (C := fun _ _ => True)
    (I := ReuseWorld.Past) ?_ ?_ hr
  · intro s hinit
    obtain ⟨now, rfl⟩ := hinit
    have hnil : ∀ k, (World.new now idleInterval maxIdle : World K T).conns k
        = [] := by
      intro k
      rw [World.conns_of_pool _ rfl]
      cases idleInterval <;> simp [newWithIdleInterval]
    refine ⟨?_, fun c hc => (List.not_mem_nil hc).elim, ?_⟩
    · intro k c hc
      rw [ReuseWorld.new, hnil k] at hc
      cases hc
    · intro c
      simp [ReuseWorld.new, World.new, World.Fresh]
  · intro s history a s' hs hpast _ h
    obtain ⟨l, hl, t⟩ := exists_custody (ReuseWorld.world_reachable hs)
    exact hpast.step (Custody.orderly_of_reachable hl) t (reuse_step h)

-- ========================================================= the promises

/-- The pool goes by the flag. -/
structure ReuseWorld.GoesByFlag (s : ReuseWorld K T)
    (history : List (ReuseEvent T)) : Prop where
  /-- Whatever rests, or is taken from rest, may be used again. -/
  rests : ∀ k c, c ∈ s.world.conns k → (s.conns c).isOpen = true
  /-- A drop brings a connection to rest exactly when its flag is set, as
  long as there is a pool. -/
  drops : ∀ h p, s.world.handles h = some p → ∃ s', s.dropHandle h = some s'
    ∧ ((∃ k, p.value ∈ s'.world.conns k)
      ↔ (s.conns p.value).isOpen = true ∧ s.world.pool.isSome)
  /-- What was dropped without the flag never rests and never has a
  handle again. -/
  retired : ∀ c, .retired c ∈ history →
    (∀ k, c ∉ s.world.conns k) ∧ ∀ h, ¬ s.world.Owns h c

/-- A handle that is dropped brings its connection to rest exactly when
it is open and there is a pool. -/
theorem World.Tracks.rests_iff {w : World K T} {l : Custody T K Nat}
    (t : w.Tracks l) {hd : Nat} {p : Pooled K T}
    (hp : w.handles hd = some p) (isOpen : Bool) :
    ∃ w', w.drop hd isOpen = some w'
      ∧ ((∃ k, p.value ∈ w'.conns k) ↔ isOpen = true ∧ w.pool.isSome) := by
  obtain ⟨w', hdrop⟩ : ∃ w', w.drop hd isOpen = some w' := by
    unfold World.drop
    rw [hp]
    exact ⟨_, rfl⟩
  refine ⟨w', hdrop, ?_, ?_⟩
  · intro hrest
    obtain ⟨k, hidle⟩ := hrest
    have hstep : w.step (.drop hd isOpen) = some w' := hdrop
    refine ⟨?_, Option.isSome_iff_ne_none.mpr fun hnone => ?_⟩
    · rcases idle_of_step hstep hidle with hold | hput | ⟨hd', heq, -⟩
      · exact absurd hold (t.not_idle_of_owns ⟨p, hp, rfl⟩ k)
      · cases hput
      · simp only [Action.drop.injEq] at heq
        exact heq.2
    · rw [World.conns_of_none (pool_none_of_step hstep hnone)] at hidle
      cases hidle
  · intro hboth
    obtain ⟨rfl, hsome⟩ := hboth
    obtain ⟨pool, hpool⟩ := Option.isSome_iff_exists.mp hsome
    have hin := (t.key hd p hp).1
    obtain ⟨k, hkey⟩ := Option.isSome_iff_exists.mp (p.key_isSome hin)
    obtain ⟨w₁, hdrop₁, hidle⟩ := World.idle_of_drop hp hin hkey hpool
    rw [hdrop, Option.some.injEq] at hdrop₁
    rw [hdrop₁]
    exact ⟨k, hidle⟩

/-- In every run the pool goes by the flag the holders set. -/
theorem reuse_honoured {idleInterval maxIdle : Option Nat}
    {r : Recorded (ReuseWorld K T) (ReuseEvent T)}
    (hr : ((ReuseWorld.machine (ε := ε) idleInterval maxIdle).recording
      ReuseWorld.events).Reachable r) : r.state.GoesByFlag r.history := by
  have hpast := past_of_recorded hr
  obtain ⟨l, -, t⟩ := exists_custody (ReuseWorld.world_reachable hr.forget)
  refine ⟨hpast.flagged, ?_, ?_⟩
  · intro hd p hp
    obtain ⟨w', hdrop, hiff⟩ :=
      t.rests_iff hp (r.state.conns p.value).isOpen
    refine ⟨{ r.state with world := w' }, ?_, hiff⟩
    unfold ReuseWorld.dropHandle
    rw [hp]
    show Option.map _ (r.state.world.drop hd _) = _
    rw [hdrop]
    rfl
  · intro c hc
    exact ⟨(hpast.retired c hc).idle, (hpast.retired c hc).owned⟩

/-- A connection dropped without the flag is not handed out again. -/
theorem reuse_honoured_two :
    ∃ r : Recorded (ReuseWorld Nat Nat) (ReuseEvent Nat),
      ((ReuseWorld.machine (ε := Unit) none none).recording
          ReuseWorld.events).run
          { state := ReuseWorld.new 0 none none, history := [] }
          [.pool (.connect 7), .resolved 7 (.ok 1), .setReuse 0 false,
            .dropHandle 0, .pool (.connect 7), .resolved 7 (.ok 2),
            .dropHandle 1] = some r
        ∧ r.history = [.issued 2, .retired 1, .issued 1]
        ∧ r.state.GoesByFlag r.history := by
  obtain ⟨r, hrun, hhist⟩ : ∃ r : Recorded (ReuseWorld Nat Nat) _,
      ((ReuseWorld.machine (ε := Unit) none none).recording
          ReuseWorld.events).run
          { state := ReuseWorld.new 0 none none, history := [] }
          [.pool (.connect 7), .resolved 7 (.ok 1), .setReuse 0 false,
            .dropHandle 0, .pool (.connect 7), .resolved 7 (.ok 2),
            .dropHandle 1] = some r
        ∧ r.history = [.issued 2, .retired 1, .issued 1] := ⟨_, rfl, rfl⟩
  exact ⟨r, hrun, hhist, reuse_honoured
    (Machine.Reachable.run (.init ⟨⟨0, rfl⟩, rfl⟩) hrun)⟩

/-- `Pooled::is_reused` of a new handle tells whether a handle was issued
for its connection before. -/
theorem isReused_iff_issued {idleInterval maxIdle : Option Nat}
    {r : Recorded (ReuseWorld K T) (ReuseEvent T)}
    (hr : ((ReuseWorld.machine (ε := ε) idleInterval maxIdle).recording
      ReuseWorld.events).Reachable r) {a : ReuseAction K T ε}
    (h : r.state.step a = some s') {hd : Nat} {p : Pooled K T}
    (hp : s'.world.handles hd = some p)
    (hnew : r.state.world.handles hd = none) :
    p.isReused = true ↔ .issued p.value ∈ r.history := by
  have hpast := past_of_recorded hr
  obtain ⟨l, hl, t⟩ := exists_custody (ReuseWorld.world_reachable hr.forget)
  have ho := Custody.orderly_of_reachable hl
  rw [hpast.issued]
  rcases (reuse_step h).world with heq | ⟨b, hb⟩
  · rw [heq, hnew] at hp
    cases hp
  · obtain ⟨-, ⟨hreused, -, k, hidle⟩ | ⟨hreused, -, hfresh⟩⟩ :=
      issued_of_step hb hp hnew
    · rw [hreused]
      refine ⟨fun _ hfresh => ?_, fun _ => rfl⟩
      exact hfresh k (t.entered_of_idle ho hidle)
    · rw [hreused]
      refine ⟨fun h => ?_, fun hin => absurd hfresh hin⟩
      cases h

/-- The second handle of a connection says that it is reused. -/
theorem isReused_iff_issued_again :
    ∃ r : Recorded (ReuseWorld Nat Nat) (ReuseEvent Nat),
      ((ReuseWorld.machine (ε := Unit) none none).recording
          ReuseWorld.events).run
          { state := ReuseWorld.new 0 none none, history := [] }
          [.pool (.connect 7), .resolved 7 (.ok 1), .dropHandle 0] = some r
        ∧ ∃ s' p, r.state.step (.pool (.connect 7) : ReuseAction _ _ Unit)
            = some s' ∧ s'.world.handles 1 = some p
          ∧ p.isReused = true := by
  obtain ⟨r, hrun, hhist, hnew, hstep⟩ :
      ∃ r : Recorded (ReuseWorld Nat Nat) (ReuseEvent Nat),
      ((ReuseWorld.machine (ε := Unit) none none).recording
          ReuseWorld.events).run
          { state := ReuseWorld.new 0 none none, history := [] }
          [.pool (.connect 7), .resolved 7 (.ok 1), .dropHandle 0] = some r
        ∧ r.history = [.issued 1] ∧ r.state.world.handles 1 = none
        ∧ ∃ s', r.state.step (.pool (.connect 7) : ReuseAction _ _ Unit)
            = some s' ∧ s'.world.handles 1 = some (Pooled.new 7 1 true) :=
    ⟨_, rfl, rfl, rfl, _, rfl, rfl⟩
  obtain ⟨s', hs', hp⟩ := hstep
  refine ⟨r, hrun, s', _, hs', hp, ?_⟩
  refine (isReused_iff_issued
    (Machine.Reachable.run (.init ⟨⟨0, rfl⟩, rfl⟩) hrun) hs' hp hnew).mpr ?_
  rw [hhist]
  exact List.mem_singleton_self _

end MonoioTransports.Pool
