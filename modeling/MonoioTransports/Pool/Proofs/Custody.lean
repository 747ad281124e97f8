/-
The pool keeps custody: every reachable world tracks a reachable state
of the custody machine (Lib/Custody.lean), whose holders are the
handles and whose homes are the keys.

# The tracking relation

`Tracks` reads a custody off five components of a world: the handle
table, the next handle, the idle connections per key, what entered, and
what was discarded. The clock, the limits and the suspended calls are
not among them, so a step that moves only those tracks the same
custody.

# The simulation

Every operation is a discard of entries cut off the front of queues
(`Tracks.discard`) followed by at most one of: an entry lent
(`Tracks.lend`), a handle coming to rest (`Tracks.rest`), a connection
entering (`Tracks.enterHeld`, `Tracks.enterIdle`), a handle discarded
(`Tracks.discardHeld`). `tracks_step` assembles them per action.
-/
import MonoioTransports.Lib.Custody
import MonoioTransports.Pool.Proofs.Step

namespace MonoioTransports.Pool

open Lib Lib.Custody

variable {K T : Type}

-- ================================================== the tracking relation

/-- The custody of five components: handles are holders, their values what
they hold, keys are homes, and what was discarded is retired. -/
structure Tracks (handles : Nat → Option (Pooled K T)) (next : Nat)
    (conns : K → List T) (entered : List (K × T)) (discarded : List T)
    (l : Custody T K Nat) : Prop where
  held : ∀ h c,
    (∃ p, handles h = some p ∧ p.value = c) ↔ l.place c = some (.held h)
  idle : ∀ k c, c ∈ conns k ↔ l.place c = some (.idle k)
  gone : ∀ c, c ∈ discarded ↔ l.place c = some .gone
  nodup : ∀ k, (conns k).Nodup
  gone_nodup : discarded.Nodup
  home : ∀ k c, (k, c) ∈ entered ↔ l.home c = some k
  key : ∀ h p, handles h = some p →
    p.pool = true ∧ p.key = l.home p.value
  fresh : ∀ h, next ≤ h → handles h = none

section Moves

variable {handles : Nat → Option (Pooled K T)} {next : Nat}
  {conns : K → List T} {entered : List (K × T)} {discarded : List T}
  {l : Custody T K Nat}

/-- Nothing tracks nothing. -/
theorem Tracks.empty :
    Tracks (K := K) (T := T) (fun _ => none) 0 (fun _ => []) [] []
      Custody.empty where
  held := fun _ _ => by simp [Custody.empty]
  idle := fun _ _ => by simp [Custody.empty]
  gone := fun _ => by simp [Custody.empty]
  nodup := fun _ => List.nodup_nil
  gone_nodup := List.nodup_nil
  home := fun _ _ => by simp [Custody.empty]
  key := fun _ _ h => nomatch h
  fresh := fun _ _ => rfl

/-- The next handle holds nothing yet. -/
theorem Tracks.free_next (t : Tracks handles next conns entered discarded l) :
    l.Free next := by
  intro c hc
  obtain ⟨p, hp, -⟩ := (t.held next c).mpr hc
  rw [t.fresh next (Nat.le_refl _)] at hp
  cases hp

/-- What never entered is nowhere. -/
theorem Tracks.place_none (t : Tracks handles next conns entered discarded l)
    (ho : l.Orderly) {c : T} (hc : ∀ k, (k, c) ∉ entered) :
    l.place c = none := by
  rw [ho.entered c]
  cases hh : l.home c with
  | none => rfl
  | some k => exact absurd ((t.home k c).mpr hh) (hc k)

/-- What is nowhere is not idle. -/
theorem Tracks.not_idle_of_none
    (t : Tracks handles next conns entered discarded l) {c : T}
    (hc : l.place c = none) (k : K) : c ∉ conns k := by
  intro hmem
  rw [t.idle k c, hc] at hmem
  cases hmem

/-- Nor is what is held. -/
theorem Tracks.not_idle_of_held
    (t : Tracks handles next conns entered discarded l) {c : T} {h : Nat}
    (hc : l.place c = some (.held h)) (k : K) : c ∉ conns k := by
  intro hmem
  rw [t.idle k c, hc] at hmem
  cases hmem

-- ==================================================== one item that moves

/-- What was not gone and does not go is not gone. -/
theorem Tracks.gone_moveTo
    (t : Tracks handles next conns entered discarded l) {c : T}
    {p : Place K Nat} (hc : l.place c ≠ some .gone) (hp : p ≠ .gone)
    (d : T) : d ∈ discarded ↔ (l.moveTo c p).place d = some .gone := by
  rw [t.gone d]
  by_cases hd : d = c
  · subst hd
    simp [moveTo, hc, hp]
  · simp [moveTo, hd]

/-- What was not idle and does not come to rest is not idle. -/
theorem Tracks.idle_moveTo
    (t : Tracks handles next conns entered discarded l) {c : T}
    {p : Place K Nat} (hc : ∀ k, c ∉ conns k) (hp : ∀ k, p ≠ .idle k)
    (k : K) (d : T) :
    d ∈ conns k ↔ (l.moveTo c p).place d = some (.idle k) := by
  by_cases hd : d = c
  · subst hd
    simp [moveTo, hc k, hp k]
  · simpa [moveTo, hd] using t.idle k d

/-- What was held by nobody is held through the next handle. -/
theorem Tracks.held_issue
    (t : Tracks handles next conns entered discarded l) {p : Pooled K T}
    (hp : ∀ h, l.place p.value ≠ some (.held h)) (h : Nat) (d : T) :
    (∃ p', Function.update handles next (some p) h = some p'
        ∧ p'.value = d)
      ↔ (l.moveTo p.value (.held next)).place d = some (.held h) := by
  by_cases hh : h = next
  · subst hh
    by_cases hd : d = p.value
    · simp [hd, moveTo]
    · -- the next handle held nothing before
      simp [hd, moveTo, Ne.symm hd, t.free_next d]
  · rw [Function.update_of_ne hh, t.held h d]
    by_cases hd : d = p.value
    · subst hd
      simp [moveTo, hp h, Ne.symm hh]
    · simp [moveTo, hd]

/-- What a handle held that is dropped is held by nobody. -/
theorem Tracks.held_release
    (t : Tracks handles next conns entered discarded l) (ho : l.Orderly)
    {h : Nat} {c : T} (hheld : l.place c = some (.held h))
    {p : Place K Nat} (hp : ∀ h', p ≠ .held h') (h' : Nat) (d : T) :
    (∃ p', Function.update handles h none h' = some p' ∧ p'.value = d)
      ↔ (l.moveTo c p).place d = some (.held h') := by
  by_cases hh : h' = h
  · subst hh
    simp only [Function.update_self, moveTo, reduceCtorEq, false_and,
      exists_false, false_iff]
    by_cases hd : d = c
    · simp [hd, hp h']
    · -- the handle held nothing but this
      simp only [hd, if_false]
      exact fun hd' => hd (ho.held_inj _ _ _ hd' hheld)
  · rw [Function.update_of_ne hh, t.held h' d]
    by_cases hd : d = c
    · subst hd
      simp [moveTo, hheld, hp h', Ne.symm hh]
    · simp [moveTo, hd]

/-- The other handles go back where they did. -/
theorem Tracks.key_release
    (t : Tracks handles next conns entered discarded l) {h h' : Nat}
    {p : Pooled K T}
    (hp : Function.update handles h none h' = some p) :
    p.pool = true ∧ p.key = l.home p.value := by
  by_cases hh : h' = h
  · simp [hh] at hp
  · rw [Function.update_of_ne hh] at hp
    exact t.key h' p hp

/-- A handle that is dropped is not issued again. -/
theorem Tracks.fresh_release
    (t : Tracks handles next conns entered discarded l) (h : Nat)
    {h' : Nat} (hle : next ≤ h') :
    Function.update handles h none h' = none := by
  by_cases hh : h' = h
  · simp [hh]
  · rw [Function.update_of_ne hh]
    exact t.fresh h' hle

/-- The handles after the next are not issued yet. -/
theorem Tracks.fresh_issue
    (t : Tracks handles next conns entered discarded l)
    (p : Option (Pooled K T)) {h : Nat} (hle : next + 1 ≤ h) :
    Function.update handles next p h = none := by
  rw [Function.update_of_ne (by omega)]
  exact t.fresh h (by omega)

/-- A connection that enters has the key it entered under for its
home. -/
theorem Tracks.home_enter
    (t : Tracks handles next conns entered discarded l) (ho : l.Orderly)
    {k : K} {c : T} (hc : l.place c = none) (p : Place K Nat) (k' : K)
    (d : T) :
    (k', d) ∈ (k, c) :: entered ↔ (l.enter c k p).home d = some k' := by
  rw [List.mem_cons, Prod.mk.injEq, t.home k' d]
  by_cases hd : d = c
  · subst hd
    simp [enter, (ho.entered d).mp hc, eq_comm]
  · simp [enter, hd]

/-- The live handles go back where they did when another connection
enters. -/
theorem Tracks.key_enter
    (t : Tracks handles next conns entered discarded l) {k : K} {c : T}
    (hc : l.place c = none) (place : Place K Nat) {h : Nat}
    {p : Pooled K T} (hp : handles h = some p) :
    p.pool = true ∧ p.key = (l.enter c k place).home p.value := by
  -- a live handle holds something that entered before
  have hpc : p.value ≠ c := by
    intro heq
    subst heq
    have := (t.held h p.value).mp ⟨p, hp, rfl⟩
    simp [hc] at this
  simpa [enter, hpc] using t.key h p hp

-- ============================================================= the moves

/-- Entries cut out of the queues are discarded. -/
theorem Tracks.discard (t : Tracks handles next conns entered discarded l)
    (hr : machine.Reachable l) (conns' : K → List T) (cs : List T)
    (hsub : ∀ k, (conns' k).Sublist (conns k)) (hnd : cs.Nodup)
    (hcs : ∀ c, c ∈ cs ↔ ∃ k, c ∈ conns k ∧ c ∉ conns' k) :
    Tracks handles next conns' entered (discarded ++ cs) (l.discardAll cs)
      ∧ machine.Reachable (l.discardAll cs) := by
  have hidle : ∀ c ∈ cs, ∃ k, l.place c = some (.idle k) ∧ c ∉ conns' k := by
    intro c hc
    obtain ⟨k, hk, hk'⟩ := (hcs c).mp hc
    exact ⟨k, (t.idle k c).mp hk, hk'⟩
  refine ⟨⟨?_, ?_, ?_, ?_, ?_, t.home, t.key, t.fresh⟩, ?_⟩
  -- what is held was not at rest, so it is not among `cs`
  · intro h c
    rw [t.held h c, place_discardAll]
    by_cases hc : c ∈ cs
    · obtain ⟨k, hk, -⟩ := hidle c hc
      simp [hc, hk]
    · simp [hc]
  -- what is left of a queue is what was in it, less what was cut out
  · intro k c
    rw [place_discardAll]
    by_cases hc : c ∈ cs
    · obtain ⟨k', hk', hnot⟩ := hidle c hc
      simp only [hc, if_true, Option.some.injEq, reduceCtorEq, iff_false]
      intro hmem
      have hk : l.place c = some (.idle k) :=
        (t.idle k c).mp ((hsub k).subset hmem)
      have hkk : k' = k := by simpa [hk'] using hk
      exact hnot (hkk ▸ hmem)
    · simp only [hc, if_false]
      rw [← t.idle k c]
      refine ⟨fun hmem => (hsub k).subset hmem, fun hmem => ?_⟩
      by_contra hnot
      exact hc ((hcs c).mpr ⟨k, hmem, hnot⟩)
  · intro c
    rw [List.mem_append, t.gone c, place_discardAll]
    by_cases hc : c ∈ cs <;> simp [hc]
  · intro k
    exact (t.nodup k).sublist (hsub k)
  -- nothing is discarded twice: what was gone was not idle
  · refine List.nodup_append.mpr ⟨t.gone_nodup, hnd, ?_⟩
    intro a ha b hb heq
    subst heq
    obtain ⟨k, hk, -⟩ := hidle a hb
    simp [(t.gone a).mp ha] at hk
  · refine reachable_discardAll hr hnd fun c hc => ?_
    obtain ⟨k, hk, -⟩ := hidle c hc
    exact Or.inr ⟨k, hk⟩

/-- Discarding one handle's connection. -/
theorem Tracks.discardHeld
    (t : Tracks handles next conns entered discarded l)
    (hr : machine.Reachable l) {h : Nat} {p : Pooled K T}
    (hp : handles h = some p) :
    Tracks (Function.update handles h none) next conns entered
        (discarded ++ [p.value]) (l.moveTo p.value .gone)
      ∧ machine.Reachable (l.moveTo p.value .gone) := by
  have hheld : l.place p.value = some (.held h) :=
    (t.held h p.value).mp ⟨p, hp, rfl⟩
  refine ⟨⟨?_, ?_, ?_, t.nodup, ?_, t.home, ?_, ?_⟩, ?_⟩
  · exact t.held_release (orderly_of_reachable hr) hheld (by simp)
  · exact t.idle_moveTo (t.not_idle_of_held hheld) (by simp)
  · intro c
    rw [List.mem_append, List.mem_singleton, t.gone c]
    by_cases hc : c = p.value <;> simp [moveTo, hc]
  · -- what is held was not gone
    refine List.nodup_append.mpr
      ⟨t.gone_nodup, List.nodup_singleton _, ?_⟩
    intro a ha b hb heq
    subst heq
    rw [List.mem_singleton.mp hb] at ha
    simp [(t.gone _).mp ha] at hheld
  · exact fun h' p' hp' => t.key_release hp'
  · exact fun h' hle => t.fresh_release h hle
  · exact .step (a := .discard p.value) hr trivial
      (if_pos (Or.inl ⟨h, hheld⟩))

/-- A connection enters through a new handle. -/
theorem Tracks.enterHeld
    (t : Tracks handles next conns entered discarded l)
    (hr : machine.Reachable l) {k : K} {c : T}
    (hc : ∀ k, (k, c) ∉ entered) (isReused : Bool) :
    Tracks
        (Function.update handles next (some (Pooled.new k c isReused)))
        (next + 1) conns ((k, c) :: entered) discarded
        (l.enter c k (.held next))
      ∧ machine.Reachable (l.enter c k (.held next)) := by
  have ho := orderly_of_reachable hr
  have hnone : l.place c = none := t.place_none ho hc
  refine ⟨⟨?_, ?_, ?_, t.nodup, t.gone_nodup, t.home_enter ho hnone _, ?_,
    fun h hle => t.fresh_issue _ hle⟩, ?_⟩
  · exact t.held_issue (p := Pooled.new k c isReused)
      (by simp [Pooled.new, hnone])
  · exact t.idle_moveTo (t.not_idle_of_none hnone) (by simp)
  · exact t.gone_moveTo (by simp [hnone]) (by simp)
  · intro h p hp
    by_cases hh : h = next
    · subst hh
      rw [Function.update_self, Option.some.injEq] at hp
      subst hp
      exact ⟨rfl, by simp [enter, Pooled.new]⟩
    · rw [Function.update_of_ne hh] at hp
      exact t.key_enter hnone _ hp
  · exact .step (a := .enterHeld c k next) hr trivial
      (if_pos ⟨hnone, t.free_next⟩)

variable [DecidableEq K]

/-- What was in no queue stands at the back of one, and in no other. -/
theorem Tracks.idle_push
    (t : Tracks handles next conns entered discarded l) {c : T}
    (hc : ∀ k, c ∉ conns k) (k k' : K) (d : T) :
    d ∈ (if k' = k then conns k ++ [c] else conns k')
      ↔ (l.moveTo c (.idle k)).place d = some (.idle k') := by
  by_cases hd : d = c
  · subst hd
    by_cases hk : k' = k
    · simp [hk, moveTo]
    · simp [hk, moveTo, hc k', Ne.symm hk]
  · by_cases hk : k' = k
    · subst hk
      simpa [moveTo, hd] using t.idle k' d
    · simpa [moveTo, hd, hk] using t.idle k' d

/-- And it stands there once. -/
theorem Tracks.nodup_push
    (t : Tracks handles next conns entered discarded l) {c : T}
    (hc : ∀ k, c ∉ conns k) (k k' : K) :
    (if k' = k then conns k ++ [c] else conns k').Nodup := by
  by_cases hk : k' = k
  · subst hk
    simp only [if_true]
    refine List.nodup_append.mpr ⟨t.nodup k', List.nodup_singleton c, ?_⟩
    intro a ha b hb heq
    subst heq
    exact hc k' (List.mem_singleton.mp hb ▸ ha)
  · simpa [hk] using t.nodup k'

/-- The front of a queue is lent through a new handle. -/
theorem Tracks.lend (t : Tracks handles next conns entered discarded l)
    (hr : machine.Reachable l) {k : K} {c : T} (rest : List T)
    (hq : conns k = c :: rest) (isReused : Bool) :
    Tracks
        (Function.update handles next (some (Pooled.new k c isReused)))
        (next + 1) (fun k' => if k' = k then rest else conns k') entered
        discarded (l.moveTo c (.held next))
      ∧ machine.Reachable (l.moveTo c (.held next)) := by
  have ho := orderly_of_reachable hr
  have hidle : l.place c = some (.idle k) :=
    (t.idle k c).mp (by rw [hq]; exact List.mem_cons_self)
  have hnd : c ∉ rest ∧ rest.Nodup := by
    have := t.nodup k
    rw [hq] at this
    exact List.nodup_cons.mp this
  refine ⟨⟨?_, ?_, ?_, ?_, t.gone_nodup, t.home, ?_,
    fun h hle => t.fresh_issue _ hle⟩, ?_⟩
  · exact t.held_issue (p := Pooled.new k c isReused)
      (by simp [Pooled.new, hidle])
  · -- the front is no longer in its queue, for it was there once
    intro k' d
    by_cases hd : d = c
    · subst hd
      by_cases hk : k' = k
      · simp [hk, moveTo, hnd.1]
      · simp [hk, moveTo, t.idle, hidle, Ne.symm hk]
    · by_cases hk : k' = k
      · subst hk
        have := t.idle k' d
        rw [hq, List.mem_cons] at this
        simpa [moveTo, hd] using this
      · simpa [moveTo, hd, hk] using t.idle k' d
  · exact t.gone_moveTo (by simp [hidle]) (by simp)
  · intro k'
    by_cases hk : k' = k
    · simpa [hk] using hnd.2
    · simpa [hk] using t.nodup k'
  · -- the new handle goes back where its connection came from
    intro h p hp
    by_cases hh : h = next
    · subst hh
      rw [Function.update_self, Option.some.injEq] at hp
      subst hp
      exact ⟨rfl, (ho.idle_home c k hidle).symm⟩
    · rw [Function.update_of_ne hh] at hp
      exact t.key h p hp
  · exact .step (a := .lend c next) hr trivial
      (if_pos ⟨⟨k, hidle⟩, t.free_next⟩)

/-- A connection enters at the back of a queue. -/
theorem Tracks.enterIdle
    (t : Tracks handles next conns entered discarded l)
    (hr : machine.Reachable l) {k : K} {c : T}
    (hc : ∀ k, (k, c) ∉ entered) :
    Tracks handles next
        (fun k' => if k' = k then conns k ++ [c] else conns k')
        ((k, c) :: entered) discarded (l.enter c k (.idle k))
      ∧ machine.Reachable (l.enter c k (.idle k)) := by
  have ho := orderly_of_reachable hr
  have hnone : l.place c = none := t.place_none ho hc
  have hnot := t.not_idle_of_none hnone
  refine ⟨⟨?_, t.idle_push hnot k, ?_, t.nodup_push hnot k, t.gone_nodup,
    t.home_enter ho hnone _, fun h p hp => t.key_enter hnone _ hp,
    t.fresh⟩, ?_⟩
  · intro h d
    rw [t.held h d]
    by_cases hd : d = c
    · subst hd
      simp [enter, hnone]
    · simp [enter, hd]
  · exact t.gone_moveTo (by simp [hnone]) (by simp)
  · exact .step (a := .enterIdle c k) hr trivial (if_pos hnone)

/-- A handle's connection comes to rest at the back of its queue. -/
theorem Tracks.rest (t : Tracks handles next conns entered discarded l)
    (hr : machine.Reachable l) {h : Nat} {p : Pooled K T} {k : K}
    (hp : handles h = some p) (hk : p.key = some k) :
    Tracks (Function.update handles h none) next
        (fun k' => if k' = k then conns k ++ [p.value] else conns k')
        entered discarded (l.moveTo p.value (.idle k))
      ∧ machine.Reachable (l.moveTo p.value (.idle k)) := by
  have hheld : l.place p.value = some (.held h) :=
    (t.held h p.value).mp ⟨p, hp, rfl⟩
  -- it comes to rest under the key it came in under
  have hhome : l.home p.value = some k := by
    rw [← (t.key h p hp).2, hk]
  have hnot := t.not_idle_of_held hheld
  refine ⟨⟨?_, t.idle_push hnot k, ?_, t.nodup_push hnot k, t.gone_nodup,
    t.home, fun h' p' hp' => t.key_release hp',
    fun h' hle => t.fresh_release h hle⟩, ?_⟩
  · exact t.held_release (orderly_of_reachable hr) hheld (by simp)
  · exact t.gone_moveTo (by simp [hheld]) (by simp)
  · exact .step (a := .rest p.value) hr trivial (step_rest hheld hhome)

/-- The front of one queue is cut off and discarded. -/
theorem Tracks.cut (t : Tracks handles next conns entered discarded l)
    (hr : machine.Reachable l) (k : K) (n : Nat) :
    Tracks handles next
        (fun k' => if k' = k then (conns k).drop n else conns k') entered
        (discarded ++ (conns k).take n) (l.discardAll ((conns k).take n))
      ∧ machine.Reachable (l.discardAll ((conns k).take n)) := by
  have hnd : ((conns k).take n ++ (conns k).drop n).Nodup := by
    rw [List.take_append_drop]
    exact t.nodup k
  obtain ⟨hnd₁, -, hdis⟩ := List.nodup_append.mp hnd
  refine t.discard hr _ _ ?_ hnd₁ ?_
  · intro k'
    by_cases hk : k' = k
    · simpa [hk] using List.drop_sublist n (conns k)
    · simp [hk]
  -- cut off are just those in front: nothing stands in a queue twice
  · intro c
    constructor
    · intro hc
      refine ⟨k, List.mem_of_mem_take hc, ?_⟩
      simp only [if_true]
      exact fun hc' => hdis c hc c hc' rfl
    · intro hex
      obtain ⟨k', hmem, hnot⟩ := hex
      by_cases hk : k' = k
      · subst hk
        simp only [if_true] at hnot
        rw [← List.take_append_drop n (conns k')] at hmem
        rcases List.mem_append.mp hmem with h | h
        · exact h
        · exact absurd h hnot
      · simp [hk, hmem] at hnot

/-- Every queue is filtered; what fails the test is discarded. -/
theorem Tracks.sweep {pool : PoolInner K T}
    (t : Tracks handles next (fun k => (pool.queue k).map Idle.conn) entered
      discarded l)
    (hr : machine.Reachable l) (now dur : Nat) :
    ∃ l', machine.Reachable l' ∧
      Tracks handles next
        (fun k => ((pool.clearExpired now dur).pool.queue k).map Idle.conn)
        entered (discarded ++ (pool.clearExpired now dur).dropped) l' := by
  have hinj : ∀ k, ∀ e ∈ pool.queue k, ∀ e' ∈ pool.queue k,
      e.conn = e'.conn → e = e' := fun k e he e' he' h =>
    List.inj_on_of_nodup_map (t.nodup k) he he' h
  have hkey : ∀ k k' c, c ∈ (pool.queue k).map Idle.conn →
      c ∈ (pool.queue k').map Idle.conn → k = k' := by
    intro k k' c h h'
    have h₁ := (t.idle k c).mp h
    rw [(t.idle k' c).mp h'] at h₁
    simpa using h₁.symm
  have hd := t.discard hr
    (fun k => ((pool.clearExpired now dur).pool.queue k).map Idle.conn)
    (pool.clearExpired now dur).dropped ?_ ?_ ?_
  · exact ⟨_, hd.2, hd.1⟩
  · intro k
    rw [queue_clearExpired]
    exact List.filter_sublist.map _
  -- what fails the test leaves, and by `hinj` nothing with its name
  -- stays
  · exact nodup_dropped_clearExpired t.nodup hkey
  · intro c
    rw [mem_dropped_clearExpired]
    refine exists_congr fun k => ?_
    rw [queue_clearExpired]
    constructor
    · intro hex
      obtain ⟨e, he, hexp, rfl⟩ := hex
      refine ⟨List.mem_map_of_mem he, fun hmem => ?_⟩
      obtain ⟨e', he', hee⟩ := List.mem_map.mp hmem
      obtain ⟨hmem', hexp'⟩ := List.mem_filter.mp he'
      rw [hinj k e' hmem' e he hee, hexp] at hexp'
      cases hexp'
    · intro hex
      obtain ⟨hmem, hnot⟩ := hex
      obtain ⟨e, he, rfl⟩ := List.mem_map.mp hmem
      refine ⟨e, he, ?_, rfl⟩
      by_contra hexp
      refine hnot (List.mem_map_of_mem (List.mem_filter.mpr ⟨he, ?_⟩))
      simpa using hexp

/-- However many ticks are due, polling the idle task only sweeps. -/
theorem Tracks.poll (task : IdleTask) (now : Nat) (ticks : Nat) :
    ∀ (shared : Option (PoolInner K T)) {discarded : List T}
      {l : Custody T K Nat},
      Tracks handles next (fun k => (sharedQueue shared k).map Idle.conn)
        entered discarded l →
      machine.Reachable l →
      ∃ l', machine.Reachable l' ∧
        Tracks handles next
          (fun k => (sharedQueue (task.poll now ticks shared).2.1 k).map
            Idle.conn)
          entered (discarded ++ (task.poll now ticks shared).2.2) l' := by
  induction ticks with
  | zero =>
      intro shared discarded l t hr
      cases shared <;> exact ⟨l, hr, by simpa [IdleTask.poll] using t⟩
  | succ ticks ih =>
      intro shared discarded l t hr
      cases shared with
      | none => exact ⟨l, hr, by simpa [IdleTask.poll] using t⟩
      | some pool =>
          obtain ⟨l₁, hr₁, t₁⟩ := Tracks.sweep t hr now task.idleDur
          obtain ⟨l₂, hr₂, t₂⟩ :=
            ih (some (pool.clearExpired now task.idleDur).pool) t₁ hr₁
          -- one sweep for this tick, and the rest by induction
          refine ⟨l₂, hr₂, ?_⟩
          simpa [IdleTask.poll] using t₂

/-- Everything at rest is discarded. -/
theorem Tracks.dropAll {pool : PoolInner K T}
    (t : Tracks handles next (fun k => (pool.queue k).map Idle.conn) entered
      discarded l)
    (hr : machine.Reachable l) :
    ∃ l', machine.Reachable l' ∧
      Tracks handles next (fun _ => []) entered
        (discarded ++ collect (List.map Idle.conn) pool.idleConns) l' := by
  have hd := t.discard hr (fun _ => [])
    (collect (List.map Idle.conn) pool.idleConns)
    (fun _ => List.nil_sublist _) ?_ ?_
  · exact ⟨_, hd.2, hd.1⟩
  · refine nodup_collect t.nodup ?_
    intro k k' c h h'
    have h₁ := (t.idle k c).mp h
    rw [(t.idle k' c).mp h'] at h₁
    simpa using h₁.symm
  · intro c
    rw [mem_collect (by simp)]
    simp [PoolInner.queue]

end Moves

-- ======================================================= whole operations

/-- A world tracks a custody. -/
def World.Tracks [DecidableEq K] (w : World K T) (l : Custody T K Nat) :
    Prop :=
  Pool.Tracks w.handles w.nextHandle w.conns w.entered w.discarded l

section Operations

variable [DecidableEq K] {w w' : World K T} {l : Custody T K Nat}

/-- The queues after an insertion, as connections. -/
private theorem conns_insertIdle (full : Nat → Nat → Bool)
    (pool : PoolInner K T) (now : Nat) (key : K) (c : T) :
    ∃ n, (fun k => ((insertIdle full pool now key c).pool.queue k).map
            Idle.conn)
          = (fun k =>
              if k = key then ((pool.queue key).map Idle.conn).drop n ++ [c]
              else (pool.queue k).map Idle.conn)
        ∧ (insertIdle full pool now key c).dropped
          = ((pool.queue key).map Idle.conn).take n := by
  refine ⟨evictions full (pool.queue key).length pool.maxIdle, ?_, ?_⟩
  · funext k
    rw [queue_insertIdle]
    by_cases hk : k = key
    · simp [hk, Idle.new, List.map_drop]
    · simp [hk]
  · rw [dropped_insertIdle, List.map_take]

/-- `get` discards what it passes over and lends what it returns. -/
theorem World.Tracks.get {k : K} {r : Option (Pooled K T)}
    (t : w.Tracks l) (hr : Custody.machine.Reachable l)
    (h : w.get k = some (w', r)) :
    ∃ l', Custody.machine.Reachable l' ∧ w'.Tracks l' := by
  unfold World.get at h
  split at h
  next pool hpool =>
    unfold World.Tracks at t
    rw [World.conns_of_pool _ hpool] at t
    obtain ⟨hres, hdrop, hq⟩ := get_eq pool w.now k
    have hsplit : ∀ pre : List (Idle T), ∀ tl, pool.queue k = pre ++ tl →
        ((pool.queue k).map Idle.conn).take pre.length = pre.map Idle.conn
          ∧ ((pool.queue k).map Idle.conn).drop pre.length
            = tl.map Idle.conn := by
      intro pre tl hk
      rw [hk, List.map_append]
      exact ⟨List.take_left' (by simp), List.drop_left' (by simp)⟩
    rcases getLoop_cases w.now pool.idleDur (pool.queue k) with
      ⟨-, heq⟩ | ⟨pre, idle, rest, hk, -, -, heq⟩
    -- everything is expired: the whole queue is cut off
    · rw [heq] at hres hdrop
      simp only [hres, Option.map_none, Option.some.injEq,
        Prod.mk.injEq] at h
      obtain ⟨rfl, -⟩ := h
      obtain ⟨htake, hdropn⟩ := hsplit (pool.queue k) [] (by simp)
      obtain ⟨t', hr'⟩ := t.cut hr k (pool.queue k).length
      rw [htake, hdropn] at t'
      refine ⟨_, hr', ?_⟩
      unfold World.Tracks
      rw [World.conns_of_pool _ rfl]
      simp only [World.settle, hdrop]
      convert t' using 1
      · funext k'
        rw [hq, heq]
        by_cases hkk : k' = k <;> simp [hkk]
      · rw [htake]
    -- the expired front is cut off, and the next one lent
    · rw [heq] at hres hdrop
      simp only [hres, Option.map_some, Option.some.injEq,
        Prod.mk.injEq] at h
      obtain ⟨rfl, -⟩ := h
      obtain ⟨htake, hdropn⟩ := hsplit pre (idle :: rest) hk
      obtain ⟨t', hr'⟩ := t.cut hr k pre.length
      rw [htake, hdropn] at t'
      rw [htake] at hr'
      obtain ⟨t'', hr''⟩ := t'.lend hr' (k := k) (c := idle.conn)
        (rest.map Idle.conn) (by simp) true
      refine ⟨_, hr'', ?_⟩
      unfold World.Tracks
      rw [World.conns_of_pool (pool.get w.now k).pool rfl]
      simp only [World.issue, World.settle, hdrop]
      convert t'' using 1
      funext k'
      rw [hq, heq]
      by_cases hkk : k' = k <;> simp [hkk]
  next => cases h

variable [DecidableEq T]

/-- `link` lets a connection enter through a handle. -/
theorem World.Tracks.link {k : K} {c : T} (t : w.Tracks l)
    (hr : Custody.machine.Reachable l) (h : w.link k c = some w') :
    ∃ l', Custody.machine.Reachable l' ∧ w'.Tracks l' := by
  obtain ⟨hfresh, rfl⟩ := World.link_eq_some h
  obtain ⟨t', hr'⟩ := Pool.Tracks.enterHeld t hr hfresh false
  exact ⟨_, hr', t'⟩

/-- `put` discards what it evicts and lets a connection enter at rest. -/
theorem World.Tracks.put {k : K} {c : T} (t : w.Tracks l)
    (hr : Custody.machine.Reachable l) (h : w.put k c = some w') :
    ∃ l', Custody.machine.Reachable l' ∧ w'.Tracks l' := by
  obtain ⟨pool, hpool, hfresh, rfl⟩ := World.put_eq_some h
  unfold World.Tracks at t
  rw [World.conns_of_pool _ hpool] at t
  obtain ⟨n, hconns, hdrop⟩ := conns_insertIdle
    (fun len maxIdle => decide (len > maxIdle)) pool w.now k c
  obtain ⟨t', hr'⟩ := t.cut hr k n
  obtain ⟨t'', hr''⟩ := t'.enterIdle hr' (k := k) hfresh
  refine ⟨_, hr'', ?_⟩
  unfold World.Tracks
  rw [World.conns_of_pool (pool.put w.now k c).pool rfl]
  simp only [World.settle, PoolInner.put, hdrop, hconns]
  convert t'' using 1
  funext k'
  by_cases hk : k' = k <;> simp [hk]

omit [DecidableEq T] in
/-- Dropping a handle discards its connection or lets it rest. -/
theorem World.Tracks.drop {h : Nat} {isOpen : Bool} (t : w.Tracks l)
    (hr : Custody.machine.Reachable l) (hs : w.drop h isOpen = some w') :
    ∃ l', Custody.machine.Reachable l' ∧ w'.Tracks l' := by
  obtain ⟨p, hp, rfl⟩ := World.drop_eq_some hs
  obtain ⟨hpool, hkey⟩ := t.key h p hp
  have hdis : ∃ l', Custody.machine.Reachable l' ∧
      Pool.Tracks (Function.update w.handles h none) w.nextHandle w.conns
        w.entered (w.discarded ++ [p.value]) l' := by
    obtain ⟨t', hr'⟩ := Pool.Tracks.discardHeld t hr hp
    exact ⟨_, hr', t'⟩
  unfold Pooled.drop
  -- not open, no pool, or back to rest
  cases isOpen with
  | false => exact hdis
  | true =>
      simp only [Bool.not_true, Bool.false_eq_true, if_false, hpool,
        if_true]
      cases hw : w.pool with
      | none =>
          unfold World.conns World.queue at hdis
          rw [hw] at hdis
          exact hdis
      | some pool =>
          obtain ⟨k, hk⟩ := Option.isSome_iff_exists.mp (p.key_isSome hpool)
          unfold World.Tracks at t
          rw [World.conns_of_pool _ hw] at t
          -- whatever it evicts is cut off before it comes to rest
          obtain ⟨n, hconns, hdrop⟩ := conns_insertIdle
            (fun len maxIdle => decide (len ≥ maxIdle)) pool w.now k
            p.value
          obtain ⟨t', hr'⟩ := t.cut hr k n
          obtain ⟨t'', hr''⟩ := t'.rest hr' hp hk
          refine ⟨_, hr'', ?_⟩
          simp only [hk]
          unfold World.Tracks
          rw [World.conns_of_pool (pool.giveBack w.now k p.value).pool rfl]
          simp only [PoolInner.giveBack, hdrop, hconns]
          convert t'' using 1
          funext k'
          by_cases hkk : k' = k <;> simp [hkk]

omit [DecidableEq T] in
/-- Sweeping discards. -/
theorem World.Tracks.clearExpired {pool : PoolInner K T}
    (t : w.Tracks l) (hr : Custody.machine.Reachable l)
    (hw : w.pool = some pool) (dur : Nat) :
    ∃ l', Custody.machine.Reachable l' ∧
      (w.settle (pool.clearExpired w.now dur)).Tracks l' := by
  unfold World.Tracks at t
  rw [World.conns_of_pool _ hw] at t
  obtain ⟨l', hr', t'⟩ := Pool.Tracks.sweep t hr w.now dur
  exact ⟨l', hr', t'⟩

omit [DecidableEq T] in
/-- Polling the idle task discards. -/
theorem World.Tracks.pollIdle {ticks : Nat} (t : w.Tracks l)
    (hr : Custody.machine.Reachable l) (h : w.pollIdle ticks = some w') :
    ∃ l', Custody.machine.Reachable l' ∧ w'.Tracks l' := by
  obtain ⟨task, -, rfl⟩ := World.pollIdle_eq_some h
  obtain ⟨l', hr', t'⟩ := Pool.Tracks.poll task w.now ticks _ t hr
  exact ⟨l', hr', t'⟩

omit [DecidableEq T] in
/-- Dropping the pool discards. -/
theorem World.Tracks.dropPool (t : w.Tracks l)
    (hr : Custody.machine.Reachable l) (h : w.dropPool = some w') :
    ∃ l', Custody.machine.Reachable l' ∧ w'.Tracks l' := by
  obtain ⟨pool, hw, rfl⟩ := World.dropPool_eq_some h
  unfold World.Tracks at t
  rw [World.conns_of_pool _ hw] at t
  obtain ⟨l', hr', t'⟩ := Pool.Tracks.dropAll t hr
  exact ⟨l', hr', t'⟩

-- ======================================================== the simulation

/-- Every action of a world is matched by moves of its custody. -/
theorem tracks_step {a : Action K T} (t : w.Tracks l)
    (hr : Custody.machine.Reachable l) (h : w.step a = some w') :
    ∃ l', Custody.machine.Reachable l' ∧ w'.Tracks l' := by
  cases a with
  | tick dt =>
      cases h
      exact ⟨l, hr, t⟩
  | link k c => exact t.link hr h
  | put k c => exact t.put hr h
  | get k =>
      obtain ⟨⟨w₁, r⟩, hget, rfl⟩ := Option.map_eq_some_iff.mp h
      exact t.get hr hget
  | drop hd isOpen => exact t.drop hr h
  | clearExpired dur =>
      obtain ⟨pool, hw, rfl⟩ := Option.map_eq_some_iff.mp h
      exact t.clearExpired hr hw dur
  | pollIdle ticks => exact t.pollIdle hr h
  | dropPool => exact t.dropPool hr h
  | connect k =>
      obtain ⟨⟨w₁, r⟩, hconn, rfl⟩ := Option.map_eq_some_iff.mp h
      -- a `connect` moves only what its `get` does
      obtain ⟨w₂, hget, heq, -⟩ := World.connect_eq_some hconn
      obtain ⟨l', hr', t'⟩ := t.get hr hget
      dsimp only at heq ⊢
      rw [heq]
      exact ⟨l', hr', t'⟩
  | connected k c =>
      exact World.Tracks.link (w :=
        { w with connecting := w.connecting.erase k }) t hr
        (World.connected_eq_some h)
  | connectFailed k =>
      rw [World.connectFailed_eq_some h]
      exact ⟨l, hr, t⟩

/-- The pool, with its tasks, refines the custody machine. -/
theorem custody_simulation (idleInterval maxIdle : Option Nat) :
    Simulation (World.machine (K := K) (T := T) idleInterval maxIdle)
      (fun _ _ => True) Custody.machine (fun _ _ => True) World.Tracks where
  init := by
    intro w hinit
    obtain ⟨now, rfl⟩ := hinit
    refine ⟨Custody.empty, rfl, ?_⟩
    have hconns : (World.new now idleInterval maxIdle : World K T).conns
        = fun _ => [] := by
      rw [World.conns_of_pool _ rfl]
      cases idleInterval <;> simp [newWithIdleInterval]
    unfold World.Tracks
    rw [hconns]
    exact Tracks.empty
  step := fun _ _ _ _ _ _ h hr t => tracks_step t hr h

/-- Every world reached tracks a custody reached. -/
theorem exists_custody {idleInterval maxIdle : Option Nat}
    (hr : (World.machine idleInterval maxIdle).Reachable w) :
    ∃ l : Custody T K Nat, Custody.machine.Reachable l ∧ w.Tracks l :=
  (custody_simulation idleInterval maxIdle).reachable hr

end Operations

end MonoioTransports.Pool
