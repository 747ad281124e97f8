/-
What the calls of a `HyperH1Connector` hold.

A call that awaits `ready` holds the handle of a pooled connection. The
loop took it from the pool, so it is a new handle, and it leaves the
call by being returned or dropped: no two calls hold one handle, nobody
else can drop it, and its connection is nowhere else (`Held`). What
`connect` returns is then the only handle of a connection that entered
the pool under the key asked for.
-/
import MonoioTransports.Http.Proofs.HyperH1Transition
import MonoioTransports.Pool.Proofs.Accounting

namespace MonoioTransports.Http

open Lib Pool

variable {K C : Type}

/-- The key a call is for. -/
def HyperH1Connect.key : HyperH1Connect K → K
  | .ready key _ => key
  | .underlying key => key
  | .handshake key => key

namespace HyperH1Connector

/-- The key of the call that an action resumes. -/
def serves (s : HyperH1Connector K C) : HyperH1Action K C → Option K
  | .ready t _ => (s.calls t).map HyperH1Connect.key
  | .handshake t _ => (s.calls t).map HyperH1Connect.key
  | _ => none

-- ========================================================= the invariant

/-- A call at `ready` holds a live handle of its key, and it alone. -/
structure Held (s : HyperH1Connector K C) : Prop where
  fresh : ∀ t, s.nextCall ≤ t → s.calls t = none
  owned : ∀ t key h, s.calls t = some (.ready key h) →
    ∃ c, s.world.handles h = some (Pooled.new key c true)
  apart : ∀ t t' h, HyperH1Connect.held (s.calls t) = some h →
    HyperH1Connect.held (s.calls t') = some h → t' = t

variable {s s' : HyperH1Connector K C}

theorem held_eq_some {call : Option (HyperH1Connect K)} {h : Nat} :
    HyperH1Connect.held call = some h ↔ ∃ key, call = some (.ready key h) := by
  cases call with
  | none => simp [HyperH1Connect.held]
  | some call =>
      cases call with
      | ready key hd => simp [HyperH1Connect.held]
      | underlying key => simp [HyperH1Connect.held]
      | handshake key => simp [HyperH1Connect.held]

theorem Held.lt_next (hh : s.Held) {t : Nat} {call : HyperH1Connect K}
    (h : s.calls t = some call) : t < s.nextCall := by
  by_contra hle
  rw [hh.fresh t (Nat.le_of_not_lt hle)] at h
  cases h

/-- The world moves, and one call with it. The others keep their
handles, and the one the call now holds is no other call's. -/
theorem Held.move (hh : s.Held) {w : World K C} {t n : Nat}
    {call : Option (HyperH1Connect K)} {returned : Option Nat}
    (ht : t < n) (hn : s.nextCall ≤ n)
    (hkeep : ∀ t' key h, t' ≠ t → s.calls t' = some (.ready key h) →
      w.handles h = s.world.handles h)
    (hnew : ∀ key h, call = some (.ready key h) →
      (∃ c, w.handles h = some (Pooled.new key c true))
        ∧ ∀ t', t' ≠ t → HyperH1Connect.held (s.calls t') ≠ some h) :
    Held { s with
      world := w, nextCall := n
      calls := Function.update s.calls t call, returned := returned } := by
  refine ⟨?_, ?_, ?_⟩
  · intro t' hle
    have hle : n ≤ t' := hle
    show Function.update s.calls t call t' = none
    rw [Function.update_of_ne (by omega)]
    exact hh.fresh t' (Nat.le_trans hn hle)
  · intro t' key h hcall
    by_cases htt : t' = t
    · simp only [htt, Function.update_self] at hcall
      exact (hnew key h hcall).1
    · simp only [Function.update_of_ne htt] at hcall
      show ∃ c, w.handles h = _
      rw [hkeep t' key h htt hcall]
      exact hh.owned t' key h hcall
  · intro t₁ t₂ h h₁ h₂
    by_cases ht₁ : t₁ = t
    · by_cases ht₂ : t₂ = t
      · rw [ht₁, ht₂]
      · simp only [ht₁, Function.update_self] at h₁
        simp only [Function.update_of_ne ht₂] at h₂
        obtain ⟨key, hcall⟩ := held_eq_some.mp h₁
        exact absurd h₂ ((hnew key h hcall).2 t₂ ht₂)
    · by_cases ht₂ : t₂ = t
      · simp only [ht₂, Function.update_self] at h₂
        simp only [Function.update_of_ne ht₁] at h₁
        obtain ⟨key, hcall⟩ := held_eq_some.mp h₂
        exact absurd h₁ ((hnew key h hcall).2 t₁ ht₁)
      · simp only [Function.update_of_ne ht₁] at h₁
        simp only [Function.update_of_ne ht₂] at h₂
        exact hh.apart t₁ t₂ h h₁ h₂

/-- A call moves on holding nothing, and the world stays. -/
theorem Held.goTo (hh : s.Held) {t : Nat}
    {call : Option (HyperH1Connect K)} (ht : t < s.nextCall)
    (hcall : HyperH1Connect.held call = none) : (s.goTo t call).Held := by
  refine hh.move ht (Nat.le_refl _) (fun _ _ _ _ _ => rfl) ?_
  intro key h heq
  rw [heq] at hcall
  cases hcall

variable [DecidableEq K]

/-- The handles the calls hold are older than the next. -/
theorem Held.lt_nextHandle (hh : s.Held) {l : Custody C K Nat}
    (tr : s.world.Tracks l) {t h : Nat} {key : K}
    (hcall : s.calls t = some (.ready key h)) : h < s.world.nextHandle := by
  by_contra hle
  obtain ⟨c, hc⟩ := hh.owned t key h hcall
  rw [tr.fresh h (Nat.le_of_not_lt hle)] at hc
  cases hc

/-- After the loop a call holds what the loop took, a new handle. -/
theorem Held.scanned (hh : s.Held) {l : Custody C K Nat}
    (tr : s.world.Tracks l) {w : World K C} {t n : Nat} {key : K}
    {closed : C → Bool} {r : Drained K C} (hr : Scanned closed key w r)
    (ht : t < n) (hn : s.nextCall ≤ n)
    (hnext : w.nextHandle = s.world.nextHandle)
    (hkeep : ∀ t' key h, t' ≠ t → s.calls t' = some (.ready key h) →
      w.handles h = s.world.handles h) :
    Held { s with
      world := r.world, nextCall := n
      calls := Function.update s.calls t (some (.after key r.pooled))
      returned := none } := by
  have hold : ∀ t' key' h, s.calls t' = some (.ready key' h) →
      h < w.nextHandle := by
    intro t' key' h hcall
    rw [hnext]
    exact hh.lt_nextHandle tr hcall
  have hpass : ∃ gone, Passed key w r.world gone := by
    cases hr.drains with
    | empty hall hpass => exact ⟨_, hpass⟩
    | found pre idle rest h hq hpre hidle hpass => exact ⟨_, hpass⟩
  obtain ⟨gone, hpass⟩ := hpass
  refine hh.move ht hn ?_ ?_
  · intro t' key' h htt hcall
    rw [hpass.handles h (hold t' key' h hcall)]
    exact hkeep t' key' h htt hcall
  · intro key' h heq
    cases hr.drains with
    | empty hall hpass' hnone =>
        rw [hnone] at heq
        cases heq
    | found pre idle rest h' hq hpre hidle hpass' hpooled hge hheld =>
        rw [hpooled] at heq
        cases heq
        refine ⟨⟨idle.conn, hheld⟩, fun t' _ hother => ?_⟩
        obtain ⟨key', hcall⟩ := held_eq_some.mp hother
        exact Nat.not_le_of_lt (hold t' key' _ hcall) hge

/-- Dropping a handle leaves the others. -/
theorem handles_of_drop {w w' : World K C} {h : Nat} {isOpen : Bool}
    (hs : w.drop h isOpen = some w') :
    w'.nextHandle = w.nextHandle
      ∧ ∀ h', h' ≠ h → w'.handles h' = w.handles h' := by
  obtain ⟨p, -, rfl⟩ := World.drop_eq_some hs
  exact ⟨rfl, fun h' hne => Function.update_of_ne hne ..⟩

/-- A call that drops the handle it holds leaves the others theirs. -/
theorem Held.others_of_drop (hh : s.Held) {t h : Nat} {key : K}
    {isOpen : Bool} {w : World K C}
    (hcall : s.calls t = some (.ready key h))
    (hs : s.world.drop h isOpen = some w) :
    ∀ t' key' h', t' ≠ t → s.calls t' = some (.ready key' h') →
      w.handles h' = s.world.handles h' := by
  intro t' key' h' htt hcall'
  refine (handles_of_drop hs).2 h' fun heq => htt ?_
  subst heq
  exact hh.apart t t' h' (held_eq_some.mpr ⟨key, hcall⟩)
    (held_eq_some.mpr ⟨key', hcall'⟩)

variable [DecidableEq C]

theorem Held.step (hh : s.Held) {m : Nat} (hw : s.world.Alive m)
    {l : Custody C K Nat} (tr : s.world.Tracks l) {a : HyperH1Action K C}
    (h : s.step a = some s') : s'.Held := by
  cases hyperH1_transition hw h with
  | connect key r hr =>
      exact hh.scanned tr hr (Nat.lt_succ_self _) (Nat.le_succ _) rfl
        fun _ _ _ _ _ => rfl
  | reused t key hd hcall =>
      refine hh.move (hh.lt_next hcall) (Nat.le_refl _)
        (fun _ _ _ _ _ => rfl) ?_
      intro key' h' heq
      cases heq
  | again t key hd p w r hcall hp hdrop hr =>
      exact hh.scanned tr hr (hh.lt_next hcall) (Nat.le_refl _)
        (handles_of_drop hdrop).1 (hh.others_of_drop hcall hdrop)
  | connected t key hcall => exact hh.goTo (hh.lt_next hcall) rfl
  | leave a t key ha hcall =>
      rcases hcall with hcall | hcall
      · exact hh.goTo (hh.lt_next hcall) rfl
      · exact hh.goTo (hh.lt_next hcall) rfl
  | linked t key c w hcall hlink =>
      obtain ⟨-, rfl⟩ := World.link_eq_some hlink
      refine hh.move (hh.lt_next hcall) (Nat.le_refl _) ?_ ?_
      · intro t' key' h' _ hcall'
        exact Function.update_of_ne
          (Nat.ne_of_lt (hh.lt_nextHandle tr hcall')) ..
      · intro key' h' heq
        cases heq
  | giveUp t key hd p w hcall hp hdrop =>
      refine hh.move (hh.lt_next hcall) (Nat.le_refl _)
        (hh.others_of_drop hcall hdrop) ?_
      intro key' h' heq
      cases heq
  | closed c => exact ⟨hh.fresh, hh.owned, hh.apart⟩
  | dropHandle hd p w hp hfree hdrop =>
      refine ⟨hh.fresh, ?_, hh.apart⟩
      intro t key h' hcall
      have hne : h' ≠ hd := by
        -- a caller does not drop what a call holds
        intro heq
        subst heq
        exact hfree t (hh.lt_next hcall) (held_eq_some.mpr ⟨key, hcall⟩)
      show ∃ c, w.handles h' = _
      rw [(handles_of_drop hdrop).2 h' hne]
      exact hh.owned t key h' hcall
  | pool a w hothers hs =>
      refine ⟨hh.fresh, ?_, hh.apart⟩
      intro t key h' hcall
      show ∃ c, w.handles h' = _
      rw [handles_of_step hs (Nat.ne_of_lt (hh.lt_nextHandle tr hcall))
        fun isOpen heq => by
          rw [heq] at hothers
          cases hothers]
      exact hh.owned t key h' hcall

/-- The pool's world of a state reached. -/
theorem exists_world {idleInterval maxIdle : Option Nat}
    (hr : (machine idleInterval maxIdle).Reachable s) :
    s.world.Alive (resolveMaxIdle maxIdle)
      ∧ ∃ l : Custody C K Nat, l.Orderly ∧ s.world.Tracks l := by
  have hw := world_reachable (D := fun _ a => a ≠ .dropPool)
    (fun _ h => h rfl) (fun _ _ => by simp) (fun _ _ _ => by simp)
    (fun _ _ _ => by simp) (fun _ a _ hothers heq => by
      rw [heq] at hothers
      cases hothers) hr
  refine ⟨alive_of_reachable (fun _ h => h rfl) hw, ?_⟩
  obtain ⟨l, hl, tr⟩ := exists_custody hw.reachable
  exact ⟨l, Custody.orderly_of_reachable hl, tr⟩

theorem held_of_reachable {idleInterval maxIdle : Option Nat}
    (hr : (machine idleInterval maxIdle).Reachable s) : s.Held := by
  refine hr.invariant (I := Held) ?_ ?_
  · intro s hinit
    obtain ⟨now, rfl⟩ := hinit
    exact ⟨fun _ _ => rfl, fun _ _ _ h => (by cases h),
      fun _ _ _ h => (by cases h)⟩
  · intro s a s' hrs ih _ h
    obtain ⟨hw, l, -, tr⟩ := exists_world hrs
    exact ih.step hw tr h

end HyperH1Connector

-- ============================================================ the promise

open HyperH1Connector in
/-- What the calls of a `HyperH1Connector` hold, and what they return:
calls hold different handles, each the only place of a connection of its
key; what is returned to a call is the only place of a connection that
entered under the key asked for, and no call holds it any more. -/
theorem hyperH1_exclusive [DecidableEq K] [DecidableEq C]
    {idleInterval maxIdle : Option Nat} {s : HyperH1Connector K C}
    (hr : (machine idleInterval maxIdle).Reachable s) :
    (∀ t t' h, HyperH1Connect.held (s.calls t) = some h →
        HyperH1Connect.held (s.calls t') = some h → t' = t)
      ∧ (∀ t key h, s.calls t = some (.ready key h) →
        ∃ p, s.world.handles h = some p ∧ s.world.Sole key h p.value)
      ∧ ∀ a s' key h, s.step a = some s' → s.serves a = some key →
        s'.returned = some h →
        (∃ p, s'.world.handles h = some p ∧ s'.world.Sole key h p.value)
          ∧ ∀ t, HyperH1Connect.held (s'.calls t) ≠ some h := by
  have hh := held_of_reachable hr
  obtain ⟨hw, l, ho, tr⟩ := exists_world hr
  refine ⟨hh.apart, ?_, ?_⟩
  · intro t key h hcall
    obtain ⟨c, hp⟩ := hh.owned t key h hcall
    exact ⟨_, hp, tr.sole ho ⟨_, hp, rfl⟩ (tr.entered_of_handle hp rfl)⟩
  · intro a s' key h hstep hserves hret
    obtain ⟨-, l', ho', tr'⟩ := exists_world (hr.step trivial hstep)
    cases hyperH1_transition hw hstep with
    | connect | again | connected | leave | giveUp | closed | dropHandle
      | pool => cases hret
    | reused t key' hd hcall =>
        cases hret
        obtain ⟨c, hp⟩ := hh.owned t key' h hcall
        have hkey : key' = key := by
          simpa [serves, hcall, HyperH1Connect.key] using hserves
        subst hkey
        refine ⟨⟨_, hp, tr.sole ho ⟨_, hp, rfl⟩
          (tr.entered_of_handle hp rfl)⟩, fun t' hother => ?_⟩
        by_cases htt : t' = t
        · subst htt
          simp [finish, HyperH1Connect.held] at hother
        · simp only [finish, Function.update_of_ne htt] at hother
          exact htt (hh.apart t t' h (held_eq_some.mpr ⟨key', hcall⟩)
            hother)
    | linked t key' c w hcall hlink =>
        cases hret
        have hkey : key' = key := by
          simpa [serves, hcall, HyperH1Connect.key] using hserves
        subst hkey
        obtain ⟨-, rfl⟩ := World.link_eq_some hlink
        have hp : (({ s.world with
            entered := (key', c) :: s.world.entered }.issue
              (Pool.link key' c)).handles s.world.nextHandle)
                = some (Pool.link key' c) := Function.update_self ..
        refine ⟨⟨_, hp, tr'.sole ho' ⟨_, hp, rfl⟩
          (tr'.entered_of_handle hp rfl)⟩, fun t' hother => ?_⟩
        by_cases htt : t' = t
        · subst htt
          simp [finish, HyperH1Connect.held] at hother
        · simp only [finish, Function.update_of_ne htt] at hother
          obtain ⟨key, hcall'⟩ := held_eq_some.mp hother
          exact Nat.lt_irrefl _ (hh.lt_nextHandle tr hcall')

open HyperH1Connector in
/-- One connection, two calls: the second waits for a connection of its
own while the first awaits the pooled one. -/
theorem hyperH1_exclusive_two :
    ∃ s : HyperH1Connector Nat Nat,
      (machine none none).run (newWithPool 0 none none)
          [.connect 7, .connected 0 true, .handshake 0 (some 1),
            .dropHandle 0, .connect 7, .connect 7] = some s
        ∧ s.calls 1 = some (.ready 7 1) ∧ s.calls 2 = some (.underlying 7)
        ∧ ∃ p, s.world.handles 1 = some p ∧ s.world.Sole 7 1 p.value := by
  obtain ⟨s, hrun, h₁, h₂⟩ : ∃ s : HyperH1Connector Nat Nat,
      (machine none none).run (newWithPool 0 none none)
          [.connect 7, .connected 0 true, .handshake 0 (some 1),
            .dropHandle 0, .connect 7, .connect 7] = some s
        ∧ s.calls 1 = some (.ready 7 1)
        ∧ s.calls 2 = some (.underlying 7) := ⟨_, rfl, rfl, rfl⟩
  obtain ⟨-, hown, -⟩ :=
    hyperH1_exclusive (Machine.Reachable.run (.init ⟨0, rfl⟩) hrun)
  exact ⟨s, hrun, h₁, h₂, hown 1 7 1 h₁⟩

end MonoioTransports.Http
