/-
A pool of HTTP/1.1 connections with other calls at the inner connector.

The list of the calls that `connect` left at the inner connector
(`connecting`) is read only where such a call comes back, and where the
pool is dropped. So a step of the tasks that use the pool is the same
beside any such list (`step_callers`), and a step of `connect` is the
`get` or the `link` in it, with the list moved on (`step_connect`,
`step_connected`, `step_connectFailed`).
-/
import MonoioTransports.Http.Connector
import MonoioTransports.Pool.Proofs.Step

namespace MonoioTransports.Pool

variable {K T : Type}

/-- The same pool, with other calls at their inner connector. -/
def World.beside (w : World K T) (l : List K) : World K T :=
  { w with connecting := l }

@[simp] theorem World.beside_pool (w : World K T) (l : List K) :
    (w.beside l).pool = w.pool := rfl

@[simp] theorem World.beside_now (w : World K T) (l : List K) :
    (w.beside l).now = w.now := rfl

@[simp] theorem World.beside_handles (w : World K T) (l : List K) :
    (w.beside l).handles = w.handles := rfl

variable [DecidableEq K]

theorem World.get_beside (w : World K T) (l : List K) (k : K) :
    (w.beside l).get k = (w.get k).map fun r => (r.1.beside l, r.2) := by
  unfold World.get
  simp only [World.beside_pool, World.beside_now]
  cases w.pool with
  | none => rfl
  | some pool =>
      dsimp only
      cases (pool.get w.now k).result <;> rfl

theorem World.drop_beside (w : World K T) (l : List K) (h : Nat)
    (isOpen : Bool) :
    (w.beside l).drop h isOpen = (w.drop h isOpen).map (·.beside l) := by
  unfold World.drop
  rw [World.beside_handles]
  cases w.handles h <;> rfl

omit [DecidableEq K] in
theorem World.link_beside [DecidableEq T] (w : World K T) (l : List K)
    (k : K) (c : T) :
    (w.beside l).link k c = (w.link k c).map (·.beside l) := by
  unfold World.link
  by_cases hg : w.pool.isSome ∧ w.Fresh c
  · rw [if_pos hg, if_pos (show (w.beside l).pool.isSome
      ∧ (w.beside l).Fresh c from hg)]
    rfl
  · rw [if_neg hg, if_neg (show ¬ ((w.beside l).pool.isSome
      ∧ (w.beside l).Fresh c) from hg)]
    rfl

/-- A pool is dropped when no call is at its inner connector. -/
theorem World.connecting_of_dropPool [DecidableEq T] {w w' : World K T}
    (h : w.step .dropPool = some w') :
    w.connecting = [] := by
  have h : w.dropPool = some w' := h
  unfold World.dropPool at h
  split at h
  next =>
    split at h
    next hnil => exact hnil
    next => cases h
  next => cases h

end MonoioTransports.Pool

namespace MonoioTransports.Http

open Lib Pool

variable {K C π δ ε : Type}

-- ====================================================== beside other calls

/-- The same connector, with other calls at their inner connector. -/
def H1World.beside (s : H1World K C π δ) (l : List K) : H1World K C π δ :=
  { s with world := s.world.beside l }

@[simp] theorem H1World.beside_world (s : H1World K C π δ) (l : List K) :
    (s.beside l).world = s.world.beside l := rfl

@[simp] theorem H1World.beside_conns (s : H1World K C π δ) (l : List K) :
    (s.beside l).conns = s.conns := rfl

@[simp] theorem H1World.beside_sends (s : H1World K C π δ) (l : List K) :
    (s.beside l).sends = s.sends := rfl

theorem H1World.beside_self {h : H1World K C π δ}
    {l : List K} (hl : h.world.connecting = l) : h.beside l = h := by
  subst hl
  rfl

variable [DecidableEq K]

theorem H1World.get_beside (s : H1World K C π δ) (l : List K) (k : K)
    [DecidableEq C] :
    (s.beside l).get k = (s.get k).map fun r => (r.1.beside l, r.2) := by
  unfold H1World.get
  show ((s.world.beside l).get k).map _ = _
  rw [World.get_beside]
  cases s.world.get k <;> rfl

variable [DecidableEq C]

theorem H1World.step_connect (s : H1World K C π δ) (l : List K) (k : K) :
    (s.beside l).step (.pool (.connect k) : H1Action K C π δ ε)
      = (s.get k).map fun r =>
          r.1.beside (if r.2.isSome then l else k :: l) := by
  show (((s.world.beside l).connect k).map Prod.fst).map _ = _
  unfold World.connect H1World.get
  rw [World.get_beside]
  cases s.world.get k with
  | none => rfl
  | some r =>
      obtain ⟨w, p⟩ := r
      cases p <;> rfl

theorem H1World.step_connected (s : H1World K C π δ) (l : List K) (k : K)
    (c : C) :
    (s.beside l).step (.pool (.connected k c) : H1Action K C π δ ε)
      = if k ∈ l then (s.link k c).map (·.beside (l.erase k)) else none := by
  show ((s.world.beside l).connected k c).map _ = _
  unfold World.connected H1World.link
  by_cases hk : k ∈ l
  · rw [if_pos hk, if_pos (show k ∈ (s.world.beside l).connecting from hk)]
    show ((s.world.beside (l.erase k)).link k c).map _ = _
    rw [World.link_beside]
    cases s.world.link k c <;> rfl
  · rw [if_neg hk, if_neg (show k ∉ (s.world.beside l).connecting from hk)]
    rfl

theorem H1World.step_connectFailed (s : H1World K C π δ) (l : List K)
    (k : K) :
    (s.beside l).step (.pool (.connectFailed k) : H1Action K C π δ ε)
      = if k ∈ l then some (s.beside (l.erase k)) else none := by
  show (if k ∈ l then some _ else none).map _ = _
  by_cases hk : k ∈ l
  · rw [if_pos hk, if_pos hk]
    rfl
  · rw [if_neg hk, if_neg hk]
    rfl

/-- What the tasks do with their handles reads no call. -/
theorem H1World.step_callers (s : H1World K C π δ) (l : List K)
    {b : H1Action K C π δ ε} (hb : callers b = true) :
    (s.beside l).step b = (s.step b).map (·.beside l) := by
  cases b with
  | pool a =>
      cases a with
      | tick dt => rfl
      | _ => cases hb
  | sendRequest h =>
      show (s.beside l).sendRequest h = (s.sendRequest h).map _
      unfold H1World.sendRequest
      simp only [H1World.beside_world, World.beside_handles,
        H1World.beside_sends]
      cases s.world.handles h <;> cases s.sends h <;> rfl
  | resume h ev =>
      show (s.beside l).resume h ev = (s.resume h ev).map _
      unfold H1World.resume
      simp only [H1World.beside_world, World.beside_handles,
        H1World.beside_sends, H1World.beside_conns]
      cases s.world.handles h with
      | none => cases s.sends h <;> rfl
      | some p =>
          cases s.sends h with
          | none => rfl
          | some st =>
              dsimp only
              cases (s.conns p.value).resume st ev with
              | none => rfl
              | some r =>
                  obtain ⟨conn, progress⟩ := r
                  cases progress <;> rfl
  | cancel h =>
      show (s.beside l).cancel h = (s.cancel h).map _
      unfold H1World.cancel
      simp only [H1World.beside_world, World.beside_handles,
        H1World.beside_sends]
      cases s.world.handles h <;> cases s.sends h <;> rfl
  | dropHandle h =>
      show (s.beside l).dropHandle h = (s.dropHandle h).map _
      unfold H1World.dropHandle
      simp only [H1World.beside_world, World.beside_handles,
        H1World.beside_sends, H1World.beside_conns, World.drop_beside]
      cases s.world.handles h with
      | none => cases s.sends h <;> rfl
      | some p =>
          cases s.sends h with
          | none =>
              dsimp only
              cases s.world.drop h (s.conns p.value).isOpen <;> rfl
          | some st => rfl

/-- A connection found goes out in the next handle. -/
theorem H1World.get_issues {h h' : H1World K C π δ} {key : K}
    {p : Pooled K C}
    (hget : h.get key = some (h', some p)) :
    h'.world.handles h.world.nextHandle = some p
      ∧ h'.world.nextHandle = h.world.nextHandle + 1 := by
  obtain ⟨⟨w, r⟩, hw, heq⟩ := Option.map_eq_some_iff.mp hget
  cases heq
  unfold World.get at hw
  split at hw
  next pool hpool =>
    dsimp only at hw
    split at hw
    next q hq =>
      cases hw
      exact ⟨Function.update_self .., rfl⟩
    next => cases hw
  next => cases hw

omit [DecidableEq K] in
/-- So does a connection linked. -/
theorem H1World.link_issues {h h' : H1World K C π δ} {key : K} {c : C}
    (hlink : h.link key c = some h') :
    h'.world.handles h.world.nextHandle = some (Pool.link key c)
      ∧ h'.world.nextHandle = h.world.nextHandle + 1 := by
  obtain ⟨w, hw, rfl⟩ := Option.map_eq_some_iff.mp hlink
  obtain ⟨-, rfl⟩ := World.link_eq_some hw
  exact ⟨Function.update_self .., rfl⟩

end MonoioTransports.Http
