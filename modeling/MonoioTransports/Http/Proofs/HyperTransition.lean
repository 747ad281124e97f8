/-
What one step can do to a `HyperH2Connector`, said once: what `try_get!`
comes to, and the states a step may leave, one constructor per await and
outcome (`HyperTransition`).
-/
import MonoioTransports.Http.Hyper
import MonoioTransports.Pool.Contents

namespace MonoioTransports.Http

open Lib Pool

variable {K : Type}

-- ================================================================= fullness

/-- A connection with a count is full when its box says so. -/
theorem streamFull_iff {boxes : RcHeap Nat} {conn : HyperH2Connection}
    {rc : Rc} (hcnt : conn.cnt = some rc) :
    conn.streamFull boxes = true
      ↔ ∃ limit, boxes.value rc = some limit
        ∧ limit ≤ boxes.strongCount rc := by
  unfold HyperH2Connection.streamFull
  rw [hcnt]
  cases hv : boxes.value rc with
  | none => simp [hv]
  | some limit => simp [hv]

/-- Dropping connections makes none full. -/
theorem streamFull_of_dropConns {boxes : RcHeap Nat}
    {conns : List HyperH2Connection} {conn : HyperH2Connection}
    (h : conn.streamFull (dropConns boxes conns) = true) :
    conn.streamFull boxes = true := by
  cases hcnt : conn.cnt with
  | none => simp [HyperH2Connection.streamFull, hcnt] at h
  | some rc =>
      obtain ⟨limit, hv, hle⟩ := (streamFull_iff hcnt).mp h
      exact (streamFull_iff hcnt).mpr ⟨limit, RcHeap.value_of_dropAll hv,
        Nat.le_trans hle (RcHeap.strongCount_dropAll_le _ rc boxes)⟩

namespace HyperH2Connector

-- ================================================================ try_get

/-- The loop passes over full connections only: over all of them, or up
to the first that is not full, which it clones. -/
theorem firstFree_cases (now : Nat) (boxes : RcHeap Nat)
    (q : List (Idle HyperH2Connection)) :
    ((∀ e ∈ q, e.conn.streamFull boxes = true)
        ∧ firstFree now boxes q = (boxes, q, none))
      ∨ ∃ pre idle post, q = pre ++ idle :: post
          ∧ (∀ e ∈ pre, e.conn.streamFull boxes = true)
          ∧ idle.conn.streamFull boxes = false
          ∧ firstFree now boxes q
            = ((idle.conn.toOwned boxes).1,
                pre ++ idle.resetIdle now :: post, some idle.conn) := by
  induction q with
  | nil => exact Or.inl ⟨List.forall_mem_nil _, rfl⟩
  | cons a q ih =>
      cases ha : a.conn.streamFull boxes with
      | false =>
          refine Or.inr ⟨[], a, q, rfl, List.forall_mem_nil _, ha, ?_⟩
          simp only [firstFree, ha, Bool.false_eq_true, if_false]
          rfl
      | true =>
          rcases ih with ⟨hall, heq⟩ | ⟨pre, idle, post, hq, hpre, hid, heq⟩
          · refine Or.inl ⟨?_, ?_⟩
            · intro e he
              rcases List.mem_cons.mp he with rfl | he
              · exact ha
              · exact hall e he
            · simp only [firstFree, ha, if_true, heq]
          · refine Or.inr ⟨a :: pre, idle, post, by rw [hq]; rfl, ?_, hid,
              ?_⟩
            · intro e he
              rcases List.mem_cons.mp he with rfl | he
              · exact ha
              · exact hpre e he
            · simp only [firstFree, ha, if_true, heq, List.cons_append]

variable [DecidableEq K] {s s' : HyperH2Connector K} {key : K}

/-- The boxes and the pool after `try_get!`. -/
def retainedBoxes (s : HyperH2Connector K) (key : K) : RcHeap Nat :=
  (s.tryGet key).1.boxes

/-- The pool alone. -/
def retained (s : HyperH2Connector K) (key : K) :
    PoolInner K HyperH2Connection :=
  (s.tryGet key).1.pool

/-- A look-up leaves its boxes and its pool, and nothing else is
changed. -/
theorem tryGet_eq {s s₁ : HyperH2Connector K} {key : K}
    {r : Option HyperH2Connection} (h : s.tryGet key = (s₁, r)) :
    s₁ = { s with boxes := s.retainedBoxes key, pool := s.retained key }
      ∧ (s.tryGet key).2 = r := by
  rw [h]
  exact ⟨(congrArg Prod.fst h).symm, rfl⟩

/-- The entries of a queue that are ready, and those that are not. -/
def kept (s : HyperH2Connector K) (key : K) :
    List (Idle HyperH2Connection) :=
  (s.pool.queue key).filter fun idle => s.ready idle.conn.tx

/-- Those that are not. -/
def gone (s : HyperH2Connector K) (key : K) :
    List (Idle HyperH2Connection) :=
  (s.pool.queue key).filter fun idle => !s.ready idle.conn.tx

/-- The boxes after `try_get!` dropped what is not ready. -/
def sweptBoxes (s : HyperH2Connector K) (key : K) : RcHeap Nat :=
  dropConns s.boxes ((s.gone key).map Idle.conn)

/-- `try_get!` is the loop on the ready entries of its key. -/
theorem tryGet_spec (s : HyperH2Connector K) (key : K) :
    s.retainedBoxes key
        = (firstFree s.now (s.sweptBoxes key) (s.kept key)).1
      ∧ (s.tryGet key).2
        = (firstFree s.now (s.sweptBoxes key) (s.kept key)).2.2
      ∧ ∀ k, (s.retained key).queue k
        = if k = key then
            (firstFree s.now (s.sweptBoxes key) (s.kept key)).2.1
          else s.pool.queue k :=
  andThenMut_eq s.pool key s.boxes
    (f := retainFree s.ready s.now) rfl

/-- When a connection is returned, it is the first ready one that is not
full: it is cloned, and only its rest begins anew. -/
structure Hit (s : HyperH2Connector K) (key : K)
    (conn : HyperH2Connection) : Prop where
  boxes : s.retainedBoxes key = (conn.toOwned (s.sweptBoxes key)).1
  free : conn.streamFull (s.sweptBoxes key) = false
  mem : ∃ e ∈ s.kept key, e.conn = conn

theorem hit_of_tryGet {conn : HyperH2Connection}
    (h : (s.tryGet key).2 = some conn) : s.Hit key conn := by
  obtain ⟨hboxes, hres, -⟩ := tryGet_spec s key
  rw [h] at hres
  rcases firstFree_cases s.now (s.sweptBoxes key) (s.kept key) with
    ⟨-, heq⟩ | ⟨pre, idle, post, hk, -, hfree, heq⟩
  · rw [heq] at hres
    cases hres
  · rw [heq] at hres hboxes
    cases hres
    refine ⟨hboxes, hfree, idle, ?_, rfl⟩
    rw [hk]
    exact List.mem_append_right _ List.mem_cons_self

/-- When nothing is returned, every ready connection is full and stays;
the others are dropped. -/
structure Miss (s : HyperH2Connector K) (key : K) : Prop where
  boxes : s.retainedBoxes key = s.sweptBoxes key
  full : ∀ e ∈ s.kept key, e.conn.streamFull (s.sweptBoxes key) = true
  queue : (s.retained key).queue key = s.kept key

theorem miss_of_tryGet (h : (s.tryGet key).2 = none) : s.Miss key := by
  obtain ⟨hboxes, hres, hq⟩ := tryGet_spec s key
  rw [h] at hres
  rcases firstFree_cases s.now (s.sweptBoxes key) (s.kept key) with
    ⟨hfull, heq⟩ | ⟨pre, idle, post, -, -, -, heq⟩
  · rw [heq] at hboxes hq
    exact ⟨hboxes, hfull, by rw [hq, if_pos rfl]⟩
  · rw [heq] at hres
    cases hres

/-- The connections `try_get!` leaves in a queue: the ready ones in that
of its key, all in the others. -/
theorem conns_retained (s : HyperH2Connector K) (key k : K) :
    ((s.retained key).queue k).map Idle.conn
      = ((if k = key then s.kept key else s.pool.queue k).map
          Idle.conn) := by
  obtain ⟨-, -, hq⟩ := tryGet_spec s key
  rw [hq k]
  split
  next hk =>
    rcases firstFree_cases s.now (s.sweptBoxes key) (s.kept key) with
      ⟨-, heq⟩ | ⟨pre, idle, post, hkept, -, -, heq⟩
    · rw [heq]
    · rw [heq, hkept, List.map_append, List.map_append, List.map_cons,
        List.map_cons]
      rfl
  next => rfl

/-- `try_get!` only drops connections. -/
theorem conns_retained_sublist (s : HyperH2Connector K) (key k : K) :
    (((s.retained key).queue k).map Idle.conn).Sublist
      ((s.pool.queue k).map Idle.conn) := by
  rw [conns_retained]
  split
  next hk =>
    rw [hk]
    exact List.filter_sublist.map _
  next => exact List.Sublist.refl _

/-- What `try_get!` drops, and what the pool holds after it, is what the
pool held. -/
theorem perm_contents_retained (s : HyperH2Connector K) (key : K) :
    ((s.gone key).map Idle.conn ++ (s.retained key).contents).Perm
      s.pool.contents := by
  have hperm : ((s.retained key).contents
      ++ (s.pool.queue key).map Idle.conn).Perm
        (((retainFree s.ready s.now s.boxes
          (s.pool.queue key)).2.1.map Idle.conn) ++ s.pool.contents) :=
    perm_contents_andThenMut s.pool key s.boxes rfl
  have hnew : (retainFree s.ready s.now s.boxes
      (s.pool.queue key)).2.1.map Idle.conn
        = (s.kept key).map Idle.conn := by
    have hconns := conns_retained s key key
    obtain ⟨-, -, hq⟩ := tryGet_spec s key
    rw [hq key, if_pos rfl, if_pos rfl] at hconns
    exact hconns
  rw [hnew] at hperm
  have hsplit : ((s.kept key).map Idle.conn
      ++ (s.gone key).map Idle.conn).Perm
        ((s.pool.queue key).map Idle.conn) := by
    rw [← List.map_append]
    exact (List.filter_append_perm _ _).map Idle.conn
  -- the ready entries stand on both sides
  refine (List.perm_append_left_iff ((s.kept key).map Idle.conn)).mp ?_
  refine List.Perm.trans ?_ hperm
  rw [← List.append_assoc]
  refine List.Perm.trans (hsplit.append_right _) ?_
  exact List.perm_append_comm

end HyperH2Connector

-- =========================================================== transitions

section Transitions

variable [DecidableEq K]

open HyperH2Connector

/-- The states a step with this action may leave. -/
inductive HyperTransition (s : HyperH2Connector K) :
    HyperAction K → HyperH2Connector K → Prop
  | tick (dt : Nat) :
      HyperTransition s (.tick dt)
        { s with now := s.now + dt, returned := none }
  /-- The look-up before the lock finds a connection. -/
  | hit (key : K) (conn : HyperH2Connection) (hhit : s.Hit key conn) :
      HyperTransition s (.connect key)
        ({ s with boxes := s.retainedBoxes key, pool := s.retained key
                  nextCall := s.nextCall + 1 }.finish s.nextCall conn)
  /-- It finds none. -/
  | wait (key : K) (hmiss : s.Miss key) :
      HyperTransition s (.connect key)
        ({ s with boxes := s.retainedBoxes key, pool := s.retained key
                  nextCall := s.nextCall + 1
                  connecting := (s.connecting.entry key).1 }.goTo
          s.nextCall (some (.lock key (s.connecting.entry key).2)))
  /-- Under the lock another call's connection is found. -/
  | hitLocked (t : Nat) (key : K) (l : Nat) (tbl : LockTable K)
      (conn : HyperH2Connection)
      (hcall : s.calls t = some (.lock key l))
      (hlock : s.connecting.acquire l t = some tbl)
      (hhit : s.Hit key conn) :
      HyperTransition s (.locked t)
        ({ s with boxes := s.retainedBoxes key, pool := s.retained key
                  connecting := tbl.release l }.finish t conn)
  /-- Under the lock none is found: an underlying connection begins. -/
  | begin (t : Nat) (key : K) (l : Nat) (tbl : LockTable K)
      (hcall : s.calls t = some (.lock key l))
      (hlock : s.connecting.acquire l t = some tbl)
      (hmiss : s.Miss key) :
      HyperTransition s (.locked t)
        ({ s with boxes := s.retainedBoxes key, pool := s.retained key
                  connecting := tbl, begun := key :: s.begun }.goTo t
          (some (.underlying key l)))
  /-- The underlying connection is there. -/
  | connected (t : Nat) (key : K) (l : Nat)
      (hcall : s.calls t = some (.underlying key l)) :
      HyperTransition s (.connected t true)
        (s.goTo t (some (.handshake key l)))
  /-- A call without the lock is cancelled. -/
  | leave (t : Nat) (key : K) (l : Nat)
      (hcall : s.calls t = some (.lock key l)) :
      HyperTransition s (.cancel t) (s.goTo t none)
  /-- A call with the lock ends with an error, or is cancelled. -/
  | unlock (a : HyperAction K) (t : Nat) (key : K) (l : Nat)
      (ha : a = .connected t false ∨ a = .handshake t false
        ∨ a = .cancel t)
      (hcall : s.calls t = some (.underlying key l)
        ∨ s.calls t = some (.handshake key l)) :
      HyperTransition s a
        ({ s with connecting := s.connecting.release l }.goTo t none)
  /-- The handshake is done. -/
  | established (t : Nat) (key : K) (l : Nat) (cn : HyperH2Connection)
      (e : Effect K HyperH2Connection Unit)
      (hcall : s.calls t = some (.handshake key l))
      (hcn : cn = { tx := s.nextConn, cnt := s.newCnt.2 })
      (he : e = s.pool.put s.now key cn) :
      HyperTransition s (.handshake t true)
        ({ s with
            connecting := s.connecting.release l
            boxes := dropConns (cn.toOwned s.newCnt.1).1 e.dropped
            pool := e.pool
            nextConn := s.nextConn + 1 }.finish t cn)
  | cloned (conn : HyperH2Connection) (hheld : conn ∈ s.handles) :
      HyperTransition s (.cloneHandle conn)
        { s with boxes := (conn.toOwned s.boxes).1
                 handles := conn :: s.handles
                 returned := none }
  | droppedHandle (conn : HyperH2Connection) (hheld : conn ∈ s.handles) :
      HyperTransition s (.dropHandle conn)
        { s with boxes := dropConns s.boxes [conn]
                 handles := s.handles.erase conn
                 returned := none }
  | closed (c : Nat) :
      HyperTransition s (.closed c)
        { s with ready := Function.update s.ready c false
                 returned := none }
  | swept (ticks : Nat) (task : IdleTask)
      (pool : PoolInner K HyperH2Connection)
      (dropped : List HyperH2Connection) (htask : s.idleTask = some task)
      (hpool : (task.poll s.now ticks (some s.pool)).2
        = (some pool, dropped)) :
      HyperTransition s (.pollIdle ticks)
        { s with pool := pool, boxes := dropConns s.boxes dropped
                 returned := none }

variable {s s' : HyperH2Connector K}

private theorem hyper_connect (s : HyperH2Connector K) (key : K) :
    HyperTransition s (.connect key) (s.connect key) := by
  unfold HyperH2Connector.connect
  dsimp only
  split
  next s₁ conn hlook =>
    obtain ⟨rfl, hget⟩ := tryGet_eq hlook
    exact .hit key conn (hit_of_tryGet (s := s) hget)
  next s₁ hlook =>
    obtain ⟨rfl, hget⟩ := tryGet_eq hlook
    exact .wait key (miss_of_tryGet (s := s) hget)

private theorem hyper_locked {t : Nat} (h : s.locked t = some s') :
    HyperTransition s (.locked t) s' := by
  unfold HyperH2Connector.locked at h
  split at h
  next key l hcall =>
    split at h
    next => cases h
    next tbl hlock =>
      split at h
      next s₁ conn hlook =>
        cases h
        obtain ⟨rfl, hget⟩ := tryGet_eq hlook
        exact .hitLocked t key l tbl conn hcall hlock
          (hit_of_tryGet (s := s) hget)
      next s₁ hlook =>
        cases h
        obtain ⟨rfl, hget⟩ := tryGet_eq hlook
        exact .begin t key l tbl hcall hlock (miss_of_tryGet (s := s) hget)
  next => cases h

private theorem hyper_connected {t : Nat} {ok : Bool}
    (h : s.connected t ok = some s') :
    HyperTransition s (.connected t ok) s' := by
  unfold HyperH2Connector.connected at h
  split at h
  next key l hcall =>
    cases ok with
    | false =>
        cases h
        exact .unlock _ t key l (Or.inl rfl) (Or.inl hcall)
    | true =>
        cases h
        exact .connected t key l hcall
  next => cases h

private theorem hyper_handshake {t : Nat} {ok : Bool}
    (h : s.handshake t ok = some s') :
    HyperTransition s (.handshake t ok) s' := by
  unfold HyperH2Connector.handshake at h
  split at h
  next key l hcall =>
    cases ok with
    | false =>
        cases h
        exact .unlock _ t key l (Or.inr (Or.inl rfl)) (Or.inr hcall)
    | true =>
        cases h
        exact .established t key l _ _ hcall rfl rfl
  next => cases h

private theorem hyper_cancel {t : Nat} (h : s.cancel t = some s') :
    HyperTransition s (.cancel t) s' := by
  unfold HyperH2Connector.cancel at h
  split at h
  next key l hcall =>
    cases h
    exact .leave t key l hcall
  next key l hcall =>
    cases h
    exact .unlock _ t key l (Or.inr (Or.inr rfl)) (Or.inl hcall)
  next key l hcall =>
    cases h
    exact .unlock _ t key l (Or.inr (Or.inr rfl)) (Or.inr hcall)
  next => cases h

private theorem hyper_pollIdle {ticks : Nat}
    (h : s.pollIdle ticks = some s') :
    HyperTransition s (.pollIdle ticks) s' := by
  unfold HyperH2Connector.pollIdle at h
  split at h
  next task htask =>
    split at h
    next b pool dropped hpoll =>
      cases h
      exact .swept ticks task pool dropped htask
        (congrArg Prod.snd hpoll)
    next => cases h
  next => cases h

/-- Every step is one of these. -/
theorem hyper_transition {a : HyperAction K} (h : s.step a = some s') :
    HyperTransition s a s' := by
  cases a with
  | tick dt =>
      cases h
      exact .tick dt
  | connect key =>
      cases h
      exact hyper_connect s key
  | locked t => exact hyper_locked h
  | connected t ok => exact hyper_connected h
  | handshake t ok => exact hyper_handshake h
  | cancel t => exact hyper_cancel h
  | cloneHandle conn =>
      simp only [HyperH2Connector.step, HyperH2Connector.cloneHandle] at h
      split at h
      next hheld =>
        cases h
        exact .cloned conn hheld
      next => cases h
  | dropHandle conn =>
      simp only [HyperH2Connector.step, HyperH2Connector.dropHandle] at h
      split at h
      next hheld =>
        cases h
        exact .droppedHandle conn hheld
      next => cases h
  | closed c =>
      cases h
      exact .closed c
  | pollIdle ticks => exact hyper_pollIdle h

end Transitions

end MonoioTransports.Http
