/-
What `max_stream_sender` limits in a `HyperH2Connector`.

# The ledger

With a limit every connection has a box of its own, numbered like it,
and the box counts everything that holds the connection: the handles of
the callers and the copies in the pool (`Ledger`). Cloning, dropping,
pooling, eviction and sweeping keep the ledger, and the pool holds one
copy of a connection at most (`Booked`). So for a pooled connection the
strong count is the number of its callers' handles and one more, and
`stream_full` compares that to the limit.

# What follows

- A connection is returned from the pool when its count is below the
  limit, and cloned in the same step: callers never hold more handles
  than the limit (`senders_le`).
- A pooled connection is full one caller's handle early. An underlying
  connection is begun needlessly exactly when none of the ready ones has
  handles to spare and some ready one is one short of the limit
  (`needed_iff`).
-/
import MonoioTransports.Http.Proofs.SingleFlight

namespace MonoioTransports.Http

open Lib Pool

variable {K : Type}

-- ============================================================ the ledger

/-- How many of the connections held are to `c`. -/
def senders (held : List HyperH2Connection) (c : Nat) : Nat :=
  held.countP fun x => decide (x.tx = c)

theorem senders_cons_self (x : HyperH2Connection)
    (held : List HyperH2Connection) :
    senders (x :: held) x.tx = senders held x.tx + 1 := by
  simp [senders]

theorem senders_append (held held' : List HyperH2Connection) (c : Nat) :
    senders (held ++ held') c = senders held c + senders held' c :=
  List.countP_append

/-- `held` lists what holds a connection, each under the limit `n`, when
connections below `next` were made. -/
structure Ledger (n : Nat) (boxes : RcHeap Nat) (next : Nat)
    (held : List HyperH2Connection) : Prop where
  counts : boxes.Counts (held.filterMap HyperH2Connection.cnt)
  holds : boxes.Holds fun limit => limit = n
  named : ∀ x ∈ held, x.cnt = some ⟨x.tx⟩
  next : boxes.next = next

variable {n next : Nat} {boxes : RcHeap Nat}
  {held held' : List HyperH2Connection}

theorem ledger_empty (n : Nat) : Ledger n RcHeap.empty 0 [] where
  counts := RcHeap.counts_empty
  holds := RcHeap.holds_empty
  named := List.forall_mem_nil _
  next := rfl

theorem Ledger.perm (h : Ledger n boxes next held)
    (hp : held.Perm held') : Ledger n boxes next held' where
  counts := h.counts.perm (hp.filterMap _)
  holds := h.holds
  named := fun x hx => h.named x (hp.mem_iff.mpr hx)
  next := h.next

/-- A reference is to a connection that was made. -/
theorem Ledger.lt_next (h : Ledger n boxes next held)
    {x : HyperH2Connection} (hx : x ∈ held) : x.tx < next := by
  have hlt := h.counts.fresh ⟨x.tx⟩
    (List.mem_filterMap.mpr ⟨x, hx, h.named x hx⟩)
  rw [h.next] at hlt
  exact hlt

/-- Nothing holds a connection that was not made. -/
theorem Ledger.senders_next (h : Ledger n boxes next held) :
    senders held next = 0 := by
  refine List.countP_eq_zero.mpr fun x hx heq => ?_
  have hlt := h.lt_next hx
  rw [of_decide_eq_true heq] at hlt
  exact Nat.lt_irrefl _ hlt

/-- The references to the box of `c` are those to `c`. -/
theorem count_filterMap {held : List HyperH2Connection}
    (hnamed : ∀ x ∈ held, x.cnt = some ⟨x.tx⟩) (c : Nat) :
    (held.filterMap HyperH2Connection.cnt).count ⟨c⟩ = senders held c := by
  induction held with
  | nil => rfl
  | cons x held ih =>
      have hx := hnamed x List.mem_cons_self
      have ih := ih fun y hy => hnamed y (List.mem_cons_of_mem _ hy)
      rw [List.filterMap_cons_some hx]
      by_cases hc : x.tx = c
      · subst hc
        rw [List.count_cons_self, senders_cons_self, ih]
      · have hne : (⟨x.tx⟩ : Rc) ≠ ⟨c⟩ := fun h => hc (congrArg Rc.addr h)
        rw [List.count_cons_of_ne hne, ih]
        simp [senders, hc]

/-- A connection held is full when the limit is not above the number of
its holders. -/
theorem Ledger.streamFull_iff (h : Ledger n boxes next held)
    {x : HyperH2Connection} (hx : x ∈ held) :
    x.streamFull boxes = true ↔ n ≤ senders held x.tx := by
  have hcnt := h.named x hx
  obtain ⟨b, hb, hstrong⟩ := h.counts.live
    (List.mem_filterMap.mpr ⟨x, hx, hcnt⟩)
  have hvalue : boxes.value ⟨x.tx⟩ = some n := by
    rw [RcHeap.value, hb]
    exact congrArg some (h.holds _ b hb)
  rw [Http.streamFull_iff hcnt, h.counts.strong,
    count_filterMap h.named, hvalue]
  simp

/-- Cloning a connection that is held. -/
theorem Ledger.own (h : Ledger n boxes next held) {x : HyperH2Connection}
    (hx : x ∈ held) : Ledger n (x.toOwned boxes).1 next (x :: held) := by
  have hcnt := h.named x hx
  have howned : (x.toOwned boxes).1 = boxes.clone ⟨x.tx⟩ := by
    rw [HyperH2Connection.toOwned, hcnt]
  rw [howned]
  refine ⟨?_, h.holds.clone _, ?_, h.next⟩
  · rw [List.filterMap_cons_some hcnt]
    exact h.counts.clone (List.mem_filterMap.mpr ⟨x, hx, hcnt⟩)
  · intro y hy
    rcases List.mem_cons.mp hy with rfl | hy
    · exact hcnt
    · exact h.named y hy

/-- Dropping connections that are held. -/
theorem Ledger.drop {gone : List HyperH2Connection}
    (h : Ledger n boxes next (gone ++ held)) :
    Ledger n (dropConns boxes gone) next held := by
  have hnext : ∀ (rcs : List Rc) (heap : RcHeap Nat),
      (heap.dropAll rcs).next = heap.next := by
    intro rcs
    induction rcs with
    | nil => exact fun _ => rfl
    | cons rc rcs ih => exact fun heap => ih (heap.drop rc)
  refine ⟨?_, h.holds.dropAll _, ?_, (hnext _ _).trans h.next⟩
  · have hcounts := h.counts
    rw [List.filterMap_append] at hcounts
    exact hcounts.dropAll
  · exact fun x hx => h.named x (List.mem_append_right _ hx)

/-- Making a connection. -/
theorem Ledger.make (h : Ledger n boxes next held) :
    Ledger n (boxes.new n).1 (next + 1)
      ({ tx := next, cnt := some (boxes.new n).2 } :: held) := by
  refine ⟨h.counts.new n, h.holds.new rfl, ?_, ?_⟩
  · intro x hx
    rcases List.mem_cons.mp hx with rfl | hx
    · exact congrArg (fun a => some (Rc.mk a)) h.next
    · exact h.named x hx
  · exact congrArg Nat.succ h.next

-- ======================================================== the invariant

namespace HyperH2Connector

/-- How many handles to `c` the callers hold. -/
def callers (s : HyperH2Connector K) (c : Nat) : Nat :=
  senders s.handles c

/-- With the limit `n`, the boxes count the handles and the pool, and
the pool holds a connection once. -/
structure Booked (n : Nat) (s : HyperH2Connector K) : Prop where
  limit : s.maxStreamSender = some n
  ledger : Ledger n s.boxes s.nextConn (s.handles ++ s.pool.contents)
  once : (s.pool.contents.map HyperH2Connection.tx).Nodup

theorem booked_new (n now : Nat) (idleInterval maxIdle : Option Nat) :
    Booked n (newWithPool now idleInterval maxIdle (some n)
      : HyperH2Connector K) where
  limit := rfl
  ledger := by
    simp only [newWithPool, contents_newWithIdleInterval, List.append_nil]
    exact ledger_empty n
  once := by
    simp only [newWithPool, contents_newWithIdleInterval, List.map_nil]
    exact List.nodup_nil

variable [DecidableEq K] {s s' : HyperH2Connector K} {key : K}

omit [DecidableEq K] in
/-- What holds a pooled connection: its callers and the one copy. -/
theorem Booked.senders_eq (hb : Booked n s) {x : HyperH2Connection}
    (hx : x ∈ s.pool.contents) :
    senders (s.handles ++ s.pool.contents) x.tx = s.callers x.tx + 1 := by
  have hone : senders s.pool.contents x.tx = 1 := by
    have hcount : senders s.pool.contents x.tx
        = (s.pool.contents.map HyperH2Connection.tx).count x.tx := by
      rw [senders, List.count_eq_countP, List.countP_map]
      refine List.countP_congr fun y _ => ?_
      simp
    rw [hcount]
    exact List.count_eq_one_of_mem hb.once (List.mem_map_of_mem hx)
  rw [senders_append, hone, callers]

/-- After `try_get!` dropped what is not ready, and before it clones,
the books are in order. -/
theorem Booked.swept (hb : Booked n s) (key : K) :
    Booked n { s with boxes := s.sweptBoxes key
                      pool := s.retained key } := by
  have hperm := perm_contents_retained s key
  refine ⟨hb.limit, ?_, ?_⟩
  · refine Ledger.drop (hb.ledger.perm ?_)
    refine (hperm.symm.append_left s.handles).trans ?_
    rw [← List.append_assoc, ← List.append_assoc]
    exact List.perm_append_comm.append_right _
  · have hnd := (hperm.map HyperH2Connection.tx).nodup_iff.mpr hb.once
    rw [List.map_append] at hnd
    exact hnd.of_append_right

/-- A ready entry of the queue is pooled after `try_get!`. -/
theorem mem_contents_of_kept {e : Idle HyperH2Connection}
    (he : e ∈ s.kept key) : e.conn ∈ (s.retained key).contents := by
  have hconn : e.conn ∈ ((s.retained key).queue key).map Idle.conn := by
    rw [conns_retained, if_pos rfl]
    exact List.mem_map_of_mem he
  obtain ⟨e', he', heq⟩ := List.mem_map.mp hconn
  exact mem_contents.mpr ⟨key, e', he', heq⟩

/-- What `stream_full` finds at a ready entry: one more than the handles
the callers hold. -/
theorem Booked.full_iff (hb : Booked n s) {e : Idle HyperH2Connection}
    (he : e ∈ s.kept key) :
    e.conn.streamFull (s.sweptBoxes key) = true
      ↔ n ≤ s.callers e.conn.tx + 1 := by
  have hmem := mem_contents_of_kept he
  have hswept := hb.swept key
  rw [hswept.ledger.streamFull_iff (List.mem_append_right _ hmem),
    hswept.senders_eq hmem]
  exact Iff.rfl

/-- A connection found in the pool has gone to a caller. -/
theorem Booked.hit (hb : Booked n s) {conn : HyperH2Connection}
    (hhit : s.Hit key conn) {tbl : LockTable K} {m t : Nat} :
    Booked n ({ s with boxes := s.retainedBoxes key
                       pool := s.retained key, nextCall := m
                       connecting := tbl }.finish t conn) := by
  obtain ⟨e, he, rfl⟩ := hhit.mem
  have hswept := hb.swept key
  refine ⟨hb.limit, ?_, hswept.once⟩
  have hown := hswept.ledger.own
    (List.mem_append_right _ (mem_contents_of_kept he))
  rw [← hhit.boxes] at hown
  exact hown

/-- No connection was found in the pool. -/
theorem Booked.miss (hb : Booked n s) (hmiss : s.Miss key)
    {tbl : LockTable K} {m t : Nat} {call : Option (HyperConnect K)}
    {begun : List K} :
    Booked n ({ s with boxes := s.retainedBoxes key
                       pool := s.retained key, nextCall := m
                       connecting := tbl, begun := begun }.goTo t
      call) := by
  have hswept := hb.swept key
  refine ⟨hb.limit, ?_, hswept.once⟩
  have hledger := hswept.ledger
  rw [← hmiss.boxes] at hledger
  exact hledger

/-- A new connection has gone to its caller and, a copy, to the pool,
which dropped what it evicts. -/
theorem Booked.established (hb : Booked n s) {cn : HyperH2Connection}
    {e : Effect K HyperH2Connection Unit} {tbl : LockTable K} {t : Nat}
    (hcn : cn = { tx := s.nextConn, cnt := s.newCnt.2 })
    (he : e = s.pool.put s.now key cn) :
    Booked n ({ s with
      connecting := tbl
      boxes := dropConns (cn.toOwned s.newCnt.1).1 e.dropped
      pool := e.pool
      nextConn := s.nextConn + 1 }.finish t cn) := by
  have hcnt : s.newCnt = ((s.boxes.new n).1, some (s.boxes.new n).2) := by
    rw [newCnt, hb.limit]
  have hput : (e.pool.contents ++ e.dropped).Perm
      (cn :: s.pool.contents) := by
    rw [he]
    exact perm_contents_put s.pool s.now key cn
  refine ⟨hb.limit, ?_, ?_⟩
  · have hmade := hb.ledger.make
    rw [show HyperH2Connection.mk s.nextConn _ = cn by rw [hcn, hcnt],
      show (s.boxes.new n).1 = s.newCnt.1 by rw [hcnt]] at hmade
    refine ((hmade.own List.mem_cons_self).perm ?_).drop
    refine (List.perm_middle.symm.cons cn).trans ?_
    refine ((hput.symm.append_left s.handles).cons cn).trans ?_
    rw [← List.append_assoc, ← List.cons_append]
    exact List.perm_append_comm
  · have hnew : cn.tx ∉ s.pool.contents.map HyperH2Connection.tx := by
      intro hmem
      obtain ⟨x, hx, heq⟩ := List.mem_map.mp hmem
      have hlt := hb.ledger.lt_next (List.mem_append_right _ hx)
      rw [heq, hcn] at hlt
      exact Nat.lt_irrefl _ hlt
    have hnd := (hput.map HyperH2Connection.tx).nodup_iff.mpr
      (hb.once.cons hnew)
    rw [List.map_append] at hnd
    exact hnd.of_append_left

/-- Every step keeps the books. -/
theorem Booked.step (hb : Booked n s) {a : HyperAction K}
    (h : s.step a = some s') : Booked n s' := by
  cases hyper_transition h with
  | tick | connected | leave | unlock | closed =>
      exact ⟨hb.limit, hb.ledger, hb.once⟩
  | hit key conn hhit => exact hb.hit hhit
  | wait key hmiss => exact hb.miss hmiss
  | hitLocked t key l tbl conn hcall hlock hhit => exact hb.hit hhit
  | begin t key l tbl hcall hlock hmiss => exact hb.miss hmiss
  | established t key l cn e hcall hcn he => exact hb.established hcn he
  | cloned conn hheld =>
      exact ⟨hb.limit, hb.ledger.own (List.mem_append_left _ hheld),
        hb.once⟩
  | droppedHandle conn hheld =>
      refine ⟨hb.limit, (hb.ledger.perm ?_).drop, hb.once⟩
      exact (List.perm_cons_erase hheld).append_right _
  | swept ticks task pool dropped htask hpool =>
      obtain ⟨pool', hpool', hperm⟩ :=
        perm_contents_poll task s.now ticks s.pool
      rw [hpool] at hpool' hperm
      cases hpool'
      refine ⟨hb.limit, (hb.ledger.perm ?_).drop, ?_⟩
      · refine (hperm.symm.append_left s.handles).trans ?_
        rw [← List.append_assoc]
        exact List.perm_append_comm
      · have hnd := (hperm.map HyperH2Connection.tx).nodup_iff.mpr hb.once
        rw [List.map_append] at hnd
        exact hnd.of_append_left

theorem booked_of_reachable {idleInterval maxIdle : Option Nat}
    (hr : (machine idleInterval maxIdle (some n)).Reachable s) :
    Booked n s := by
  apply hr.invariant
  · intro s hinit
    obtain ⟨now, rfl⟩ := hinit
    exact booked_new n now idleInterval maxIdle
  · exact fun s a s' _ hb _ h => hb.step h

-- ================================================== what is handed out

/-- A hand-out from the pool stays within the limit. -/
theorem Booked.callers_lt (hb : Booked n s) {conn : HyperH2Connection}
    (hhit : s.Hit key conn) : s.callers conn.tx + 1 < n := by
  obtain ⟨e, he, rfl⟩ := hhit.mem
  have hfree := hhit.free
  rw [← Bool.not_eq_true, hb.full_iff he] at hfree
  exact Nat.lt_of_not_le hfree

omit [DecidableEq K] in
/-- A caller more. -/
theorem callers_finish (s : HyperH2Connector K) (t : Nat)
    (conn : HyperH2Connection) :
    (s.finish t conn).callers conn.tx = s.callers conn.tx + 1 :=
  senders_cons_self conn s.handles

theorem Booked.callers_le (hb : Booked n s) {a : HyperAction K}
    (h : s.step a = some s') {conn : HyperH2Connection}
    (hret : s'.returned = some conn) :
    s'.callers conn.tx ≤ max n 1 := by
  cases hyper_transition h with
  | tick | cloned | droppedHandle | closed | swept => cases hret
  | wait | begin | connected | leave | unlock => cases hret
  | hit key conn' hhit =>
      cases hret
      have hlt := hb.callers_lt hhit
      have heq := callers_finish { s with
        boxes := s.retainedBoxes key, pool := s.retained key
        nextCall := s.nextCall + 1 } s.nextCall conn
      rw [heq]
      exact Nat.le_trans (Nat.le_of_lt hlt) (Nat.le_max_left n 1)
  | hitLocked t key l tbl conn' hcall hlock hhit =>
      cases hret
      have hlt := hb.callers_lt hhit
      have heq := callers_finish { s with
        boxes := s.retainedBoxes key, pool := s.retained key
        connecting := tbl.release l } t conn
      rw [heq]
      exact Nat.le_trans (Nat.le_of_lt hlt) (Nat.le_max_left n 1)
  | established t key l cn e hcall hcn he =>
      cases hret
      have hzero : s.callers conn.tx = 0 := by
        have hall := hb.ledger.senders_next
        rw [senders_append] at hall
        rw [hcn]
        exact Nat.eq_zero_of_add_eq_zero_right hall
      have heq := callers_finish { s with
        connecting := s.connecting.release l
        boxes := dropConns (conn.toOwned s.newCnt.1).1 e.dropped
        pool := e.pool
        nextConn := s.nextConn + 1 } t conn
      rw [heq]
      exact Nat.le_trans (Nat.le_of_eq (congrArg Nat.succ hzero))
        (Nat.le_max_right n 1)

-- ===================================================== what is begun

/-- An underlying connection is begun with the step only if every ready
connection pooled for its key has as many callers as the limit. -/
def Needed (n : Nat) (s : HyperH2Connector K) (a : HyperAction K) :
    Prop :=
  ∀ s' t k, s.step a = some s' → s'.Opening t k → ¬ s.Opening t k →
    ∀ e ∈ s.pool.queue k, s.ready e.conn.tx = true →
      n ≤ s.callers e.conn.tx

/-- When a call looks at the pool under its lock, some ready connection
has handles to spare, or none is one handle short of the limit. -/
def NotOneShort (n : Nat) (s : HyperH2Connector K) : HyperAction K → Prop
  | .locked t => ∀ k l, s.calls t = some (.lock k l) →
      (∃ e ∈ s.pool.queue k, s.ready e.conn.tx = true
        ∧ s.callers e.conn.tx + 1 < n)
      ∨ ∀ e ∈ s.pool.queue k, s.ready e.conn.tx = true →
        s.callers e.conn.tx + 1 ≠ n
  | _ => True

/-- The condition can be decided. -/
instance decidableNotOneShort (n : Nat) (s : HyperH2Connector K) :
    (a : HyperAction K) → Decidable (s.NotOneShort n a)
  | .locked t => HyperConnect.decidableLock (s.calls t)
  | .tick _ | .connect _ | .connected .. | .handshake .. | .cancel _
  | .cloneHandle _ | .dropHandle _ | .closed _ | .pollIdle _ =>
      .isTrue trivial

/-- A pooled connection is full one caller early, so a connection begun
is needed unless some ready one is one handle short of the limit. -/
theorem Booked.needed_of_step (hb : Booked n s) {a : HyperAction K}
    (h : s.step a = some s') : s.Needed n a ↔ s.NotOneShort n a := by
  have hkept : ∀ {k : K} {e : Idle HyperH2Connection},
      e ∈ s.pool.queue k → s.ready e.conn.tx = true → e ∈ s.kept k :=
    fun he hready => List.mem_filter.mpr ⟨he, hready⟩
  constructor
  · intro hneed
    cases a with
    | locked t =>
        intro k l hcall
        cases hyper_transition h with
        | hitLocked _ key l' tbl conn hcall' hlock hhit =>
            rw [hcall] at hcall'
            cases hcall'
            -- the connection found has handles to spare
            obtain ⟨e, he, rfl⟩ := hhit.mem
            obtain ⟨hmem, hready⟩ := List.mem_filter.mp he
            exact Or.inl ⟨e, hmem, hready, hb.callers_lt hhit⟩
        | begin _ key l' tbl hcall' hlock hmiss =>
            rw [hcall] at hcall'
            cases hcall'
            refine Or.inr fun e he hready heq => ?_
            have hopen : s.Opening t k → False := by
              intro hex
              rcases hex with ⟨l₀, ho | ho⟩
              · rw [hcall] at ho
                cases ho
              · rw [hcall] at ho
                cases ho
            have hle := hneed _ t k h
              ⟨l, Or.inl (Function.update_self ..)⟩ hopen e he hready
            omega
        | unlock _ t' key l' ha hcall' =>
            rcases ha with ha | ha | ha <;> cases ha
    | _ => trivial
  · intro hshort s₁ t k h₁ ho hbefore e he hready
    obtain ⟨l, hcall, rfl, hmiss⟩ := full_of_opening h₁ ho hbefore
    have hfull : ∀ e ∈ s.pool.queue k, s.ready e.conn.tx = true →
        n ≤ s.callers e.conn.tx + 1 := fun e he hready =>
      (hb.full_iff (hkept he hready)).mp
        (hmiss.full e (hkept he hready))
    rcases hshort k l hcall with ⟨e', he', hready', hlt⟩ | hne
    · have hle := hfull e' he' hready'
      omega
    · have hle := hfull e he hready
      have hne' := hne e he hready
      omega

end HyperH2Connector

-- =========================================================== the promises

open HyperH2Connector

variable [DecidableEq K] {s s' : HyperH2Connector K}

/-- Whatever `connect` returns, its callers hold no more handles to it
than the limit, the new one among them. -/
theorem senders_le {idleInterval maxIdle : Option Nat}
    (hr : (machine idleInterval maxIdle (some n)).Reachable s)
    {a : HyperAction K} (h : s.step a = some s') {conn : HyperH2Connection}
    (hret : s'.returned = some conn) :
    s'.callers conn.tx ≤ max n 1 :=
  (booked_of_reachable hr).callers_le h hret

/-- Two callers share a connection under the limit of three. -/
theorem senders_le_shared :
    ∃ s s' : HyperH2Connector Nat,
      (machine none none (some 3)).run (newWithPool 0 none none (some 3))
          [.connect 7, .locked 0, .connected 0 true, .handshake 0 true]
        = some s
      ∧ s.step (.connect 7) = some s'
      ∧ s'.callers 0 = 2 ∧ s'.callers 0 ≤ max 3 1 := by
  obtain ⟨s, hrun, s', hs, hret, hcallers⟩ :
      ∃ s : HyperH2Connector Nat,
        (machine none none (some 3)).run
            (newWithPool 0 none none (some 3))
            [.connect 7, .locked 0, .connected 0 true, .handshake 0 true]
          = some s
        ∧ ∃ s', s.step (.connect 7) = some s'
          ∧ s'.returned = some ⟨0, some ⟨0⟩⟩ ∧ s'.callers 0 = 2 :=
    ⟨_, rfl, _, rfl, rfl, rfl⟩
  exact ⟨s, s', hrun, hs, hcallers,
    senders_le (Machine.Reachable.run (.init ⟨0, rfl⟩) hrun) hs hret⟩

/-- In every run, what is begun is needed throughout exactly when no
call that takes its lock finds ready connections with no handles to
spare and one of them one handle short of the limit. -/
theorem needed_iff {idleInterval maxIdle : Option Nat}
    {as : List (HyperAction K)}
    (hinit : (machine idleInterval maxIdle (some n)).init s)
    (hrun : (machine idleInterval maxIdle (some n)).run s as = some s') :
    (machine idleInterval maxIdle (some n)).Along (Needed n) s as
      ↔ (machine idleInterval maxIdle (some n)).Along (NotOneShort n) s
        as :=
  Machine.along_iff
    (fun _ _ _ hr h => (booked_of_reachable hr).needed_of_step h)
    (.init hinit) hrun

/-- With a limit of two, a pooled connection that two callers hold is
passed over, and another is begun as it has to be. -/
theorem needed_iff_held :
    ∃ s : HyperH2Connector Nat,
      (machine none none (some 2)).run (newWithPool 0 none none (some 2))
          [.connect 7, .locked 0, .connected 0 true, .handshake 0 true,
            .cloneHandle ⟨0, some ⟨0⟩⟩, .connect 7, .locked 1] = some s
        ∧ s.calls 1 = some (.underlying 7 0) ∧ s.callers 0 = 2
        ∧ (machine none none (some 2)).Along (Needed 2)
          (newWithPool 0 none none (some 2) : HyperH2Connector Nat)
          [.connect 7, .locked 0, .connected 0 true, .handshake 0 true,
            .cloneHandle ⟨0, some ⟨0⟩⟩, .connect 7, .locked 1] := by
  obtain ⟨s, hrun, hbegun, hheld⟩ : ∃ s : HyperH2Connector Nat,
      (machine none none (some 2)).run (newWithPool 0 none none (some 2))
          [.connect 7, .locked 0, .connected 0 true, .handshake 0 true,
            .cloneHandle ⟨0, some ⟨0⟩⟩, .connect 7, .locked 1] = some s
        ∧ s.calls 1 = some (.underlying 7 0) ∧ s.callers 0 = 2 :=
    ⟨_, rfl, rfl, rfl⟩
  exact ⟨s, hrun, hbegun, hheld,
    (needed_iff ⟨0, rfl⟩ hrun).mpr (by decide +kernel)⟩

/-- Under the limit of one sender, a connection whose only handle was
dropped is not used again: another is begun. -/
theorem not_needed :
    ¬ ∀ (n : Nat) (s₀ s : HyperH2Connector Nat)
      (as : List (HyperAction Nat)), 1 ≤ n →
      (machine none none (some n)).init s₀ →
      (machine none none (some n)).run s₀ as = some s →
      (machine none none (some n)).Along (Needed n) s₀ as := by
  intro hall
  obtain ⟨s₁, hrun, s₂, hs, hcalls, hopen, e, hmem, hready, hnone⟩ :
      ∃ s₁ : HyperH2Connector Nat,
        (machine none none (some 1)).run
            (newWithPool 0 none none (some 1))
            [.connect 7, .locked 0, .connected 0 true, .handshake 0 true,
              .dropHandle ⟨0, some ⟨0⟩⟩, .connect 7] = some s₁
          ∧ ∃ s₂, (machine none none (some 1)).step s₁ (.locked 1)
              = some s₂
            ∧ s₁.calls 1 = some (.lock 7 0)
            ∧ s₂.calls 1 = some (.underlying 7 0)
            ∧ ∃ e, e ∈ s₁.pool.queue 7
              ∧ s₁.ready e.conn.tx = true ∧ s₁.callers e.conn.tx = 0 :=
    ⟨_, rfl, _, rfl, rfl, rfl, _, List.mem_cons_self, rfl, rfl⟩
  have halong := hall 1 _ s₂ _ (Nat.le_refl 1) ⟨0, rfl⟩
    (Machine.run_append hrun (Machine.run_singleton hs))
  have hneed := halong.step hrun s₂ 1 7 hs ⟨0, Or.inl hopen⟩ ?_ e hmem
    hready
  · rw [hnone] at hneed
    exact Nat.not_succ_le_zero 0 hneed
  · intro h
    rcases h with ⟨l, ho | ho⟩
    · rw [hcalls] at ho
      cases ho
    · rw [hcalls] at ho
      cases ho

end MonoioTransports.Http
