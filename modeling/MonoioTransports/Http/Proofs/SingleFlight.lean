/-
`HyperH2Connector` opens connections single-flight.

# The invariants

- The table of locks and the calls agree (Lib/KeyedLock.lean), and a
  call keeps its lock from the moment it begins an underlying connection
  to its end: one call per key is in between. This holds in every run.
- Without a limit on senders no connection is ever full, so the look-up
  under the lock that finds nothing leaves the queue empty; while the
  lock is held the queue stays empty, and the `put` at the end makes it
  one long (`Single`).
- While connections stay ready and calls succeed, a key for which a
  connection was begun has it pooled, or a call at work on it
  (`Covered`), so none is begun again.
-/
import MonoioTransports.Http.Proofs.HyperTransition
import MonoioTransports.Pool.Proofs.Step

namespace MonoioTransports.Http

open Lib Pool

variable {K : Type}

-- ======================================================== calls and locks

/-- Where a call is with respect to the lock of its key. -/
def HyperConnect.phase : Option (HyperConnect K) → LockPhase K
  | some (.lock key l) => .waiting key l
  | some (.underlying key l) => .holding key l
  | some (.handshake key l) => .holding key l
  | none => .out

/-- The phase of the call that moved, and of the others. -/
theorem HyperConnect.phase_update_self
    (calls : Nat → Option (HyperConnect K)) (t : Nat)
    (call : Option (HyperConnect K)) :
    HyperConnect.phase (Function.update calls t call t)
      = HyperConnect.phase call := by
  rw [Function.update_self]

theorem HyperConnect.phase_update_of_ne
    (calls : Nat → Option (HyperConnect K)) {t t' : Nat} (hne : t' ≠ t)
    (call : Option (HyperConnect K)) :
    HyperConnect.phase (Function.update calls t call t')
      = HyperConnect.phase (calls t') := by
  rw [Function.update_of_ne hne]

namespace HyperH2Connector

/-- Where the calls of a connector are. -/
def phase (s : HyperH2Connector K) : Nat → LockPhase K :=
  HyperConnect.phase ∘ s.calls

/-- The call is between the beginning of an underlying connection for
the key and the end of its handshake. -/
def Opening (s : HyperH2Connector K) (t : Nat) (k : K) : Prop :=
  ∃ l, s.calls t = some (.underlying k l)
    ∨ s.calls t = some (.handshake k l)

theorem phase_eq {s : HyperH2Connector K} {t : Nat}
    {call : Option (HyperConnect K)} (h : s.calls t = call) :
    s.phase t = HyperConnect.phase call := by
  rw [phase, Function.comp_apply, h]

theorem phase_of_opening {s : HyperH2Connector K} {t l : Nat} {k : K}
    (h : s.calls t = some (.underlying k l)
      ∨ s.calls t = some (.handshake k l)) :
    s.phase t = .holding k l := by
  rcases h with h | h
  · exact phase_eq h
  · exact phase_eq h

theorem opening_iff {s : HyperH2Connector K} {t : Nat} {k : K} :
    s.Opening t k ↔ ∃ l, s.phase t = .holding k l := by
  refine exists_congr fun l => ⟨phase_of_opening, fun h => ?_⟩
  rw [phase, Function.comp_apply] at h
  cases hcall : s.calls t with
  | none =>
      rw [hcall] at h
      cases h
  | some call =>
      rw [hcall] at h
      cases call with
      | lock key lock => cases h
      | underlying key lock =>
          cases h
          exact Or.inl rfl
      | handshake key lock =>
          cases h
          exact Or.inr rfl

variable [DecidableEq K] {s s' : HyperH2Connector K}

/-- The table of locks and the calls agree. -/
structure Locked (s : HyperH2Connector K) : Prop where
  coherent : s.connecting.Coherent s.phase
  fresh : ∀ t, s.nextCall ≤ t → s.calls t = none

theorem Locked.step (hl : s.Locked) {a : HyperAction K}
    (h : s.step a = some s') : s'.Locked := by
  have hlt : ∀ {t : Nat} {call : HyperConnect K},
      s.calls t = some call → t < s.nextCall := by
    intro t call hcall
    by_contra hle
    rw [hl.fresh t (Nat.le_of_not_lt hle)] at hcall
    cases hcall
  have hfresh : ∀ {t n : Nat} (call : Option (HyperConnect K)), t < n →
      s.nextCall ≤ n →
      ∀ t', n ≤ t' → Function.update s.calls t call t' = none := by
    intro t n call ht hn t' hle
    rw [Function.update_of_ne (by omega)]
    exact hl.fresh t' (Nat.le_trans hn hle)
  have hnext := hl.fresh _ (Nat.le_refl s.nextCall)
  cases hyper_transition h with
  | tick | cloned | droppedHandle | closed | swept =>
      exact ⟨hl.coherent, hl.fresh⟩
  | hit key conn hhit =>
      refine ⟨hl.coherent.of_stay ?_, hfresh none (Nat.lt_succ_self _)
        (Nat.le_succ _)⟩
      rw [hnext]
  | wait key hmiss =>
      exact ⟨(hl.coherent.enter (phase_eq hnext) key).of_move,
        hfresh _ (Nat.lt_succ_self _) (Nat.le_succ _)⟩
  | hitLocked t key l tbl conn hcall hlock hhit =>
      exact ⟨(hl.coherent.acquire_release (phase_eq hcall) hlock).of_move,
        hfresh none (hlt hcall) (Nat.le_refl _)⟩
  | begin t key l tbl hcall hlock hmiss =>
      exact ⟨(hl.coherent.acquire (phase_eq hcall) hlock).of_move,
        hfresh _ (hlt hcall) (Nat.le_refl _)⟩
  | connected t key l hcall =>
      refine ⟨hl.coherent.of_stay ?_,
        hfresh _ (hlt hcall) (Nat.le_refl _)⟩
      rw [hcall]
      rfl
  | leave t key l hcall =>
      exact ⟨(hl.coherent.leave (phase_eq hcall)).of_move,
        hfresh none (hlt hcall) (Nat.le_refl _)⟩
  | unlock a t key l ha hcall =>
      refine ⟨(hl.coherent.release (phase_of_opening hcall)).of_move,
        hfresh none ?_ (Nat.le_refl _)⟩
      rcases hcall with hcall | hcall
      · exact hlt hcall
      · exact hlt hcall
  | established t key l cn e hcall hcn he =>
      exact ⟨(hl.coherent.release (phase_eq hcall)).of_move,
        hfresh none (hlt hcall) (Nat.le_refl _)⟩

theorem locked_of_reachable {idleInterval maxIdle limit : Option Nat}
    (hr : (machine idleInterval maxIdle limit).Reachable s) :
    s.Locked := by
  apply hr.invariant
  · intro s hinit
    obtain ⟨now, rfl⟩ := hinit
    exact ⟨LockTable.coherent_empty, fun _ _ => rfl⟩
  · exact fun s a s' _ ih _ h => ih.step h

/-- One call a key is opening a connection. -/
theorem Locked.exclusive (hl : s.Locked) {t t' : Nat} {k : K}
    (h : s.Opening t k) (h' : s.Opening t' k) : t = t' := by
  obtain ⟨l, hh⟩ := opening_iff.mp h
  obtain ⟨l', hh'⟩ := opening_iff.mp h'
  exact hl.coherent.exclusive hh hh'

/-- Nobody is opening for a key whose lock is free. -/
theorem Locked.not_opening (hl : s.Locked) {t l : Nat} {k : K}
    {tbl : LockTable K} (hcall : s.calls t = some (.lock k l))
    (hlock : s.connecting.acquire l t = some tbl) (t' : Nat) :
    ¬ s.Opening t' k := by
  intro ho
  obtain ⟨l', hh⟩ := opening_iff.mp ho
  obtain ⟨hkey, hheld⟩ := hl.coherent.holding t' k l' hh
  rw [hl.coherent.waiting t k l (phase_eq hcall),
    Option.some.injEq] at hkey
  unfold LockTable.acquire at hlock
  rw [hkey, hheld] at hlock
  cases hlock

/-- What begins with a step began under the lock, with every ready
connection of its key full. -/
theorem full_of_opening {a : HyperAction K} (h : s.step a = some s')
    {t : Nat} {k : K} (ho : s'.Opening t k) (hbefore : ¬ s.Opening t k) :
    ∃ l, s.calls t = some (.lock k l) ∧ a = .locked t ∧ s.Miss k := by
  -- where the step puts no call under the lock, the call was there before
  have hold : ∀ {t₀ : Nat} {call : Option (HyperConnect K)},
      (∀ k l, call ≠ some (.underlying k l)
        ∧ call ≠ some (.handshake k l)) →
      (∃ l, Function.update s.calls t₀ call t = some (.underlying k l)
        ∨ Function.update s.calls t₀ call t = some (.handshake k l)) →
      s.Opening t k := by
    intro t₀ call hcall hex
    obtain ⟨l, hup⟩ := hex
    by_cases ht : t = t₀
    · rw [ht, Function.update_self] at hup
      rcases hup with hup | hup
      · exact absurd hup (hcall k l).1
      · exact absurd hup (hcall k l).2
    · rw [Function.update_of_ne ht] at hup
      exact ⟨l, hup⟩
  cases hyper_transition h with
  | tick | cloned | droppedHandle | closed | swept =>
      exact absurd ho hbefore
  | hit | hitLocked | leave | unlock | established | wait =>
      exact absurd (hold (by intro k l; constructor <;> nofun) ho) hbefore
  | begin t₀ key l tbl hcall hlock hmiss =>
      obtain ⟨l', ho⟩ := ho
      by_cases ht : t = t₀
      · subst ht
        simp only [goTo, Function.update_self, Option.some.injEq,
          HyperConnect.underlying.injEq, reduceCtorEq, or_false] at ho
        obtain ⟨rfl, -⟩ := ho
        exact ⟨l, hcall, rfl, hmiss⟩
      · simp only [goTo, Function.update_of_ne ht] at ho
        exact absurd ⟨l', ho⟩ hbefore
  | connected t₀ key l hcall =>
      obtain ⟨l', ho⟩ := ho
      by_cases ht : t = t₀
      · subst ht
        simp only [goTo, Function.update_self, Option.some.injEq,
          HyperConnect.handshake.injEq, reduceCtorEq, false_or] at ho
        obtain ⟨rfl, rfl⟩ := ho
        exact absurd ⟨l, Or.inl hcall⟩ hbefore
      · simp only [goTo, Function.update_of_ne ht] at ho
        exact absurd ⟨l', ho⟩ hbefore

-- ==================================================== queues of one entry

/-- The connections pooled for a key, front first. -/
def conns (s : HyperH2Connector K) (k : K) : List HyperH2Connection :=
  (s.pool.queue k).map Idle.conn

/-- What holds without a limit on senders. -/
structure Single (s : HyperH2Connector K) : Prop where
  limit : s.maxStreamSender = none
  uncounted : ∀ k, ∀ x ∈ s.conns k, x.cnt = none
  empty : ∀ t k l, s.phase t = .holding k l → s.conns k = []
  short : ∀ k, (s.conns k).length ≤ 1

/-- Fewer connections, and no new call that opens one for a key that has
any. -/
theorem Single.shrink (hs : s.Single)
    (hlimit : s'.maxStreamSender = s.maxStreamSender)
    (hsub : ∀ k, (s'.conns k).Sublist (s.conns k))
    (hphase : ∀ t k l, s'.phase t = .holding k l →
      s.phase t = .holding k l ∨ s'.conns k = []) : s'.Single where
  limit := hlimit.trans hs.limit
  uncounted := fun k x hx => hs.uncounted k x ((hsub k).subset hx)
  empty := by
    intro t k l hh
    rcases hphase t k l hh with hold | hnil
    · have hsub' := hsub k
      rw [hs.empty t k l hold] at hsub'
      exact List.sublist_nil.mp hsub'
    · exact hnil
  short := fun k => Nat.le_trans (hsub k).length_le (hs.short k)

/-- Without a limit nothing is full: a look-up that finds nothing leaves
nothing. -/
theorem Single.retained_eq_nil (hs : s.Single) {key : K}
    (hmiss : s.Miss key) : (s.retained key).queue key = [] := by
  rw [hmiss.queue]
  refine List.eq_nil_iff_forall_not_mem.mpr fun e he => ?_
  have hfull := hmiss.full e he
  have hcnt := hs.uncounted key e.conn
    (List.mem_map_of_mem (List.mem_of_mem_filter he))
  rw [HyperH2Connection.streamFull, hcnt] at hfull
  cases hfull

omit [DecidableEq K] in
/-- A call that moves to no opening leaves the holders there were. -/
theorem holding_of_update {calls : Nat → Option (HyperConnect K)}
    {t t' l : Nat} {k : K} {call : Option (HyperConnect K)}
    (hcall : ∀ k l, HyperConnect.phase call ≠ .holding k l)
    (h : HyperConnect.phase (Function.update calls t call t')
      = .holding k l) :
    t' ≠ t ∧ HyperConnect.phase (calls t') = .holding k l := by
  by_cases ht : t' = t
  · rw [ht, Function.update_self] at h
    exact absurd h (hcall k l)
  · rw [Function.update_of_ne ht] at h
    exact ⟨ht, h⟩

/-- A connection put into an empty queue is alone in it. -/
theorem conns_put {key : K} (hnil : s.conns key = [])
    (cn : HyperH2Connection) (k : K) :
    ((s.pool.put s.now key cn).pool.queue k).map Idle.conn
      = if k = key then [cn] else s.conns k := by
  rw [queue_put_nil s.now cn (List.map_eq_nil_iff.mp hnil)]
  split
  next => rfl
  next => rfl

/-- A sweep takes connections out of the queues. -/
theorem conns_swept {ticks : Nat} {task : IdleTask}
    {pool : PoolInner K HyperH2Connection}
    {dropped : List HyperH2Connection}
    (hpool : (task.poll s.now ticks (some s.pool)).2
      = (some pool, dropped)) (k : K) :
    ((pool.queue k).map Idle.conn).Sublist (s.conns k) := by
  have hq := queue_poll task s.now ticks s.pool k
  rw [hpool] at hq
  rw [show pool.queue k = _ from hq]
  split
  next => exact List.Sublist.refl _
  next => exact List.filter_sublist.map _

/-- A connection put by the one call that holds the lock of its key is
alone there. -/
theorem Single.put (hs : s.Single) (hl : s.Locked) {t l : Nat} {key : K}
    (hhold : s.phase t = .holding key l) {cn : HyperH2Connection}
    (hcn : cn.cnt = none) (hlimit : s'.maxStreamSender = s.maxStreamSender)
    (hq : ∀ k, s'.conns k = if k = key then [cn] else s.conns k)
    (hphase : ∀ t' k l', s'.phase t' = .holding k l' →
      t' ≠ t ∧ s.phase t' = .holding k l') : s'.Single := by
  refine ⟨hlimit.trans hs.limit, fun k x hx => ?_, fun t' k l' hh => ?_,
    fun k => ?_⟩
  · rw [hq k] at hx
    split at hx
    next => rw [List.mem_singleton.mp hx, hcn]
    next => exact hs.uncounted k x hx
  · -- another opening for the key would hold the same lock
    obtain ⟨hne, hold⟩ := hphase t' k l' hh
    have hk : k ≠ key := by
      intro heq
      subst heq
      exact hne (hl.coherent.exclusive hold hhold)
    exact (hq k).trans ((if_neg hk).trans (hs.empty t' k l' hold))
  · rw [hq k]
    split
    next => exact Nat.le_refl 1
    next => exact hs.short k

theorem Single.step (hs : s.Single) (hl : s.Locked) {a : HyperAction K}
    (h : s.step a = some s') : s'.Single := by
  have hsame : ∀ k, (s.conns k).Sublist (s.conns k) :=
    fun k => List.Sublist.refl _
  -- a call that does not come to hold a lock takes no queue from empty
  have hkeep : ∀ {t : Nat} {call : Option (HyperConnect K)},
      (∀ k l, HyperConnect.phase call ≠ .holding k l) →
      ∀ {conns : K → List HyperH2Connection} (t' : Nat) (k : K) (l : Nat),
        HyperConnect.phase (Function.update s.calls t call t')
          = .holding k l →
        s.phase t' = .holding k l ∨ conns k = [] := by
    intro t call hcall conns t' k l hh
    exact Or.inl (holding_of_update hcall hh).2
  cases hyper_transition h with
  | tick | cloned | droppedHandle | closed =>
      exact hs.shrink rfl hsame fun t k l hh => Or.inl hh
  | swept ticks task pool dropped htask hpool =>
      exact hs.shrink rfl (conns_swept hpool) fun t k l hh => Or.inl hh
  | hit key conn hhit =>
      exact hs.shrink rfl (conns_retained_sublist s key)
        (hkeep (by nofun))
  | wait key hmiss =>
      exact hs.shrink rfl (conns_retained_sublist s key)
        (hkeep (by nofun))
  | hitLocked t key l tbl conn hcall hlock hhit =>
      exact hs.shrink rfl (conns_retained_sublist s key)
        (hkeep (by nofun))
  | leave t key l hcall =>
      exact hs.shrink rfl hsame (hkeep (by nofun))
  | unlock a t key l ha hcall =>
      exact hs.shrink rfl hsame (hkeep (by nofun))
  | connected t key l hcall =>
      refine hs.shrink rfl hsame fun t' k l' hh => Or.inl ?_
      by_cases htt : t' = t
      · rw [htt] at hh ⊢
        have hnew := (HyperConnect.phase_update_self s.calls t
          (some (.handshake key l))).symm.trans hh
        exact (phase_eq hcall).trans hnew
      · exact (HyperConnect.phase_update_of_ne s.calls htt _).symm.trans hh
  | begin t key l tbl hcall hlock hmiss =>
      refine hs.shrink rfl (conns_retained_sublist s key)
        fun t' k l' hh => ?_
      by_cases htt : t' = t
      · rw [htt] at hh
        cases (HyperConnect.phase_update_self ..).symm.trans hh
        exact Or.inr (List.map_eq_nil_iff.mpr (hs.retained_eq_nil hmiss))
      · exact Or.inl
          ((HyperConnect.phase_update_of_ne s.calls htt _).symm.trans hh)
  | established t key l cn e hcall hcn he =>
      have hhold : s.phase t = .holding key l := phase_eq hcall
      have hcnt : cn.cnt = none := by
        rw [hcn, newCnt, hs.limit]
      refine hs.put hl hhold hcnt rfl (fun k => ?_)
        fun t' k l' hh => holding_of_update (by nofun) hh
      show (e.pool.queue k).map Idle.conn = _
      rw [he]
      exact conns_put (hs.empty t key l hhold) cn k

theorem single_of_reachable {idleInterval maxIdle : Option Nat}
    (hr : (machine idleInterval maxIdle none).Reachable s) :
    s.Single := by
  apply hr.invariant
  · intro s hinit
    obtain ⟨now, rfl⟩ := hinit
    have hnil : ∀ k, conns (K := K) (newWithPool now idleInterval maxIdle
        none) k = [] := by
      intro k
      cases idleInterval with
      | none => simp [conns, newWithPool, newWithIdleInterval]
      | some dur => simp [conns, newWithPool, newWithIdleInterval]
    refine ⟨rfl, fun k x hx => ?_, fun t k l hh => hnil k, fun k => ?_⟩
    · rw [hnil k] at hx
      cases hx
    · rw [hnil k]
      exact Nat.zero_le 1
  · exact fun s a s' hr hs _ h => hs.step (locked_of_reachable hr) h

-- ================================================== a key begun once only

/-- The step is neither a failure nor a cancellation, and no connection
stops being ready with it. -/
def Smooth : HyperAction K → Prop
  | .connected _ ok => ok = true
  | .handshake _ ok => ok = true
  | .cancel _ => False
  | .closed _ => False
  | _ => True

/-- Smoothness can be decided. -/
instance decidableSmooth : (a : HyperAction K) → Decidable (Smooth a)
  | .connected _ ok => inferInstanceAs (Decidable (ok = true))
  | .handshake _ ok => inferInstanceAs (Decidable (ok = true))
  | .cancel _ | .closed _ => .isFalse id
  | .tick _ | .connect _ | .locked _ | .cloneHandle _ | .dropHandle _
  | .pollIdle _ => .isTrue trivial

/-- What holds in runs of smooth steps without idle task. -/
structure Covered (s : HyperH2Connector K) : Prop where
  noTask : s.idleTask = none
  ready : ∀ c, s.ready c = true
  once : s.begun.Nodup
  covered : ∀ k ∈ s.begun, s.conns k ≠ [] ∨ ∃ t l, s.phase t = .holding k l

/-- While everything is ready `try_get!` leaves the connections. -/
theorem Covered.conns_retained (hc : s.Covered) (key k : K) :
    ((s.retained key).queue k).map Idle.conn = s.conns k := by
  have hall : s.kept key = s.pool.queue key := by
    refine List.filter_eq_self.mpr fun e _ => hc.ready _
  rw [HyperH2Connector.conns_retained, hall, conns]
  split
  next hk => rw [hk]
  next => rfl

/-- Connections and holders persist, for the keys already begun. -/
theorem Covered.keep (hc : s.Covered) (htask : s'.idleTask = s.idleTask)
    (hready : s'.ready = s.ready) (hbegun : s'.begun = s.begun)
    (hconns : ∀ k, s'.conns k = s.conns k)
    (hhold : ∀ t k l, s.phase t = .holding k l →
      ∃ l', s'.phase t = .holding k l') : s'.Covered := by
  refine ⟨htask.trans hc.noTask, fun c => ?_, ?_, fun k hk => ?_⟩
  · rw [hready]
    exact hc.ready c
  · rw [hbegun]
    exact hc.once
  · rw [hconns k]
    rw [hbegun] at hk
    refine (hc.covered k hk).imp_right ?_
    intro h
    obtain ⟨t, l, hh⟩ := h
    exact ⟨t, hhold t k l hh⟩

omit [DecidableEq K] in
/-- When a call that held no lock moves, the holders stay. -/
theorem holding_update {t : Nat} {call : Option (HyperConnect K)}
    (hno : ∀ k l, s.phase t ≠ .holding k l) (t' : Nat) (k : K) (l : Nat)
    (hh : s.phase t' = .holding k l) :
    ∃ l', HyperConnect.phase (Function.update s.calls t call t')
      = .holding k l' := by
  have hne : t' ≠ t := by
    intro heq
    subst heq
    exact hno k l hh
  exact ⟨l, (HyperConnect.phase_update_of_ne s.calls hne call).trans hh⟩

/-- A connection is begun for a key for which none was. -/
theorem Covered.not_begun (hc : s.Covered) (hs : s.Single)
    (hl : s.Locked) {t l : Nat} {key : K} {tbl : LockTable K}
    (hcall : s.calls t = some (.lock key l))
    (hlock : s.connecting.acquire l t = some tbl)
    (hmiss : s.Miss key) : key ∉ s.begun := by
  have hnil : s.conns key = [] := by
    rw [← hc.conns_retained key key, hs.retained_eq_nil hmiss]
    rfl
  intro hmem
  rcases hc.covered key hmem with hne | ⟨t', l', hh⟩
  · exact hne hnil
  · exact hl.not_opening hcall hlock t' (opening_iff.mpr ⟨l', hh⟩)

theorem Covered.step (hc : s.Covered) (hs : s.Single) (hl : s.Locked)
    {a : HyperAction K} (ha : Smooth a) (h : s.step a = some s') :
    s'.Covered := by
  have hnext : ∀ k l, s.phase s.nextCall ≠ .holding k l := by
    intro k l
    rw [phase_eq (hl.fresh _ (Nat.le_refl _))]
    nofun
  have hwait : ∀ {t l : Nat} {key : K},
      s.calls t = some (.lock key l) →
      ∀ k l, s.phase t ≠ .holding k l := by
    intro t l key hcall k l'
    rw [phase_eq hcall]
    nofun
  cases hyper_transition h with
  | tick | cloned | droppedHandle =>
      exact hc.keep rfl rfl rfl (fun _ => rfl) fun t k l hh => ⟨l, hh⟩
  | closed c => exact ha.elim
  | leave t key l hcall => exact ha.elim
  | unlock a t key l hwhy hcall =>
      rcases hwhy with rfl | rfl | rfl
      · cases ha
      · cases ha
      · exact ha.elim
  | swept ticks task pool dropped htask hpool =>
      rw [hc.noTask] at htask
      cases htask
  | hit key conn hhit =>
      exact hc.keep rfl rfl rfl (hc.conns_retained key)
        (holding_update hnext)
  | wait key hmiss =>
      exact hc.keep rfl rfl rfl (hc.conns_retained key)
        (holding_update hnext)
  | hitLocked t key l tbl conn hcall hlock hhit =>
      exact hc.keep rfl rfl rfl (hc.conns_retained key)
        (holding_update (hwait hcall))
  | connected t key l hcall =>
      refine hc.keep rfl rfl rfl (fun _ => rfl) fun t' k l' hh => ?_
      by_cases htt : t' = t
      · rw [htt] at hh ⊢
        rw [phase_eq hcall] at hh
        exact ⟨l', (HyperConnect.phase_update_self ..).trans hh⟩
      · exact ⟨l',
          (HyperConnect.phase_update_of_ne s.calls htt _).trans hh⟩
  | begin t key l tbl hcall hlock hmiss =>
      -- the look-up missed, so nothing was begun: it would be pooled, or its
      -- opener would hold the lock
      have hnew := hc.not_begun hs hl hcall hlock hmiss
      refine ⟨hc.noTask, hc.ready, hc.once.cons hnew, fun k hk => ?_⟩
      rcases List.mem_cons.mp hk with rfl | hk
      · exact Or.inr ⟨t, l, HyperConnect.phase_update_self ..⟩
      · refine (hc.covered k hk).imp (fun hne hnil => ?_) ?_
        · exact hne ((hc.conns_retained key k).symm.trans hnil)
        intro hex
        obtain ⟨t', l', hh⟩ := hex
        exact ⟨t', holding_update (hwait hcall) t' k l' hh⟩
  | established t key l cn e hcall hcn he =>
      have hhold : s.phase t = .holding key l := phase_eq hcall
      have hq : ∀ k, (e.pool.queue k).map Idle.conn
          = if k = key then [cn] else s.conns k := by
        rw [he]
        exact conns_put (hs.empty t key l hhold) cn
      refine ⟨hc.noTask, hc.ready, hc.once, fun k hk => ?_⟩
      -- its key is covered by what was put, every other as it was
      by_cases hkey : k = key
      · refine Or.inl fun hnil => ?_
        have hcons := ((hq k).trans (if_pos hkey)).symm.trans hnil
        cases hcons
      · refine (hc.covered k hk).imp (fun hne hnil => ?_) ?_
        · exact hne (((hq k).trans (if_neg hkey)).symm.trans hnil)
        intro hex
        obtain ⟨t', l', hh⟩ := hex
        have hne : t' ≠ t := by
          intro heq
          subst heq
          rw [hhold] at hh
          cases hh
          exact hkey rfl
        exact ⟨t', l',
          (HyperConnect.phase_update_of_ne s.calls hne _).trans hh⟩

theorem covered_of_reachable {maxIdle : Option Nat}
    (hr : (machine none maxIdle none).ReachableUnder
      (fun (_ : HyperH2Connector K) a => Smooth a) s) : s.Covered := by
  apply hr.invariant
  · intro s hinit
    obtain ⟨now, rfl⟩ := hinit
    exact ⟨rfl, fun _ => rfl, List.nodup_nil, fun _ h => nomatch h⟩
  · exact fun s a s' hr hc ha h => hc.step
      (single_of_reachable hr.reachable)
      (locked_of_reachable hr.reachable) ha h

end HyperH2Connector

-- ============================================================ the promise

open HyperH2Connector

variable [DecidableEq K]

/-- Connections are opened single-flight. In every run, one call a key
at most is opening a connection, and it began with every ready pooled
connection of the key full. Without a limit on senders one ready
connection a key is pooled at most; and while moreover calls succeed,
connections stay ready and nothing is swept, one connection a key is
begun at most. -/
theorem single_flight :
    (∀ (idleInterval maxIdle limit : Option Nat)
      (s : HyperH2Connector K),
      (machine idleInterval maxIdle limit).Reachable s →
      (∀ t t' k, s.Opening t k → s.Opening t' k → t = t')
      ∧ ∀ a s' t k, s.step a = some s' → s'.Opening t k →
        ¬ s.Opening t k → ∀ e ∈ s.pool.queue k,
          s.ready e.conn.tx = true →
          e.conn.streamFull s.boxes = true)
    ∧ (∀ (idleInterval maxIdle : Option Nat) (s : HyperH2Connector K),
      (machine idleInterval maxIdle none).Reachable s →
      ∀ k, ((s.pool.queue k).filter
        fun e => s.ready e.conn.tx).length ≤ 1)
    ∧ ∀ (maxIdle : Option Nat) (s : HyperH2Connector K),
      (machine none maxIdle none).ReachableUnder
        (fun (_ : HyperH2Connector K) a => Smooth a) s →
      ∀ k, s.begun.count k ≤ 1 := by
  refine ⟨?_, ?_, ?_⟩
  · intro idleInterval maxIdle limit s hr
    refine ⟨fun t t' k => (locked_of_reachable hr).exclusive, ?_⟩
    intro a s' t k h ho hbefore e he hready
    obtain ⟨l, -, -, hmiss⟩ := full_of_opening h ho hbefore
    exact streamFull_of_dropConns
      (hmiss.full e (List.mem_filter.mpr ⟨he, hready⟩))
  · intro idleInterval maxIdle s hr k
    have hshort := (single_of_reachable hr).short k
    rw [conns, List.length_map] at hshort
    exact Nat.le_trans List.filter_sublist.length_le hshort
  · intro maxIdle s hr k
    exact List.nodup_iff_count_le_one.mp (covered_of_reachable hr).once k

/-- Three callers ask for a key at once, and all goes well: the first
opens a connection, and the others get it. -/
theorem single_flight_herd :
    ∃ s : HyperH2Connector Nat,
      (machine none none none).run (newWithPool 0 none none none)
          [.connect 7, .connect 7, .connect 7, .locked 0,
            .connected 0 true, .handshake 0 true, .locked 1, .locked 2]
        = some s
        ∧ s.handles = [⟨0, none⟩, ⟨0, none⟩, ⟨0, none⟩]
        ∧ 7 ∈ s.begun ∧ s.begun.count 7 ≤ 1 := by
  obtain ⟨s, hrun, hhandles, hbegun⟩ : ∃ s : HyperH2Connector Nat,
      (machine none none none).run (newWithPool 0 none none none)
          [.connect 7, .connect 7, .connect 7, .locked 0,
            .connected 0 true, .handshake 0 true, .locked 1, .locked 2]
        = some s
        ∧ s.handles = [⟨0, none⟩, ⟨0, none⟩, ⟨0, none⟩] ∧ 7 ∈ s.begun :=
    ⟨_, rfl, rfl, List.mem_cons_self⟩
  have hsmooth : (machine none none none).ReachableUnder
      (fun (_ : HyperH2Connector Nat) a => Smooth a) s :=
    .along (.init ⟨0, rfl⟩) (by decide +kernel) hrun
  exact ⟨s, hrun, hhandles, hbegun, single_flight.2.2 none s hsmooth 7⟩

end MonoioTransports.Http
