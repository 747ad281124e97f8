/-
Where the connections of a `HyperH2Connector` come from.

The handles of a `HyperH2Connector` are clones, so what can be promised
is not that a handle is alone but that all handles of one connection
belong together: they came of one handshake, went to callers for one
key, and share one count. As for `HttpConnector` (Origin.lean) the
promise is about the run, and proved of the connector beside its
history.
-/
import MonoioTransports.Http.Proofs.Atomic
import MonoioTransports.Lib.History

namespace MonoioTransports.Http

open Lib Pool

variable {K : Type}

-- ============================================================== the events

/-- A handshake ends with a connection, or a call returns one. -/
inductive HyperEvent (K : Type)
  | opened (key : K) (conn : HyperH2Connection)
  | returned (key : K) (conn : HyperH2Connection)
  deriving DecidableEq

/-- The connections opened with their keys, the latest first. -/
def HyperEvent.opens (history : List (HyperEvent K)) :
    List (K × HyperH2Connection) :=
  history.filterMap fun
    | .opened key conn => some (key, conn)
    | _ => none

theorem HyperEvent.mem_opens {history : List (HyperEvent K)} {key : K}
    {conn : HyperH2Connection} :
    (key, conn) ∈ opens history ↔ .opened key conn ∈ history := by
  refine List.mem_filterMap.trans ⟨?_, fun h => ⟨_, h, rfl⟩⟩
  intro h
  obtain ⟨e, he, heq⟩ := h
  cases e with
  | opened key' conn' =>
      cases heq
      exact he
  | returned => cases heq

/-- The numbers of the connections opened. -/
def HyperEvent.numbers (history : List (HyperEvent K)) : List Nat :=
  (opens history).map fun x => x.2.tx

namespace HyperH2Connector

variable {s s' : HyperH2Connector K}

/-- The key of the call that an action starts or resumes. -/
def serves (s : HyperH2Connector K) : HyperAction K → Option K
  | .connect key => some key
  | .locked t => (s.calls t).map HyperConnect.key
  | .handshake t _ => (s.calls t).map HyperConnect.key
  | _ => none

/-- The connection a step opens, with its key. -/
def makes (s : HyperH2Connector K) : HyperAction K → List (HyperEvent K)
  | .handshake t true =>
      match s.calls t with
      | some (.handshake key _) =>
          [.opened key { tx := s.nextConn, cnt := s.newCnt.2 }]
      | _ => []
  | _ => []

/-- The events of a step that leads to `s'`. -/
def events (s : HyperH2Connector K) (a : HyperAction K)
    (s' : HyperH2Connector K) : List (HyperEvent K) :=
  match s.serves a, s'.returned with
  | some key, some conn => .returned key conn :: s.makes a
  | _, _ => s.makes a

/-- A connector and its history. -/
abbrev recorded [DecidableEq K]
    (idleInterval maxIdle limit : Option Nat) :
    Machine (Recorded (HyperH2Connector K) (HyperEvent K))
      (HyperAction K) :=
  (machine idleInterval maxIdle limit).recording events

theorem makes_subset (a : HyperAction K) : s.makes a ⊆ s.events a s' := by
  unfold events
  split
  next => exact List.subset_cons_self ..
  next => exact fun _ h => h

theorem mem_events_returned {a : HyperAction K} {key : K}
    {conn : HyperH2Connection} (h : .returned key conn ∈ s.events a s') :
    s.serves a = some key ∧ s'.returned = some conn := by
  have hmade : .returned key conn ∉ s.makes a := by
    unfold makes
    split
    · split <;> simp
    · simp
  unfold events at h
  split at h
  next key' conn' hserves hret =>
    rcases List.mem_cons.mp h with heq | h
    · cases heq
      exact ⟨hserves, hret⟩
    · exact absurd h hmade
  next => exact absurd h hmade

theorem returned_mem_events {a : HyperAction K} {key : K}
    {conn : HyperH2Connection} (hserves : s.serves a = some key)
    (hret : s'.returned = some conn) :
    .returned key conn ∈ s.events a s' := by
  unfold events
  rw [hserves, hret]
  exact List.mem_cons_self

variable [DecidableEq K]

/-- Connections are numbered in turn. -/
theorem numbers_of_step {a : HyperAction K} (h : s.step a = some s') :
    HyperEvent.numbers (s.events a s')
        ++ (List.range s.nextConn).reverse
      = (List.range s'.nextConn).reverse := by
  have hsame : HyperEvent.numbers (s.events a s')
      = HyperEvent.numbers (s.makes a) := by
    unfold events
    split <;> rfl
  rw [hsame]
  cases hyper_transition h with
  | established t key l cn e hcall =>
      simp only [makes, hcall]
      show s.nextConn :: (List.range s.nextConn).reverse
        = (List.range (s.nextConn + 1)).reverse
      rw [List.range_succ, List.reverse_append]
      rfl
  | unlock a t key l ha hcall =>
      rcases ha with rfl | rfl | rfl
      · rfl
      · rfl
      · rfl
  | _ => rfl

/-- What a step leaves in a queue was in it, or was opened for its
key. -/
theorem conns_of_step {a : HyperAction K} (h : s.step a = some s') {k : K}
    {conn : HyperH2Connection} (hc : conn ∈ s'.conns k) :
    conn ∈ s.conns k ∨ .opened k conn ∈ s.events a s' := by
  have hsub : ∀ {key : K},
      conn ∈ ((s.retained key).queue k).map Idle.conn →
      conn ∈ s.conns k :=
    fun hmem => (conns_retained_sublist s _ k).subset hmem
  cases hyper_transition h with
  | tick | connected | leave | unlock | cloned | droppedHandle | closed =>
      exact Or.inl hc
  | hit | wait | hitLocked | begin => exact Or.inl (hsub hc)
  | swept ticks task pool dropped htask hpool =>
      exact Or.inl ((conns_swept hpool k).subset hc)
  | established t key l cn e hcall hcn he =>
      obtain ⟨idle, hidle, rfl⟩ := List.mem_map.mp hc
      have hidle : idle ∈ e.pool.queue k := hidle
      rw [he] at hidle
      rcases mem_insertIdle hidle with hidle | ⟨hk, hnew⟩
      · exact Or.inl (List.mem_map_of_mem hidle)
      · refine Or.inr (makes_subset _ ?_)
        rw [hk, hnew]
        simp only [makes, hcall, Idle.new, hcn]
        exact List.mem_singleton_self _

/-- What is returned was in the queue of the key, or was opened for
it. -/
theorem opened_of_returned {a : HyperAction K} (h : s.step a = some s')
    {key : K} {conn : HyperH2Connection} (hserves : s.serves a = some key)
    (hret : s'.returned = some conn) :
    conn ∈ s.conns key ∨ .opened key conn ∈ s.events a s' := by
  have hpooled : ∀ {key : K}, s.Hit key conn → conn ∈ s.conns key := by
    intro key hhit
    obtain ⟨e, he, rfl⟩ := hhit.mem
    exact List.mem_map_of_mem (List.mem_of_mem_filter he)
  cases hyper_transition h with
  | tick | cloned | droppedHandle | closed | swept => simp at hret
  | wait | begin | connected | leave | unlock => simp [goTo] at hret
  | hit key' conn' hhit =>
      cases hserves
      cases hret
      exact Or.inl (hpooled hhit)
  | hitLocked t key' l tbl conn' hcall hlock hhit =>
      have hkey : key' = key := by
        simpa [serves, hcall, HyperConnect.key] using hserves
      subst hkey
      cases hret
      exact Or.inl (hpooled hhit)
  | established t key' l cn e hcall hcn he =>
      have hkey : key' = key := by
        simpa [serves, hcall, HyperConnect.key] using hserves
      subst hkey
      cases hret
      refine Or.inr (makes_subset _ ?_)
      simp only [makes, hcall, hcn]
      exact List.mem_singleton_self _

-- ========================================================= the invariant

/-- Connections are numbered in turn, and what is for a key was opened
for it. -/
structure Sourced (s : HyperH2Connector K)
    (history : List (HyperEvent K)) : Prop where
  numbers : HyperEvent.numbers history = (List.range s.nextConn).reverse
  pooled : ∀ k, ∀ conn ∈ s.conns k, .opened k conn ∈ history
  returned : ∀ key conn, .returned key conn ∈ history →
    .opened key conn ∈ history

theorem Sourced.step {history : List (HyperEvent K)}
    (hs : s.Sourced history) {a : HyperAction K}
    (h : s.step a = some s') : s'.Sourced (s.events a s' ++ history) := by
  have hopened : ∀ {k : K} {conn : HyperH2Connection},
      conn ∈ s.conns k ∨ .opened k conn ∈ s.events a s' →
      .opened k conn ∈ s.events a s' ++ history := by
    intro k conn hor
    rcases hor with hmem | hnew
    · exact List.mem_append_right _ (hs.pooled k conn hmem)
    · exact List.mem_append_left _ hnew
  refine ⟨?_, ?_, ?_⟩
  · rw [HyperEvent.numbers, HyperEvent.opens, List.filterMap_append,
      List.map_append, ← numbers_of_step h]
    exact congrArg _ hs.numbers
  · exact fun k conn hc => hopened (conns_of_step h hc)
  · intro key conn hret
    rcases List.mem_append.mp hret with hret | hret
    · obtain ⟨hserves, hret⟩ := mem_events_returned hret
      exact hopened (opened_of_returned h hserves hret)
    · exact List.mem_append_right _ (hs.returned key conn hret)

theorem sourced_of_recorded {idleInterval maxIdle limit : Option Nat}
    {r : Recorded (HyperH2Connector K) (HyperEvent K)}
    (hr : (recorded idleInterval maxIdle limit).Reachable r) :
    r.state.Sourced r.history := by
  refine Machine.recorded_invariant (C := fun _ _ => True)
    (I := Sourced) ?_ ?_ hr
  · intro s hinit
    obtain ⟨now, rfl⟩ := hinit
    refine ⟨rfl, fun k conn hc => ?_, fun _ _ h => (by cases h)⟩
    cases idleInterval with
    | none => simp [conns, newWithPool, newWithIdleInterval] at hc
    | some dur => simp [conns, newWithPool, newWithIdleInterval] at hc
  · exact fun s history a s' _ hs _ h => hs.step h

/-- A number is that of one connection, opened for one key. -/
theorem Sourced.unique {history : List (HyperEvent K)}
    (hs : s.Sourced history) {k k' : K} {conn conn' : HyperH2Connection}
    (h : .opened k conn ∈ history) (h' : .opened k' conn' ∈ history)
    (htx : conn'.tx = conn.tx) : k' = k ∧ conn' = conn := by
  have hnodup : ((HyperEvent.opens history).map
      fun x => x.2.tx).Nodup := by
    rw [show (HyperEvent.opens history).map (fun x => x.2.tx)
      = (List.range s.nextConn).reverse from hs.numbers]
    exact List.nodup_reverse.mpr List.nodup_range
  have heq := List.inj_on_of_nodup_map hnodup
    (HyperEvent.mem_opens.mpr h') (HyperEvent.mem_opens.mpr h) htx
  exact ⟨congrArg Prod.fst heq, congrArg Prod.snd heq⟩

end HyperH2Connector

-- ============================================================ the promise

open HyperH2Connector in
/-- What a `HyperH2Connector` returns to a caller for a key was opened
by a call for that key and no other; and whoever was returned a handle
of the connection before asked for the same key and shares its
count. -/
theorem hyper_returned_for_their_key [DecidableEq K]
    {idleInterval maxIdle limit : Option Nat}
    {r : Recorded (HyperH2Connector K) (HyperEvent K)}
    (hr : (recorded idleInterval maxIdle limit).Reachable r)
    {a : HyperAction K} {s' : HyperH2Connector K}
    (h : r.state.step a = some s') {key : K} {conn : HyperH2Connection}
    (hserves : r.state.serves a = some key)
    (hret : s'.returned = some conn) :
    (∀ k, .opened k conn ∈ r.state.events a s' ++ r.history ↔ k = key)
      ∧ ∀ k conn', .returned k conn' ∈ r.history → conn'.tx = conn.tx →
        k = key ∧ conn' = conn := by
  have hs := (sourced_of_recorded hr).step h
  have hnow : .opened key conn ∈ r.state.events a s' ++ r.history :=
    hs.returned key conn
      (List.mem_append_left _ (returned_mem_events hserves hret))
  refine ⟨fun k => ⟨fun hk => (hs.unique hnow hk rfl).1, fun hk => ?_⟩, ?_⟩
  · rw [hk]
    exact hnow
  · intro k conn' hbefore htx
    exact hs.unique hnow
      (hs.returned k conn' (List.mem_append_right _ hbefore)) htx

open HyperH2Connector in
/-- Connections for two keys: the second call for the first key is
returned a handle of the first. -/
theorem hyper_returned_for_their_key_two :
    ∃ (r : Recorded (HyperH2Connector Nat) (HyperEvent Nat))
        (s' : HyperH2Connector Nat),
      (recorded none none (some 3)).run
          ⟨newWithPool 0 none none (some 3), []⟩
          [.connect 7, .locked 0, .connected 0 true, .handshake 0 true,
            .connect 8, .locked 1, .connected 1 true,
            .handshake 1 true] = some r
        ∧ r.state.step (.connect 7) = some s'
        ∧ s'.returned = some ⟨0, some ⟨0⟩⟩
        ∧ ∀ k, .opened k ⟨0, some ⟨0⟩⟩
            ∈ r.state.events (.connect 7) s' ++ r.history ↔ k = 7 := by
  obtain ⟨r, s', hrun, hs, hserves, hret⟩ :
      ∃ (r : Recorded (HyperH2Connector Nat) (HyperEvent Nat))
          (s' : HyperH2Connector Nat),
        (recorded none none (some 3)).run
            ⟨newWithPool 0 none none (some 3), []⟩
            [.connect 7, .locked 0, .connected 0 true, .handshake 0 true,
              .connect 8, .locked 1, .connected 1 true,
              .handshake 1 true] = some r
          ∧ r.state.step (.connect 7) = some s'
          ∧ r.state.serves (.connect 7) = some 7
          ∧ s'.returned = some ⟨0, some ⟨0⟩⟩ :=
    ⟨_, _, rfl, rfl, rfl, rfl⟩
  obtain ⟨hfor, -⟩ := hyper_returned_for_their_key
    (Machine.Reachable.run (.init ⟨⟨0, rfl⟩, rfl⟩) hrun) hs hserves hret
  exact ⟨r, s', hrun, hs, hret, hfor⟩

end MonoioTransports.Http
