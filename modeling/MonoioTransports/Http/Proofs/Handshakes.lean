/-
How many HTTP/2 handshakes an `HttpConnector` goes through.

# The accounts

Each handshake begun for a key is under way, has failed, or led to a
connection. Of those connections the ones without an error are those in
the pool, which has one at most, and none while a handshake for the key
is under way. So but for one, each handshake is explained by another of
the key that failed, or by a connection that broke: callers do not make
connections, failures do.

# The step

`Handshaking` says what a step does to the handshakes, with the event it
leaves; the accounts are a case analysis of it.
-/
import MonoioTransports.Http.Proofs.Origin
import MonoioTransports.Http.Proofs.Progress

namespace MonoioTransports.Http

open Lib Pool

variable {K C π δ ε : Type}

-- ============================================================ the accounts

namespace ConnectorEvent

variable [DecidableEq K]

/-- The handshakes begun for a key. -/
def begun (key : K) (history : List (ConnectorEvent K C)) : List C :=
  history.filterMap fun
    | .began k c => if k = key then some c else none
    | _ => none

/-- Those that failed, or whose call was dropped. -/
def failures (key : K) (history : List (ConnectorEvent K C)) : List C :=
  history.filterMap fun
    | .failed k c => if k = key then some c else none
    | _ => none

/-- The connections they led to. -/
def connections (key : K) (history : List (ConnectorEvent K C)) :
    List C :=
  history.filterMap fun
    | .established k c => if k = key then some c else none
    | _ => none

/-- None of the events is about a handshake. -/
def Idle (events : List (ConnectorEvent K C)) : Prop :=
  ∀ key, begun key events = [] ∧ failures key events = []
    ∧ connections key events = []

end ConnectorEvent

/-- Whether a call stands at a handshake for the key. -/
def Connect.shakes [DecidableEq K] (key : K) : Option (Connect K C) → Nat
  | some (.handshake k _ _) => if k = key then 1 else 0
  | _ => 0

namespace HttpConnector

/-- The handshakes under way for a key. -/
def handshakes [DecidableEq K] (s : HttpConnector K C π δ) (key : K) :
    Nat :=
  tally (Connect.shakes key) s.calls s.nextCall

/-- The connections opened for a key that have no error. -/
def sound [DecidableEq K] (s : HttpConnector K C π δ)
    (history : List (ConnectorEvent K C)) (key : K) : List C :=
  (ConnectorEvent.connections key history).filter fun c =>
    !s.connError c

-- ======================================================== whose step it is

/-- The call that an action starts, resumes or drops. -/
def task (s : HttpConnector K C π δ) :
    ConnectorAction K C π δ ε → Option Nat
  | .connect _ => some s.nextCall
  | .transport t _ => some t
  | .acquired t _ => some t
  | .handshake t _ => some t
  | .cancel t => some t
  | _ => none

variable [DecidableEq K] [DecidableEq C]
  {s s' : HttpConnector K C π δ}

private theorem calls_of_connect {key : K} (h : s.connect key = some s')
    {t : Nat} (ht : t ≠ s.nextCall) : s'.calls t = s.calls t := by
  unfold connect at h
  split at h
  next => cases h
  next =>
    dsimp only at h
    split at h
    next s₁ conn hlook =>
      cases h
      have hs₁ : s₁.calls = s.calls := by
        split at hlook
        next => rw [(tryGet_eq hlook).1]
        next => cases hlook
      show Function.update s₁.calls s.nextCall none t = s.calls t
      rw [Function.update_of_ne ht, hs₁]
    next s₁ hlook =>
      have hs₁ : s₁.calls = s.calls := by
        split at hlook
        next => rw [(tryGet_eq hlook).1]
        next => cases hlook; rfl
      split at h
      next =>
        cases h
        show Function.update s₁.calls s.nextCall none t = s.calls t
        rw [Function.update_of_ne ht, hs₁]
      next =>
        cases h
        show Function.update s₁.calls s.nextCall _ t = s.calls t
        rw [Function.update_of_ne ht, hs₁]
      next => cases h

/-- An action moves no call but its own. -/
theorem calls_of_step_other {a : ConnectorAction K C π δ ε}
    (h : s.step a = some s') {t : Nat} (ht : s.task a ≠ some t) :
    s'.calls t = s.calls t := by
  have hne : ∀ {t₀ : Nat} {call : Option (Connect K C)},
      some t₀ ≠ some t → Function.update s.calls t₀ call t = s.calls t :=
    fun hn => Function.update_of_ne (fun heq => hn (congrArg some heq.symm)) ..
  cases a with
  | connect key =>
      exact calls_of_connect h fun heq => ht (congrArg some heq.symm)
  | transport t₀ result =>
      simp only [step, transport] at h
      split at h
      next =>
        cases h
        exact hne ht
      next =>
        split at h
        next => cases h
        next =>
          split at h
          next =>
            cases h
            exact hne ht
          next =>
            obtain ⟨h1, -, rfl⟩ := Option.map_eq_some_iff.mp h
            exact hne ht
      next => cases h
  | acquired t₀ ok =>
      simp only [step, acquired] at h
      split at h
      next =>
        split at h
        next =>
          cases h
          exact hne ht
        next =>
          split at h
          next => cases h
          next =>
            split at h
            next s₁ conn hlook =>
              cases h
              obtain ⟨rfl, -⟩ := tryGet_eq hlook
              exact hne ht
            next s₁ hlook =>
              cases h
              obtain ⟨rfl, -⟩ := tryGet_eq hlook
              exact hne ht
      next => cases h
  | handshake t₀ ok =>
      simp only [step, handshake] at h
      split at h
      next =>
        split at h
        next =>
          cases h
          exact hne ht
        next =>
          cases h
          exact hne ht
      next => cases h
  | cancel t₀ =>
      simp only [step, cancel] at h
      split at h
      next =>
        cases h
        exact hne ht
      next =>
        cases h
        exact hne ht
      next => cases h
  | connErr c =>
      simp only [step] at h
      split at h
      next =>
        cases h
        rfl
      next => cases h
  | setHttp1Only | setHttp2Only =>
      simp only [step] at h
      split at h
      next =>
        cases h
        rfl
      next => cases h
  | h1 b =>
      simp only [step] at h
      split at h
      next =>
        obtain ⟨h1, -, rfl⟩ := Option.map_eq_some_iff.mp h
        rfl
      next => cases h
  | dropConnector =>
      simp only [step] at h
      split at h
      next =>
        obtain ⟨h1, -, rfl⟩ := Option.map_eq_some_iff.mp h
        rfl
      next => cases h

omit [DecidableEq C] in
/-- A call that waits for a transport or the lock ends with no event
about a handshake. -/
theorem idle_of_leave {a : ConnectorAction K C π δ ε} {t : Nat}
    (hlt : t < s.nextCall) (htask : s.task a = some t)
    (hout : ∀ key l c, s.calls t ≠ some (.handshake key l c))
    (hend : s'.calls t = none) :
    ConnectorEvent.Idle (s.makes a s') := by
  have hno : ConnectorEvent.Idle ([] : List (ConnectorEvent K C)) :=
    fun _ => ⟨rfl, rfl, rfl⟩
  cases a with
  | connect key =>
      rw [task, Option.some.injEq] at htask
      exact absurd htask (Nat.ne_of_gt hlt)
  | transport t₀ result =>
      cases result with
      | none => exact hno
      | some result =>
          unfold makes
          dsimp only
          split
          · exact fun _ => ⟨rfl, rfl, rfl⟩
          · exact hno
  | acquired t₀ ok =>
      cases htask
      cases ok with
      | false => exact hno
      | true =>
          simp only [makes, hend]
          exact hno
  | handshake t₀ ok =>
      cases htask
      unfold makes
      dsimp only
      split
      next key l c hcall => exact absurd hcall (hout key l c)
      next => exact hno
  | cancel t₀ =>
      cases htask
      unfold makes
      dsimp only
      split
      next key l c hcall => exact absurd hcall (hout key l c)
      next => exact hno
  | _ => cases htask

-- ============================================================= the step

/-- What a step does to the handshakes, and the event it leaves. -/
inductive Handshaking (s : HttpConnector K C π δ)
    (events : List (ConnectorEvent K C)) (s' : HttpConnector K C π δ) :
    Prop
  /-- No call goes to a handshake, or comes from one. -/
  | idle (hidle : ConnectorEvent.Idle events)
      (hsame : ∀ key, s'.handshakes key = s.handshakes key)
  | began (t : Nat) (key : K) (l : Nat) (c : C)
      (hcall : s.calls t = some (.acquire key l c))
      (hnone : (s.tryGet key).2 = none)
      (hevents : events = [.began key c])
      (hcalls : s'.calls
        = Function.update s.calls t (some (.handshake key l c)))
      (hnext : s'.nextCall = s.nextCall)
  | failed (t : Nat) (key : K) (l : Nat) (c : C)
      (hcall : s.calls t = some (.handshake key l c))
      (hevents : events = [.failed key c])
      (hcalls : s'.calls = Function.update s.calls t none)
      (hnext : s'.nextCall = s.nextCall)
  | established (t : Nat) (key : K) (l : Nat) (c : C)
      (hcall : s.calls t = some (.handshake key l c))
      (hevents : events = [.established key c])
      (hcalls : s'.calls = Function.update s.calls t none)
      (hnext : s'.nextCall = s.nextCall)
      (hpool : s'.h2Pool = (s.h2Pool.put s.h1.world.now key
        (Http2Connection.new c)).pool)
      (herr : s'.connError = s.connError)

omit [DecidableEq C] in
/-- A call moves, and not to or from a handshake. -/
theorem handshakes_goTo {t : Nat} (ht : t < s.nextCall)
    {call : Option (Connect K C)}
    (hfrom : ∀ key l c, s.calls t ≠ some (.handshake key l c))
    (hto : ∀ key l c, call ≠ some (.handshake key l c)) (key : K) :
    tally (Connect.shakes key) (Function.update s.calls t call) s.nextCall
      = s.handshakes key := by
  have hzero : ∀ {call : Option (Connect K C)},
      (∀ key l c, call ≠ some (.handshake key l c)) →
      Connect.shakes key call = 0 := by
    intro call hne
    unfold Connect.shakes
    split
    next k l c => exact absurd rfl (hne k l c)
    next => rfl
  have hsum := tally_update (Connect.shakes key) s.calls ht call
  rw [hzero hfrom, hzero hto] at hsum
  exact hsum

omit [DecidableEq C] in
/-- The next call starts, and not at a handshake. -/
theorem handshakes_start {call : Option (Connect K C)}
    (hto : ∀ key l c, call ≠ some (.handshake key l c)) (key : K) :
    tally (Connect.shakes key) (Function.update s.calls s.nextCall call)
      (s.nextCall + 1) = s.handshakes key := by
  rw [tally_update_next]
  have hzero : Connect.shakes key call = 0 := by
    unfold Connect.shakes
    split
    next k l c => exact absurd rfl (hto k l c)
    next => rfl
  rw [hzero]
  rfl

theorem handshaking_of_step (hi : s.Inv) {a : ConnectorAction K C π δ ε}
    (h : s.step a = some s') : Handshaking s (s.makes a s') s' := by
  have hno : ConnectorEvent.Idle ([] : List (ConnectorEvent K C)) :=
    fun _ => ⟨rfl, rfl, rfl⟩
  -- only the action of a call ends it
  have htask : ∀ {t : Nat} {call : Connect K C},
      s.calls t = some call → s'.calls t = none → s.task a = some t := by
    intro t call hcall hend
    by_contra hne
    rw [calls_of_step_other h hne, hcall] at hend
    cases hend
  cases transition_step h with
  | hit2 | hit1 =>
      exact .idle hno fun key => handshakes_start (by simp) key
  | miss => exact .idle hno fun key => handshakes_start (by simp) key
  | leave a t hcall =>
      have hend : (s.goTo t none).calls t = none :=
        Function.update_self ..
      have hboth : ∃ call, s.calls t = some call
          ∧ ∀ key l c, some call ≠ some (.handshake key l c) := by
        rcases hcall with ⟨key, hcall⟩ | ⟨key, l, c, hcall⟩
        · exact ⟨_, hcall, by simp⟩
        · exact ⟨_, hcall, by simp⟩
      obtain ⟨call, hcall, hout⟩ := hboth
      have hout : ∀ key l c, s.calls t ≠ some (.handshake key l c) := by
        rw [hcall]
        exact hout
      have hlt := hi.lt_next hcall
      exact .idle (idle_of_leave hlt (htask hcall hend) hout hend)
        fun key => handshakes_goTo hlt hout (by simp) key
  | toLock t key c alpn hcall =>
      refine .idle ?_ fun k =>
        handshakes_goTo (hi.lt_next hcall) (by simp [hcall]) (by simp) k
      simp only [makes, hcall]
      exact fun _ => ⟨rfl, rfl, rfl⟩
  | linked t key c alpn h1 hcall =>
      refine .idle ?_ fun k =>
        handshakes_goTo (hi.lt_next hcall) (by simp [hcall]) (by simp) k
      simp only [makes, hcall]
      exact fun _ => ⟨rfl, rfl, rfl⟩
  | hitLocked t key l c tbl conn hcall =>
      refine .idle ?_ fun k =>
        handshakes_goTo (hi.lt_next hcall) (by simp [hcall]) (by simp) k
      simp only [makes, finish, Function.update_self]
      exact hno
  | toHandshake t key l c tbl hcall hlock hget =>
      refine .began t key l c hcall hget ?_ rfl rfl
      simp only [makes, goTo, Function.update_self]
  | unlock a t key l c hcall =>
      have htask := htask hcall (Function.update_self ..)
      refine .failed t key l c hcall ?_ rfl rfl
      cases a with
      | connect key' =>
          rw [task, Option.some.injEq] at htask
          exact absurd htask (Nat.ne_of_gt (hi.lt_next hcall))
      | transport t₀ result =>
          cases htask
          simp [step, transport, hcall] at h
      | acquired t₀ ok =>
          cases htask
          simp [step, acquired, hcall] at h
      | handshake t₀ ok =>
          cases htask
          cases ok with
          | true => simp [step, handshake, hcall, goTo, finish] at h
          | false => simp [makes, hcall]
      | cancel t₀ =>
          cases htask
          simp only [makes, hcall]
      | _ => cases htask
  | established t key l c hcall =>
      refine .established t key l c hcall ?_ rfl rfl rfl rfl
      simp only [makes, hcall, if_true]
  | setMode a p hquiet =>
      have hnone : ∀ t, s.calls t = none := by
        intro t
        by_cases ht : t < s.nextCall
        · exact Option.isNone_iff_eq_none.mp (hquiet t ht)
        · exact hi.fresh t (Nat.le_of_not_lt ht)
      refine .idle ?_ fun _ => rfl
      unfold makes
      split
      next => rw [hnone]; exact hno
      next => dsimp only; rw [hnone]; exact hno
      next => rw [hnone]; exact hno
      next => rw [hnone]; exact hno
      next => exact hno
  | connErr | h1 | dropped => exact .idle hno fun _ => rfl

-- ============================================================ the accounts

omit [DecidableEq C] in
/-- A call at a handshake is one under way, and the only one. -/
theorem handshakes_le_one (hi : s.Inv) (key : K) :
    s.handshakes key ≤ 1
      ∧ (0 < s.handshakes key →
        ∃ t l c, s.calls t = some (.handshake key l c)) := by
  have hshakes : ∀ {t : Nat}, 0 < Connect.shakes key (s.calls t) →
      ∃ l c, s.calls t = some (.handshake key l c) := by
    intro t hpos
    unfold Connect.shakes at hpos
    split at hpos
    next k l c hcall =>
      split at hpos
      next hk => exact ⟨l, c, hk ▸ hcall⟩
      next => exact absurd hpos (Nat.lt_irrefl 0)
    next => exact absurd hpos (Nat.lt_irrefl 0)
  refine ⟨tally_le_one ?_ ?_, fun hpos => ?_⟩
  · intro call
    unfold Connect.shakes
    split
    · split
      · exact Nat.le_refl 1
      · exact Nat.zero_le 1
    · exact Nat.zero_le 1
  · intro t t' _ _ ht ht'
    obtain ⟨l, c, hcall⟩ := hshakes ht
    obtain ⟨l', c', hcall'⟩ := hshakes ht'
    exact hi.coherent.exclusive (phase_eq hcall) (phase_eq hcall')
  · obtain ⟨t, -, ht⟩ := exists_of_tally_pos hpos
    obtain ⟨l, c, hcall⟩ := hshakes ht
    exact ⟨t, l, c, hcall⟩

/-- A pool that is gone stays gone. -/
theorem pool_gone {a : ConnectorAction K C π δ ε}
    (h : s.step a = some s') (hnone : s.h1.world.pool = none) :
    s'.h1.world.pool = none := by
  rcases (transition_step h).h1_step with heq | ⟨b, hb, -⟩
  · rw [heq]
    exact hnone
  · rcases H1World.world_step hb with heq | ⟨w, hw⟩
    · rw [heq]
      exact hnone
    · exact pool_none_of_step hw hnone

/-- The handshakes begun for each key are accounted for, and while the
connector is there its pool has the connections without an error. -/
structure Accounted (s : HttpConnector K C π δ)
    (history : List (ConnectorEvent K C)) : Prop where
  paid : ∀ key, (ConnectorEvent.begun key history).length
    = (ConnectorEvent.failures key history).length
      + (ConnectorEvent.connections key history).length
      + s.handshakes key
  few : ∀ key, (s.sound history key).length ≤ 1
  pooled : s.h1.world.pool ≠ none → ∀ key, s.sound history key
    = (s.h2Conns key).filter fun c => !s.connError c

omit [DecidableEq C] in
/-- What is written down about handshakes is what the step made. -/
theorem counts_of_events (s s' : HttpConnector K C π δ)
    (a : ConnectorAction K C π δ ε) (key : K)
    (history : List (ConnectorEvent K C)) :
    ConnectorEvent.begun key (s.events a s' ++ history)
        = ConnectorEvent.begun key (s.makes a s')
          ++ ConnectorEvent.begun key history
      ∧ ConnectorEvent.failures key (s.events a s' ++ history)
        = ConnectorEvent.failures key (s.makes a s')
          ++ ConnectorEvent.failures key history
      ∧ ConnectorEvent.connections key (s.events a s' ++ history)
        = ConnectorEvent.connections key (s.makes a s')
          ++ ConnectorEvent.connections key history := by
  have hsame : ∀ {β : Type} (f : ConnectorEvent K C → Option β),
      (∀ k conn, f (.returned k conn) = none) →
      (s.events a s' ++ history).filterMap f
        = (s.makes a s').filterMap f ++ history.filterMap f := by
    intro β f hf
    rw [List.filterMap_append]
    unfold events
    split
    next k conn => rw [List.filterMap_cons, hf]
    next => rfl
  exact ⟨hsame _ fun _ _ => rfl, hsame _ fun _ _ => rfl,
    hsame _ fun _ _ => rfl⟩

/-- Unless a handshake for the key ends well, connections only acquire
errors, and the pool loses of the key what has one. -/
theorem sound_of_kept {a : ConnectorAction K C π δ ε}
    (h : s.step a = some s') {key : K}
    (hnew : ConnectorEvent.connections key (s.makes a s') = []) :
    (∀ c, s.connError c = true → s'.connError c = true)
      ∧ (s'.h1.world.pool ≠ none →
        (s'.h2Conns key).filter (fun c => !s'.connError c)
          = (s.h2Conns key).filter fun c => !s'.connError c) := by
  -- filtering once more changes nothing
  have hretained : ∀ k, (((s.retained k).queue key).map
        fun e => e.conn.tx).filter (fun c => !s.connError c)
      = (s.h2Conns key).filter fun c => !s.connError c := by
    intro k
    rw [(tryGet_spec s k).2 key, h2Conns]
    split
    next hk =>
      rw [hk, List.filter_map, List.filter_map, List.filter_filter]
      simp only [Function.comp_apply, Bool.and_self]
      rfl
    next => rfl
  have hlook : ∀ {k : K} {pool : PoolInner K (Http2Connection C)},
      pool = s.h2Pool ∨ pool = s.retained k →
      ((pool.queue key).map fun e => e.conn.tx).filter
          (fun c => !s.connError c)
        = (s.h2Conns key).filter fun c => !s.connError c := by
    intro k pool hpool
    rcases hpool with rfl | rfl
    · rfl
    · exact hretained k
  cases transition_step h with
  | leave | toLock | linked | unlock | setMode | h1 =>
      exact ⟨fun _ hc => hc, fun _ => rfl⟩
  | hit2 | hitLocked | toHandshake =>
      exact ⟨fun _ hc => hc, fun _ => hretained _⟩
  | hit1 k h1 p pool hpool | miss k h1 pool hpool =>
      exact ⟨fun _ hc => hc, fun _ => hlook hpool⟩
  | established t k l c hcall =>
      have hk : key ≠ k := by
        intro hk
        simp [makes, hcall, ConnectorEvent.connections, hk] at hnew
      refine ⟨fun _ hc => hc, fun _ => ?_⟩
      have hq : (s.h2Pool.put s.h1.world.now k
          (Http2Connection.new c)).pool.queue key
            = s.h2Pool.queue key := by
        rw [PoolInner.put, queue_insertIdle, if_neg hk]
      show (((s.h2Pool.put s.h1.world.now k
        (Http2Connection.new c)).pool.queue key).map _).filter _ = _
      rw [hq]
      rfl
  | connErr c hopen =>
      refine ⟨fun d hd => ?_, fun _ => rfl⟩
      by_cases hdc : d = c
      · rw [hdc]
        exact Function.update_self ..
      · exact (Function.update_of_ne hdc ..).trans hd
  | dropped h1 hs =>
      refine ⟨fun _ hc => hc, fun hsome => absurd ?_ hsome⟩
      obtain ⟨-, w, hw, rfl⟩ := H1World.pool_eq_some hs
      obtain ⟨pool, -, rfl⟩ := World.dropPool_eq_some hw
      rfl

omit [DecidableEq K] [DecidableEq C] in
/-- As errors come up, what is left without is left of what was. -/
private theorem filter_of_grows {errs errs' : C → Bool}
    (hgrow : ∀ c, errs c = true → errs' c = true) (l : List C) :
    (l.filter fun c => !errs c).filter (fun c => !errs' c)
      = l.filter fun c => !errs' c := by
  rw [List.filter_filter]
  refine List.filter_congr fun c _ => ?_
  cases herr : errs c with
  | false => simp
  | true => simp [hgrow c herr]

theorem Accounted.step {history : List (ConnectorEvent K C)}
    (ha : s.Accounted history) {protocol : Protocol}
    (hr : (machine (ε := ε) protocol).Reachable s)
    {a : ConnectorAction K C π δ ε} (h : s.step a = some s') :
    s'.Accounted (s.events a s' ++ history) := by
  have hi := inv_of_reachable hr
  have hmoves := handshaking_of_step hi h
  -- one key at a time, whether or not a handshake for it ends well
  have hsound : ∀ key,
      (s'.sound (s.events a s' ++ history) key).length ≤ 1
        ∧ (s'.h1.world.pool ≠ none →
          s'.sound (s.events a s' ++ history) key
            = (s'.h2Conns key).filter fun c => !s'.connError c) := by
    intro key
    have hconns := (counts_of_events s s' a key history).2.2
    by_cases hnew : ConnectorEvent.connections key (s.makes a s') = []
    · obtain ⟨hgrow, hpool⟩ := sound_of_kept h hnew
      have hkept : s'.sound (s.events a s' ++ history) key
          = (s.sound history key).filter fun c => !s'.connError c := by
        rw [sound, hconns, hnew, List.nil_append]
        exact (filter_of_grows hgrow _).symm
      refine ⟨?_, fun hsome => ?_⟩
      · rw [hkept]
        exact Nat.le_trans (List.length_filter_le ..) (ha.few key)
      · have hthere : s.h1.world.pool ≠ none :=
          fun hnone => hsome (pool_gone h hnone)
        rw [hkept, ha.pooled hthere key, filter_of_grows hgrow, hpool hsome]
    · cases hmoves with
      | idle hidle => exact absurd (hidle key).2.2 hnew
      | began t k l c hcall hnone hevents =>
          rw [hevents] at hnew
          exact absurd rfl hnew
      | failed t k l c hcall hevents =>
          rw [hevents] at hnew
          exact absurd rfl hnew
      | established t k l c hcall hevents hcalls hnext hput herr =>
          have hk : k = key := by
            by_contra hne
            rw [hevents] at hnew
            simp [ConnectorEvent.connections, hne] at hnew
          subst hk
          have hempty := hi.empty t k l c hcall
          have hthere : s.h1.world.pool ≠ none := by
            obtain ⟨pool, hpool, -⟩ := served_of_reachable hr t
              (by rw [hcall]; simp)
            rw [hpool]
            simp
          have hbefore : s.sound history k = [] := by
            rw [ha.pooled hthere k, h2Conns, hempty]
            rfl
          have hgood : s.connError c = false :=
            hi.carried.no_error (t := t) (by rw [hcall]; rfl)
          have hafter : s'.sound (s.events a s' ++ history) k = [c] := by
            unfold sound at hbefore ⊢
            rw [hconns, hevents, herr, List.filter_append, hbefore]
            simp [ConnectorEvent.connections, hgood]
          rw [hafter]
          refine ⟨Nat.le_refl 1, fun _ => ?_⟩
          rw [h2Conns, hput, queue_put_nil _ _ hempty, if_pos rfl, herr]
          simp [Pool.Idle.new, Http2Connection.new, hgood]
  refine ⟨fun key => ?_, fun key => (hsound key).1,
    fun hsome key => (hsound key).2 hsome⟩
  obtain ⟨hbegun, hfailures, hconns⟩ :=
    counts_of_events s s' a key history
  have hpaid := ha.paid key
  rw [hbegun, hfailures, hconns]
  simp only [List.length_append]
  -- a call that moves changes its own share of the sum
  have hmoved : ∀ {t : Nat} {call : Option (Connect K C)},
      t < s.nextCall → s'.calls = Function.update s.calls t call →
      s'.nextCall = s.nextCall →
      s'.handshakes key + Connect.shakes key (s.calls t)
        = s.handshakes key + Connect.shakes key call := by
    intro t call hlt hcalls hnext
    rw [handshakes, hcalls, hnext]
    exact tally_update _ _ hlt call
  cases hmoves with
  | idle hidle hsame =>
      obtain ⟨h₁, h₂, h₃⟩ := hidle key
      rw [h₁, h₂, h₃, hsame key]
      simpa using hpaid
  | began t k l c hcall hnone hevents hcalls hnext =>
      have hsum := hmoved (hi.lt_next hcall) hcalls hnext
      rw [hcall] at hsum
      rw [hevents]
      by_cases hk : k = key <;>
        simp [Connect.shakes, ConnectorEvent.begun,
          ConnectorEvent.failures, ConnectorEvent.connections, hk]
          at hsum hpaid ⊢ <;>
        omega
  | failed t k l c hcall hevents hcalls hnext =>
      have hsum := hmoved (hi.lt_next hcall) hcalls hnext
      rw [hcall] at hsum
      rw [hevents]
      by_cases hk : k = key <;>
        simp [Connect.shakes, ConnectorEvent.begun,
          ConnectorEvent.failures, ConnectorEvent.connections, hk]
          at hsum hpaid ⊢ <;>
        omega
  | established t k l c hcall hevents hcalls hnext =>
      have hsum := hmoved (hi.lt_next hcall) hcalls hnext
      rw [hcall] at hsum
      rw [hevents]
      by_cases hk : k = key <;>
        simp [Connect.shakes, ConnectorEvent.begun,
          ConnectorEvent.failures, ConnectorEvent.connections, hk]
          at hsum hpaid ⊢ <;>
        omega

theorem accounted_of_recorded {protocol : Protocol}
    {r : Recorded (HttpConnector K C π δ) (ConnectorEvent K C)}
    (hr : (recorded (ε := ε) protocol).Reachable r) :
    r.state.Accounted r.history := by
  refine Machine.recorded_invariant (C := fun _ _ => True)
    (I := Accounted) ?_ ?_ hr
  · intro s hinit
    obtain ⟨now, rfl⟩ := hinit
    refine ⟨fun _ => rfl, fun _ => Nat.zero_le 1, fun _ key => ?_⟩
    rw [h2Conns, HttpConnector.new, queue_new]
    rfl
  · exact fun s history a s' hr ha _ h => ha.step hr h

end HttpConnector

-- ============================================================ the promise

open HttpConnector in
/-- Handshakes explain each other: those begun for a key failed, led to
a connection, or are under way; one at most is under way or led to a
connection without an error. So callers alone never make a second
one. -/
theorem handshakes_accounted [DecidableEq K] [DecidableEq C]
    {protocol : Protocol}
    {r : Recorded (HttpConnector K C π δ) (ConnectorEvent K C)}
    (hr : (recorded (ε := ε) protocol).Reachable r) (key : K) :
    (ConnectorEvent.begun key r.history).length
        = (ConnectorEvent.failures key r.history).length
          + (ConnectorEvent.connections key r.history).length
          + r.state.handshakes key
      ∧ (r.state.sound r.history key).length + r.state.handshakes key ≤ 1
      ∧ (ConnectorEvent.begun key r.history).length
        ≤ 1 + (ConnectorEvent.failures key r.history).length
          + ((ConnectorEvent.connections key r.history).filter
              r.state.connError).length := by
  have hreach : (machine (ε := ε) protocol).Reachable r.state := hr.forget
  have ha := accounted_of_recorded hr
  have hi := inv_of_reachable hreach
  have hpaid := ha.paid key
  have hone : (r.state.sound r.history key).length
      + r.state.handshakes key ≤ 1 := by
    obtain ⟨hle, hcall⟩ := handshakes_le_one hi key
    have hfew := ha.few key
    by_cases hpos : 0 < r.state.handshakes key
    · obtain ⟨t, l, c, hcall⟩ := hcall hpos
      obtain ⟨pool, hpool, -⟩ := served_of_reachable hreach t
        (by rw [hcall]; simp)
      have hsound := ha.pooled (by rw [hpool]; simp) key
      rw [h2Conns, hi.empty t key l c hcall] at hsound
      rw [hsound]
      simpa using hle
    · omega
  have hsplit : (ConnectorEvent.connections key r.history).length
      = ((ConnectorEvent.connections key r.history).filter
          r.state.connError).length
        + (r.state.sound r.history key).length :=
    List.length_eq_length_filter_add _
  exact ⟨hpaid, hone, by omega⟩

open HttpConnector in
/-- A handshake that fails, one that leads to a connection that breaks,
and one that is under way. -/
theorem handshakes_accounted_three :
    ∃ r : Recorded (HttpConnector Nat Nat Unit Unit)
        (ConnectorEvent Nat Nat),
      (recorded (ε := Unit) .http2).run ⟨new 0 .http2, []⟩
          [.connect 7, .transport 0 (some (1, none)), .acquired 0 true,
            .handshake 0 false, .connect 7,
            .transport 1 (some (2, none)), .acquired 1 true,
            .handshake 1 true, .connErr 2, .connect 7,
            .transport 2 (some (3, none)), .acquired 2 true] = some r
        ∧ ConnectorEvent.begun 7 r.history = [3, 2, 1]
        ∧ (ConnectorEvent.begun 7 r.history).length
          = (ConnectorEvent.failures 7 r.history).length
            + (ConnectorEvent.connections 7 r.history).length
            + r.state.handshakes 7 := by
  obtain ⟨r, hrun, hbegun⟩ :
      ∃ r : Recorded (HttpConnector Nat Nat Unit Unit)
          (ConnectorEvent Nat Nat),
        (recorded (ε := Unit) .http2).run ⟨new 0 .http2, []⟩
            [.connect 7, .transport 0 (some (1, none)), .acquired 0 true,
              .handshake 0 false, .connect 7,
              .transport 1 (some (2, none)), .acquired 1 true,
              .handshake 1 true, .connErr 2, .connect 7,
              .transport 2 (some (3, none)), .acquired 2 true] = some r
          ∧ ConnectorEvent.begun 7 r.history = [3, 2, 1] :=
    ⟨_, rfl, rfl⟩
  obtain ⟨hpaid, -, -⟩ := handshakes_accounted
    (Machine.Reachable.run (.init ⟨⟨0, rfl⟩, rfl⟩) hrun) 7
  exact ⟨r, hrun, hbegun, hpaid⟩

end MonoioTransports.Http
