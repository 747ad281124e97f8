/-
Where the connections of an `HttpConnector` come from.

# The events

A connector beside its history (Lib/History.lean): the transports dialled
for a key, the handshakes begun over them, how each ended, and what was
returned to whom. The key is that of the call; nothing in the connection
itself tells for whom it was opened.

# The invariant

What a call carries, what either pool holds under a key and what was
returned to a caller for it runs over a transport dialled for that key;
no transport is dialled twice, and none is under connections of both
kinds (`Sourced`).
-/
import MonoioTransports.Http.Proofs.Atomic
import MonoioTransports.Http.Proofs.Negotiation
import MonoioTransports.Lib.History

namespace MonoioTransports.Http

open Lib Pool

variable {K C π δ ε : Type}

-- ============================================================== the events

/-- A transport is dialled; its handshake begins, fails, or is done; a call
returns a connection. -/
inductive ConnectorEvent (K C : Type)
  | dialled (key : K) (transportConn : C)
  | began (key : K) (transportConn : C)
  | failed (key : K) (transportConn : C)
  | established (key : K) (tx : C)
  | returned (key : K) (conn : HttpConnection C)
  deriving DecidableEq

namespace ConnectorEvent

/-- The transports dialled, with the keys they were dialled for. -/
def dials (history : List (ConnectorEvent K C)) : List (K × C) :=
  history.filterMap fun
    | .dialled key c => some (key, c)
    | _ => none

theorem mem_dials {history : List (ConnectorEvent K C)} {key : K} {c : C} :
    (key, c) ∈ dials history ↔ .dialled key c ∈ history := by
  refine List.mem_filterMap.trans ⟨?_, fun h => ⟨_, h, rfl⟩⟩
  intro h
  obtain ⟨e, he, heq⟩ := h
  cases e with
  | dialled key' c' =>
      cases heq
      exact he
  | _ => cases heq

end ConnectorEvent

namespace HttpConnector

variable {s s' : HttpConnector K C π δ}

/-- The key of the call that an action starts or resumes. -/
def serves (s : HttpConnector K C π δ) :
    ConnectorAction K C π δ ε → Option K
  | .connect key => some key
  | .transport t _ => (s.calls t).map Connect.key
  | .acquired t _ => (s.calls t).map Connect.key
  | .handshake t _ => (s.calls t).map Connect.key
  | _ => none

/-- What a step that leads to `s'` does on the way, but for returning. -/
def makes (s : HttpConnector K C π δ) (a : ConnectorAction K C π δ ε)
    (s' : HttpConnector K C π δ) : List (ConnectorEvent K C) :=
  match a with
  | .transport t (some (c, _)) =>
      match s.calls t with
      | some (.transport key) => [.dialled key c]
      | _ => []
  | .acquired t true =>
      match s'.calls t with
      | some (.handshake key _ c) => [.began key c]
      | _ => []
  | .handshake t ok =>
      match s.calls t with
      | some (.handshake key _ c) =>
          [if ok then .established key c else .failed key c]
      | _ => []
  | .cancel t =>
      match s.calls t with
      | some (.handshake key _ c) => [.failed key c]
      | _ => []
  | _ => []

/-- The events of a step that leads to `s'`. -/
def events (s : HttpConnector K C π δ) (a : ConnectorAction K C π δ ε)
    (s' : HttpConnector K C π δ) : List (ConnectorEvent K C) :=
  match s.serves a, s'.returned with
  | some key, some conn => .returned key conn :: s.makes a s'
  | _, _ => s.makes a s'

/-- A connector and its history. -/
abbrev recorded [DecidableEq K] [DecidableEq C] (protocol : Protocol) :
    Machine (Recorded (HttpConnector K C π δ) (ConnectorEvent K C))
      (ConnectorAction K C π δ ε) :=
  (machine protocol).recording events

theorem makes_subset (a : ConnectorAction K C π δ ε) :
    s.makes a s' ⊆ s.events a s' := by
  unfold events
  split
  next => exact List.subset_cons_self ..
  next => exact fun _ h => h

/-- What is written down as returned was returned. -/
theorem mem_events_returned {a : ConnectorAction K C π δ ε} {key : K}
    {conn : HttpConnection C} (h : .returned key conn ∈ s.events a s') :
    s.serves a = some key ∧ s'.returned = some conn := by
  have hmade : .returned key conn ∉ s.makes a s' := by
    unfold makes
    split
    · split <;> simp
    · split <;> simp
    · split
      · split <;> simp
      · simp
    · split <;> simp
    · simp
  unfold events at h
  split at h
  next key' conn' hserves hret =>
    rcases List.mem_cons.mp h with heq | h
    · cases heq
      exact ⟨hserves, hret⟩
    · exact absurd h hmade
  next => exact absurd h hmade

/-- The rest of what is written down was made. -/
theorem mem_makes {a : ConnectorAction K C π δ ε} {e : ConnectorEvent K C}
    (h : e ∈ s.events a s') (hne : ∀ key conn, e ≠ .returned key conn) :
    e ∈ s.makes a s' := by
  unfold events at h
  split at h
  next => exact (List.mem_cons.mp h).resolve_left (hne _ _)
  next => exact h

/-- What is written down as dialled was awaited by a call for the
key. -/
theorem mem_events_dialled {a : ConnectorAction K C π δ ε} {key : K}
    {c : C} (h : .dialled key c ∈ s.events a s') :
    ∃ t alpn, a = .transport t (some (c, alpn))
      ∧ s.calls t = some (.transport key) := by
  have hmade := mem_makes h (by simp)
  unfold makes at hmade
  split at hmade
  next t c' alpn =>
    split at hmade
    next key' hcall =>
      cases List.mem_singleton.mp hmade
      exact ⟨t, alpn, rfl, hcall⟩
    next => cases hmade
  next => split at hmade <;> simp at hmade
  next ok =>
    split at hmade
    · cases ok <;> simp at hmade
    · simp at hmade
  next => split at hmade <;> simp at hmade
  next => cases hmade

/-- What is written down as established was awaited by a call at its
handshake. -/
theorem mem_events_established {a : ConnectorAction K C π δ ε} {key : K}
    {tx : C} (h : .established key tx ∈ s.events a s') :
    ∃ t l, a = .handshake t true
      ∧ s.calls t = some (.handshake key l tx) := by
  have hmade := mem_makes h (by simp)
  unfold makes at hmade
  split at hmade
  next => split at hmade <;> simp at hmade
  next => split at hmade <;> simp at hmade
  next t ok =>
    split at hmade
    next key' l c hcall =>
      cases ok with
      | true =>
          cases List.mem_singleton.mp hmade
          exact ⟨t, l, rfl, hcall⟩
      | false => simp at hmade
    next => cases hmade
  next => split at hmade <;> simp at hmade
  next => cases hmade

/-- A connection returned is written down for the key asked for. -/
theorem returned_mem_events {a : ConnectorAction K C π δ ε} {key : K}
    {conn : HttpConnection C} (hserves : s.serves a = some key)
    (hret : s'.returned = some conn) :
    .returned key conn ∈ s.events a s' := by
  unfold events
  rw [hserves, hret]
  exact List.mem_cons_self

-- ============================================================ transports

variable [DecidableEq K] [DecidableEq C]

/-- The transports used up are those dialled. -/
theorem used_of_step {a : ConnectorAction K C π δ ε}
    (h : s.step a = some s') :
    s'.used = (ConnectorEvent.dials (s.events a s')).map Prod.snd
      ++ s.used := by
  have hdials : ConnectorEvent.dials (s.events a s')
      = ConnectorEvent.dials (s.makes a s') := by
    unfold events
    split <;> rfl
  rw [hdials]
  by_cases hdial : ∃ t c alpn, a = .transport t (some (c, alpn))
  · obtain ⟨t, c, alpn, rfl⟩ := hdial
    have h : s.transport t (some (c, alpn)) = some s' := h
    unfold transport at h
    split at h
    next heq => cases heq
    next key c' alpn' hcall heq =>
      cases heq
      rw [show s.makes (.transport t (some (c, alpn))) s'
        = [.dialled key c] by simp only [makes, hcall]]
      split at h
      next => cases h
      next =>
        dsimp only at h
        split at h
        next =>
          cases h
          rfl
        next =>
          obtain ⟨h1, -, rfl⟩ := Option.map_eq_some_iff.mp h
          rfl
    next => cases h
  · have hnone : ConnectorEvent.dials (s.makes a s') = [] := by
      unfold makes
      split
      next t c alpn => exact absurd ⟨t, c, alpn, rfl⟩ hdial
      next => split <;> rfl
      next ok =>
        split
        · cases ok <;> rfl
        · rfl
      next => split <;> rfl
      next => rfl
    rw [hnone]
    cases transition_step h with
    | toLock t key c alpn => exact absurd ⟨t, c, alpn, rfl⟩ hdial
    | linked t key c alpn => exact absurd ⟨t, c, alpn, rfl⟩ hdial
    | _ => rfl

/-- A call carries what it carried for its key, or a new transport
dialled for it. -/
theorem carries_of_step {a : ConnectorAction K C π δ ε}
    (h : s.step a = some s') {t : Nat} {call : Connect K C} {c : C}
    (hcall : s'.calls t = some call)
    (hc : Connect.carries (some call) = some c) :
    (∃ call', s.calls t = some call' ∧ Connect.carries (some call') = some c
        ∧ call'.key = call.key)
      ∨ .dialled call.key c ∈ s.events a s' ∧ c ∉ s.used := by
  have hsame : s.calls t = some call →
      ∃ call', s.calls t = some call'
        ∧ Connect.carries (some call') = some c ∧ call'.key = call.key :=
    fun hold => ⟨call, hold, hc, rfl⟩
  have hother : ∀ {t₀ : Nat} {next : Option (Connect K C)},
      next ≠ some call → Function.update s.calls t₀ next t = some call →
      ∃ call', s.calls t = some call'
        ∧ Connect.carries (some call') = some c ∧ call'.key = call.key :=
    fun hne hup => hsame (LockTable.of_update_eq hne hup).2
  cases transition_step h with
  | connErr | setMode | h1 | dropped => exact Or.inl (hsame hcall)
  | hit2 | hit1 | leave | linked | hitLocked | unlock | established =>
      exact Or.inl (hother (by simp) hcall)
  | miss key =>
      refine Or.inl (hother ?_ hcall)
      intro heq
      cases heq
      cases hc
  | toLock t₀ key c₀ alpn hold hnew =>
      by_cases ht : t = t₀
      · simp only [goTo, ht, Function.update_self] at hcall
        cases hcall
        cases hc
        refine Or.inr ⟨makes_subset _ ?_, hnew⟩
        simp only [makes, hold]
        exact List.mem_singleton_self _
      · simp only [goTo, Function.update_of_ne ht] at hcall
        exact Or.inl (hsame hcall)
  | toHandshake t₀ key l c₀ tbl hold =>
      by_cases ht : t = t₀
      · simp only [goTo, ht, Function.update_self] at hcall
        cases hcall
        cases hc
        exact Or.inl ⟨.acquire key l _, ht ▸ hold, rfl, rfl⟩
      · simp only [goTo, Function.update_of_ne ht] at hcall
        exact Or.inl (hsame hcall)

/-- The pool gains a connection only at the end of its handshake. -/
theorem h2Pool_of_step {a : ConnectorAction K C π δ ε}
    (h : s.step a = some s') {k : K} {e : Idle (Http2Connection C)}
    (he : e ∈ s'.h2Pool.queue k) :
    e ∈ s.h2Pool.queue k
      ∨ ∃ t l, s.calls t = some (.handshake k l e.conn.tx)
        ∧ e.conn.tx ∈ s'.opened := by
  have hsub : ∀ {key : K}, e ∈ (s.retained key).queue k →
      e ∈ s.h2Pool.queue k := fun hmem =>
    (retained_sublist s _ k).subset hmem
  cases transition_step h with
  | leave | toLock | linked | unlock | connErr | setMode | h1 =>
      exact Or.inl he
  | hit2 | hitLocked | toHandshake => exact Or.inl (hsub he)
  | hit1 key h1 p pool hpool | miss key h1 pool hpool =>
      exact Or.inl ((sublist_of_look hpool k).subset he)
  | established t key l c hcall =>
      have he : e ∈ (s.h2Pool.put s.h1.world.now key
        (Http2Connection.new c)).pool.queue k := he
      rcases mem_insertIdle he with he | ⟨hk, hconn⟩
      · exact Or.inl he
      · have htx : e.conn.tx = c := by rw [hconn]; rfl
        rw [htx, hk]
        exact Or.inr ⟨t, l, hcall, List.mem_cons_self⟩
  | dropped => simp at he

/-- A connection opened was carried by a call. -/
theorem opened_of_step {a : ConnectorAction K C π δ ε}
    (h : s.step a = some s') :
    s.opened ⊆ s'.opened ∧ ∀ c ∈ s'.opened, c ∈ s.opened
      ∨ ∃ t, Connect.carries (s.calls t) = some c := by
  cases transition_step h with
  | established t key l c hcall =>
      refine ⟨List.subset_cons_self .., fun d hd => ?_⟩
      rcases List.mem_cons.mp hd with rfl | hd
      · refine Or.inr ⟨t, ?_⟩
        rw [hcall]
        rfl
      · exact Or.inl hd
  | _ => exact ⟨List.Subset.refl _, fun _ hd => Or.inl hd⟩

/-- What enters the HTTP/1.1 pool was just dialled, and no call carries
it. -/
theorem entered_of_step {a : ConnectorAction K C π δ ε}
    (h : s.step a = some s') :
    s.h1.world.entered ⊆ s'.h1.world.entered
      ∧ ∀ k c, (k, c) ∈ s'.h1.world.entered →
        (k, c) ∈ s.h1.world.entered
          ∨ .dialled k c ∈ s.events a s' ∧ c ∉ s.used
            ∧ s'.opened = s.opened
            ∧ ∀ t, Connect.carries (s'.calls t) = some c →
              Connect.carries (s.calls t) = some c := by
  have hsame : ∀ {h1 : H1World K C π δ},
      h1.world.entered = s.h1.world.entered →
      s.h1.world.entered ⊆ h1.world.entered
        ∧ ∀ k c, (k, c) ∈ h1.world.entered →
          (k, c) ∈ s.h1.world.entered := by
    intro h1 heq
    rw [heq]
    exact ⟨List.Subset.refl _, fun _ _ h => h⟩
  cases transition_step h with
  | hit2 | leave | toLock | hitLocked | toHandshake | unlock | established
    | connErr | setMode =>
      exact ⟨List.Subset.refl _, fun _ _ h => Or.inl h⟩
  | hit1 key h1 p pool hpool hmode hget =>
      obtain ⟨hsub, hold⟩ := hsame (H1World.entered_get hget)
      exact ⟨hsub, fun k c hc => Or.inl (hold k c hc)⟩
  | miss key h1 pool hpool hget =>
      have heq : h1.world.entered = s.h1.world.entered := by
        rcases hget with rfl | hget
        · rfl
        · exact H1World.entered_get hget
      obtain ⟨hsub, hold⟩ := hsame heq
      exact ⟨hsub, fun k c hc => Or.inl (hold k c hc)⟩
  | linked t key c alpn h1 hcall hnew hh1 hlink =>
      have heq := H1World.entered_link hlink
      refine ⟨fun x hx => ?_, fun k d hd => ?_⟩
      · show x ∈ h1.world.entered
        rw [heq]
        exact List.mem_cons_of_mem _ hx
      · have hd : (k, d) ∈ h1.world.entered := hd
        rw [heq] at hd
        rcases List.mem_cons.mp hd with hd | hd
        · cases hd
          refine Or.inr ⟨makes_subset _ ?_, hnew, rfl, fun t' ht' =>
            carries_of_update (by simp [Connect.carries]) ht'⟩
          simp only [makes, hcall]
          exact List.mem_singleton_self _
        · exact Or.inl hd
  | h1 b h1 hcallers hs =>
      obtain ⟨hsub, hold⟩ := hsame (entered_of_callers hcallers hs)
      exact ⟨hsub, fun k c hc => Or.inl (hold k c hc)⟩
  | dropped h1 hs =>
      have heq : h1.world.entered = s.h1.world.entered := by
        obtain ⟨-, w, hw, rfl⟩ := H1World.pool_eq_some hs
        obtain ⟨pool, -, rfl⟩ := World.dropPool_eq_some hw
        rfl
      obtain ⟨hsub, hold⟩ := hsame heq
      exact ⟨hsub, fun k c hc => Or.inl (hold k c hc)⟩

/-- An HTTP/1.1 connection returned entered its pool under the key. -/
theorem http1_of_step {protocol : Protocol}
    (hr : (machine (ε := ε) protocol).Reachable s)
    {a : ConnectorAction K C π δ ε} (h : s.step a = some s') {key : K}
    {hd : Nat} {c : C} (hserves : s.serves a = some key)
    (hret : s'.returned = some (.http1 hd c)) :
    (key, c) ∈ s'.h1.world.entered := by
  cases transition_step h with
  | leave | toLock | toHandshake | unlock | miss =>
      simp [goTo] at hret
  | connErr | setMode | h1 | dropped => simp at hret
  | hit2 | hitLocked | established =>
      simp [finish] at hret
  | hit1 key' h1 p pool hpool hmode hget =>
      cases hserves
      cases hret
      show (key, p.value) ∈ h1.world.entered
      rw [H1World.entered_get hget]
      obtain ⟨⟨w, r⟩, hgot, hmoved⟩ := Option.map_eq_some_iff.mp hget
      cases hmoved
      obtain ⟨pool', hg⟩ := World.get_eq_some hgot
      obtain ⟨l, hl, t⟩ := exists_custody (world_reachable hr)
      exact t.entered_of_idle (Custody.orderly_of_reachable hl) hg.rested
  | linked t key' c' alpn h1 hcall hnew hh1 hlink =>
      have hkey : key' = key := by
        simpa [serves, hcall, Connect.key] using hserves
      subst hkey
      cases hret
      show (key', c) ∈ h1.world.entered
      rw [H1World.entered_link hlink]
      exact List.mem_cons_self

/-- An HTTP/2 connection returned stood in the pool under the key, or
its handshake was the call's own. -/
theorem http2_of_step {a : ConnectorAction K C π δ ε}
    (h : s.step a = some s') {key : K} {conn : Http2Connection C}
    (hserves : s.serves a = some key)
    (hret : s'.returned = some (.http2 conn)) :
    (∃ e ∈ s.h2Pool.queue key, e.conn = conn)
      ∨ ∃ t l, s.calls t = some (.handshake key l conn.tx)
        ∧ conn.tx ∈ s'.opened := by
  cases transition_step h with
  | leave | toLock | toHandshake | unlock | miss =>
      simp [goTo] at hret
  | connErr | setMode | h1 | dropped => simp at hret
  | hit1 | linked => simp [finish] at hret
  | hit2 key' conn' hmode hget =>
      cases hserves
      cases hret
      exact Or.inl (tryGet_some hget).1
  | hitLocked t key' l c tbl conn' hcall hlock hget =>
      have hkey : key' = key := by
        simpa [serves, hcall, Connect.key] using hserves
      subst hkey
      cases hret
      exact Or.inl (tryGet_some hget).1
  | established t key' l c hcall =>
      have hkey : key' = key := by
        simpa [serves, hcall, Connect.key] using hserves
      subst hkey
      cases hret
      exact Or.inr ⟨t, l, hcall, List.mem_cons_self⟩

-- ========================================================= the invariant

/-- The transport under whatever is for a key was dialled for it, and
none is under connections of both kinds. -/
structure Sourced (s : HttpConnector K C π δ)
    (history : List (ConnectorEvent K C)) : Prop where
  dialled : (ConnectorEvent.dials history).map Prod.snd = s.used
  once : s.used.Nodup
  calls : ∀ t call c, s.calls t = some call →
    Connect.carries (some call) = some c → .dialled call.key c ∈ history
  h2 : ∀ k, ∀ e ∈ s.h2Pool.queue k,
    .dialled k e.conn.tx ∈ history ∧ e.conn.tx ∈ s.opened
  h1 : ∀ k c, (k, c) ∈ s.h1.world.entered →
    .dialled k c ∈ history ∧ c ∉ s.opened
      ∧ ∀ t, Connect.carries (s.calls t) ≠ some c
  http1 : ∀ key h c, .returned key (.http1 h c) ∈ history →
    (key, c) ∈ s.h1.world.entered
  http2 : ∀ key conn, .returned key (.http2 conn) ∈ history →
    .dialled key conn.tx ∈ history ∧ conn.tx ∈ s.opened

theorem Sourced.step {history : List (ConnectorEvent K C)}
    (hs : s.Sourced history) {protocol : Protocol}
    (hr : (machine (ε := ε) protocol).Reachable s)
    {a : ConnectorAction K C π δ ε} (h : s.step a = some s') :
    s'.Sourced (s.events a s' ++ history) := by
  have hi := inv_of_reachable hr
  have ht := typed_of_reachable hr
  have hold : ∀ {e : ConnectorEvent K C}, e ∈ history →
      e ∈ s.events a s' ++ history :=
    fun he => List.mem_append_right _ he
  obtain ⟨hopened, hcame⟩ := opened_of_step h
  obtain ⟨hentered, henter⟩ := entered_of_step h
  -- the transport of a handshake was dialled for the key of the call
  have hheld : ∀ {t l : Nat} {k : K} {c : C},
      s.calls t = some (.handshake k l c) → .dialled k c ∈ history :=
    fun hcall => hs.calls _ _ _ hcall rfl
  refine ⟨?_, ?_, ?_, ?_, ?_, ?_, ?_⟩
  · rw [used_of_step h, ConnectorEvent.dials, List.filterMap_append,
      List.map_append]
    exact congrArg _ hs.dialled
  · cases transition_step h with
    | toLock t key c alpn hcall hnew =>
        exact List.nodup_cons.mpr ⟨hnew, hs.once⟩
    | linked t key c alpn h1 hcall hnew =>
        exact List.nodup_cons.mpr ⟨hnew, hs.once⟩
    | _ => exact hs.once
  · intro t call c hcall hc
    rcases carries_of_step h hcall hc with
      ⟨call', hcall', hc', hkey⟩ | ⟨hnew, -⟩
    · rw [← hkey]
      exact hold (hs.calls t call' c hcall' hc')
    · exact List.mem_append_left _ hnew
  · intro k e he
    rcases h2Pool_of_step h he with he | ⟨t, l, hcall, hopen⟩
    · obtain ⟨hdial, hopen⟩ := hs.h2 k e he
      exact ⟨hold hdial, hopened hopen⟩
    · exact ⟨hold (hheld hcall), hopen⟩
  · intro k c hc
    rcases henter k c hc with hc | ⟨hdial, hnew, hsame, hcarry⟩
    · obtain ⟨hdial, hshut, hfree⟩ := hs.h1 k c hc
      refine ⟨hold hdial, fun hopen => ?_, fun t hcarry => ?_⟩
      · rcases hcame c hopen with hopen | ⟨t, hcarry⟩
        · exact hshut hopen
        · exact hfree t hcarry
      · cases hcall : s'.calls t with
        | none =>
            rw [hcall] at hcarry
            cases hcarry
        | some call =>
            rw [hcall] at hcarry
            rcases carries_of_step h hcall hcarry with
              ⟨call', hcall', hc', -⟩ | ⟨-, hnew⟩
            · rw [← hcall'] at hc'
              exact hfree t hc'
            · exact hnew (ht.used_h1 k c hc)
    · refine ⟨List.mem_append_left _ hdial, fun hopen => ?_,
        fun t hc' => ?_⟩
      · rw [hsame] at hopen
        exact hnew (hi.carried.opened_used c hopen)
      · exact hnew (hi.carried.mem_used t c (hcarry t hc'))
  · intro key hd c hret
    rcases List.mem_append.mp hret with hret | hret
    · obtain ⟨hserves, hret⟩ := mem_events_returned hret
      exact http1_of_step hr h hserves hret
    · exact hentered (hs.http1 key hd c hret)
  · intro key conn hret
    rcases List.mem_append.mp hret with hret | hret
    · obtain ⟨hserves, hret⟩ := mem_events_returned hret
      rcases http2_of_step h hserves hret with
        ⟨e, he, rfl⟩ | ⟨t, l, hcall, hopen⟩
      · obtain ⟨hdial, hopen⟩ := hs.h2 key e he
        exact ⟨hold hdial, hopened hopen⟩
      · exact ⟨hold (hheld hcall), hopen⟩
    · obtain ⟨hdial, hopen⟩ := hs.http2 key conn hret
      exact ⟨hold hdial, hopened hopen⟩

theorem sourced_of_recorded {protocol : Protocol}
    {r : Recorded (HttpConnector K C π δ) (ConnectorEvent K C)}
    (hr : (recorded (ε := ε) protocol).Reachable r) :
    r.state.Sourced r.history := by
  refine Machine.recorded_invariant (C := fun _ _ => True)
    (I := Sourced) ?_ ?_ hr
  · intro s hinit
    obtain ⟨now, rfl⟩ := hinit
    have hq : ∀ k e, e ∉ (HttpConnector.new now protocol
        : HttpConnector K C π δ).h2Pool.queue k := by
      intro k e
      simp [HttpConnector.new]
    exact ⟨rfl, List.nodup_nil, fun _ _ _ h => (by cases h),
      fun k e he => absurd he (hq k e), fun _ _ h => (by cases h),
      fun _ _ _ h => (by cases h), fun _ _ h => (by cases h)⟩
  · exact fun s history a s' hr hs _ h => hs.step hr h

omit [DecidableEq C] in
/-- A transport was dialled for one key. -/
theorem Sourced.dialled_unique {history : List (ConnectorEvent K C)}
    (hs : s.Sourced history) {k k' : K} {c : C}
    (hk : .dialled k c ∈ history) (hk' : .dialled k' c ∈ history) :
    k' = k := by
  have hnodup := hs.once
  rw [← hs.dialled] at hnodup
  have heq := List.inj_on_of_nodup_map hnodup
    (ConnectorEvent.mem_dials.mpr hk') (ConnectorEvent.mem_dials.mpr hk)
    rfl
  exact congrArg Prod.fst heq

omit [DecidableEq C] in
/-- The transport under what was returned was dialled for the key. -/
theorem Sourced.dialled_of_returned {history : List (ConnectorEvent K C)}
    (hs : s.Sourced history) {k : K} {conn : HttpConnection C}
    (h : .returned k conn ∈ history) :
    .dialled k conn.transport ∈ history := by
  cases conn with
  | http1 hd c => exact (hs.h1 k c (hs.http1 k hd c h)).1
  | http2 conn => exact (hs.http2 k conn h).1

/-- The handle of an HTTP/1.1 connection returned owns it. -/
theorem owns_of_http1 {a : ConnectorAction K C π δ ε}
    (h : s.step a = some s') {hd : Nat} {c : C}
    (hret : s'.returned = some (.http1 hd c)) :
    s'.h1.world.Owns hd c := by
  cases transition_step h with
  | leave | toLock | toHandshake | unlock | miss =>
      simp [goTo] at hret
  | connErr | setMode | h1 | dropped => simp at hret
  | hit2 | hitLocked | established =>
      simp [finish] at hret
  | hit1 key' h1 p pool hpool hmode hget =>
      cases hret
      obtain ⟨⟨w, r⟩, hgot, hmoved⟩ := Option.map_eq_some_iff.mp hget
      cases hmoved
      obtain ⟨pool', hg⟩ := World.get_eq_some hgot
      refine ⟨p, ?_, rfl⟩
      show w.handles s.h1.world.nextHandle = some p
      rw [hg.handles]
      exact Function.update_self ..
  | linked t key' c' alpn h1 hcall hnew hh1 hlink =>
      cases hret
      obtain ⟨w, hw, rfl⟩ := Option.map_eq_some_iff.mp hlink
      obtain ⟨-, rfl⟩ := World.link_eq_some hw
      exact ⟨_, Function.update_self .., rfl⟩

end HttpConnector

-- ============================================================ the promise

open HttpConnector in
/-- What `connect` returns to a caller for a key runs over a transport
dialled for that key and no other. Whoever was returned a connection
over it before asked for the same key and got the same kind; and a
HTTP/1.1 connection is nowhere but in the handle returned. -/
theorem returned_for_their_key [DecidableEq K] [DecidableEq C]
    {protocol : Protocol}
    {r : Recorded (HttpConnector K C π δ) (ConnectorEvent K C)}
    (hr : (recorded (ε := ε) protocol).Reachable r)
    {a : ConnectorAction K C π δ ε} {s' : HttpConnector K C π δ}
    (h : r.state.step a = some s') {key : K} {conn : HttpConnection C}
    (hserves : r.state.serves a = some key)
    (hret : s'.returned = some conn) :
    (∀ k, .dialled k conn.transport ∈ r.state.events a s' ++ r.history
        ↔ k = key)
      ∧ (∀ k conn', .returned k conn' ∈ r.history →
        conn'.transport = conn.transport →
        k = key ∧ ((∃ c, conn' = .http2 c) ↔ ∃ c, conn = .http2 c))
      ∧ ∀ hd c, conn = .http1 hd c → s'.h1.world.Sole key hd c := by
  have hreach : (machine (ε := ε) protocol).Reachable r.state := hr.forget
  have hs := (sourced_of_recorded hr).step hreach h
  have hnow : .returned key conn ∈ r.state.events a s' ++ r.history :=
    List.mem_append_left _ (returned_mem_events hserves hret)
  have hdial := hs.dialled_of_returned hnow
  refine ⟨fun k => ⟨fun hk => hs.dialled_unique hdial hk, fun hk => ?_⟩,
    ?_, ?_⟩
  · rw [hk]
    exact hdial
  · intro k conn' hbefore htx
    have hbefore : .returned k conn' ∈ r.state.events a s' ++ r.history :=
      List.mem_append_right _ hbefore
    refine ⟨?_, ?_⟩
    · have hk := hs.dialled_of_returned hbefore
      rw [htx] at hk
      exact hs.dialled_unique hdial hk
    · -- one kind is in the pool for good, the other was opened
      cases conn' with
      | http1 hd' c' =>
          cases conn with
          | http1 hd c => simp
          | http2 conn =>
              have hshut := (hs.h1 k c' (hs.http1 k hd' c' hbefore)).2.1
              have hopen := (hs.http2 key conn hnow).2
              rw [show c' = conn.tx from htx] at hshut
              exact absurd hopen hshut
      | http2 conn' =>
          cases conn with
          | http1 hd c =>
              have hshut := (hs.h1 key c (hs.http1 key hd c hnow)).2.1
              have hopen := (hs.http2 k conn' hbefore).2
              rw [show conn'.tx = c from htx] at hopen
              exact absurd hopen hshut
          | http2 conn => simp
  · intro hd c hconn
    subst hconn
    obtain ⟨l, hl, t⟩ :=
      exists_custody (world_reachable (hreach.step trivial h))
    exact t.sole (Custody.orderly_of_reachable hl) (owns_of_http1 h hret)
      (hs.http1 key hd c hnow)

open HttpConnector in
/-- Calls for two keys: the second call for the first key gets the
connection opened for it. -/
theorem returned_for_their_key_two :
    ∃ (r : Recorded (HttpConnector Nat Nat Unit Unit)
          (ConnectorEvent Nat Nat)) (s' : HttpConnector Nat Nat Unit Unit),
      (recorded (ε := Unit) .auto).run ⟨new 0 .auto, []⟩
          [.connect 7, .transport 0 (some (1, some h2Bytes)),
            .acquired 0 true, .handshake 0 true, .connect 8,
            .transport 1 (some (2, none))] = some r
        ∧ step (ε := Unit) r.state (.connect 7) = some s'
        ∧ s'.returned = some (.http2 ⟨1⟩)
        ∧ ∀ k, .dialled k 1
            ∈ events (ε := Unit) r.state (.connect 7) s' ++ r.history
          ↔ k = 7 := by
  obtain ⟨r, s', hrun, hs, hserves, hret⟩ :
      ∃ (r : Recorded (HttpConnector Nat Nat Unit Unit)
          (ConnectorEvent Nat Nat)) (s' : HttpConnector Nat Nat Unit Unit),
        (recorded (ε := Unit) .auto).run ⟨new 0 .auto, []⟩
            [.connect 7, .transport 0 (some (1, some h2Bytes)),
              .acquired 0 true, .handshake 0 true, .connect 8,
              .transport 1 (some (2, none))] = some r
          ∧ step (ε := Unit) r.state (.connect 7) = some s'
          ∧ serves (ε := Unit) r.state (.connect 7) = some 7
          ∧ s'.returned = some (.http2 ⟨1⟩) := ⟨_, _, rfl, rfl, rfl, rfl⟩
  obtain ⟨hfor, -, -⟩ := returned_for_their_key
    (Machine.Reachable.run (.init ⟨⟨0, rfl⟩, rfl⟩) hrun) hs hserves hret
  exact ⟨r, s', hrun, hs, hret, hfor⟩

end MonoioTransports.Http
