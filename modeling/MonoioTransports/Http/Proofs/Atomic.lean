/-
A `connect` that fails, or is dropped at one of its awaits, leaves the
pools as they were.

# The statement

An `Episode` (Lib/Machine.lean) is one call from its beginning to its
end, with nobody else taking a step; connections may break meanwhile,
and time passes. `Kept` compares the queues before and after: nothing
came in, and what is missing was of the call's key and is dead by now.
Wherever a call stands, to fail there or to be dropped is such an end
(`episode_of_fails`).

# What a call holds

Between two awaits a call may have taken things out of the pools: dead
connections, for good, and in `HyperH1Connector` one connection it
awaits the `ready` of. The invariant of an episode says where they are.
When the call ends there, the destructor of its handle puts the
connection back, and evicts none: with the connection out, the queue is
one short of its limit (`length_queue_le`), unless others put more into
it than the limit.
-/
import MonoioTransports.Http.Proofs.Abandoned
import MonoioTransports.Http.Proofs.HyperH1Transition
import MonoioTransports.Http.Proofs.Multiplex
import MonoioTransports.Http.Proofs.SingleFlight

namespace MonoioTransports.Http

open Lib Pool

-- ====================================================== before and after

/-- Nothing came into the queues, and what is missing was under the key
and is dead. -/
structure Kept {K C : Type} (key : K) (dead : C → Bool)
    (before after : K → List C) : Prop where
  sub : ∀ k, (after k).Subperm (before k)
  lost : ∀ k, ∀ c ∈ before k,
    c ∈ after k ∨ (k = key ∧ dead c = true)

section Kept

variable {K C : Type} {key : K} {dead dead' : C → Bool}
  {before between after : K → List C}

theorem Kept.refl : Kept key dead before before where
  sub := fun _ => List.Subperm.refl _
  lost := fun _ _ hc => Or.inl hc

/-- What is dead stays dead. -/
theorem Kept.mono (h : Kept key dead before after)
    (hdead : ∀ c, dead c = true → dead' c = true) :
    Kept key dead' before after where
  sub := h.sub
  lost := fun k c hc => (h.lost k c hc).imp_right fun hl =>
    ⟨hl.1, hdead c hl.2⟩

/-- One more is dead. -/
theorem Kept.update [DecidableEq C] (h : Kept key dead before after)
    (c : C) : Kept key (Function.update dead c true) before after := by
  refine h.mono fun d hd => ?_
  by_cases hdc : d = c
  · rw [hdc]
    exact Function.update_self ..
  · exact (Function.update_of_ne hdc ..).trans hd

theorem Kept.trans (h : Kept key dead before between)
    (h' : Kept key dead between after) : Kept key dead before after where
  sub := fun k => (h'.sub k).trans (h.sub k)
  lost := by
    intro k c hc
    rcases h.lost k c hc with hc | hlost
    · exact h'.lost k c hc
    · exact Or.inr hlost

/-- Only the queue of the key changes. -/
theorem Kept.of_key [DecidableEq K]
    (hne : ∀ k, k ≠ key → after k = before k)
    (hsub : (after key).Subperm (before key))
    (hlost : ∀ c ∈ before key, c ∈ after key ∨ dead c = true) :
    Kept key dead before after where
  sub := by
    intro k
    by_cases hk : k = key
    · rw [hk]
      exact hsub
    · rw [hne k hk]
  lost := by
    intro k c hc
    by_cases hk : k = key
    · rw [hk] at hc ⊢
      exact (hlost c hc).imp_right fun hd => ⟨rfl, hd⟩
    · rw [hne k hk]
      exact Or.inl hc

/-- Dropping the dead from the queue of the key. -/
theorem Kept.filter [DecidableEq K]
    (hafter : ∀ k, after k = if k = key then
      (before key).filter fun c => !dead c else before k) :
    Kept key dead before after := by
  have hkey := (hafter key).trans (if_pos rfl)
  refine Kept.of_key (fun k hk => (hafter k).trans (if_neg hk)) ?_ ?_
  · rw [hkey]
    exact List.filter_sublist.subperm
  · intro c hc
    rw [hkey]
    cases hd : dead c with
    | true => exact Or.inr rfl
    | false =>
        refine Or.inl (List.mem_filter.mpr ⟨hc, ?_⟩)
        rw [hd]
        rfl

end Kept

-- ============================================================== one call

section Call

variable {γ ρ κ : Type} {keyOf : γ → κ} {key : κ}
  {calls : Nat → Option γ} {t : Nat} {call : γ}

/-- A call for the key that stands where it stood, or is over, is for
the key. -/
theorem key_of_gone {t' : Nat}
    (h : ∀ call, calls t = some call → keyOf call = key) :
    ∀ call, Function.update calls t' none t = some call →
      keyOf call = key := by
  intro call hcall
  have hne : (none : Option γ) ≠ some call := (Option.some_ne_none _).symm
  exact h call (LockTable.of_update_eq hne hcall).2

/-- So is one that goes to an await for the key. -/
theorem key_of_next (h : keyOf call = key) :
    ∀ call', Function.update calls t (some call) t = some call' →
      keyOf call' = key := by
  intro call' hcall
  rw [Function.update_self, Option.some.injEq] at hcall
  rw [← hcall]
  exact h

/-- A call that returns something has not ended without. -/
theorem not_finished {x : ρ}
    (hret : Function.update calls t none t ≠ none ∨ some x = none) :
    False := by
  rcases hret with hcall | hret
  · exact hcall (Function.update_self ..)
  · cases hret

end Call

-- ========================================================= HttpConnector

section HttpConnector

variable {K C π δ ε : Type}

/-- The key a call is for. -/
def Connect.key : Connect K C → K
  | .transport key => key
  | .acquire key _ _ => key
  | .handshake key _ _ => key

/-- A step of this call; or connections break, or time passes. -/
def ConnectorAction.own (t : Nat) : ConnectorAction K C π δ ε → Prop
  | .transport t' _ => t' = t
  | .acquired t' _ => t' = t
  | .handshake t' _ => t' = t
  | .cancel t' => t' = t
  | .connErr _ => True
  | .h1 (.pool (.tick _)) => True
  | _ => False

/-- A step at which this call fails, or is dropped. -/
def ConnectorAction.fails (t : Nat) : ConnectorAction K C π δ ε → Prop
  | .transport t' none => t' = t
  | .acquired t' false => t' = t
  | .handshake t' false => t' = t
  | .cancel t' => t' = t
  | _ => False

/-- It is a step of this call. -/
theorem ConnectorAction.own_of_fails {t : Nat}
    {a : ConnectorAction K C π δ ε} (ha : a.fails t) : a.own t := by
  unfold ConnectorAction.fails at ha
  split at ha
  next => exact ha
  next => exact ha
  next => exact ha
  next => exact ha
  next => exact ha.elim

variable [DecidableEq K]

/-- The connections in the HTTP/2 queue of a key. -/
def HttpConnector.h2Conns (s : HttpConnector K C π δ) (k : K) : List C :=
  (s.h2Pool.queue k).map fun e => e.conn.tx

variable [DecidableEq C] {s s₁ s₂ s' : HttpConnector K C π δ} {key : K}
  {t : Nat}

omit [DecidableEq C] in
/-- `try_get!` drops what has an error. -/
theorem HttpConnector.kept_retained (s : HttpConnector K C π δ)
    (key : K) : Kept key s.connError s.h2Conns fun k =>
      ((s.retained key).queue k).map fun e => e.conn.tx := by
  refine Kept.filter fun k => ?_
  rw [(HttpConnector.tryGet_spec s key).2 k]
  split
  next => rw [HttpConnector.h2Conns, List.filter_map]; rfl
  next => rfl

/-- What an episode of a call for the key has done so far. -/
structure HttpConnector.Midway (s : HttpConnector K C π δ) (key : K)
    (t : Nat) (s₁ : HttpConnector K C π δ) : Prop where
  same : ∀ call, s₁.calls t = some call → call.key = key
  h1 : ∀ k, s₁.h1.world.conns k = s.h1.world.conns k
  h2 : Kept key s₁.connError s.h2Conns s₁.h2Conns

/-- The look-ups before the first await. -/
theorem HttpConnector.midway_miss {m : Nat}
    (hw : s.h1.world.Alive m) {h1 : H1World K C π δ}
    {pool : PoolInner K (Http2Connection C)}
    (hpool : pool = s.h2Pool ∨ pool = s.retained key)
    (hget : h1 = s.h1 ∨ s.h1.get key = some (h1, none)) :
    s.Midway key s.nextCall ({ s with
      h2Pool := pool, h1 := h1, nextCall := s.nextCall + 1 }.goTo
        s.nextCall (some (.transport key))) := by
  refine ⟨key_of_next rfl, ?_, ?_⟩
  · intro k
    rcases hget with rfl | hget
    · rfl
    · obtain ⟨⟨w, r⟩, hgot, heq⟩ := Option.map_eq_some_iff.mp hget
      cases heq
      exact conns_of_get_none hw hgot k
  · rcases hpool with rfl | rfl
    · exact Kept.refl
    · exact s.kept_retained key

/-- What a step of the call leaves, unless the call returns. -/
theorem HttpConnector.Midway.step (hm : s.Midway key t s₁)
    {a : ConnectorAction K C π δ ε} (ha : a.own t)
    (h : s₁.step a = some s₂)
    (hret : s₂.calls t ≠ none ∨ s₂.returned = none) :
    s.Midway key t s₂ := by
  cases transition_step h with
  | hit2 | hit1 | miss | dropped => exact ha.elim
  | leave a t' hcall => exact ⟨key_of_gone hm.same, hm.h1, hm.h2⟩
  | toLock t' key' c alpn hcall hnew hh2 =>
      cases ha
      exact ⟨key_of_next (hm.same (.transport key') hcall), hm.h1,
        hm.h2⟩
  | linked t' =>
      cases ha
      exact (not_finished hret).elim
  | hitLocked t' =>
      cases ha
      exact (not_finished hret).elim
  -- the look-up under the lock drops what is broken, of the same key
  | toHandshake t' key' l c tbl hcall hlock hget =>
      cases ha
      cases hm.same _ hcall
      exact ⟨key_of_next rfl, hm.h1,
        hm.h2.trans (s₁.kept_retained key')⟩
  | unlock a t' key' l c hcall => exact ⟨key_of_gone hm.same, hm.h1, hm.h2⟩
  | established t' =>
      cases ha
      exact (not_finished hret).elim
  | connErr c hopen => exact ⟨hm.same, hm.h1, hm.h2.update c⟩
  | setMode => exact ⟨hm.same, hm.h1, hm.h2⟩
  | h1 b h1 hcallers hs =>
      cases b with
      | pool b =>
          cases b with
          | tick dt =>
              cases hs
              exact ⟨hm.same, hm.h1, hm.h2⟩
          | _ => exact ha.elim
      | _ => exact ha.elim

omit [DecidableEq K] [DecidableEq C] in
/-- A call that goes nowhere is over, without a connection. -/
theorem HttpConnector.goTo_none (s : HttpConnector K C π δ) (t : Nat) :
    (s.goTo t none).calls t = none ∧ (s.goTo t none).returned = none :=
  ⟨Function.update_self .., rfl⟩

/-- A call that fails, or is dropped, is over, without a connection. -/
theorem HttpConnector.ended_of_fails {a : ConnectorAction K C π δ ε}
    (ha : a.fails t) (h : s.step a = some s') :
    s'.calls t = none ∧ s'.returned = none := by
  cases a with
  | transport t' result =>
      cases result with
      | some _ => exact ha.elim
      | none =>
          cases ha
          simp only [HttpConnector.step, HttpConnector.transport] at h
          split at h
          next =>
            cases h
            exact s.goTo_none t
          next heq => cases heq
          next => cases h
  | acquired t' ok =>
      cases ok with
      | true => exact ha.elim
      | false =>
          cases ha
          simp only [HttpConnector.step, HttpConnector.acquired] at h
          split at h
          next =>
            cases h
            exact s.goTo_none t
          next => cases h
  | handshake t' ok =>
      cases ok with
      | true => exact ha.elim
      | false =>
          cases ha
          simp only [HttpConnector.step, HttpConnector.handshake] at h
          split at h
          next =>
            cases h
            exact HttpConnector.goTo_none _ t
          next => cases h
  | cancel t' =>
      cases ha
      simp only [HttpConnector.step, HttpConnector.cancel] at h
      split at h
      -- the guard of the lock goes with the call
      next =>
        cases h
        exact HttpConnector.goTo_none _ t
      next =>
        cases h
        exact s.goTo_none t
      next => cases h
  | _ => exact ha.elim

/-- Wherever a call stands, to fail there ends its episode. -/
theorem HttpConnector.episode_of_fails {protocol : Protocol}
    {a : ConnectorAction K C π δ ε}
    (hu : (HttpConnector.machine (ε := ε) protocol).Underway
      (.connect key) (fun _ a => a.own s.nextCall)
      (fun s₁ => s₁.calls s.nextCall ≠ none) s s₁)
    (ha : a.fails s.nextCall) (h : s₁.step a = some s') :
    (HttpConnector.machine (ε := ε) protocol).Episode
        (.connect key) (fun _ a => a.own s.nextCall)
        (fun s₁ => s₁.calls s.nextCall ≠ none) s s'
      ∧ s'.returned = none := by
  obtain ⟨hend, hret⟩ := HttpConnector.ended_of_fails ha h
  exact ⟨.mk hu (ConnectorAction.own_of_fails ha) h (not_not.mpr hend),
    hret⟩

/-- A call that starts finds the pools there. -/
theorem HttpConnector.alive_of_connect {protocol : Protocol}
    (hr : (HttpConnector.machine (ε := ε) protocol).Reachable s)
    (h : s.connect key = some s') :
    s.h1.world.Alive (resolveMaxIdle none) := by
  unfold HttpConnector.connect at h
  split at h
  next => cases h
  next hpool =>
    obtain ⟨pool, hpool⟩ := Option.ne_none_iff_exists'.mp
      (mt Option.isNone_iff_eq_none.mpr hpool)
    obtain ⟨hmax, hdur⟩ := limits_of_reachable
      (HttpConnector.world_reachable hr) pool hpool
    exact ⟨pool, hpool, hmax, hdur⟩

/-- What a call has done so far, in an episode of its own. -/
theorem HttpConnector.midway_of_underway {protocol : Protocol}
    (hr : (HttpConnector.machine (ε := ε) protocol).Reachable s)
    (hu : (HttpConnector.machine (ε := ε) protocol).Underway
      (.connect key) (fun _ a => a.own s.nextCall)
      (fun s₁ => s₁.calls s.nextCall ≠ none) s s₁) :
    s.Midway key s.nextCall s₁ := by
  have hi := HttpConnector.inv_of_reachable hr
  have hnew : s.calls s.nextCall = none := hi.fresh _ (Nat.le_refl _)
  have hnone : ∀ {t' : Nat},
      Function.update s.calls t' none s.nextCall = none := by
    intro t'
    by_cases ht : s.nextCall = t'
    · rw [ht, Function.update_self]
    · rw [Function.update_of_ne ht, hnew]
  induction hu with
  | start h hl =>
      have hw := HttpConnector.alive_of_connect hr h
      cases transition_step (ε := ε) (a := .connect key) h with
      | hit2 | hit1 | leave | unlock => exact absurd hnone hl
      | setMode => exact absurd hnew hl
      | miss key h1 pool hpool hget =>
          exact HttpConnector.midway_miss hw hpool hget
  | step hu ho h hl ih => exact ih.step ho h (Or.inl hl)

/-- A call of an `HttpConnector` that ends without a connection. -/
theorem HttpConnector.atomic {protocol : Protocol}
    (hr : (HttpConnector.machine (ε := ε) protocol).Reachable s)
    (he : (HttpConnector.machine (ε := ε) protocol).Episode
      (.connect key) (fun _ a => a.own s.nextCall)
      (fun s₁ => s₁.calls s.nextCall ≠ none) s s')
    (hret : s'.returned = none) :
    (∀ k, s'.h1.world.conns k = s.h1.world.conns k)
      ∧ Kept key s'.connError s.h2Conns s'.h2Conns
      ∧ ∀ l, s'.connecting.holder l ≠ some s.nextCall := by
  obtain ⟨hu, ho, h, hl⟩ := he
  have hm := (HttpConnector.midway_of_underway hr hu).step ho h
    (Or.inr hret)
  have hr' := (hu.reachable trivial (fun _ _ _ => trivial) hr).step
    trivial h
  refine ⟨hm.h1, hm.h2, ?_⟩
  refine (HttpConnector.inv_of_reachable hr').coherent.holder_of_out ?_
  exact HttpConnector.phase_eq (not_not.mp hl)

end HttpConnector

-- ====================================================== HyperH1Connector

section HyperH1Connector

variable {K C : Type}

/-- A step of this call, where `ready` fails on a closed connection
only, as hyper promises; or connections close, or time passes. -/
def HyperH1Connector.Own (t : Nat) (s : HyperH1Connector K C) :
    HyperH1Action K C → Prop
  | .ready t' ok => t' = t ∧ (ok = false → ∀ key h p,
      s.calls t = some (.ready key h) → s.world.handles h = some p →
      s.closed p.value = true)
  | .connected t' _ => t' = t
  | .handshake t' _ => t' = t
  | .cancel t' => t' = t
  | .closed _ => True
  | .pool (.tick _) => True
  | _ => False

/-- A step at which this call fails, or is dropped. That `ready` fails
is none: the loop goes on. -/
def HyperH1Action.fails (t : Nat) : HyperH1Action K C → Prop
  | .connected t' false => t' = t
  | .handshake t' none => t' = t
  | .cancel t' => t' = t
  | _ => False

/-- It is a step of this call. -/
theorem HyperH1Connector.own_of_fails {t : Nat}
    {s : HyperH1Connector K C} {a : HyperH1Action K C}
    (ha : a.fails t) : HyperH1Connector.Own t s a := by
  unfold HyperH1Action.fails at ha
  split at ha
  next => exact ha
  next => exact ha
  next => exact ha
  next => exact ha.elim

/-- What a call for the key holds at its await. -/
inductive Holding (w : World K C) (key : K) :
    Option (HyperH1Connect K) → List C → Prop
  | ready (h : Nat) (c : C)
      (hp : w.handles h = some (Pooled.new key c true)) :
      Holding w key (some (.ready key h)) [c]
  | underlying : Holding w key (some (.underlying key)) []
  | handshake : Holding w key (some (.handshake key)) []
  | ended : Holding w key none []

variable [DecidableEq K]

/-- The connections of each key, what a call for `key` holds among
them. -/
def World.connsWith (w : World K C) (key : K) (out : List C) (k : K) :
    List C :=
  if k = key then out ++ w.conns key else w.conns k

theorem World.connsWith_nil (w : World K C) (key : K) :
    World.connsWith w key [] = w.conns := by
  funext k
  unfold World.connsWith
  split
  next hk => rw [hk, List.nil_append]
  next => rfl

/-- After the loop a call holds the connection it found. -/
theorem Scanned.holding {closed : C → Bool} {key : K} {w : World K C}
    {r : Drained K C} (hr : Scanned closed key w r) :
    ∃ out, Holding r.world key (some (.after key r.pooled)) out
      ∧ Kept key closed w.conns (World.connsWith r.world key out) := by
  have hother : ∀ {gone out : List C}, Passed key w r.world gone →
      ∀ k, k ≠ key → World.connsWith r.world key out k = w.conns k := by
    intro gone out hpass k hk
    rw [World.connsWith, if_neg hk, World.conns, hpass.others k hk]
    rfl
  cases hr.drains with
  | empty hall hpass hnone hnil hiter =>
      refine ⟨[], ?_, Kept.of_key (hother hpass) ?_ ?_⟩
      · rw [hnone]
        exact .underlying
      · rw [World.connsWith_nil, World.conns, hnil]
        exact List.nil_subperm
      · intro c hc
        obtain ⟨e, he, rfl⟩ := List.mem_map.mp hc
        exact Or.inr (hall e he)
  | found pre idle rest h hq hpre hidle hpass hpooled hnew hheld hrest
      hiter =>
      have hkey : World.connsWith r.world key [idle.conn] key
          = idle.conn :: rest.map Idle.conn := by
        rw [World.connsWith, if_pos rfl, World.conns, hrest]
        rfl
      have hbefore : w.conns key
          = pre.map Idle.conn ++ idle.conn :: rest.map Idle.conn := by
        rw [World.conns, hq, List.map_append, List.map_cons]
      refine ⟨[idle.conn], ?_, Kept.of_key (hother hpass) ?_ ?_⟩
      · rw [hpooled]
        exact .ready h idle.conn hheld
      · rw [hkey, hbefore]
        exact (List.sublist_append_right _ _).subperm
      · intro c hc
        rw [hbefore] at hc
        rw [hkey]
        rcases List.mem_append.mp hc with hc | hc
        · obtain ⟨e, he, rfl⟩ := List.mem_map.mp hc
          exact Or.inr (hpre e he)
        · exact Or.inl hc

/-- What a call holds may go when it is dead. -/
theorem kept_of_discard {dead : C → Bool} {w : World K C} {key : K}
    {out : List C} (hdead : ∀ c ∈ out, dead c = true) :
    Kept key dead (World.connsWith w key out) w.conns := by
  apply Kept.of_key
  · intro k hk
    rw [World.connsWith, if_neg hk]
  · rw [World.connsWith, if_pos rfl]
    exact (List.sublist_append_right _ _).subperm
  · intro c hc
    rw [World.connsWith, if_pos rfl] at hc
    rcases List.mem_append.mp hc with hc | hc
    · exact Or.inr (hdead c hc)
    · exact Or.inl hc

theorem Scanned.alive {closed : C → Bool} {key : K} {w : World K C}
    {r : Drained K C} (hr : Scanned closed key w r) {m : Nat}
    (hw : w.Alive m) : r.world.Alive m := by
  cases hr.drains with
  | empty hall hpass => exact hpass.alive m hw
  | found pre idle rest h hq hpre hidle hpass => exact hpass.alive m hw

/-- Dropping a handle of a connection that is not open changes no
queue. -/
theorem conns_of_drop_closed {w w' : World K C} {h : Nat}
    (hdrop : w.drop h false = some w') : w'.conns = w.conns := by
  obtain ⟨p, -, rfl⟩ := World.drop_eq_some hdrop
  rfl

/-- A connection given back to a queue that is one short of its limit
comes last in it, and none is evicted. -/
theorem conns_of_drop_open {w w' : World K C} {m h : Nat} {key : K}
    {c : C} (hw : w.Alive m)
    (hp : w.handles h = some (Pooled.new key c true))
    (hlen : (w.conns key).length + 1 ≤ max m 1)
    (hdrop : w.drop h true = some w') (k : K) :
    w'.conns k = if k = key then w.conns key ++ [c] else w.conns k := by
  obtain ⟨pool, hpool, hmax, -⟩ := hw
  obtain ⟨p, hp', rfl⟩ := World.drop_eq_some hdrop
  rw [hp] at hp'
  cases hp'
  have hback : ((Pooled.new key c true).drop w.now true w.pool).1
      = some (pool.giveBack w.now key c).pool := by
    rw [hpool]
    rfl
  rw [World.conns_of_pool _ hback, World.conns_of_pool _ hpool]
  rw [World.conns_of_pool _ hpool, List.length_map] at hlen
  dsimp only
  rw [PoolInner.giveBack, queue_insertIdle]
  split
  next =>
    have hkeep : (pool.queue key).drop (evictions
        (fun len maxIdle => decide (len ≥ maxIdle))
        (pool.queue key).length pool.maxIdle) = pool.queue key := by
      cases hq : pool.queue key with
      | nil => exact List.drop_nil
      | cons e rest =>
          rw [hq, List.length_cons] at hlen
          have hlt : ¬ rest.length + 1 ≥ m := by omega
          rw [hmax, evictions, List.length_cons,
            if_neg (by simpa using hlt), List.drop_zero]
    rw [hkeep, List.map_append]
    rfl
  next => rfl

/-- A call given up at the `ready` of a connection it holds puts it
back, unless it is closed. -/
theorem kept_of_giveUp {s : HyperH1Connector K C} {w : World K C}
    {m h : Nat} {key : K} {c : C} (hw : s.world.Alive m)
    (hp : s.world.handles h = some (Pooled.new key c true))
    (hlen : (s.world.conns key).length + 1 ≤ max m 1)
    (hdrop : s.world.drop h (s.isOpen c) = some w) :
    Kept key s.closed (World.connsWith s.world key [c]) w.conns := by
  cases hc : s.closed c with
  | true =>
      rw [HyperH1Connector.isOpen, hc] at hdrop
      rw [conns_of_drop_closed hdrop]
      refine kept_of_discard fun d hd => ?_
      rw [List.mem_singleton.mp hd, hc]
  | false =>
      rw [HyperH1Connector.isOpen, hc] at hdrop
      have hconns := conns_of_drop_open hw hp hlen hdrop
      have hperm : (World.connsWith s.world key [c] key).Perm
          (w.conns key) := by
        rw [hconns, if_pos rfl, World.connsWith, if_pos rfl]
        exact List.perm_append_comm
      refine Kept.of_key ?_ hperm.symm.subperm fun d hd =>
        Or.inl (hperm.subset hd)
      intro k hk
      rw [hconns, if_neg hk, World.connsWith, if_neg hk]

variable [DecidableEq C] {s s₁ s₂ s' : HyperH1Connector K C} {key : K}
  {t m : Nat}

/-- What an episode of a call for the key has done so far. -/
structure HyperH1Connector.Midway (s : HyperH1Connector K C) (key : K)
    (t m : Nat) (s₁ : HyperH1Connector K C) : Prop where
  alive : s₁.world.Alive m
  kept : ∃ out, Holding s₁.world key (s₁.calls t) out
    ∧ Kept key s₁.closed s.world.conns
        (World.connsWith s₁.world key out)

omit [DecidableEq K] [DecidableEq C] in
theorem Holding.mono {w w' : World K C} {call : Option (HyperH1Connect K)}
    {out : List C} (h : Holding w key call out)
    (hh : w'.handles = w.handles) : Holding w' key call out := by
  cases h with
  | ready hd c hp => exact .ready hd c (by rw [hh]; exact hp)
  | underlying => exact .underlying
  | handshake => exact .handshake
  | ended => exact .ended

omit [DecidableEq K] [DecidableEq C] in
/-- A call at the `ready` of a connection holds that one. -/
theorem Holding.of_ready {w : World K C} {key' : K} {hd : Nat}
    {p : Pooled K C} {out : List C}
    (h : Holding w key (some (.ready key' hd)) out)
    (hp : w.handles hd = some p) :
    ∃ c, key' = key ∧ p = Pooled.new key c true ∧ out = [c] := by
  cases h with
  | ready _ c hp' =>
      rw [hp] at hp'
      cases hp'
      exact ⟨c, rfl, rfl, rfl⟩

/-- `ready` fails: the connection is dropped, and the loop goes on. -/
theorem HyperH1Connector.Midway.again (hm : s.Midway key t m s₁)
    {key' : K} {hd : Nat} {p : Pooled K C} {w : World K C}
    {r : Drained K C} (hcall : s₁.calls t = some (.ready key' hd))
    (hp : s₁.world.handles hd = some p)
    (hdead : s₁.closed p.value = true)
    (hdrop : s₁.world.drop hd (s₁.isOpen p.value) = some w)
    (hr : Scanned s₁.closed key' w r) :
    s.Midway key t m ({ s₁ with world := r.world }.goTo t
      (some (.after key' r.pooled))) := by
  obtain ⟨hw, out, hout, hkept⟩ := hm
  rw [hcall] at hout
  obtain ⟨c, rfl, rfl, rfl⟩ := hout.of_ready hp
  have hisOpen : s₁.isOpen (Pooled.new key' c true).value = false := by
    rw [HyperH1Connector.isOpen, hdead]
    rfl
  rw [hisOpen] at hdrop
  have hw' := alive_of_step (a := .drop hd false) hdrop (by simp) hw
  obtain ⟨out', hout', hrest⟩ := hr.holding
  refine ⟨hr.alive hw', out', ?_, ?_⟩
  · simp only [HyperH1Connector.goTo, Function.update_self]
    exact hout'
  · refine hkept.trans (Kept.trans ?_ hrest)
    rw [conns_of_drop_closed hdrop]
    refine kept_of_discard fun d hd => ?_
    rw [List.mem_singleton.mp hd]
    exact hdead

/-- The call is dropped there: the connection goes back. -/
theorem HyperH1Connector.Midway.giveUp (hm : s.Midway key t m s₁)
    (hlen : ∀ k, (s.world.conns k).length ≤ max m 1)
    {key' : K} {hd : Nat} {p : Pooled K C} {w : World K C}
    (hcall : s₁.calls t = some (.ready key' hd))
    (hp : s₁.world.handles hd = some p)
    (hdrop : s₁.world.drop hd (s₁.isOpen p.value) = some w) :
    s.Midway key t m ({ s₁ with world := w }.goTo t none) := by
  obtain ⟨hw, out, hout, hkept⟩ := hm
  rw [hcall] at hout
  obtain ⟨c, rfl, rfl, rfl⟩ := hout.of_ready hp
  refine ⟨alive_of_step (a := .drop hd _) hdrop (by simp) hw, [], ?_, ?_⟩
  · simp only [HyperH1Connector.goTo, Function.update_self]
    exact .ended
  · rw [World.connsWith_nil]
    refine hkept.trans (kept_of_giveUp hw hp ?_ hdrop)
    -- the connection it holds was in the queue before
    have hle := Nat.le_trans (hkept.sub key').length_le (hlen key')
    rw [World.connsWith, if_pos rfl] at hle
    simpa using hle

/-- What a step of the call leaves, unless the call returns a
connection. -/
theorem HyperH1Connector.Midway.step (hm : s.Midway key t m s₁)
    {a : HyperH1Action K C} (ha : HyperH1Connector.Own t s₁ a)
    (hlen : ∀ k, (s.world.conns k).length ≤ max m 1)
    (h : s₁.step a = some s₂)
    (hret : s₂.calls t ≠ none ∨ s₂.returned = none) :
    s.Midway key t m s₂ := by
  cases hyperH1_transition hm.alive h with
  | connect | dropHandle => exact ha.elim
  | reused t' =>
      cases ha.1
      exact (not_finished hret).elim
  -- the one whose `ready` failed is closed; the loop goes on
  | again t' key' hd p w r hcall hp hdrop hr =>
      cases ha.1
      exact hm.again hcall hp (ha.2 rfl key' hd p hcall hp) hdrop hr
  | connected t' key' hcall =>
      cases ha
      obtain ⟨hw, out, hout, hkept⟩ := hm
      rw [hcall] at hout
      cases hout with
      | underlying =>
          refine ⟨hw, [], ?_, hkept⟩
          simp only [HyperH1Connector.goTo, Function.update_self]
          exact .handshake
  | leave a t' key' hwhy hcall =>
      have ht : t' = t := by
        rcases hwhy with rfl | rfl | rfl
        · exact ha
        · exact ha
        · exact ha
      subst ht
      obtain ⟨hw, out, hout, hkept⟩ := hm
      have hnil : out = [] := by
        rcases hcall with hcall | hcall
        · rw [hcall] at hout
          cases hout with
          | underlying => rfl
        · rw [hcall] at hout
          cases hout with
          | handshake => rfl
      refine ⟨hw, [], ?_, hnil ▸ hkept⟩
      simp only [HyperH1Connector.goTo, Function.update_self]
      exact .ended
  | linked t' =>
      cases ha
      exact (not_finished hret).elim
  | giveUp t' key' hd p w hcall hp hdrop =>
      cases ha
      exact hm.giveUp hlen hcall hp hdrop
  | closed c =>
      obtain ⟨hw, out, hout, hkept⟩ := hm
      exact ⟨hw, out, hout, hkept.update c⟩
  | pool b w hothers hs =>
      cases b with
      | tick dt =>
          cases hs
          obtain ⟨hw, out, hout, hkept⟩ := hm
          exact ⟨hw, out, hout.mono rfl, hkept⟩
      | _ => exact ha.elim

/-- What a call has done so far, in an episode of its own. -/
theorem HyperH1Connector.midway_of_underway
    {idleInterval maxIdle : Option Nat} (hw : s.world.Alive m)
    (hlen : ∀ k, (s.world.conns k).length ≤ max m 1)
    (hu : (HyperH1Connector.machine idleInterval maxIdle).Underway
      (.connect key) (HyperH1Connector.Own s.nextCall)
      (fun s₁ => s₁.calls s.nextCall ≠ none) s s₁) :
    s.Midway key s.nextCall m s₁ := by
  induction hu with
  | start h hl =>
      cases hyperH1_transition hw (a := .connect key) h with
      | connect key r hr =>
          obtain ⟨out, hout, hkept⟩ := hr.holding
          refine ⟨hr.alive hw, out, ?_, hkept⟩
          simp only [HyperH1Connector.goTo, Function.update_self]
          exact hout
      | leave a t' key' hwhy hcall =>
          exact absurd hwhy (by simp)
  | step hu ho h hl ih => exact ih.step ho hlen h (Or.inl hl)

omit [DecidableEq K] [DecidableEq C] in
/-- A call that goes nowhere is over, without a connection. -/
theorem HyperH1Connector.goTo_none (s : HyperH1Connector K C) (t : Nat) :
    (s.goTo t none).calls t = none ∧ (s.goTo t none).returned = none :=
  ⟨Function.update_self .., rfl⟩

/-- A call that fails, or is dropped, is over, without a connection. -/
theorem HyperH1Connector.ended_of_fails {a : HyperH1Action K C}
    (ha : a.fails t) (h : s.step a = some s') :
    s'.calls t = none ∧ s'.returned = none := by
  cases a with
  | connected t' ok =>
      cases ok with
      | true => exact ha.elim
      | false =>
          cases ha
          simp only [HyperH1Connector.step,
            HyperH1Connector.connected] at h
          split at h
          next =>
            cases h
            exact s.goTo_none t
          next => cases h
  | handshake t' result =>
      cases result with
      | some _ => exact ha.elim
      | none =>
          cases ha
          simp only [HyperH1Connector.step,
            HyperH1Connector.handshake] at h
          split at h
          next =>
            cases h
            exact s.goTo_none t
          next heq => cases heq
          next => cases h
  | cancel t' =>
      cases ha
      simp only [HyperH1Connector.step, HyperH1Connector.cancel] at h
      split at h
      -- the handle it holds goes with the call
      next =>
        split at h
        next =>
          obtain ⟨w, -, rfl⟩ := Option.map_eq_some_iff.mp h
          exact HyperH1Connector.goTo_none _ t
        next => cases h
      next =>
        cases h
        exact s.goTo_none t
      next => cases h
  | _ => exact ha.elim

/-- Wherever a call stands, to fail there ends its episode. -/
theorem HyperH1Connector.episode_of_fails
    {idleInterval maxIdle : Option Nat} {a : HyperH1Action K C}
    (hu : (HyperH1Connector.machine idleInterval maxIdle).Underway
      (.connect key) (HyperH1Connector.Own s.nextCall)
      (fun s₁ => s₁.calls s.nextCall ≠ none) s s₁)
    (ha : a.fails s.nextCall) (h : s₁.step a = some s') :
    (HyperH1Connector.machine idleInterval maxIdle).Episode
        (.connect key) (HyperH1Connector.Own s.nextCall)
        (fun s₁ => s₁.calls s.nextCall ≠ none) s s'
      ∧ s'.returned = none := by
  obtain ⟨hend, hret⟩ := HyperH1Connector.ended_of_fails ha h
  exact ⟨.mk hu (HyperH1Connector.own_of_fails ha) h
    (not_not.mpr hend), hret⟩

/-- What others did not put in came in through `connect`. -/
def HyperH1Action.isPut : HyperH1Action K C → Bool
  | .pool a => a.isPut
  | _ => false

/-- A call of a `HyperH1Connector` that ends without a connection. -/
theorem HyperH1Connector.atomic {idleInterval maxIdle : Option Nat}
    (hr : (HyperH1Connector.machine idleInterval maxIdle).ReachableUnder
      (fun _ a => a.isPut = false) s)
    (he : (HyperH1Connector.machine idleInterval maxIdle).Episode
      (.connect key) (HyperH1Connector.Own s.nextCall)
      (fun s₁ => s₁.calls s.nextCall ≠ none) s s')
    (hret : s'.returned = none) :
    Kept key s'.closed s.world.conns s'.world.conns := by
  have hworld : (World.machine idleInterval maxIdle).ReachableUnder
      (fun _ a => a.isPut = false ∧ a ≠ .dropPool) s.world :=
    HyperH1Connector.world_reachable (by simp) (by simp [Action.isPut])
      (by simp [Action.isPut]) (by simp [Action.isPut])
      (fun s a ha hothers => ⟨ha, by rintro rfl; cases hothers⟩) hr
  have hw := alive_of_reachable (by simp) hworld
  have hlen : ∀ k, (s.world.conns k).length
      ≤ max (resolveMaxIdle maxIdle) 1 := by
    intro k
    rw [World.conns, List.length_map]
    exact length_queue_le (hworld.mono fun _ _ h => h.1) k
  obtain ⟨hu, ho, h, hl⟩ := he
  obtain ⟨-, out, hout, hkept⟩ :=
    (HyperH1Connector.midway_of_underway hw hlen hu).step ho hlen h
      (Or.inr hret)
  rw [not_not.mp hl] at hout
  cases hout with
  | ended =>
      rw [World.connsWith_nil] at hkept
      exact hkept

end HyperH1Connector

-- ====================================================== HyperH2Connector

section HyperH2Connector

variable {K : Type}

/-- A step of this call; or connections break, or time passes. -/
def HyperAction.own (t : Nat) : HyperAction K → Prop
  | .locked t' => t' = t
  | .connected t' _ => t' = t
  | .handshake t' _ => t' = t
  | .cancel t' => t' = t
  | .closed _ => True
  | .tick _ => True
  | _ => False

/-- A step at which this call fails, or is dropped. -/
def HyperAction.fails (t : Nat) : HyperAction K → Prop
  | .connected t' false => t' = t
  | .handshake t' false => t' = t
  | .cancel t' => t' = t
  | _ => False

/-- It is a step of this call. -/
theorem HyperAction.own_of_fails {t : Nat} {a : HyperAction K}
    (ha : a.fails t) : a.own t := by
  unfold HyperAction.fails at ha
  split at ha
  next => exact ha
  next => exact ha
  next => exact ha
  next => exact ha.elim

/-- The key a call is for. -/
def HyperConnect.key : HyperConnect K → K
  | .lock key _ => key
  | .underlying key _ => key
  | .handshake key _ => key

/-- The connections that cannot be handed out. -/
def HyperH2Connector.dead (s : HyperH2Connector K)
    (conn : HyperH2Connection) : Bool :=
  !s.ready conn.tx

variable [DecidableEq K] {s s₁ s₂ s' : HyperH2Connector K} {key : K}
  {t : Nat}

/-- `try_get!` drops what is not ready. -/
theorem HyperH2Connector.kept_retained (s : HyperH2Connector K)
    (key : K) : Kept key s.dead s.conns fun k =>
      ((s.retained key).queue k).map Idle.conn := by
  refine Kept.filter fun k => ?_
  rw [HyperH2Connector.conns_retained]
  split
  next =>
    rw [HyperH2Connector.kept, HyperH2Connector.conns, List.filter_map]
    simp only [HyperH2Connector.dead, Bool.not_not]
    rfl
  next => rfl

/-- What an episode of a call for the key has done so far. -/
structure HyperH2Connector.Midway (s : HyperH2Connector K) (key : K)
    (t : Nat) (s₁ : HyperH2Connector K) : Prop where
  same : ∀ call, s₁.calls t = some call → call.key = key
  kept : Kept key s₁.dead s.conns s₁.conns

/-- What a step of the call leaves, unless the call returns. -/
theorem HyperH2Connector.Midway.step (hm : s.Midway key t s₁)
    {a : HyperAction K} (ha : a.own t) (h : s₁.step a = some s₂)
    (hret : s₂.calls t ≠ none ∨ s₂.returned = none) :
    s.Midway key t s₂ := by
  cases hyper_transition h with
  | hit | wait | cloned | droppedHandle | swept => exact ha.elim
  | tick => exact ⟨hm.same, hm.kept⟩
  | hitLocked t' =>
      cases ha
      exact (not_finished hret).elim
  | begin t' key' l tbl hcall hlock hmiss =>
      cases ha
      cases hm.same _ hcall
      exact ⟨key_of_next rfl, hm.kept.trans (s₁.kept_retained key')⟩
  | connected t' key' l hcall =>
      cases ha
      exact ⟨key_of_next (hm.same (.underlying key' l) hcall),
        hm.kept⟩
  | leave t' key' l hcall => exact ⟨key_of_gone hm.same, hm.kept⟩
  | unlock a t' key' l hwhy hcall => exact ⟨key_of_gone hm.same, hm.kept⟩
  | established t' =>
      cases ha
      exact (not_finished hret).elim
  | closed c =>
      refine ⟨hm.same, hm.kept.mono fun conn hd => ?_⟩
      by_cases hc : conn.tx = c
      · simp [HyperH2Connector.dead, hc]
      · simpa [HyperH2Connector.dead, hc] using hd

omit [DecidableEq K] in
/-- A call that goes nowhere is over, without a connection. -/
theorem HyperH2Connector.goTo_none (s : HyperH2Connector K) (t : Nat) :
    (s.goTo t none).calls t = none ∧ (s.goTo t none).returned = none :=
  ⟨Function.update_self .., rfl⟩

/-- A call that fails, or is dropped, is over, without a connection. -/
theorem HyperH2Connector.ended_of_fails {a : HyperAction K}
    (ha : a.fails t) (h : s.step a = some s') :
    s'.calls t = none ∧ s'.returned = none := by
  cases a with
  | connected t' ok =>
      cases ok with
      | true => exact ha.elim
      | false =>
          cases ha
          simp only [HyperH2Connector.step,
            HyperH2Connector.connected] at h
          split at h
          next =>
            cases h
            exact HyperH2Connector.goTo_none _ t
          next => cases h
  | handshake t' ok =>
      cases ok with
      | true => exact ha.elim
      | false =>
          cases ha
          simp only [HyperH2Connector.step,
            HyperH2Connector.handshake] at h
          split at h
          next =>
            cases h
            exact HyperH2Connector.goTo_none _ t
          next => cases h
  | cancel t' =>
      cases ha
      simp only [HyperH2Connector.step, HyperH2Connector.cancel] at h
      split at h
      next =>
        cases h
        exact s.goTo_none t
      -- from here on the guard of the lock goes with the call
      next =>
        cases h
        exact HyperH2Connector.goTo_none _ t
      next =>
        cases h
        exact HyperH2Connector.goTo_none _ t
      next => cases h
  | _ => exact ha.elim

/-- Wherever a call stands, to fail there ends its episode. -/
theorem HyperH2Connector.episode_of_fails
    {idleInterval maxIdle limit : Option Nat} {a : HyperAction K}
    (hu : (HyperH2Connector.machine idleInterval maxIdle limit).Underway
      (.connect key) (fun _ a => a.own s.nextCall)
      (fun s₁ => s₁.calls s.nextCall ≠ none) s s₁)
    (ha : a.fails s.nextCall) (h : s₁.step a = some s') :
    (HyperH2Connector.machine idleInterval maxIdle limit).Episode
        (.connect key) (fun _ a => a.own s.nextCall)
        (fun s₁ => s₁.calls s.nextCall ≠ none) s s'
      ∧ s'.returned = none := by
  obtain ⟨hend, hret⟩ := HyperH2Connector.ended_of_fails ha h
  exact ⟨.mk hu (HyperAction.own_of_fails ha) h (not_not.mpr hend),
    hret⟩

/-- What a call has done so far, in an episode of its own. -/
theorem HyperH2Connector.midway_of_underway
    {idleInterval maxIdle limit : Option Nat}
    (hu : (HyperH2Connector.machine idleInterval maxIdle limit).Underway
      (.connect key) (fun _ a => a.own s.nextCall)
      (fun s₁ => s₁.calls s.nextCall ≠ none) s s₁) :
    s.Midway key s.nextCall s₁ := by
  induction hu with
  | start h hl =>
      cases hyper_transition (a := .connect key) h with
      | hit => exact absurd (Function.update_self ..) hl
      | wait key hmiss => exact ⟨key_of_next rfl, s.kept_retained key⟩
      | unlock a t' key' l hwhy hcall =>
          exact absurd hwhy (by simp)
  | step hu ho h hl ih => exact ih.step ho h (Or.inl hl)

/-- A call of a `HyperH2Connector` that ends without a connection. -/
theorem HyperH2Connector.atomic
    {idleInterval maxIdle limit : Option Nat}
    (hr : (HyperH2Connector.machine idleInterval maxIdle limit).Reachable
      s)
    (he : (HyperH2Connector.machine idleInterval maxIdle limit).Episode
      (.connect key) (fun _ a => a.own s.nextCall)
      (fun s₁ => s₁.calls s.nextCall ≠ none) s s')
    (hret : s'.returned = none) :
    Kept key s'.dead s.conns s'.conns
      ∧ ∀ l, s'.connecting.holder l ≠ some s.nextCall := by
  obtain ⟨hu, ho, h, hl⟩ := he
  have hm := (HyperH2Connector.midway_of_underway hu).step ho h
    (Or.inr hret)
  have hr' := (hu.reachable trivial (fun _ _ _ => trivial) hr).step
    trivial h
  refine ⟨hm.kept, ?_⟩
  refine (HyperH2Connector.locked_of_reachable
    hr').coherent.holder_of_out ?_
  exact HyperH2Connector.phase_eq (not_not.mp hl)

end HyperH2Connector

-- ============================================================ the promise

/-- A `connect` that ends without a connection is atomic on the pools:
in an `HttpConnector`, a `HyperH1Connector` nobody else puts connections
into, and a `HyperH2Connector`. -/
theorem connect_atomic {K C π δ ε : Type} [DecidableEq K]
    [DecidableEq C] :
    (∀ (protocol : Protocol) (s s' : HttpConnector K C π δ) (key : K),
        (HttpConnector.machine (ε := ε) protocol).Reachable s →
        (HttpConnector.machine (ε := ε) protocol).Episode
          (.connect key) (fun _ a => a.own s.nextCall)
          (fun s₁ => s₁.calls s.nextCall ≠ none) s s' →
        s'.returned = none →
        (∀ k, s'.h1.world.conns k = s.h1.world.conns k)
          ∧ Kept key s'.connError s.h2Conns s'.h2Conns
          ∧ ∀ l, s'.connecting.holder l ≠ some s.nextCall)
      ∧ (∀ (idleInterval maxIdle : Option Nat)
          (s s' : HyperH1Connector K C) (key : K),
        (HyperH1Connector.machine idleInterval
          maxIdle).ReachableUnder (fun _ a => a.isPut = false) s →
        (HyperH1Connector.machine idleInterval maxIdle).Episode
          (.connect key) (HyperH1Connector.Own s.nextCall)
          (fun s₁ => s₁.calls s.nextCall ≠ none) s s' →
        s'.returned = none →
        Kept key s'.closed s.world.conns s'.world.conns)
      ∧ ∀ (idleInterval maxIdle limit : Option Nat)
          (s s' : HyperH2Connector K) (key : K),
        (HyperH2Connector.machine idleInterval maxIdle
          limit).Reachable s →
        (HyperH2Connector.machine idleInterval maxIdle limit).Episode
          (.connect key) (fun _ a => a.own s.nextCall)
          (fun s₁ => s₁.calls s.nextCall ≠ none) s s' →
        s'.returned = none →
        Kept key s'.dead s.conns s'.conns
          ∧ ∀ l, s'.connecting.holder l ≠ some s.nextCall :=
  ⟨fun _ _ _ _ hr he => HttpConnector.atomic hr he,
    fun _ _ _ _ _ hr he => HyperH1Connector.atomic hr he,
    fun _ _ _ _ _ _ hr he => HyperH2Connector.atomic hr he⟩

/-- A call of each connector that comes to nothing. An `HttpConnector`
with a broken HTTP/2 connection under the key and a sound one under
another: the call is dropped during its handshake, with the lock. A
`HyperH1Connector` with a limit of one: the call is given up at the
`ready` of the idle connection, and puts it back. A `HyperH2Connector`:
the handshake fails under the lock. -/
theorem connect_atomic_given_up :
    (∃ s s' : HttpConnector Nat Nat Unit Unit,
        (HttpConnector.machine (ε := Unit) .auto).run
            (HttpConnector.new 0 .auto)
            [.connect 7, .transport 0 (some (1, some h2Bytes)),
              .acquired 0 true, .handshake 0 true, .connect 8,
              .transport 1 (some (2, some h2Bytes)), .acquired 1 true,
              .handshake 1 true, .connErr 1] = some s
          ∧ (HttpConnector.machine (ε := Unit) .auto).run s
            [.connect 7, .transport 2 (some (3, some h2Bytes)),
              .acquired 2 true, .cancel 2] = some s'
          ∧ s.h2Conns 7 = [1] ∧ s'.h2Conns 7 = [] ∧ s'.h2Conns 8 = [2]
          ∧ Kept 7 s'.connError s.h2Conns s'.h2Conns
          ∧ ∀ l, s'.connecting.holder l ≠ some 2)
      ∧ (∃ s s' : HyperH1Connector Nat Nat,
        (HyperH1Connector.machine none (some 1)).run
            (HyperH1Connector.newWithPool 0 none (some 1))
            [.connect 7, .connected 0 true, .handshake 0 (some 1),
              .dropHandle 0] = some s
          ∧ (HyperH1Connector.machine none (some 1)).run s
            [.connect 7, .cancel 1] = some s'
          ∧ s.world.conns 7 = [1] ∧ s'.world.conns 7 = [1]
          ∧ Kept 7 s'.closed s.world.conns s'.world.conns)
      ∧ ∃ s s' : HyperH2Connector Nat,
        (HyperH2Connector.machine none none none).run
            (HyperH2Connector.newWithPool 0 none none none)
            [.connect 7, .locked 0, .connected 0 true,
              .handshake 0 true, .closed 0] = some s
          ∧ (HyperH2Connector.machine none none none).run s
            [.connect 7, .locked 1, .connected 1 true,
              .handshake 1 false] = some s'
          ∧ s.conns 7 = [⟨0, none⟩] ∧ s'.conns 7 = []
          ∧ Kept 7 s'.dead s.conns s'.conns
          ∧ ∀ l, s'.connecting.holder l ≠ some 1 := by
  obtain ⟨hconnector, hhyperH1, hhyperH2⟩ := connect_atomic (K := Nat)
    (C := Nat) (π := Unit) (δ := Unit) (ε := Unit)
  refine ⟨?_, ?_, ?_⟩
  · obtain ⟨s, s₁, s₂, s₃, s', hrun, hnext, h₁, h₂, h₃, h', hl₁, hl₂, hl₃,
        hconns⟩ :
        ∃ s s₁ s₂ s₃ s' : HttpConnector Nat Nat Unit Unit,
          (HttpConnector.machine (ε := Unit) .auto).run
              (HttpConnector.new 0 .auto)
              [.connect 7, .transport 0 (some (1, some h2Bytes)),
                .acquired 0 true, .handshake 0 true, .connect 8,
                .transport 1 (some (2, some h2Bytes)), .acquired 1 true,
                .handshake 1 true, .connErr 1] = some s
            ∧ s.nextCall = 2 ∧ s.connect 7 = some s₁
            ∧ s₁.transport 2 (some (3, some h2Bytes)) = some s₂
            ∧ s₂.acquired 2 true = some s₃ ∧ s₃.cancel 2 = some s'
            ∧ s₁.calls 2 ≠ none ∧ s₂.calls 2 ≠ none ∧ s₃.calls 2 ≠ none
            ∧ s.h2Conns 7 = [1] ∧ s'.h2Conns 7 = []
            ∧ s'.h2Conns 8 = [2] :=
      ⟨_, _, _, _, _, rfl, rfl, rfl, rfl, rfl, rfl, Option.some_ne_none _,
        Option.some_ne_none _, Option.some_ne_none _, rfl, rfl, rfl⟩
    have hr : (HttpConnector.machine (ε := Unit) .auto).Reachable s :=
      .run (.init ⟨0, rfl⟩) hrun
    rw [← hnext] at hl₁ hl₂ hl₃
    obtain ⟨he, hret⟩ := HttpConnector.episode_of_fails
      (a := .cancel 2) (.step (a := .acquired 2 true)
        (.step (a := .transport 2 (some (3, some h2Bytes)))
          (.start h₁ hl₁) hnext.symm h₂ hl₂) hnext.symm h₃ hl₃)
      hnext.symm h'
    obtain ⟨-, hkept, hfree⟩ := hconnector _ _ _ 7 hr he hret
    rw [hnext] at hfree
    refine ⟨s, s', hrun, ?_, hconns.1, hconns.2.1, hconns.2.2, hkept,
      hfree⟩
    simp only [Machine.run, HttpConnector.machine, HttpConnector.step,
      h₁, h₂, h₃, h']
  · obtain ⟨s, s₁, s', hrun, hnext, h₁, h', hl₁, hconns⟩ :
        ∃ s s₁ s' : HyperH1Connector Nat Nat,
          (HyperH1Connector.machine none (some 1)).run
              (HyperH1Connector.newWithPool 0 none (some 1))
              [.connect 7, .connected 0 true, .handshake 0 (some 1),
                .dropHandle 0] = some s
            ∧ s.nextCall = 1 ∧ s.connect 7 = some s₁
            ∧ s₁.cancel 1 = some s' ∧ s₁.calls 1 ≠ none
            ∧ s.world.conns 7 = [1] ∧ s'.world.conns 7 = [1] :=
      ⟨_, _, _, rfl, rfl, rfl, rfl, Option.some_ne_none _, rfl, rfl⟩
    have hr : (HyperH1Connector.machine none (some 1)).ReachableUnder
        (fun (_ : HyperH1Connector Nat Nat) a => a.isPut = false) s :=
      .along (.init ⟨0, rfl⟩) (by decide +kernel) hrun
    rw [← hnext] at hl₁
    obtain ⟨he, hret⟩ := HyperH1Connector.episode_of_fails
      (a := .cancel 1) (.start h₁ hl₁) hnext.symm h'
    refine ⟨s, s', hrun, ?_, hconns.1, hconns.2,
      hhyperH1 none (some 1) s s' 7 hr he hret⟩
    simp only [Machine.run, HyperH1Connector.machine,
      HyperH1Connector.step, h₁, h']
  · obtain ⟨s, s₂, s₃, s', hrun, hnext, h₂, h₃, h', hl₁, hl₂, hl₃,
        hconns⟩ :
        ∃ s s₂ s₃ s' : HyperH2Connector Nat,
          (HyperH2Connector.machine none none none).run
              (HyperH2Connector.newWithPool 0 none none none)
              [.connect 7, .locked 0, .connected 0 true,
                .handshake 0 true, .closed 0] = some s
            ∧ s.nextCall = 1 ∧ (s.connect 7).locked 1 = some s₂
            ∧ s₂.connected 1 true = some s₃
            ∧ s₃.handshake 1 false = some s'
            ∧ (s.connect 7).calls 1 ≠ none ∧ s₂.calls 1 ≠ none
            ∧ s₃.calls 1 ≠ none
            ∧ s.conns 7 = [⟨0, none⟩] ∧ s'.conns 7 = [] :=
      ⟨_, _, _, _, rfl, rfl, rfl, rfl, rfl, Option.some_ne_none _,
        Option.some_ne_none _, Option.some_ne_none _, rfl, rfl⟩
    have hr : (HyperH2Connector.machine none none none).Reachable s :=
      .run (.init ⟨0, rfl⟩) hrun
    rw [← hnext] at hl₁ hl₂ hl₃
    obtain ⟨he, hret⟩ := HyperH2Connector.episode_of_fails
      (a := .handshake 1 false) (.step (a := .connected 1 true)
        (.step (a := .locked 1) (.start rfl hl₁) hnext.symm h₂ hl₂)
        hnext.symm h₃ hl₃) hnext.symm h'
    obtain ⟨hkept, hfree⟩ := hhyperH2 none none none s s' 7 hr he hret
    rw [hnext] at hfree
    refine ⟨s, s', hrun, ?_, hconns.1, hconns.2, hkept, hfree⟩
    simp only [Machine.run, HyperH2Connector.machine,
      HyperH2Connector.step, h₂, h₃, h']

end MonoioTransports.Http
