/-
The HTTP/1.1 half of `HttpConnector`, and the promise about abandoned
requests for both connectors.

Every step of an `HttpConnector` is at most one step of the `H1World`
machine on its HTTP/1.1 half, so that half of a state reached is a state
that machine reaches: a refinement, along which the safety of
Cancellation.lean pulls back. What is left for `HttpConnector` itself is
that `connect` returns through the two operations of that half only.
-/
import MonoioTransports.Http.Proofs.Cancellation
import MonoioTransports.Http.Proofs.Transition

namespace MonoioTransports.Http

open Lib Pool

variable {K C π δ ε : Type} [DecidableEq K] [DecidableEq C]
  {s s' : HttpConnector K C π δ}

-- ==================================================== the HTTP/1.1 half

/-- `get` and `link` of the HTTP/1.1 pool are steps of its machine. -/
theorem H1World.step_get {h h' : H1World K C π δ} {k : K}
    {r : Option (Pooled K C)} (hget : h.get k = some (h', r)) :
    h.step (.pool (.get k) : H1Action K C π δ ε) = some h' := by
  obtain ⟨⟨w, r'⟩, hw, heq⟩ := Option.map_eq_some_iff.mp hget
  cases heq
  show ((h.world.get k).map Prod.fst).map _ = _
  rw [hw]
  rfl

theorem H1World.step_link {h h' : H1World K C π δ} {k : K} {c : C}
    (hlink : h.link k c = some h') :
    h.step (.pool (.link k c) : H1Action K C π δ ε) = some h' := hlink

/-- A step of the connector is at most one step of its HTTP/1.1 half:
its own, or one the callers took. -/
theorem Transition.h1_step {a : ConnectorAction K C π δ ε}
    (h : Transition s a s') :
    s'.h1 = s.h1 ∨ ∃ b : H1Action K C π δ ε, s.h1.step b = some s'.h1
      ∧ ((∃ p, b = .pool p) ∨ a = .h1 b) := by
  cases h with
  | hit2 | leave | toLock | hitLocked | toHandshake | unlock
    | established | connErr | setMode => exact Or.inl rfl
  | hit1 key h1 p pool hpool hmode hget =>
      exact Or.inr ⟨_, H1World.step_get hget, Or.inl ⟨_, rfl⟩⟩
  | miss key h1 pool hpool hget =>
      rcases hget with rfl | hget
      · exact Or.inl rfl
      · exact Or.inr ⟨_, H1World.step_get hget, Or.inl ⟨_, rfl⟩⟩
  | linked t key c alpn h1 hcall hnew hh1 hlink =>
      exact Or.inr ⟨_, H1World.step_link hlink, Or.inl ⟨_, rfl⟩⟩
  | h1 b h1 hcallers hs => exact Or.inr ⟨b, hs, Or.inr rfl⟩
  | dropped h1 hs => exact Or.inr ⟨_, hs, Or.inl ⟨_, rfl⟩⟩

/-- The pool's world of a state reached is a world reached. -/
theorem HttpConnector.world_reachable {protocol : Protocol}
    {P : HttpConnector K C π δ → ConnectorAction K C π δ ε → Prop}
    (hr : (HttpConnector.machine protocol).ReachableUnder P s) :
    (World.machine none none).Reachable s.h1.world := by
  refine hr.invariant (I := fun s =>
    (World.machine none none).Reachable s.h1.world) ?_ ?_
  · intro s hinit
    obtain ⟨now, rfl⟩ := hinit
    exact .init ⟨now, rfl⟩
  · intro s a s' _ ih _ hs
    rcases (transition_step hs).h1_step with heq | ⟨b, hb, -⟩
    · rw [heq]
      exact ih
    · rcases H1World.world_step hb with heq | ⟨w, hw⟩
      · rw [heq]
        exact ih
      · exact .step ih trivial hw

/-- The condition on HTTP/1.1 callers, for the whole connector. -/
def HttpConnector.Careful (s : HttpConnector K C π δ) :
    ConnectorAction K C π δ ε → Prop
  | .h1 b => s.h1.Careful b
  | _ => True

/-- Whether a step is careful can be decided. -/
instance HttpConnector.decidableCareful (s : HttpConnector K C π δ) :
    (a : ConnectorAction K C π δ ε) → Decidable (s.Careful a)
  | .h1 b => s.h1.decidableCareful b
  | .connect _ | .transport .. | .acquired .. | .handshake .. | .cancel _
  | .connErr _ | .setHttp1Only | .setHttp2Only | .dropConnector =>
      .isTrue trivial

/-- The HTTP/1.1 half of a state reached is a state reached. -/
theorem HttpConnector.h1_reachable {protocol : Protocol}
    (hr : (HttpConnector.machine protocol).ReachableUnder
      (fun (s : HttpConnector K C π δ) (a : ConnectorAction K C π δ ε) =>
        s.Careful a) s) :
    (H1World.machine none none).ReachableUnder
      (fun (s : H1World K C π δ) (a : H1Action K C π δ ε) => s.Careful a)
      s.h1 := by
  refine hr.invariant (I := fun s => (H1World.machine none
    none).ReachableUnder (fun (s : H1World K C π δ)
      (a : H1Action K C π δ ε) => s.Careful a) s.h1) ?_ ?_
  · intro s hinit
    obtain ⟨now, rfl⟩ := hinit
    exact .init ⟨now, rfl⟩
  · intro s a s' _ ih hc hs
    rcases (transition_step hs).h1_step with heq | ⟨b, hb, hwhy⟩
    · rw [heq]
      exact ih
    · refine .step ih ?_ hb
      rcases hwhy with ⟨p, rfl⟩ | rfl
      · trivial
      · exact hc

/-- `connect` returns no unfinished HTTP/1.1 connection. -/
theorem HttpConnector.finished_of_returned {protocol : Protocol}
    (hr : (HttpConnector.machine protocol).ReachableUnder
      (fun (s : HttpConnector K C π δ) (a : ConnectorAction K C π δ ε) =>
        s.Careful a) s)
    {a : ConnectorAction K C π δ ε} (hs : s.step a = some s') {h : Nat}
    {c : C} (hret : s'.returned = some (.http1 h c)) :
    ¬ s.h1.Unfinished c := by
  have hr1 := HttpConnector.h1_reachable hr
  cases transition_step hs with
  | hit2 | hitLocked | established =>
      simp [HttpConnector.finish] at hret
  | leave | toLock | toHandshake | unlock | miss =>
      simp [HttpConnector.goTo] at hret
  | connErr | setMode | h1 | dropped => simp at hret
  | hit1 key h1 p pool hpool hmode hget =>
      obtain ⟨⟨w, r⟩, hw, heq⟩ := Option.map_eq_some_iff.mp hget
      cases heq
      have hcp : p.value = c :=
        (HttpConnection.http1.inj (Option.some.inj hret)).2
      rw [← hcp]
      exact (H1World.safe_of_reachable hr1).got key w p hw
  | linked t key c' alpn h1 hcall hnew hh1 hlink =>
      have hcc : c' = c :=
        (HttpConnection.http1.inj (Option.some.inj hret)).2
      rw [← hcc]
      obtain ⟨w, hw, -⟩ := Option.map_eq_some_iff.mp hlink
      obtain ⟨hfresh, -⟩ := World.link_eq_some hw
      obtain ⟨l, hl, t⟩ := exists_custody (H1World.world_reachable hr1)
      intro hor
      rcases hor with ⟨hd, -, hown⟩ | hab
      · exact t.not_fresh_of_owns (Custody.orderly_of_reachable hl) hown
          hfresh
      · obtain ⟨⟨d, hd⟩, hmem, rfl⟩ := List.mem_map.mp hab
        exact (H1World.inv_of_reachable hr1).entered d hd hmem hfresh

/-- A careless step has an unsafe continuation. -/
theorem HttpConnector.unsafe_of_careless {protocol : Protocol}
    {a : ConnectorAction K C π δ ε}
    (hr : (HttpConnector.machine (ε := ε) protocol).Reachable s)
    (hs : s.step a = some s') (hc : ¬ s.Careful a) :
    ∃ as s'', (HttpConnector.machine (ε := ε) protocol).run s' as
      = some s'' ∧ ¬ s''.h1.Safe := by
  have hworld := HttpConnector.world_reachable hr
  cases a with
  | h1 b =>
      simp only [HttpConnector.step] at hs
      split at hs
      next hcallers =>
        obtain ⟨h1, hb, rfl⟩ := Option.map_eq_some_iff.mp hs
        rcases H1World.unsafe_of_careless hworld hb hc with
          hbad | ⟨h, h1', hdrop, hbad⟩
        · exact ⟨[], _, rfl, hbad⟩
        · refine ⟨[.h1 (.dropHandle h)], { s with
            h1 := h1', returned := none }, Machine.run_singleton ?_, hbad⟩
          simp only [HttpConnector.machine, HttpConnector.step, callers,
            if_true, hdrop, Option.map_some]
      next => cases hs
  | connect | transport | acquired | handshake | cancel | connErr
    | setHttp1Only | setHttp2Only | dropConnector =>
      exact absurd trivial hc

-- ============================================================ the promise

/-- Pooling is safe under cancellation, for both connectors, in every
run whose steps are careful; and from any state reached a careless step
has an unsafe continuation. -/
theorem safe_under_cancellation :
    (∀ (idleInterval maxIdle : Option Nat) (s : H1World K C π δ),
      (H1World.machine idleInterval maxIdle).ReachableUnder
        (fun s (a : H1Action K C π δ ε) => s.Careful a) s → s.Safe)
    ∧ (∀ (protocol : Protocol) (s : HttpConnector K C π δ),
      (HttpConnector.machine protocol).ReachableUnder
        (fun s (a : ConnectorAction K C π δ ε) => s.Careful a) s →
      s.h1.Safe ∧ ∀ (a : ConnectorAction K C π δ ε) s' h c,
        s.step a = some s' → s'.returned = some (.http1 h c) →
        ¬ s.h1.Unfinished c)
    ∧ (∀ (idleInterval maxIdle : Option Nat) (s s' : H1World K C π δ)
      (a : H1Action K C π δ ε),
      (H1World.machine (ε := ε) idleInterval maxIdle).Reachable s →
      s.step a = some s' → ¬ s.Careful a →
      ∃ as s'', (H1World.machine (ε := ε) idleInterval maxIdle).run s' as
        = some s'' ∧ ¬ s''.Safe)
    ∧ ∀ (protocol : Protocol) (s s' : HttpConnector K C π δ)
      (a : ConnectorAction K C π δ ε),
      (HttpConnector.machine (ε := ε) protocol).Reachable s →
      s.step a = some s' → ¬ s.Careful a →
      ∃ as s'', (HttpConnector.machine (ε := ε) protocol).run s' as
        = some s'' ∧ ¬ s''.h1.Safe := by
  refine ⟨?_, ?_, ?_, ?_⟩
  · exact fun idleInterval maxIdle s hr => H1World.safe_of_reachable hr
  · intro protocol s hr
    exact ⟨H1World.safe_of_reachable (HttpConnector.h1_reachable hr),
      fun a s' h c hs hret => HttpConnector.finished_of_returned hr hs hret⟩
  · intro idleInterval maxIdle s s' a hr hs hc
    rcases H1World.unsafe_of_careless (H1World.world_reachable hr) hs hc
      with hbad | ⟨h, s'', hdrop, hbad⟩
    · exact ⟨[], s', rfl, hbad⟩
    · exact ⟨[.dropHandle h], s'', Machine.run_singleton hdrop, hbad⟩
  · intro protocol s s' a hr hs hc
    exact HttpConnector.unsafe_of_careless hr hs hc

/-- A request is abandoned on a connection that an earlier one has shut:
a careful run, after which the connection is not idle. -/
theorem safe_under_cancellation_shut :
    ∃ s : HttpConnector Nat Nat Unit Unit,
      (HttpConnector.machine (ε := Unit) .auto).run
          (HttpConnector.new 0 .auto)
          [.connect 7, .transport 0 (some (1, none)),
            .h1 (.sendRequest 0),
            .h1 (.resume 0 (.sent (.error .unexpectedEof))),
            .h1 (.sendRequest 0), .h1 (.cancel 0), .h1 (.dropHandle 0)]
          = some s
        ∧ s.h1.abandoned = [(1, 0)] ∧ s.h1.Safe := by
  obtain ⟨s, hrun, habandoned⟩ : ∃ s : HttpConnector Nat Nat Unit Unit,
      (HttpConnector.machine (ε := Unit) .auto).run
          (HttpConnector.new 0 .auto)
          [.connect 7, .transport 0 (some (1, none)),
            .h1 (.sendRequest 0),
            .h1 (.resume 0 (.sent (.error .unexpectedEof))),
            .h1 (.sendRequest 0), .h1 (.cancel 0), .h1 (.dropHandle 0)]
          = some s
        ∧ s.h1.abandoned = [(1, 0)] := ⟨_, rfl, rfl⟩
  have hcareful : (HttpConnector.machine .auto).ReachableUnder
      (fun s (a : ConnectorAction Nat Nat Unit Unit Unit) => s.Careful a)
      s := .along (.init ⟨0, rfl⟩) (by decide +kernel) hrun
  exact ⟨s, hrun, habandoned,
    (safe_under_cancellation.2.1 .auto s hcareful).1⟩

/-- A request abandoned at the response head, its handle dropped: the
next `connect` for the key gets the connection, and its request reads
the leftover response. -/
theorem not_safe_under_cancellation :
    ¬ ∀ s : H1World Nat Nat Unit Unit,
      (H1World.machine (ε := Unit) none none).Reachable s → s.Safe := by
  intro hsafe
  obtain ⟨s, hrun, hleft⟩ : ∃ s : H1World Nat Nat Unit Unit,
      (H1World.machine (ε := Unit) none none).run
          (H1World.new 0 none none)
          [.pool (.connect 7), .pool (.connected 7 1), .sendRequest 0,
            .resume 0 (.sent (.ok ())), .cancel 0, .dropHandle 0,
            .pool (.connect 7), .sendRequest 1] = some s
        ∧ s.leftover = [1] := ⟨_, rfl, rfl⟩
  have hnil := (hsafe s
    (Machine.Reachable.run (.init ⟨0, rfl⟩) hrun)).leftover
  rw [hleft] at hnil
  cases hnil

end MonoioTransports.Http
