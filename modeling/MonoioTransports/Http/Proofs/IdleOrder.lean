/-
The idle queues of a `HyperH2Connector` and the order of their
timestamps.

# Where the order is lost

`put` evicts at the front of a queue, which removes the connections idle
longest while the queue stands in the order of its timestamps. An
insertion, a removal and a sweep keep that order (Pool/Proofs/Order.lean).
A reuse does not: `try_get!` begins the rest of the connection it clones
anew and leaves it where it stands, in front of connections that have
been idle longer.

# When it is kept

The order survives a reuse exactly when every ready connection behind
the reused one came to rest at this same instant, in particular when
there is none (`sorted_refresh_iff`). So the runs in which the queues
stay in order, and evictions remove what was idle longest, are those all
of whose reuses are such (`longestIdleFirst_iff`).
-/
import MonoioTransports.Http.Proofs.HyperTransition
import MonoioTransports.Pool.Proofs.Order

namespace MonoioTransports.Http

open Lib Pool

variable {K : Type}

-- ================================================= a refresh in its place

/-- Front to back the timestamps do not decrease. -/
abbrev SortedByRest (q : List (Idle HyperH2Connection)) : Prop :=
  q.Pairwise fun e e' => e.idleAt ≤ e'.idleAt

/-- Refreshed in its place, an entry of a queue in order leaves it in
order exactly when what is behind it rests since now. -/
theorem sorted_refresh_iff {now : Nat} {idle : Idle HyperH2Connection}
    {pre post : List (Idle HyperH2Connection)}
    (ho : IdleOrder now (pre ++ idle :: post)) :
    SortedByRest (pre ++ idle.resetIdle now :: post)
      ↔ ∀ e ∈ post, e.idleAt = now := by
  obtain ⟨hpre, hrest, hcross⟩ := List.pairwise_append.mp ho.sorted
  have hpost := (List.pairwise_cons.mp hrest).2
  have hpast : ∀ e ∈ post, e.idleAt ≤ now := fun e he =>
    ho.past e (List.mem_append_right _ (List.mem_cons_of_mem _ he))
  constructor
  · intro hsorted e he
    obtain ⟨-, hrefreshed, -⟩ := List.pairwise_append.mp hsorted
    have hle : now ≤ e.idleAt := (List.pairwise_cons.mp hrefreshed).1 e he
    exact Nat.le_antisymm (hpast e he) hle
  · intro hnow
    refine List.pairwise_append.mpr ⟨hpre, ?_, ?_⟩
    · refine List.pairwise_cons.mpr ⟨?_, hpost⟩
      intro e he
      exact Nat.le_of_eq (hnow e he).symm
    · intro e he e' he'
      rcases List.mem_cons.mp he' with rfl | he'
      · exact ho.past e (List.mem_append_left _ he)
      · exact hcross e he e' (List.mem_cons_of_mem _ he')

namespace HyperH2Connector

-- ================================================== promise and condition

variable [DecidableEq K] {s s' : HyperH2Connector K}

/-- The step leaves every queue in the order of its timestamps. -/
def SortsQueues (s : HyperH2Connector K) (a : HyperAction K) : Prop :=
  ∀ s', s.step a = some s' → ∀ k, SortedByRest (s'.pool.queue k)

/-- When the step inserts a connection, what it evicts came to rest no
later than anything it keeps. -/
def EvictsLongestIdle (s : HyperH2Connector K) (a : HyperAction K) :
    Prop :=
  ∀ s' t, s.step a = some s' → a = .handshake t true →
    ∀ k, ∀ e ∈ s.pool.queue k, e ∉ s'.pool.queue k →
      ∀ e' ∈ s'.pool.queue k, e.idleAt ≤ e'.idleAt

/-- The step keeps the queues in order and evicts what was idle
longest. -/
def LongestIdleFirst (s : HyperH2Connector K) (a : HyperAction K) :
    Prop :=
  s.SortsQueues a ∧ s.EvictsLongestIdle a

/-- The connection a look-up would reuse, the first ready one that is
not full, has only ready connections behind it that rest since now. -/
def ReusesLast (s : HyperH2Connector K) (key : K) : Prop :=
  ∀ pre idle post, s.kept key = pre ++ idle :: post →
    (∀ e ∈ pre, e.conn.streamFull (s.sweptBoxes key) = true) →
    idle.conn.streamFull (s.sweptBoxes key) = false →
    ∀ e ∈ post, e.idleAt = s.now

/-- A step that looks a key up reuses the last connection, if any. -/
def InOrder (s : HyperH2Connector K) : HyperAction K → Prop
  | .connect key => s.ReusesLast key
  | .locked t =>
      ∀ key l, s.calls t = some (.lock key l) → s.ReusesLast key
  | _ => True

-- ======================================================== deciding them

/-- What stands behind the first connection that is not full. -/
theorem reusesLast_iff (s : HyperH2Connector K) (key : K) :
    s.ReusesLast key
      ↔ ∀ e ∈ ((s.kept key).dropWhile
          fun e => e.conn.streamFull (s.sweptBoxes key)).tail,
        e.idleAt = s.now := by
  constructor
  · intro h
    cases hrest : (s.kept key).dropWhile
      fun e => e.conn.streamFull (s.sweptBoxes key) with
    | nil => exact fun _ he => nomatch he
    | cons idle post =>
        have hsplit := List.takeWhile_append_dropWhile
          (p := fun e : Idle HyperH2Connection =>
            e.conn.streamFull (s.sweptBoxes key)) (l := s.kept key)
        have hhead := List.head?_dropWhile_not
          (fun e : Idle HyperH2Connection =>
            e.conn.streamFull (s.sweptBoxes key)) (s.kept key)
        rw [hrest] at hsplit hhead
        exact h _ idle post hsplit.symm
          (List.all_eq_true.mp List.all_takeWhile) hhead
  · intro h pre idle post hkept hpre hfree e he
    rw [hkept, List.dropWhile_append_of_pos hpre,
      List.dropWhile_cons_of_neg (by rw [hfree]; exact Bool.false_ne_true)]
      at h
    exact h e he

/-- Whether a look-up reuses the last can be decided. -/
instance decidableReusesLast (s : HyperH2Connector K) (key : K) :
    Decidable (s.ReusesLast key) :=
  decidable_of_iff _ (s.reusesLast_iff key).symm

/-- Whether a step is in order can be decided. -/
instance decidableInOrder (s : HyperH2Connector K) :
    (a : HyperAction K) → Decidable (s.InOrder a)
  | .connect key => s.decidableReusesLast key
  | .locked t => HyperConnect.decidableLock (s.calls t)
  | .tick _ | .connected .. | .handshake .. | .cancel _ | .cloneHandle _
  | .dropHandle _ | .closed _ | .pollIdle _ => .isTrue trivial

-- ============================================================== look-ups

omit [DecidableEq K] in
/-- The loop stops at the first connection that is not full. -/
theorem firstFree_of_split (now : Nat) {boxes : RcHeap Nat}
    {idle : Idle HyperH2Connection}
    {pre : List (Idle HyperH2Connection)}
    (post : List (Idle HyperH2Connection))
    (hpre : ∀ e ∈ pre, e.conn.streamFull boxes = true)
    (hfree : idle.conn.streamFull boxes = false) :
    (firstFree now boxes (pre ++ idle :: post)).2.1
      = pre ++ idle.resetIdle now :: post := by
  induction pre with
  | nil => simp only [List.nil_append, firstFree, hfree,
      Bool.false_eq_true, if_false]
  | cons e pre ih =>
      have he := hpre e List.mem_cons_self
      have hrest := ih fun e' he' => hpre e' (List.mem_cons_of_mem _ he')
      simp only [List.cons_append, firstFree, he, if_true, hrest]

/-- Every queue of the connector is in idle order. -/
def Ordered (s : HyperH2Connector K) : Prop :=
  ∀ k, IdleOrder s.now (s.pool.queue k)

theorem Ordered.kept (ho : s.Ordered) (key : K) :
    IdleOrder s.now (s.kept key) :=
  (ho key).sublist List.filter_sublist

/-- A look-up leaves the queues in order exactly when it reuses the last
connection. -/
theorem sorted_retained_iff (ho : s.Ordered) (key : K) :
    (∀ k, SortedByRest ((s.retained key).queue k)) ↔ s.ReusesLast key := by
  obtain ⟨-, -, hq⟩ := tryGet_spec s key
  constructor
  · intro hsorted pre idle post hkept hpre hfree
    have hloop := hsorted key
    rw [hq key, if_pos rfl, hkept,
      firstFree_of_split s.now post hpre hfree] at hloop
    exact (sorted_refresh_iff (hkept ▸ ho.kept key)).mp hloop
  · intro hlast k
    rw [hq k]
    split
    next =>
      rcases firstFree_cases s.now (s.sweptBoxes key) (s.kept key) with
        ⟨-, heq⟩ | ⟨pre, idle, post, hkept, hpre, hfree, heq⟩
      · rw [heq]
        exact (ho.kept key).sorted
      · rw [heq]
        exact (sorted_refresh_iff (hkept ▸ ho.kept key)).mpr
          (hlast pre idle post hkept hpre hfree)
    next => exact (ho k).sorted

/-- No look-up leaves a timestamp in the future. -/
theorem past_retained (ho : s.Ordered) (key k : K) :
    ∀ e ∈ (s.retained key).queue k, e.idleAt ≤ s.now := by
  obtain ⟨-, -, hq⟩ := tryGet_spec s key
  rw [hq k]
  split
  next =>
    have hpast := (ho.kept key).past
    rcases firstFree_cases s.now (s.sweptBoxes key) (s.kept key) with
      ⟨-, heq⟩ | ⟨pre, idle, post, hkept, -, -, heq⟩
    · rw [heq]
      exact hpast
    · rw [heq]
      rw [hkept] at hpast
      intro e he
      rcases List.mem_append.mp he with he | he
      · exact hpast e (List.mem_append_left _ he)
      rcases List.mem_cons.mp he with rfl | he
      · exact Nat.le_refl s.now
      · exact hpast e
          (List.mem_append_right _ (List.mem_cons_of_mem _ he))
  next => exact (ho k).past

-- ================================================================== steps

/-- A `put` evicts what was idle longest. -/
theorem evicts_of_put (ho : s.Ordered) (key : K) (cn : HyperH2Connection)
    (k : K) :
    ∀ e ∈ s.pool.queue k, e ∉ (s.pool.put s.now key cn).pool.queue k →
      ∀ e' ∈ (s.pool.put s.now key cn).pool.queue k,
        e.idleAt ≤ e'.idleAt := by
  intro e he hgone e' he'
  rw [PoolInner.put, queue_insertIdle] at hgone he'
  split at hgone
  next hk =>
    rw [if_pos hk] at he'
    subst hk
    generalize evictions _ _ _ = n at hgone he'
    have hsplit := List.take_append_drop n (s.pool.queue k)
    have hfront : e ∈ (s.pool.queue k).take n := by
      rw [← hsplit] at he
      rcases List.mem_append.mp he with he | he
      · exact he
      · exact absurd (List.mem_append_left _ he) hgone
    rcases List.mem_append.mp he' with he' | he'
    · have hsorted := (ho k).sorted
      rw [← hsplit] at hsorted
      exact (List.pairwise_append.mp hsorted).2.2 e hfront e' he'
    · rw [List.mem_singleton.mp he']
      exact (ho k).past e he
  next => exact absurd he hgone

/-- While the queues are in order, evictions are right. -/
theorem evictsLongestIdle (ho : s.Ordered) (a : HyperAction K) :
    s.EvictsLongestIdle a := by
  intro s' t h ha
  cases hyper_transition h with
  | established t' key l cn e hcall hcn he =>
      subst he
      exact evicts_of_put ho key cn
  | unlock a t' key l hact hcall =>
      rcases hact with hact | hact | hact <;>
      · rw [ha] at hact
        cases hact
  | tick | hit | wait | hitLocked | begin | connected | leave | cloned
  | droppedHandle | closed | swept => cases ha

/-- A step looks a key up, and leaves what the look-up retains; or it
keeps the queues in order. -/
theorem queues_step (ho : s.Ordered) {a : HyperAction K}
    (h : s.step a = some s') :
    (∃ key, (s.InOrder a ↔ s.ReusesLast key) ∧ s'.now = s.now
        ∧ s'.pool = s.retained key)
      ∨ (s.InOrder a ∧ s'.Ordered) := by
  have hlocked : ∀ {t : Nat} {key : K} {l : Nat},
      s.calls t = some (.lock key l) →
      (s.InOrder (.locked t) ↔ s.ReusesLast key) := by
    intro t key l hcall
    refine ⟨fun h => h key l hcall, fun h key' l' hcall' => ?_⟩
    rw [hcall] at hcall'
    cases hcall'
    exact h
  cases hyper_transition h with
  | hit key conn hhit => exact Or.inl ⟨key, Iff.rfl, rfl, rfl⟩
  | wait key hmiss => exact Or.inl ⟨key, Iff.rfl, rfl, rfl⟩
  | hitLocked t key l tbl conn hcall hlock hhit =>
      exact Or.inl ⟨key, hlocked hcall, rfl, rfl⟩
  | begin t key l tbl hcall hlock hmiss =>
      exact Or.inl ⟨key, hlocked hcall, rfl, rfl⟩
  | tick dt =>
      exact Or.inr ⟨trivial, fun k => (ho k).mono (Nat.le_add_right _ _)⟩
  | established t key l cn e hcall hcn he =>
      refine Or.inr ⟨trivial, fun k => ?_⟩
      have hmove : QueueMove s.now (s.pool.queue k) (e.pool.queue k) := by
        rw [he, PoolInner.put]
        exact queueMove_insertIdle _ s.pool s.now key cn k
      exact (ho k).move hmove
  | swept ticks task pool dropped htask hpool =>
      refine Or.inr ⟨trivial, fun k => ?_⟩
      have hord : ∀ k, IdleOrder s.now (sharedQueue (some s.pool) k) := ho
      have hmove := queueMove_poll hord task ticks k
      rw [hpool] at hmove
      exact (ho k).move hmove
  | unlock a t key l hact hcall =>
      refine Or.inr ⟨?_, ho⟩
      rcases hact with rfl | rfl | rfl <;> exact trivial
  | connected | leave | cloned | droppedHandle | closed =>
      exact Or.inr ⟨trivial, ho⟩

/-- A step that sorts the queues leaves them in idle order. -/
theorem Ordered.step (ho : s.Ordered) {a : HyperAction K}
    (hsorts : s.SortsQueues a) (h : s.step a = some s') : s'.Ordered := by
  rcases queues_step ho h with ⟨key, -, hnow, hpool⟩ | ⟨-, ho'⟩
  · intro k
    refine ⟨hsorts s' h k, ?_⟩
    rw [hnow, hpool]
    exact past_retained ho key k
  · exact ho'

/-- One step from queues in order keeps the promise exactly when it
reuses the last connection. -/
theorem inOrder_iff (ho : s.Ordered) {a : HyperAction K}
    (h : s.step a = some s') : s.InOrder a ↔ s.LongestIdleFirst a := by
  have hsorts : s.InOrder a ↔ s.SortsQueues a := by
    have hunique : s.SortsQueues a ↔ ∀ k, SortedByRest (s'.pool.queue k) := by
      refine ⟨fun hs => hs s' h, fun hs s₁ h₁ => ?_⟩
      rw [h] at h₁
      cases h₁
      exact hs
    rw [hunique]
    rcases queues_step ho h with ⟨key, hin, -, hpool⟩ | ⟨hin, ho'⟩
    · rw [hin, hpool, sorted_retained_iff ho key]
    · exact iff_of_true hin fun k => (ho' k).sorted
  exact hsorts.trans (and_iff_left (evictsLongestIdle ho a)).symm

theorem ordered_newWithPool (now : Nat)
    (idleInterval maxIdle maxStreamSender : Option Nat) :
    (newWithPool now idleInterval maxIdle maxStreamSender :
      HyperH2Connector K).Ordered := by
  intro k
  have hnil : ((newWithPool now idleInterval maxIdle maxStreamSender :
      HyperH2Connector K).pool.queue k) = [] := by
    cases idleInterval <;> exact queue_empty k
  rw [hnil]
  exact IdleOrder.nil _

end HyperH2Connector

-- =================================================================== runs

open HyperH2Connector

variable [DecidableEq K] {s s' : HyperH2Connector K}

/-- In every run, the queues stay in order and evictions remove what was
idle longest exactly when every reuse is of the last ready connection of
its key, up to connections that came to rest at the same instant. -/
theorem longestIdleFirst_iff
    {idleInterval maxIdle maxStreamSender : Option Nat}
    {as : List (HyperAction K)}
    (hinit : (machine idleInterval maxIdle maxStreamSender).init s)
    (hrun : (machine idleInterval maxIdle maxStreamSender).run s as
      = some s') :
    (machine idleInterval maxIdle maxStreamSender).Along InOrder s as
      ↔ (machine idleInterval maxIdle maxStreamSender).Along
        LongestIdleFirst s as := by
  have ho : s.Ordered := by
    obtain ⟨now, rfl⟩ := hinit
    exact ordered_newWithPool now idleInterval maxIdle maxStreamSender
  exact Machine.along_iff_of_kept
    (fun _ _ _ ho h => inOrder_iff ho h)
    (fun _ _ _ ho hd h => ho.step hd.1 h) ho hrun

/-- Three connections stand pooled, the last is dropped by its caller and
reused a moment later; the next insertion evicts the first two. -/
theorem longestIdleFirst_iff_last :
    ∃ s s' : HyperH2Connector Nat,
      (machine none (some 2) (some 2)).run
          (newWithPool 0 none (some 2) (some 2))
          [.connect 7, .locked 0, .connected 0 true, .handshake 0 true,
            .tick 1,
            .connect 7, .locked 1, .connected 1 true, .handshake 1 true,
            .tick 1,
            .connect 7, .locked 2, .connected 2 true, .handshake 2 true,
            .tick 1, .dropHandle ⟨2, some ⟨2⟩⟩, .connect 7, .tick 1,
            .connect 7, .locked 4, .connected 4 true] = some s
        ∧ (machine none (some 2) (some 2)).step s (.handshake 4 true)
          = some s'
        ∧ s.pool.queue 7 = [⟨⟨0, some ⟨0⟩⟩, 0⟩, ⟨⟨1, some ⟨1⟩⟩, 1⟩,
            ⟨⟨2, some ⟨2⟩⟩, 3⟩]
        ∧ s'.pool.queue 7 = [⟨⟨2, some ⟨2⟩⟩, 3⟩, ⟨⟨3, some ⟨3⟩⟩, 4⟩]
        ∧ s.LongestIdleFirst (.handshake 4 true) := by
  obtain ⟨s, s', hrun, hstep, hq, hq'⟩ : ∃ s s' : HyperH2Connector Nat,
      (machine none (some 2) (some 2)).run
          (newWithPool 0 none (some 2) (some 2))
          [.connect 7, .locked 0, .connected 0 true, .handshake 0 true,
            .tick 1,
            .connect 7, .locked 1, .connected 1 true, .handshake 1 true,
            .tick 1,
            .connect 7, .locked 2, .connected 2 true, .handshake 2 true,
            .tick 1, .dropHandle ⟨2, some ⟨2⟩⟩, .connect 7, .tick 1,
            .connect 7, .locked 4, .connected 4 true] = some s
        ∧ (machine none (some 2) (some 2)).step s (.handshake 4 true)
          = some s'
        ∧ s.pool.queue 7 = [⟨⟨0, some ⟨0⟩⟩, 0⟩, ⟨⟨1, some ⟨1⟩⟩, 1⟩,
            ⟨⟨2, some ⟨2⟩⟩, 3⟩]
        ∧ s'.pool.queue 7 = [⟨⟨2, some ⟨2⟩⟩, 3⟩, ⟨⟨3, some ⟨3⟩⟩, 4⟩] :=
    ⟨_, _, rfl, rfl, rfl, rfl⟩
  have halong := (longestIdleFirst_iff ⟨0, rfl⟩ (Machine.run_append hrun
    (Machine.run_singleton hstep))).mp (by decide +kernel)
  exact ⟨s, s', hrun, hstep, hq, hq', halong.step hrun⟩

/-- Three connections stand pooled, the first is dropped by its caller
and reused a moment later: it rests since 3 in front of one that rests
since 1. The next insertion evicts it and keeps one that rests since
2. -/
theorem not_longestIdleFirst :
    (¬ ∀ (maxIdle maxStreamSender : Option Nat)
      (s₀ s : HyperH2Connector Nat) (as : List (HyperAction Nat)),
      (machine none maxIdle maxStreamSender).init s₀ →
      (machine none maxIdle maxStreamSender).run s₀ as = some s →
      (machine none maxIdle maxStreamSender).Along EvictsLongestIdle s₀
        as)
    ∧ ¬ ∀ (maxIdle maxStreamSender : Option Nat)
      (s₀ s : HyperH2Connector Nat) (as : List (HyperAction Nat)),
      (machine none maxIdle maxStreamSender).init s₀ →
      (machine none maxIdle maxStreamSender).run s₀ as = some s →
      (machine none maxIdle maxStreamSender).Along SortsQueues s₀ as := by
  -- the reuse leads to `s₂`, the insertion from `s₃` to `s₄`
  obtain ⟨s₁, hrun₁, s₂, hs₂, s₃, hrun₂, s₄, hs₄, hq₂, hq₃, hq₄⟩ :
      ∃ s₁ : HyperH2Connector Nat,
        (machine none (some 2) (some 2)).run
            (newWithPool 0 none (some 2) (some 2))
            [.connect 7, .locked 0, .connected 0 true, .handshake 0 true,
              .tick 1,
              .connect 7, .locked 1, .connected 1 true, .handshake 1 true,
              .tick 1,
              .connect 7, .locked 2, .connected 2 true, .handshake 2 true,
              .tick 1, .dropHandle ⟨0, some ⟨0⟩⟩] = some s₁
          ∧ ∃ s₂, (machine none (some 2) (some 2)).step s₁ (.connect 7)
              = some s₂
          ∧ ∃ s₃, (machine none (some 2) (some 2)).run s₂
              [.tick 1, .connect 7, .locked 4, .connected 4 true] = some s₃
          ∧ ∃ s₄, (machine none (some 2) (some 2)).step s₃
              (.handshake 4 true) = some s₄
          ∧ s₂.pool.queue 7 = [⟨⟨0, some ⟨0⟩⟩, 3⟩, ⟨⟨1, some ⟨1⟩⟩, 1⟩,
              ⟨⟨2, some ⟨2⟩⟩, 2⟩]
          ∧ s₃.pool.queue 7 = s₂.pool.queue 7
          ∧ s₄.pool.queue 7 = [⟨⟨2, some ⟨2⟩⟩, 2⟩, ⟨⟨3, some ⟨3⟩⟩, 4⟩] :=
    ⟨_, rfl, _, rfl, _, rfl, _, rfl, rfl, rfl, rfl⟩
  have hrun₃ := Machine.run_append hrun₁
    (Machine.run_cons_eq_some.mpr ⟨s₂, hs₂, hrun₂⟩)
  constructor
  · intro hall
    have halong := hall (some 2) (some 2) _ s₄ _ ⟨0, rfl⟩
      (Machine.run_append hrun₃ (Machine.run_singleton hs₄))
    have hle := halong.step hrun₃ s₄ 4 hs₄ rfl 7 ⟨⟨0, some ⟨0⟩⟩, 3⟩
      (by rw [hq₃, hq₂]; decide) (by rw [hq₄]; decide)
      ⟨⟨2, some ⟨2⟩⟩, 2⟩ (by rw [hq₄]; decide)
    exact absurd hle (by decide)
  · intro hall
    have halong := hall (some 2) (some 2) _ s₂ _ ⟨0, rfl⟩
      (Machine.run_append hrun₁ (Machine.run_singleton hs₂))
    have hsorted := halong.step hrun₁ s₂ hs₂ 7
    rw [hq₂] at hsorted
    exact absurd hsorted (by decide)

end MonoioTransports.Http
