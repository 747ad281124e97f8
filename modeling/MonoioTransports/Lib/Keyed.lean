/-
Finite maps and queues, as far as keyed FIFO stores need them.

The map is Mathlib's `AList`; what is added is the in-place `retain` of
hash maps (the closure may rewrite the value before it answers whether
the entry stays) and the reading of a map of lists as one queue per key,
absent keys holding the empty queue.

For queues the two facts are that popping `n` times splits the list, and
that filtering a list by a predicate which never turns false again
towards the back removes a prefix of it.
-/
import Mathlib.Algebra.BigOperators.Group.Finset.Basic
import Mathlib.Algebra.Order.BigOperators.Group.Finset
import Mathlib.Data.List.AList

namespace Lib

universe u v

variable {κ : Type u} {ν : Type v}

-- ====================================================== retaining maps

/-- Visit every entry once; `f` rewrites the value and says whether the
entry stays. -/
def retainMut (f : κ → ν → ν × Bool) (m : AList fun _ : κ => ν) :
    AList fun _ : κ => ν where
  entries := m.entries.filterMap fun e =>
    if (f e.1 e.2).2 then some ⟨e.1, (f e.1 e.2).1⟩ else none
  nodupKeys := by
    have hsub : ∀ l : List (Σ _ : κ, ν),
        (l.filterMap fun e =>
          if (f e.1 e.2).2 then some (⟨e.1, (f e.1 e.2).1⟩ : Σ _ : κ, ν)
          else none).keys.Sublist l.keys := by
      intro l
      induction l with
      | nil => exact List.Sublist.refl _
      | cons e l ih =>
          rw [List.filterMap_cons]
          by_cases hkeep : (f e.1 e.2).2 = true
          · simp only [hkeep, if_true, List.keys_cons]
            exact ih.cons_cons _
          · simp only [hkeep, Bool.false_eq_true, if_false, List.keys_cons]
            exact ih.cons _
    exact List.Nodup.sublist (hsub m.entries) m.nodupKeys

variable [DecidableEq κ]

/-- Retaining acts on each key by itself. -/
theorem lookup_retainMut (f : κ → ν → ν × Bool) (m : AList fun _ : κ => ν)
    (k : κ) :
    (retainMut f m).lookup k
      = (m.lookup k).bind fun v =>
          if (f k v).2 then some (f k v).1 else none := by
  obtain ⟨l, hnd⟩ := m
  show List.dlookup k (l.filterMap _) = (List.dlookup k l).bind _
  induction l with
  | nil => rfl
  | cons e l ih =>
      obtain ⟨k', v⟩ := e
      have hnd' := List.nodupKeys_cons.mp hnd
      have ih' := ih hnd'.2
      rw [List.filterMap_cons]
      by_cases hk : k = k'
      · subst hk
        rw [List.dlookup_cons_eq, Option.bind_some]
        by_cases hkeep : (f k v).2 = true
        · simp [hkeep]
        · have hnone : List.dlookup k l = none :=
            List.dlookup_eq_none.mpr hnd'.1
          rw [hnone, Option.bind_none] at ih'
          simpa [hkeep] using ih'
      · rw [List.dlookup_cons_ne l ⟨k', v⟩ hk]
        by_cases hkeep : (f k' v).2 = true
        · simp only [hkeep, if_true]
          exact (List.dlookup_cons_ne _ (⟨k', (f k' v).1⟩ : Σ _ : κ, ν)
            hk).trans ih'
        · simpa [hkeep] using ih'

/-- A value of some entry is the value found under that entry's key. -/
theorem mem_entries_iff_lookup {m : AList fun _ : κ => ν} {k : κ} {v : ν} :
    (⟨k, v⟩ : Σ _ : κ, ν) ∈ m.entries ↔ m.lookup k = some v :=
  (List.mem_dlookup_iff m.nodupKeys).symm

-- ======================================================= one queue a key

section Queues

variable {α : Type v}

/-- The queue of a key; a key without an entry has the empty queue. -/
def queue (m : AList fun _ : κ => List α) (k : κ) : List α :=
  (m.lookup k).getD []

theorem queue_of_lookup {m : AList fun _ : κ => List α} {k : κ}
    {q : List α} (h : m.lookup k = some q) : queue m k = q := by
  rw [queue, h, Option.getD_some]

theorem queue_of_lookup_none {m : AList fun _ : κ => List α} {k : κ}
    (h : m.lookup k = none) : queue m k = [] := by
  rw [queue, h, Option.getD_none]

@[simp] theorem queue_empty (k : κ) :
    queue (∅ : AList fun _ : κ => List α) k = [] := by
  rw [queue, AList.lookup_empty, Option.getD_none]

@[simp] theorem queue_insert_self (m : AList fun _ : κ => List α) (k : κ)
    (q : List α) : queue (m.insert k q) k = q := by
  rw [queue, AList.lookup_insert, Option.getD_some]

theorem queue_insert_ne (m : AList fun _ : κ => List α) {k k' : κ}
    (q : List α) (h : k' ≠ k) : queue (m.insert k q) k' = queue m k' := by
  rw [queue, AList.lookup_insert_ne h, queue]

theorem queue_insert (m : AList fun _ : κ => List α) (k k' : κ)
    (q : List α) :
    queue (m.insert k q) k' = if k' = k then q else queue m k' := by
  by_cases h : k' = k
  · rw [if_pos h, h, queue_insert_self]
  · rw [if_neg h, queue_insert_ne m q h]

/-- Rewriting every queue by `g` and dropping the emptied ones is, queue
by queue, just `g`. -/
theorem queue_retainMut {g : List α → List α} (hnil : g [] = [])
    (m : AList fun _ : κ => List α) (k : κ) :
    queue (retainMut (fun _ q => (g q, !(g q).isEmpty)) m) k
      = g (queue m k) := by
  unfold queue
  rw [lookup_retainMut]
  cases m.lookup k with
  | none => simp [hnil]
  | some q =>
      by_cases hq : g q = []
      · simp [hq]
      · simp [hq]

/-- Everything `g` picks from the queues, over all entries. -/
def collect {β : Type v} (g : List α → List β)
    (m : AList fun _ : κ => List α) : List β :=
  m.entries.flatMap fun e => g e.2

/-- What is collected is what `g` picks from the queue of some key. -/
theorem mem_collect {β : Type v} {g : List α → List β} (hnil : g [] = [])
    {m : AList fun _ : κ => List α} {b : β} :
    b ∈ collect g m ↔ ∃ k, b ∈ g (queue m k) := by
  unfold collect
  rw [List.mem_flatMap]
  constructor
  · intro h
    obtain ⟨⟨k, q⟩, he, hb⟩ := h
    refine ⟨k, ?_⟩
    rw [queue_of_lookup (mem_entries_iff_lookup.mp he)]
    exact hb
  · intro h
    obtain ⟨k, hb⟩ := h
    cases hk : m.lookup k with
    | none =>
        rw [queue_of_lookup_none hk, hnil] at hb
        cases hb
    | some q =>
        rw [queue_of_lookup hk] at hb
        exact ⟨⟨k, q⟩, mem_entries_iff_lookup.mpr hk, hb⟩

/-- A key whose queue is not empty is a key of the map. -/
theorem mem_keys_of_queue {m : AList fun _ : κ => List α} {k : κ}
    (h : queue m k ≠ []) : k ∈ m.keys := by
  cases hl : m.lookup k with
  | none => exact absurd (queue_of_lookup_none hl) h
  | some q =>
      have hsome : (m.lookup k).isSome = true := by rw [hl]; rfl
      exact AList.lookup_isSome.mp hsome

/-- Everything collected is as much as the queues hold, key by key; any
set of keys will do that has the nonempty ones. -/
theorem length_collect (m : AList fun _ : κ => List α) {keys : Finset κ}
    (hkeys : ∀ k, queue m k ≠ [] → k ∈ keys) :
    (collect id m).length = ∑ k ∈ keys, (queue m k).length := by
  have hlen : (collect id m).length
      = (m.keys.map fun k => (queue m k).length).sum := by
    unfold collect AList.keys List.keys
    rw [List.length_flatMap, List.map_map]
    refine congrArg List.sum (List.map_congr_left fun e he => ?_)
    rw [Function.comp_apply,
      queue_of_lookup (mem_entries_iff_lookup.mp he)]
    rfl
  have hzero : ∀ {k : κ}, queue m k = [] → (queue m k).length = 0 :=
    fun h => by rw [h]; rfl
  rw [hlen, ← List.sum_toFinset _ m.keys_nodup]
  -- both sets of keys may have keys whose queue is empty
  refine (Finset.sum_subset Finset.subset_union_left ?_).trans
    (Finset.sum_subset (@Finset.subset_union_right _ _ _ keys) ?_).symm
  · intro k _ hk
    apply hzero
    by_contra hne
    exact hk (List.mem_toFinset.mpr (mem_keys_of_queue hne))
  · intro k _ hk
    apply hzero
    by_contra hne
    exact hk (hkeys k hne)

/-- The keys that two maps' nonempty queues need. -/
private theorem mem_keys_of_le {m m' : AList fun _ : κ => List α}
    (hle : ∀ k, (queue m' k).length ≤ (queue m k).length) (k : κ)
    (h : queue m' k ≠ []) : k ∈ m.keys.toFinset := by
  refine List.mem_toFinset.mpr (mem_keys_of_queue fun hnil => h ?_)
  have hlen := hle k
  rw [hnil] at hlen
  exact List.length_eq_zero_iff.mp (Nat.le_zero.mp hlen)

/-- No queue longer: no more is collected. -/
theorem length_collect_le {m m' : AList fun _ : κ => List α}
    (hle : ∀ k, (queue m' k).length ≤ (queue m k).length) :
    (collect id m').length ≤ (collect id m).length := by
  rw [length_collect m (mem_keys_of_le fun _ => Nat.le_refl _),
    length_collect m' (mem_keys_of_le hle)]
  exact Finset.sum_le_sum fun k _ => hle k

/-- No queue longer and one shorter: less is collected. -/
theorem length_collect_lt {m m' : AList fun _ : κ => List α} {k : κ}
    (hle : ∀ k, (queue m' k).length ≤ (queue m k).length)
    (hlt : (queue m' k).length < (queue m k).length) :
    (collect id m').length < (collect id m).length := by
  rw [length_collect m (mem_keys_of_le fun _ => Nat.le_refl _),
    length_collect m' (mem_keys_of_le hle)]
  refine Finset.sum_lt_sum (fun k' _ => hle k') ⟨k, ?_, hlt⟩
  refine mem_keys_of_le (fun _ => Nat.le_refl _) k fun hnil => ?_
  rw [hnil] at hlt
  exact Nat.not_lt_zero _ hlt

/-- Collecting from queues without repetitions, disjoint across keys,
gives no repetitions. -/
theorem nodup_collect {β : Type v} {g : List α → List β}
    {m : AList fun _ : κ => List α}
    (hone : ∀ k, (g (queue m k)).Nodup)
    (hdis : ∀ k k' b, b ∈ g (queue m k) → b ∈ g (queue m k') → k = k') :
    (collect g m).Nodup := by
  have hq : ∀ e ∈ m.entries, queue m e.1 = e.2 := fun e he =>
    queue_of_lookup (mem_entries_iff_lookup.mp he)
  unfold collect
  rw [List.nodup_flatMap]
  constructor
  · intro e he
    rw [← hq e he]
    exact hone e.1
  · have hkeys : m.entries.Pairwise fun e e' => e.1 ≠ e'.1 :=
      List.pairwise_map.mp m.nodupKeys
    refine List.Pairwise.imp_of_mem ?_ hkeys
    intro e e' he he' hne b hb hb'
    refine hne (hdis _ _ b ?_ ?_)
    · rw [hq e he]
      exact hb
    · rw [hq e' he']
      exact hb'

-- ---------------------------------------------------- everything held

/-- Erasing a key takes its queue out of everything held. -/
private theorem perm_flatMap_kerase (k : κ)
    (m : AList fun _ : κ => List α) :
    ((m.entries.kerase k).flatMap Sigma.snd ++ queue m k).Perm
      (m.entries.flatMap Sigma.snd) := by
  by_cases hk : k ∈ m.entries.keys
  · obtain ⟨q, l₁, l₂, -, hent, herase⟩ := List.exists_of_kerase hk
    have hq : queue m k = q := by
      refine queue_of_lookup (mem_entries_iff_lookup.mp ?_)
      rw [hent]
      exact List.mem_append_right _ List.mem_cons_self
    rw [hq, herase, hent, List.flatMap_append, List.flatMap_append,
      List.flatMap_cons, List.append_assoc]
    exact List.Perm.append_left _ List.perm_append_comm
  · have hnone : m.lookup k = none := List.dlookup_eq_none.mpr hk
    rw [queue_of_lookup_none hnone, List.append_nil,
      List.kerase_of_notMem_keys hk]

/-- A new queue for a key takes the place of the old one. -/
theorem perm_collect_insert (m : AList fun _ : κ => List α) (k : κ)
    (q : List α) :
    (collect id (m.insert k q) ++ queue m k).Perm (q ++ collect id m) := by
  unfold collect
  rw [AList.entries_insert, List.flatMap_cons, List.append_assoc]
  exact List.Perm.append_left q (perm_flatMap_kerase k m)

omit [DecidableEq κ] in
/-- Filtering every queue splits what is held. -/
theorem perm_collect_filter (p : α → Bool)
    (m : AList fun _ : κ => List α) :
    (collect id (retainMut
        (fun _ q => (q.filter p, !(q.filter p).isEmpty)) m)
      ++ collect (List.filter fun a => !p a) m).Perm (collect id m) := by
  unfold collect retainMut
  dsimp only
  induction m.entries with
  | nil => exact List.Perm.refl _
  | cons e l ih =>
      have hkept : ((e :: l).filterMap fun e =>
            if (!(e.2.filter p).isEmpty) = true then
              some (⟨e.1, e.2.filter p⟩ : Σ _ : κ, List α)
            else none).flatMap (fun e => id e.2)
          = e.2.filter p ++ (l.filterMap fun e =>
              if (!(e.2.filter p).isEmpty) = true then
                some (⟨e.1, e.2.filter p⟩ : Σ _ : κ, List α)
              else none).flatMap fun e => id e.2 := by
        rw [List.filterMap_cons]
        by_cases hnil : e.2.filter p = []
        · simp [hnil]
        · simp [hnil]
      rw [hkept, List.flatMap_cons, List.flatMap_cons]
      have hsplit := List.filter_append_perm p e.2
      refine List.Perm.trans ?_ (hsplit.append ih)
      rw [List.append_assoc, List.append_assoc]
      refine List.Perm.append_left _ ?_
      rw [← List.append_assoc, ← List.append_assoc]
      exact List.Perm.append_right _ List.perm_append_comm

end Queues

-- ================================================== lists as FIFO queues

/-- Pop the front, if there is one: the element and the rest. -/
def popFront {α : Type v} : List α → Option α × List α
  | [] => (none, [])
  | a :: l => (some a, l)

/-- Pop the front `n` times: the popped elements, in order, and the
rest. Popping an empty queue pops nothing. -/
def popFronts {α : Type v} : Nat → List α → List α × List α
  | 0, l => ([], l)
  | n + 1, l =>
      match popFront l with
      | (none, l') => popFronts n l'
      | (some a, l') => (a :: (popFronts n l').1, (popFronts n l').2)

/-- Popping `n` times splits the queue after its first `n` elements. -/
theorem popFronts_eq {α : Type v} (n : Nat) (l : List α) :
    popFronts n l = (l.take n, l.drop n) := by
  induction n generalizing l with
  | zero => rfl
  | succ n ih =>
      cases l with
      | nil => simp [popFronts, popFront, ih]
      | cons a l => simp [popFronts, popFront, ih]

/-- When a predicate, once true, stays true towards the back, filtering
by it removes a prefix: the longest one on which it fails. -/
theorem filter_eq_dropWhile {α : Type v} {p : α → Bool} {l : List α}
    (h : l.Pairwise fun a b => p a = true → p b = true) :
    l.filter p = l.dropWhile fun a => !p a := by
  induction l with
  | nil => rfl
  | cons a l ih =>
      obtain ⟨hhead, htail⟩ := List.pairwise_cons.mp h
      by_cases ha : p a = true
      · have hall : ∀ b ∈ l, p b = true := fun b hb => hhead b hb ha
        simp [ha, List.filter_eq_self.mpr hall]
      · simp [ha, ih htail]

/-- The removed prefix and what stays are the whole list. -/
theorem takeWhile_append_filter {α : Type v} {p : α → Bool} {l : List α}
    (h : l.Pairwise fun a b => p a = true → p b = true) :
    (l.takeWhile fun a => !p a) ++ l.filter p = l := by
  rw [filter_eq_dropWhile h, List.takeWhile_append_dropWhile]

end Lib
