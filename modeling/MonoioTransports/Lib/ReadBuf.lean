/-
Read buffers: memory that a reader fills from the front, some of which
may never have been written.

# Two marks

A buffer's memory is divided by two marks. What lies before `filled` has
been read into the buffer; what lies before `init` is known to be
written. A buffer is `Sound` when the marks are in order and the second
one tells the truth: then nobody is handed a byte that was never
written. The operations that move the marks on trust (`assumeInit`,
`advance`) do not check it.

# Readers and their sources

A `Reader` is polled with a buffer; a poll that panics is `none`. It is
`Lawful` for a `Source`, which says what there is to read and knows of
no buffer, when a poll of a sound buffer appends what the source gives
for the room that is left, and nothing unless it is ready.

- `Filled.lend`: a buffer whose unfilled memory was lent to a reader as
  a buffer of its own is filled by advancing over what the other was
  filled with, whatever the first one had counted as written;
- `setFilled_assumeInit`: the checked way to advance agrees with the
  unchecked one and never fails;
- `Lawful.run`: polls and changes of buffer, in any order, read what the
  source gives.
-/
import MonoioTransports.Lib.Machine
import MonoioTransports.Lib.Poll
import Mathlib.Data.List.Basic

namespace Lib.ReadBuf

universe u v w x

variable {β : Type u} {σ : Type v} {B : Type w} {ε : Type x}

-- ================================================================ memory

/-- Bytes, those never written being `none`. -/
abbrev Memory (β : Type u) : Type u := List (Option β)

/-- There is a byte at the index, and it was written. -/
def Written (mem : Memory β) (i : Nat) : Prop :=
  ∃ b, mem[i]? = some (some b)

theorem written_append_left {mem mem' : Memory β} {i : Nat}
    (hi : i < mem.length) : Written (mem ++ mem') i ↔ Written mem i := by
  simp only [Written, List.getElem?_append_left hi]

theorem written_append_right {mem mem' : Memory β} {i : Nat}
    (hi : mem.length ≤ i) :
    Written (mem ++ mem') i ↔ Written mem' (i - mem.length) := by
  simp only [Written, List.getElem?_append_right hi]

theorem written_take {mem : Memory β} {n i : Nat} (hi : i < n) :
    Written (mem.take n) i ↔ Written mem i := by
  simp only [Written, List.getElem?_take_of_lt hi]

theorem written_drop {mem : Memory β} {n i : Nat} :
    Written (mem.drop n) i ↔ Written mem (n + i) := by
  simp only [Written, List.getElem?_drop]

/-- Memory that was written throughout is its bytes. -/
theorem map_filterMap_of_written {mem : Memory β}
    (h : ∀ i < mem.length, Written mem i) :
    (mem.filterMap id).map some = mem := by
  induction mem with
  | nil => rfl
  | cons o mem ih =>
      obtain ⟨b, hb⟩ := h 0 (Nat.zero_lt_succ _)
      rw [List.getElem?_cons_zero, Option.some.injEq] at hb
      have hrest : (mem.filterMap id).map some = mem := by
        apply ih
        intro i hi
        obtain ⟨c, hc⟩ := h (i + 1) (Nat.succ_lt_succ hi)
        rw [List.getElem?_cons_succ] at hc
        exact ⟨c, hc⟩
      rw [hb]
      show some b :: (mem.filterMap id).map some = some b :: mem
      rw [hrest]

-- =============================================================== buffers

/-- A buffer's memory and its marks. -/
structure Regions (β : Type u) where
  mem : Memory β
  filled : Nat
  init : Nat
  deriving DecidableEq, Repr

namespace Regions

/-- The part that was filled. -/
def front (r : Regions β) : Memory β := r.mem.take r.filled

/-- The part that was not. -/
def rest (r : Regions β) : Memory β := r.mem.drop r.filled

/-- How much more may be filled. -/
def room (r : Regions β) : Nat := r.mem.length - r.filled

/-- The bytes that were read into the buffer. -/
def contents (r : Regions β) : List β := r.front.filterMap id

/-- Memory of which nothing is known. -/
def uninit (mem : Memory β) : Regions β :=
  { mem := mem, filled := 0, init := 0 }

/-- The unfilled memory now holds `mem`. -/
def setUnfilled (r : Regions β) (mem : Memory β) : Regions β :=
  { r with mem := r.front ++ mem }

/-- Believe that the next `n` bytes were written. -/
def assumeInit (r : Regions β) (n : Nat) : Regions β :=
  { r with init := max r.init (r.filled + n) }

/-- Move the first mark, within what is known to be written. -/
def setFilled (r : Regions β) (n : Nat) : Option (Regions β) :=
  if n ≤ r.init then some { r with filled := n } else none

/-- Believe that the next `n` bytes were written, and fill them. -/
def advance (r : Regions β) (n : Nat) : Regions β :=
  { r with filled := r.filled + n, init := max r.init (r.filled + n) }

/-- The marks are in order, and what is said to be written was. -/
structure Sound (r : Regions β) : Prop where
  filled_le : r.filled ≤ r.init
  init_le : r.init ≤ r.mem.length
  written : ∀ i < r.init, Written r.mem i

/-- From `r` to `r'` these bytes were filled, nothing that was written
was lost, and the buffer is sound. -/
structure Filled (r r' : Regions β) (bytes : List β) : Prop where
  sound : r'.Sound
  length : r'.mem.length = r.mem.length
  filled : r'.filled = r.filled + bytes.length
  init : r.init ≤ r'.init
  front : r'.front = r.front ++ bytes.map some
  kept : ∀ i, Written r.mem i → Written r'.mem i

variable {r r' : Regions β} {bytes : List β}

theorem Sound.filled_le_length (h : r.Sound) : r.filled ≤ r.mem.length :=
  Nat.le_trans h.filled_le h.init_le

theorem Sound.front_length (h : r.Sound) : r.front.length = r.filled :=
  List.length_take_of_le h.filled_le_length

theorem rest_length (r : Regions β) : r.rest.length = r.room :=
  List.length_drop

theorem sound_uninit (mem : Memory β) : (uninit mem).Sound where
  filled_le := Nat.le_refl 0
  init_le := Nat.zero_le _
  written := fun _ hi => absurd hi (Nat.not_lt_zero _)

@[simp] theorem room_uninit (mem : Memory β) :
    (uninit mem).room = mem.length := rfl

/-- Nothing that was never written can be seen in a sound buffer. -/
theorem Sound.map_contents (h : r.Sound) :
    r.contents.map some = r.front := by
  apply map_filterMap_of_written
  intro i hi
  rw [h.front_length] at hi
  exact (written_take hi).mpr (h.written i (by have := h.filled_le; omega))

-- =============================================================== filling

theorem Filled.contents (h : Filled r r' bytes) :
    r'.contents = r.contents ++ bytes := by
  show r'.front.filterMap id = r.front.filterMap id ++ bytes
  rw [h.front, List.filterMap_append, List.filterMap_map]
  exact congrArg _ List.filterMap_some

theorem Filled.room (h : Filled r r' bytes) :
    r'.room = r.room - bytes.length := by
  show r'.mem.length - r'.filled = r.mem.length - r.filled - bytes.length
  rw [h.length, h.filled]
  omega

/-- What fills a buffer that was empty. -/
theorem Filled.front_uninit {mem : Memory β}
    (h : Filled (uninit mem) r' bytes) : r'.front = bytes.map some := by
  rw [h.front]
  rfl

/-- Advancing over nothing is standing still. -/
theorem advance_zero (h : r.filled ≤ r.init) : r.advance 0 = r := by
  show Regions.mk r.mem (r.filled + 0) (max r.init (r.filled + 0)) = r
  rw [Nat.add_zero, Nat.max_eq_left h]

/-- To believe that bytes were written and to fill them up to there is to
advance over them. -/
theorem setFilled_assumeInit (r : Regions β) (n : Nat) :
    (r.assumeInit n).setFilled (r.filled + n) = some (r.advance n) :=
  if_pos (Nat.le_max_right _ _)

/-- The unfilled memory of a sound buffer was lent to a reader as a
buffer of which nothing is known; advancing over what the reader filled
there fills the first with it. -/
theorem Filled.lend (hr : r.Sound)
    (h : Filled (uninit r.rest) r' bytes) :
    Filled r ((r.setUnfilled r'.mem).advance bytes.length) bytes := by
  have hfront := hr.front_length
  have hlen : r'.mem.length = r.room := h.length.trans r.rest_length
  have hfill : r'.filled = bytes.length := h.filled.trans (Nat.zero_add _)
  have hmem : r.front.length + r'.mem.length = r.mem.length := by
    have hle := hr.filled_le_length
    rw [hfront, hlen]
    show r.filled + (r.mem.length - r.filled) = r.mem.length
    omega
  -- before the mark the memory is the lender's, after it the borrower's
  have hkept : ∀ i, Written r.mem i → Written (r.front ++ r'.mem) i := by
    intro i hw
    rcases Nat.lt_or_ge i r.filled with hi | hi
    · rw [written_append_left (by omega)]
      exact (written_take hi).mpr hw
    · rw [written_append_right (by omega), hfront]
      apply h.kept
      show Written r.rest (i - r.filled)
      rw [rest, written_drop, Nat.add_sub_cancel' hi]
      exact hw
  have hsub := h.sound
  refine ⟨⟨?_, ?_, ?_⟩, ?_, rfl, Nat.le_max_left _ _, ?_, hkept⟩
  · exact Nat.le_max_right _ _
  · show max r.init (r.filled + bytes.length) ≤ (r.front ++ r'.mem).length
    have h₁ := hr.init_le
    have h₂ := hsub.filled_le_length
    rw [List.length_append, Nat.max_le]
    omega
  · intro i hi
    rcases Nat.lt_or_ge i r.init with hinit | hinit
    · exact hkept i (hr.written i hinit)
    · have hlt : i < r.filled + bytes.length := by
        have hi : i < max r.init (r.filled + bytes.length) := hi
        omega
      have hle := hr.filled_le
      show Written (r.front ++ r'.mem) i
      rw [written_append_right (by omega)]
      exact hsub.written _ (by have := hsub.filled_le; omega)
  · show (r.front ++ r'.mem).length = r.mem.length
    rw [List.length_append, hmem]
  · show (r.front ++ r'.mem).take (r.filled + bytes.length) = _
    rw [← hfront, List.take_length_add_append, ← h.front_uninit, ← hfill]
    rfl

/-- A reader that filled nothing leaves the buffer as filled as it was,
whatever it did to the memory it was lent. -/
theorem Filled.lend_nil (hr : r.Sound) (h : Filled (uninit r.rest) r' []) :
    Filled r (r.setUnfilled r'.mem) [] := by
  have hadv : (r.setUnfilled r'.mem).advance 0 = r.setUnfilled r'.mem :=
    advance_zero hr.filled_le
  rw [← hadv]
  exact h.lend hr

/-- Copy the bytes into the unfilled memory and fill them. -/
def putSlice (r : Regions β) (bytes : List β) : Regions β :=
  (r.setUnfilled (bytes.map some ++ r.rest.drop bytes.length)).advance
    bytes.length

/-- What fits is filled. -/
theorem Sound.filled_putSlice (h : r.Sound) (hfit : bytes.length ≤ r.room) :
    Filled r (r.putSlice bytes) bytes := by
  have hlen : (bytes.map some).length = bytes.length := List.length_map _
  have hfill : Filled (uninit r.rest)
      { mem := bytes.map some ++ r.rest.drop bytes.length
        filled := bytes.length, init := bytes.length } bytes := by
    refine ⟨⟨Nat.le_refl _, ?_, ?_⟩, ?_, (Nat.zero_add _).symm,
      Nat.zero_le _, ?_, ?_⟩
    · show bytes.length ≤ (bytes.map some ++ _).length
      rw [List.length_append, hlen]
      omega
    · intro i hi
      have hi : i < bytes.length := hi
      show Written (bytes.map some ++ _) i
      rw [written_append_left (by omega)]
      exact ⟨bytes[i], by rw [List.getElem?_map,
        List.getElem?_eq_getElem hi, Option.map_some]⟩
    · show (bytes.map some ++ r.rest.drop bytes.length).length
        = r.rest.length
      rw [List.length_append, List.length_drop, hlen, rest_length]
      omega
    · show (bytes.map some ++ _).take bytes.length = [] ++ _
      rw [← hlen, List.take_left, List.nil_append]
    · intro i hw
      show Written (bytes.map some ++ _) i
      rcases Nat.lt_or_ge i bytes.length with hi | hi
      · rw [written_append_left (by omega)]
        exact ⟨bytes[i], by rw [List.getElem?_map,
          List.getElem?_eq_getElem hi, Option.map_some]⟩
      · rw [written_append_right (by omega), hlen, written_drop,
          Nat.add_sub_cancel' hi]
        exact hw
  exact hfill.lend h

end Regions

-- =============================================================== readers

/-- Polled with a buffer to read into; `none` is a panic. -/
abbrev Reader (σ : Type v) (B : Type w) (ε : Type x) :=
  σ → B → Option (σ × B × Poll (Except ε Unit))

/-- What there is to read when there is so much room. -/
abbrev Source (σ : Type v) (β : Type u) (ε : Type x) :=
  σ → Nat → σ × Poll (Except ε (List β))

/-- The bytes of an answer of the source. -/
def given : Poll (Except ε (List β)) → List β
  | .ready (.ok bytes) => bytes
  | _ => []

/-- What a reader answers for it. -/
def told : Poll (Except ε (List β)) → Poll (Except ε Unit)
  | .pending => .pending
  | .ready (.ok _) => .ready (.ok ())
  | .ready (.error e) => .ready (.error e)

/-- Every poll of a sound buffer fills what the source gives. -/
def Lawful (regions : B → Regions β) (reader : Reader σ B ε)
    (source : Source σ β ε) : Prop :=
  ∀ s b, (regions b).Sound →
    ∃ b', reader s b
        = some ((source s (regions b).room).1, b',
          told (source s (regions b).room).2)
      ∧ (regions b).Filled (regions b')
        (given (source s (regions b).room).2)

/-- Polled with the unfilled memory of another buffer, a lawful reader
fills it with what there is for the room in the other. -/
theorem Lawful.lend {regions : B → Regions β} {reader : Reader σ B ε}
    {source : Source σ β ε} (h : Lawful regions reader source) (s : σ)
    {b : B} {r : Regions β} (hlent : regions b = Regions.uninit r.rest) :
    ∃ b', reader s b
        = some ((source s r.room).1, b', told (source s r.room).2)
      ∧ (Regions.uninit r.rest).Filled (regions b')
        (given (source s r.room).2) := by
  obtain ⟨b', hread, hfill⟩ := h s b
    (by rw [hlent]; exact Regions.sound_uninit _)
  rw [hlent, Regions.room_uninit, Regions.rest_length] at hread hfill
  exact ⟨b', hread, hfill⟩

/-- The reader that copies from a source. -/
def copying (source : Source σ β ε) : Reader σ (Regions β) ε :=
  fun s r =>
    some ((source s r.room).1, r.putSlice (given (source s r.room).2),
      told (source s r.room).2)

/-- A source that minds the room has a lawful reader. -/
theorem lawful_copying {source : Source σ β ε}
    (hfit : ∀ s n, (given (source s n).2).length ≤ n) :
    Lawful id (copying source) source :=
  fun s r hr => ⟨_, rfl, hr.filled_putSlice (hfit s r.room)⟩

-- ================================================================== runs

/-- A reader, the buffer its caller holds, and what the last poll
answered. -/
structure Reading (σ : Type v) (B : Type w) (ε : Type x) where
  reader : σ
  buf : B
  answer : Option (Poll (Except ε Unit))

/-- The caller polls with the buffer it holds, or takes another. -/
inductive ReadAction (B : Type w)
  | poll
  | give (buf : B)

/-- The runs of a reader, from a sound buffer. -/
def machine (regions : B → Regions β) (reader : Reader σ B ε) :
    Machine (Reading σ B ε) (ReadAction B) where
  init := fun s => (regions s.buf).Sound
  step := fun s a =>
    match a with
    | .poll => (reader s.reader s.buf).map fun x =>
        { reader := x.1, buf := x.2.1, answer := some x.2.2 }
    | .give buf => some { s with buf := buf, answer := none }

/-- What the caller sees: the bytes in its buffer and the room there. -/
structure Seen (σ : Type v) (β : Type u) (ε : Type x) where
  source : σ
  contents : List β
  room : Nat
  answer : Option (Poll (Except ε Unit))

/-- What the caller sees of a state. -/
def Reading.seen (regions : B → Regions β) (s : Reading σ B ε) :
    Seen σ β ε where
  source := s.reader
  contents := (regions s.buf).contents
  room := (regions s.buf).room
  answer := s.answer

/-- What it ought to see, going by the source. -/
def Seen.step (regions : B → Regions β) (source : Source σ β ε)
    (t : Seen σ β ε) : ReadAction B → Seen σ β ε
  | .poll =>
      { source := (source t.source t.room).1
        contents := t.contents ++ given (source t.source t.room).2
        room := t.room - (given (source t.source t.room).2).length
        answer := some (told (source t.source t.room).2) }
  | .give buf =>
      { t with contents := (regions buf).contents
               room := (regions buf).room
               answer := none }

variable {regions : B → Regions β} {reader : Reader σ B ε}
  {source : Source σ β ε} {s : Reading σ B ε}

/-- One action of the caller. -/
theorem Lawful.step (h : Lawful regions reader source)
    (hs : (regions s.buf).Sound) (a : ReadAction B)
    (ha : ∀ b, a = .give b → (regions b).Sound) :
    ∃ s', (machine regions reader).step s a = some s'
      ∧ (regions s'.buf).Sound
      ∧ s'.seen regions = (s.seen regions).step regions source a := by
  cases a with
  | poll =>
      obtain ⟨b, hpoll, hfill⟩ := h s.reader s.buf hs
      refine ⟨_, congrArg (Option.map _) hpoll, hfill.sound, ?_⟩
      show Seen.mk _ (regions b).contents (regions b).room _ = _
      rw [hfill.contents, hfill.room]
      rfl
  | give b => exact ⟨_, rfl, ha b rfl, rfl⟩

/-- A caller that takes sound buffers only, whatever its order of polls,
sees what the source gives. -/
theorem Lawful.run (h : Lawful regions reader source)
    (hs : (regions s.buf).Sound) (as : List (ReadAction B))
    (has : ∀ b, .give b ∈ as → (regions b).Sound) :
    ∃ s', (machine regions reader).run s as = some s'
      ∧ (regions s'.buf).Sound
      ∧ s'.seen regions
        = as.foldl (Seen.step regions source) (s.seen regions) := by
  induction as generalizing s with
  | nil => exact ⟨s, rfl, hs, rfl⟩
  | cons a as ih =>
      obtain ⟨s₁, hstep, hs₁, hseen₁⟩ := h.step hs a
        (fun b hb => has b (hb ▸ List.mem_cons_self))
      obtain ⟨s', hrest, hs', hseen'⟩ := ih hs₁
        (fun b hb => has b (List.mem_cons_of_mem _ hb))
      refine ⟨s', Machine.run_cons_eq_some.mpr ⟨s₁, hstep, hrest⟩, hs', ?_⟩
      rw [hseen', hseen₁]
      rfl

end Lib.ReadBuf
