/-
Reading through `HyperIoWrapper` is reading the stream.

# The two directions

Each direction lends the unfilled memory of the caller's buffer to the
stream inside as a new buffer, of which nothing is known to be written,
and then advances the caller's over what was filled there
(`Filled.lend`). Hyper's cursor advances on trust; the other way round
the bytes are first declared written and then filled, which is checked,
and the check holds (`setFilled_assumeInit`). So a lawful stream is
wrapped into a lawful one with the same source, either way, and reads
the same in any run.
-/
import MonoioTransports.Connectors.PollIo

namespace MonoioTransports.Connectors

open Lib Lib.ReadBuf

variable {P H σ ε : Type} {poll : PollReadBuf P} {rt : RtReadBuf H}
  {source : Source σ UInt8 ε}

-- =================================================================== polls

/-- Hyper reads a lawful stream lawfully. -/
theorem lawful_rtPollRead (hpoll : poll.Documented) (hrt : rt.Documented)
    {inner : Reader σ P ε} (h : Lawful poll.regions inner source) :
    Lawful rt.regions (HyperIoWrapper.rtPollRead poll rt inner)
      source := by
  intro s b hs
  obtain ⟨t, hread, hfill⟩ := h.lend s (hpoll.uninit (rt.regions b).rest)
  have hback := hrt.setUnfilled b (poll.regions t).mem hfill.length
  generalize source s (rt.regions b).room = out at hread hfill ⊢
  rcases out with ⟨s', _ | e | bytes⟩
  · refine ⟨rt.setUnfilled b (poll.regions t).mem, ?_, ?_⟩
    · simp only [HyperIoWrapper.rtPollRead, hread, told]
    · rw [hback]
      exact hfill.lend_nil hs
  · refine ⟨rt.setUnfilled b (poll.regions t).mem, ?_, ?_⟩
    · simp only [HyperIoWrapper.rtPollRead, hread, told]
    · rw [hback]
      exact hfill.lend_nil hs
  · refine ⟨rt.advance (rt.setUnfilled b (poll.regions t).mem)
      (poll.regions t).front.length, ?_, ?_⟩
    · simp only [HyperIoWrapper.rtPollRead, hread, told]
    · rw [hrt.advance, hback, hfill.front_uninit, List.length_map]
      exact hfill.lend hs

/-- A stream that Hyper reads lawfully is read lawfully back. -/
theorem lawful_asyncPollRead (hpoll : poll.Documented)
    (hrt : rt.Documented) {inner : Reader σ H ε}
    (h : Lawful rt.regions inner source) :
    Lawful poll.regions (HyperIoWrapper.asyncPollRead poll rt inner)
      source := by
  intro s b hs
  obtain ⟨t, hread, hfill⟩ := h.lend s (hrt.uninit (poll.regions b).rest)
  have hback := hpoll.setUnfilled b (rt.regions t).mem hfill.length
  generalize source s (poll.regions b).room = out at hread hfill ⊢
  rcases out with ⟨s', _ | e | bytes⟩
  · refine ⟨poll.setUnfilled b (rt.regions t).mem, ?_, ?_⟩
    · simp only [HyperIoWrapper.asyncPollRead, hread, told]
    · rw [hback]
      exact hfill.lend_nil hs
  · refine ⟨poll.setUnfilled b (rt.regions t).mem, ?_, ?_⟩
    · simp only [HyperIoWrapper.asyncPollRead, hread, told]
    · rw [hback]
      exact hfill.lend_nil hs
  · have hfill : (Regions.uninit (poll.regions b).rest).Filled
      (rt.regions t) bytes := hfill
    have hfront : (rt.regions t).front.length = bytes.length := by
      rw [hfill.front_uninit, List.length_map]
    -- the check of `set_filled` holds, and what it leaves is an advance
    have hcheck := hpoll.setFilled
      (poll.assumeInit (poll.setUnfilled b (rt.regions t).mem)
        bytes.length)
      ((poll.regions b).filled + bytes.length)
    rw [hpoll.assumeInit, hback] at hcheck
    obtain ⟨b', hset, hb'⟩ := Option.map_eq_some_iff.mp
      (hcheck.trans (Regions.setFilled_assumeInit _ bytes.length))
    refine ⟨b', ?_, ?_⟩
    · simp only [HyperIoWrapper.asyncPollRead, hread, told, hfront,
        hs.front_length, hset]
    · rw [hb']
      exact hfill.lend hs

-- ==================================================== the unified stream

/-- What a stream of either kind has to give. -/
def UnifiedL4StreamPoll.gives {S T : Type} (tcp : Source S UInt8 ε)
    (unix : Source T UInt8 ε) :
    Source (UnifiedL4StreamPoll S T) UInt8 ε := fun this n =>
  match this with
  | .tcp inner => (.tcp (tcp inner n).1, (tcp inner n).2)
  | .unix inner => (.unix (unix inner n).1, (unix inner n).2)

/-- The unified stream reads the one it holds. -/
theorem lawful_unified {S T : Type} {regions : P → Regions UInt8}
    {tcp : Reader S P ε} {unix : Reader T P ε}
    {tcpSource : Source S UInt8 ε} {unixSource : Source T UInt8 ε}
    (htcp : Lawful regions tcp tcpSource)
    (hunix : Lawful regions unix unixSource) :
    Lawful regions (UnifiedL4StreamPoll.pollRead tcp unix)
      (UnifiedL4StreamPoll.gives tcpSource unixSource) := by
  intro this b hb
  cases this with
  | tcp inner =>
      obtain ⟨b', hread, hfill⟩ := htcp inner b hb
      exact ⟨b', congrArg (Option.map _) hread, hfill⟩
  | unix inner =>
      obtain ⟨b', hread, hfill⟩ := hunix inner b hb
      exact ⟨b', congrArg (Option.map _) hread, hfill⟩

-- ==================================================================== runs

variable {inner : Reader σ P ε}

/-- Whatever the order in which Hyper polls the wrapper and changes its
buffer, it is handed what the stream inside has to give: no poll panics,
no byte is lost, repeated or made up, and the buffer stays sound. -/
theorem hyperIoWrapper_reads (hpoll : poll.Documented)
    (hrt : rt.Documented) (hinner : Lawful poll.regions inner source)
    (s : Reading σ H ε) (hs : (rt.regions s.buf).Sound)
    (as : List (ReadAction H))
    (has : ∀ b, .give b ∈ as → (rt.regions b).Sound) :
    ∃ s', (machine rt.regions
        (HyperIoWrapper.rtPollRead poll rt inner)).run s as = some s'
      ∧ (rt.regions s'.buf).Sound
      ∧ (rt.regions s'.buf).front
        = (s'.seen rt.regions).contents.map some
      ∧ s'.seen rt.regions
        = as.foldl (Seen.step rt.regions source) (s.seen rt.regions) := by
  obtain ⟨s', hrun, hsound, hseen⟩ :=
    (lawful_rtPollRead hpoll hrt hinner).run hs as has
  exact ⟨s', hrun, hsound, hsound.map_contents.symm, hseen⟩

/-- A buffer of memory and marks. -/
def PollReadBuf.plain : PollReadBuf (Regions UInt8) where
  regions := id
  uninit := Regions.uninit
  setUnfilled := Regions.setUnfilled
  assumeInit := Regions.assumeInit
  setFilled := Regions.setFilled

theorem PollReadBuf.documented_plain : PollReadBuf.plain.Documented where
  uninit := fun _ => rfl
  setUnfilled := fun _ _ _ => rfl
  assumeInit := fun _ _ => rfl
  setFilled := fun _ _ => Option.map_id'

/-- The same for Hyper. -/
def RtReadBuf.plain : RtReadBuf (Regions UInt8) where
  regions := id
  uninit := Regions.uninit
  setUnfilled := Regions.setUnfilled
  advance := Regions.advance

theorem RtReadBuf.documented_plain : RtReadBuf.plain.Documented where
  uninit := fun _ => rfl
  setUnfilled := fun _ _ _ => rfl
  advance := fun _ _ => rfl

/-- The bytes that are left. -/
def bytesLeft : Source (List UInt8) UInt8 Unit := fun left n =>
  (left.drop n, .ready (.ok (left.take n)))

theorem lawful_bytesLeft : Lawful id (copying bytesLeft) bytesLeft :=
  lawful_copying fun _ _ => List.length_take_le _ _

/-- A stream of three bytes and a buffer that holds another. -/
def threeBytes :
    Reading (UnifiedL4StreamPoll (List UInt8) (List UInt8))
      (Regions UInt8) Unit where
  reader := .tcp [1, 2, 3]
  buf := { mem := [some 9, none, none], filled := 1, init := 1 }
  answer := none

theorem sound_threeBytes : threeBytes.buf.Sound where
  filled_le := Nat.le_refl 1
  init_le := by decide
  written := by
    intro i hi
    obtain rfl : i = 0 := Nat.lt_one_iff.mp hi
    exact ⟨9, rfl⟩

/-- Two polls, and a new buffer between them. -/
theorem hyperIoWrapper_reads_three :
    ∃ s', (machine id (HyperIoWrapper.rtPollRead PollReadBuf.plain
        RtReadBuf.plain (UnifiedL4StreamPoll.pollRead (copying bytesLeft)
          (copying bytesLeft)))).run threeBytes
        [.poll, .give (Regions.uninit [none, none]), .poll] = some s'
      ∧ s'.reader = .tcp [] ∧ s'.buf.front = [some 3] := by
  obtain ⟨s', hrun, -, hfront, hseen⟩ := hyperIoWrapper_reads
    PollReadBuf.documented_plain RtReadBuf.documented_plain
    (lawful_unified lawful_bytesLeft lawful_bytesLeft) threeBytes
    sound_threeBytes [.poll, .give (Regions.uninit [none, none]), .poll]
    (by
      intro b hb
      simp only [List.mem_cons, reduceCtorEq, false_or, or_false,
        List.not_mem_nil, ReadAction.give.injEq] at hb
      rw [hb]
      exact Regions.sound_uninit _)
  refine ⟨s', hrun, congrArg Seen.source hseen, ?_⟩
  exact hfront.trans (congrArg (List.map some)
    (congrArg Seen.contents hseen))

/-- A stream that was wrapped for Hyper and wrapped back cannot be told
from the stream: in any run it is left in the same state, and its caller
with the same bytes, the same room and the same answer, both in a sound
buffer. -/
theorem wrapped_back_reads_alike (hpoll : poll.Documented)
    (hrt : rt.Documented) (hinner : Lawful poll.regions inner source)
    (s : Reading σ P ε) (hs : (poll.regions s.buf).Sound)
    (as : List (ReadAction P))
    (has : ∀ b, .give b ∈ as → (poll.regions b).Sound) :
    ∃ s₁ s₂, (machine poll.regions inner).run s as = some s₁
      ∧ (machine poll.regions (HyperIoWrapper.asyncPollRead poll rt
          (HyperIoWrapper.rtPollRead poll rt inner))).run s as = some s₂
      ∧ (poll.regions s₁.buf).Sound ∧ (poll.regions s₂.buf).Sound
      ∧ s₁.seen poll.regions = s₂.seen poll.regions := by
  obtain ⟨s₁, hrun₁, hsound₁, hseen₁⟩ := hinner.run hs as has
  have hback := lawful_asyncPollRead hpoll hrt
    (lawful_rtPollRead hpoll hrt hinner)
  obtain ⟨s₂, hrun₂, hsound₂, hseen₂⟩ := hback.run hs as has
  exact ⟨s₁, s₂, hrun₁, hrun₂, hsound₁, hsound₂,
    hseen₁.trans hseen₂.symm⟩

/-- Polled twice, the second time in vain for lack of room. -/
theorem wrapped_back_reads_alike_full :
    ∃ s₁ s₂, (machine id (UnifiedL4StreamPoll.pollRead
        (copying bytesLeft) (copying bytesLeft))).run threeBytes
        [.poll, .poll] = some s₁
      ∧ (machine id (HyperIoWrapper.asyncPollRead PollReadBuf.plain
          RtReadBuf.plain (HyperIoWrapper.rtPollRead PollReadBuf.plain
            RtReadBuf.plain (UnifiedL4StreamPoll.pollRead
              (copying bytesLeft) (copying bytesLeft))))).run threeBytes
          [.poll, .poll] = some s₂
      ∧ s₁.buf.Sound ∧ s₂.buf.Sound ∧ s₁.reader = s₂.reader
      ∧ s₁.buf.contents = s₂.buf.contents := by
  obtain ⟨s₁, s₂, hrun₁, hrun₂, hsound₁, hsound₂, hseen⟩ :=
    wrapped_back_reads_alike PollReadBuf.documented_plain
      RtReadBuf.documented_plain
      (lawful_unified lawful_bytesLeft lawful_bytesLeft) threeBytes
      sound_threeBytes [.poll, .poll] (by simp)
  exact ⟨s₁, s₂, hrun₁, hrun₂, hsound₁, hsound₂,
    congrArg Seen.source hseen, congrArg Seen.contents hseen⟩

end MonoioTransports.Connectors
