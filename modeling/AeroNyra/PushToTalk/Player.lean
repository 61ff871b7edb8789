import AeroNyra.PushToTalk.Receiver
import Mathlib.Data.List.MinMax

/-! The playing half of live audio: the jitter buffer of a link, and the player that drains the
buffer of one link on a clock.  The player's queue runs what it is given in order, so an `enqueue`
or a `drop` is one step here; whether the engine can play is the environment's. -/

namespace AeroNyra

structure PTTJitterBuffer where
  /-- The highest slot that the clock consumed, as a frame or as silence. -/
  lastPlayed : Option Nat := none
  frames : Dict Nat Pcm := ∅

namespace PTTJitterBuffer

def prebufferDepth : Nat := 3

def capacity : Nat := 8

inductive Pop
  | frame (pcm : Pcm)
  | gap
  | empty
  deriving DecidableEq

variable (b : PTTJitterBuffer)

def isReady : Bool := prebufferDepth ≤ b.frames.keys.length

def minBufferedSeq : Option Nat := b.frames.keys.min?

/-- The slot of the frame has been played. -/
def late (seq : Nat) : Bool := b.lastPlayed.any (seq ≤ ·)

/-- Drops the oldest frames beyond the capacity; each turn of the loop drops one. -/
def dropOldest : Nat → Dict Nat Pcm → Dict Nat Pcm
  | 0, frames => frames
  | turns + 1, frames =>
    if capacity < frames.keys.length then
      match frames.keys.min? with
      | some oldest => dropOldest turns (AList.erase oldest frames)
      | none => frames
    else frames

/-- Whether the frame is kept: a late one and a duplicate are not. -/
def push (seq : Nat) (pcm : Pcm) : PTTJitterBuffer × Bool :=
  if b.late seq then (b, false)
  else if (b.frames.lookup seq).isSome then (b, false)
  else
    let frames := AList.insert seq pcm b.frames
    ({ b with frames := dropOldest frames.keys.length frames }, true)

/-- One tick of the clock at `expectedSeq`, which passes the slot with or without a frame. -/
def pop (expectedSeq : Nat) : PTTJitterBuffer × Pop :=
  let frames := b.frames.filterEntries fun seq _ => expectedSeq < seq
  ({ lastPlayed := some (max (b.lastPlayed.getD expectedSeq) expectedSeq), frames },
    match b.frames.lookup expectedSeq with
    | some pcm => .frame pcm
    | none => if frames.keys.isEmpty then .empty else .gap)

/-- Drops the frames and keeps the gate. -/
def flush : PTTJitterBuffer := { b with frames := ∅ }

/-- The frame is buffered. -/
def Holds (seq : Nat) : Prop := (b.frames.lookup seq).isSome

/-! ### What is buffered -/

variable {b}

theorem mem_of_dropOldest {turns seq : Nat} {frames : Dict Nat Pcm}
    (h : ((dropOldest turns frames).lookup seq).isSome) : (frames.lookup seq).isSome := by
  induction turns generalizing frames with
  | zero => exact h
  | succ turns ih =>
    unfold dropOldest at h
    split at h
    · split at h
      · have herased := ih h
        rw [Dict.lookup_erase] at herased
        split at herased
        · cases herased
        · exact herased
      · exact h
    · exact h

@[simp] theorem push_lastPlayed (seq : Nat) (pcm : Pcm) :
    (b.push seq pcm).1.lastPlayed = b.lastPlayed := by
  unfold push
  split
  · rfl
  · split <;> rfl

/-- A push adds the frame that it keeps, and no other. -/
theorem holds_of_push {seq j : Nat} {pcm : Pcm} (h : (b.push seq pcm).1.Holds j) :
    b.Holds j ∨ (j = seq ∧ (b.push seq pcm).2 = true) := by
  unfold push at h ⊢
  split at h
  · exact .inl h
  · rename_i hlate
    split at h
    · exact .inl h
    · rename_i hnew
      have hinserted := mem_of_dropOldest h
      rw [Dict.lookup_insert] at hinserted
      split at hinserted
      · rename_i hj
        exact .inr ⟨hj, by simp [hlate, hnew]⟩
      · exact .inl hinserted

theorem holds_of_pop {expectedSeq j : Nat} (h : (b.pop expectedSeq).1.Holds j) : b.Holds j := by
  simp only [Holds, pop, Dict.lookup_filterEntries, Option.isSome_iff_exists,
    Option.filter_eq_some_iff] at h ⊢
  obtain ⟨pcm, hpcm, _⟩ := h
  exact ⟨pcm, hpcm⟩

theorem not_holds_flush (j : Nat) : ¬b.flush.Holds j := by
  simp [Holds, flush]

/-- A spurt starts at a frame that is buffered. -/
theorem holds_of_min {first : Nat} (h : b.minBufferedSeq = some first) : b.Holds first := by
  have hmem : first ∈ b.frames.keys := List.min?_mem h
  exact AList.lookup_isSome.mpr hmem

end PTTJitterBuffer

structure PTTPlayer where
  buffers : Dict UUID PTTJitterBuffer := ∅
  /-- The link that is played; its clock runs while there is one. -/
  activeLink : Option UUID := none
  /-- False while a spurt prebuffers. -/
  playing : Bool := false
  prebufferTicks : Nat := 0
  expectedSeq : Nat := 0
  silenceRun : Nat := 0

namespace PTTPlayer

def prebufferTimeoutTicks : Nat := 6

def maxConsecutiveSilence : Nat := 3

variable (p : PTTPlayer)

/-- Stops the clock and releases the claim; the gate of the link is kept with `keepBuffer`. -/
def endSpurt (keepBuffer : Bool) : PTTPlayer :=
  { p with
    playing := false
    silenceRun := 0
    buffers :=
      match p.activeLink with
      | none => p.buffers
      | some link =>
        if keepBuffer then p.buffers.modify link (·.flush) else AList.erase link p.buffers
    activeLink := none }

def startClock : PTTPlayer := { p with playing := false, prebufferTicks := 0, silenceRun := 0 }

/-- The frame joins the buffer of its link. -/
def pushFrame (link : UUID) (seq : Nat) (pcm : Pcm) : PTTPlayer :=
  { p with
    buffers := AList.insert link (((p.buffers.lookup link).getD {}).push seq pcm).1 p.buffers }

/-- The first frame claims playout for its link, and frames of other links are dropped meanwhile. -/
def enqueue (link : UUID) (seq : Nat) (pcm : Pcm) : PTTPlayer :=
  match p.activeLink with
  | none => { p.startClock with activeLink := some link }.pushFrame link seq pcm
  | some active => if active = link then p.pushFrame link seq pcm else p

def drop (link : UUID) : PTTPlayer :=
  let dropped := { p with buffers := AList.erase link p.buffers }
  if p.activeLink = some link then dropped.endSpurt false else dropped

/-- The tick up to the slot that it plays: the link whose buffer is popped at `expectedSeq`, if any.
`engine` is whether the engine can play. -/
def clock (engine : Bool) : PTTPlayer × Option UUID :=
  match p.activeLink with
  | none => (p.endSpurt false, none)
  | some link =>
    if p.playing then (p, some link)
    else
      let p := { p with prebufferTicks := p.prebufferTicks + 1 }
      let buffer := (p.buffers.lookup link).getD {}
      if buffer.isReady || decide (prebufferTimeoutTicks ≤ p.prebufferTicks) then
        match buffer.minBufferedSeq with
        | none => if prebufferTimeoutTicks ≤ p.prebufferTicks then (p.endSpurt true, none)
            else (p, none)
        | some first =>
          let p := { p with expectedSeq := first }
          if engine then ({ p with playing := true }, some link) else (p.endSpurt true, none)
      else (p, none)

/-- One slot of a link. -/
def consume (link : UUID) : PTTPlayer :=
  let popped := ((p.buffers.lookup link).getD {}).pop p.expectedSeq
  let p := { p with buffers := p.buffers.modify link fun _ => popped.1 }
  match popped.2 with
  | .frame _ => { p with silenceRun := 0, expectedSeq := (p.expectedSeq + 1) % 2 ^ 64 }
  | .gap | .empty =>
    let p := { p with silenceRun := p.silenceRun + 1 }
    if maxConsecutiveSilence ≤ p.silenceRun then p.endSpurt true
    else { p with expectedSeq := (p.expectedSeq + 1) % 2 ^ 64 }

def tick (engine : Bool) : PTTPlayer :=
  match p.clock engine with
  | (p, none) => p
  | (p, some link) => p.consume link

/-- A configuration change that stopped the engine, or a reset of the media services. -/
def engineStopped : PTTPlayer := if p.playing then p.endSpurt true else p

/-! ### The buffers -/

variable {p} {link j : UUID}

theorem lookup_drop : (p.drop link).buffers.lookup j =
    if j = link then none else p.buffers.lookup j := by
  unfold drop
  split
  · rename_i hactive
    simp only [endSpurt, hactive, Bool.false_eq_true, ↓reduceIte, Dict.lookup_erase]
    split <;> rfl
  · exact Dict.lookup_erase _ _ _

theorem lookup_enqueue {seq : Nat} {pcm : Pcm} : (p.enqueue link seq pcm).buffers.lookup j =
    if j = link ∧ (p.activeLink = none ∨ p.activeLink = some link) then
      some (((p.buffers.lookup link).getD {}).push seq pcm).1
    else p.buffers.lookup j := by
  unfold enqueue
  split
  · rename_i hnone
    simp [pushFrame, startClock, hnone]
  · rename_i active hactive
    rw [hactive]
    by_cases h : active = link
    · simp [h, pushFrame]
    · simp [h]

/-- What a spurt's end leaves is what was there, with its gate. -/
theorem lookup_endSpurt {keepBuffer : Bool} {b : PTTJitterBuffer}
    (h : (p.endSpurt keepBuffer).buffers.lookup j = some b) :
    ∃ b', p.buffers.lookup j = some b' ∧ (b = b' ∨ b = b'.flush) := by
  simp only [endSpurt] at h
  split at h
  · exact ⟨b, h, .inl rfl⟩
  · split at h
    · rw [Dict.lookup_modify] at h
      split at h
      · rename_i active hactive _ hj
        obtain ⟨b', hb', rfl⟩ := Option.map_eq_some_iff.mp h
        exact ⟨b', hj ▸ hb', .inr rfl⟩
      · exact ⟨b, h, .inl rfl⟩
    · rw [Dict.lookup_erase] at h
      split at h
      · cases h
      · exact ⟨b, h, .inl rfl⟩

/-- A tick up to its slot leaves the gates as they are. -/
theorem lookup_clock {engine : Bool} {b : PTTJitterBuffer}
    (h : (p.clock engine).1.buffers.lookup j = some b) :
    ∃ b', p.buffers.lookup j = some b' ∧ (b = b' ∨ b = b'.flush) := by
  unfold clock at h
  split at h
  · exact lookup_endSpurt h
  · split at h
    · exact ⟨b, h, .inl rfl⟩
    · dsimp only at h
      split at h
      · split at h
        · split at h
          · exact lookup_endSpurt h
          · exact ⟨b, h, .inl rfl⟩
        · split at h
          · exact ⟨b, h, .inl rfl⟩
          · exact lookup_endSpurt h
      · exact ⟨b, h, .inl rfl⟩

/-- A slot passes the gate of its link, and leaves the others as they are. -/
theorem lookup_consume {b : PTTJitterBuffer} (h : (p.consume link).buffers.lookup j = some b) :
    ∃ b', p.buffers.lookup j = some b' ∧
      ((j ≠ link ∧ (b = b' ∨ b = b'.flush)) ∨
        (j = link ∧ (b = (b'.pop p.expectedSeq).1 ∨ b = (b'.pop p.expectedSeq).1.flush))) := by
  have hpopped {b : PTTJitterBuffer}
      (h : (p.buffers.modify link fun _ =>
        (((p.buffers.lookup link).getD {}).pop p.expectedSeq).1).lookup j = some b) :
      ∃ b', p.buffers.lookup j = some b' ∧
        ((j ≠ link ∧ b = b') ∨ (j = link ∧ b = (b'.pop p.expectedSeq).1)) := by
    rw [Dict.lookup_modify] at h
    split at h
    · rename_i hj
      obtain ⟨b', hb', rfl⟩ := Option.map_eq_some_iff.mp h
      exact ⟨b', hj ▸ hb', .inr ⟨hj, by rw [hb']; rfl⟩⟩
    · rename_i hj
      exact ⟨b, h, .inl ⟨hj, rfl⟩⟩
  have hrest {b : PTTJitterBuffer}
      (h : ∃ b₁, (p.buffers.modify link fun _ =>
        (((p.buffers.lookup link).getD {}).pop p.expectedSeq).1).lookup j = some b₁ ∧
          (b = b₁ ∨ b = b₁.flush)) :
      ∃ b', p.buffers.lookup j = some b' ∧
        ((j ≠ link ∧ (b = b' ∨ b = b'.flush)) ∨
          (j = link ∧ (b = (b'.pop p.expectedSeq).1 ∨ b = (b'.pop p.expectedSeq).1.flush))) := by
    obtain ⟨b₁, hb₁, hb⟩ := h
    obtain ⟨b', hb', ⟨hj, rfl⟩ | ⟨hj, rfl⟩⟩ := hpopped hb₁
    · exact ⟨_, hb', .inl ⟨hj, hb⟩⟩
    · exact ⟨_, hb', .inr ⟨hj, hb⟩⟩
  unfold consume at h
  dsimp only at h
  split at h
  · exact hrest ⟨b, h, .inl rfl⟩
  · split at h
    · exact hrest (lookup_endSpurt h)
    · exact hrest ⟨b, h, .inl rfl⟩
  · split at h
    · exact hrest (lookup_endSpurt h)
    · exact hrest ⟨b, h, .inl rfl⟩

/-! ### The spurt -/

theorem drop_playing (h : (p.drop link).playing = true) :
    p.playing = true ∧ (p.drop link).activeLink = p.activeLink ∧ p.activeLink ≠ some link := by
  unfold drop at h ⊢
  dsimp only at h ⊢
  split at h
  · cases h
  · rename_i hother
    rw [if_neg hother]
    exact ⟨h, rfl, hother⟩

theorem enqueue_playing {seq : Nat} {pcm : Pcm} (h : (p.enqueue link seq pcm).playing = true) :
    p.playing = true ∧ (p.enqueue link seq pcm).activeLink = p.activeLink := by
  unfold enqueue at h ⊢
  split at h
  · cases h
  · split at h
    · rename_i hlink
      rw [if_pos hlink]
      exact ⟨h, rfl⟩
    · rename_i hlink
      rw [if_neg hlink]
      exact ⟨h, rfl⟩

/-- What a tick does up to its slot: it leaves the player silent, or goes on with the spurt of the
active link, or starts one at a buffered frame. -/
theorem clock_cases (engine : Bool) :
    ((p.clock engine).1.playing = false ∧ (p.clock engine).2 = none) ∨
    (∃ link, p.activeLink = some link ∧ p.playing = true ∧ p.clock engine = (p, some link)) ∨
    ∃ link first b, p.activeLink = some link ∧ p.playing = false ∧ p.buffers.lookup link = some b ∧
      b.Holds first ∧
      p.clock engine = ({ p with
        prebufferTicks := p.prebufferTicks + 1
        expectedSeq := first
        playing := true }, some link) := by
  unfold clock
  split
  · exact .inl ⟨rfl, rfl⟩
  · rename_i link hactive
    by_cases hplaying : p.playing = true
    · rw [if_pos hplaying]
      exact .inr (.inl ⟨link, hactive, hplaying, rfl⟩)
    · rw [if_neg hplaying]
      rw [Bool.not_eq_true] at hplaying
      dsimp only
      split
      · split
        · split
          · exact .inl ⟨rfl, rfl⟩
          · exact .inl ⟨hplaying, rfl⟩
        · rename_i first hfirst
          split
          · have hholds := PTTJitterBuffer.holds_of_min hfirst
            cases hb : p.buffers.lookup link with
            | none =>
              rw [hb] at hholds
              exact absurd hholds (by simp [PTTJitterBuffer.Holds])
            | some b =>
              rw [hb] at hholds
              exact .inr (.inr ⟨link, first, b, hactive, hplaying, hb, hholds, rfl⟩)
          · exact .inl ⟨rfl, rfl⟩
      · exact .inl ⟨hplaying, rfl⟩

/-- A player that is still playing after a slot has only popped its buffer. -/
theorem consume_playing (h : (p.consume link).playing = true) :
    p.playing = true ∧ (p.consume link).activeLink = p.activeLink ∧
      (p.consume link).buffers = p.buffers.modify link fun _ =>
        (((p.buffers.lookup link).getD {}).pop p.expectedSeq).1 := by
  unfold consume at h ⊢
  dsimp only at h ⊢
  split at h
  · exact ⟨h, rfl, rfl⟩
  · split at h
    · cases h
    · rename_i hrun
      rw [if_neg hrun]
      exact ⟨h, rfl, rfl⟩
  · split at h
    · cases h
    · rename_i hrun
      rw [if_neg hrun]
      exact ⟨h, rfl, rfl⟩

end PTTPlayer

end AeroNyra
