import AeroNyra.Lib.Pieces

/-! The slicer of captured samples into frames.  What it emits are the full blocks of everything
that was pushed, however that was cut into buffers. -/

namespace AeroNyra

/-- The slicer, with the samples that no frame has taken yet. -/
structure OpusFrameSlicer (Sample : Type) where
  frameSize : Nat
  positive : 0 < frameSize
  buffer : List Sample

namespace OpusFrameSlicer

variable {Sample : Type}

def init (frameSize : Nat) (positive : 0 < frameSize) : OpusFrameSlicer Sample :=
    ⟨frameSize, positive, []⟩

variable (s : OpusFrameSlicer Sample)

/-- The loop: frames are taken off the front of the buffer while it holds one. -/
def emit (out : List (List Sample)) (buffer : List Sample) : List (List Sample) × List Sample :=
  if s.frameSize ≤ buffer.length then emit (out ++ [buffer.take s.frameSize])
    (buffer.drop s.frameSize)
  else (out, buffer)
termination_by buffer.length
decreasing_by
  have hpositive := s.positive
  rw [List.length_drop]
  omega

def push (samples : List Sample) : OpusFrameSlicer Sample × List (List Sample) :=
  let (out, buffer) := s.emit [] (s.buffer ++ samples)
  ({ s with buffer }, out)

def remainderCount : Nat := s.buffer.length

/-- A sequence of buffers, and the frames of all of them. -/
def pushAll (s : OpusFrameSlicer Sample) : List (List Sample) →
    OpusFrameSlicer Sample × List (List Sample)
  | [] => (s, [])
  | samples :: rest =>
    let (next, out) := s.push samples
    let (last, more) := pushAll next rest
    (last, out ++ more)

/-- The loop takes the full blocks of the buffer, and leaves what is behind them. -/
theorem emit_eq (out : List (List Sample)) (buffer : List Sample) :
    s.emit out buffer =
      (out ++ Pieces.blocks s.frameSize buffer, Pieces.remainder s.frameSize buffer) := by
  fun_induction emit s out buffer with
  | case1 out buffer hle ih =>
    obtain ⟨hblocks, hremainder⟩ := Pieces.blocks_of_le s.positive hle
    rw [ih, hblocks, hremainder, List.append_assoc]
    rfl
  | case2 out buffer hlt =>
    obtain ⟨hblocks, hremainder⟩ := Pieces.blocks_of_lt (Nat.not_le.mp hlt)
    rw [hblocks, hremainder, List.append_nil]

theorem push_eq (samples : List Sample) :
    s.push samples = ({ s with buffer := Pieces.remainder s.frameSize (s.buffer ++ samples) },
      Pieces.blocks s.frameSize (s.buffer ++ samples)) := by
  rw [push, emit_eq]
  rfl

variable {s}

/-- Buffers one by one give the blocks of their concatenation, behind what the slicer holds. -/
theorem pushAll_eq (h : s.buffer.length < s.frameSize) (buffers : List (List Sample)) :
    s.pushAll buffers =
      ({ s with buffer := Pieces.remainder s.frameSize (s.buffer ++ buffers.flatten) },
      Pieces.blocks s.frameSize (s.buffer ++ buffers.flatten)) := by
  induction buffers generalizing s with
  | nil =>
    obtain ⟨hblocks, hremainder⟩ := Pieces.blocks_of_lt h
    rw [List.flatten_nil, List.append_nil, hblocks, hremainder]
    rfl
  | cons samples rest ih =>
    have hshort := Pieces.length_remainder s.positive (s.buffer ++ samples)
    obtain ⟨hblocks, hremainder⟩ := Pieces.blocks_append s.positive
      (s.buffer ++ samples) rest.flatten
    rw [List.flatten_cons, ← List.append_assoc, hblocks, hremainder, pushAll, push_eq]
    dsimp only
    rw [ih hshort]

/-- However the samples are cut into buffers, the frames are the consecutive full blocks of them
all, and the slicer holds back what is behind, which is shorter than a frame. -/
theorem slices {frameSize : Nat} (h : 0 < frameSize) (buffers : List (List Sample)) :
    ((init frameSize h).pushAll buffers).2 = Pieces.blocks frameSize buffers.flatten ∧
    ((init frameSize h).pushAll buffers).1.buffer = Pieces.remainder frameSize buffers.flatten ∧
    ((init frameSize h).pushAll buffers).1.remainderCount < frameSize ∧
    (∀ frame ∈ ((init frameSize h).pushAll buffers).2, frame.length = frameSize) ∧
    ((init frameSize h).pushAll buffers).2.flatten ++
    ((init frameSize h).pushAll buffers).1.buffer =
      buffers.flatten ∧
    ∀ buffers', buffers'.flatten = buffers.flatten →
      (init frameSize h).pushAll buffers' = (init frameSize h).pushAll buffers := by
  have hall (cut : List (List Sample)) := @pushAll_eq _ (init frameSize h) h cut
  have hrun : (init frameSize h).pushAll buffers =
      (⟨frameSize, h, Pieces.remainder frameSize buffers.flatten⟩,
        Pieces.blocks frameSize buffers.flatten) :=
    hall buffers
  rw [hrun]
  refine ⟨rfl, rfl, Pieces.length_remainder h _, ?_, Pieces.flatten_blocks h _,
    fun buffers' hsame => ?_⟩
  · intro frame hframe
    exact Pieces.length_of_mem_blocks hframe
  · rw [hall buffers', hsame]
    rfl

/-- Seven samples in two cuts. -/
theorem slices_seven :
    (pushAll (init 3 (by decide)) [[1, 2], [], [3, 4, 5, 6, 7]]).2 = Pieces.blocks 3
    [1, 2, 3, 4, 5, 6, 7] ∧
    pushAll (init 3 (by decide)) [[1, 2, 3, 4], [5, 6], [7]] =
      pushAll (init 3 (by decide)) [[1, 2], [], [3, 4, 5, 6, 7]] := by
  obtain ⟨hblocks, _, _, _, _, hcuts⟩ := slices (show 0 < 3 by decide) [[1, 2], [], [3, 4, 5, 6, 7]]
  exact ⟨hblocks, hcuts [[1, 2, 3, 4], [5, 6], [7]] rfl⟩

end OpusFrameSlicer

end AeroNyra
