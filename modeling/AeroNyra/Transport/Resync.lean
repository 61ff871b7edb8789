import AeroNyra.Transport.Reassembly

/-! What becomes of a frame that reassembly rejects by its header, and of the frames behind it.
Only what is buffered goes, so that a chunk of the frame that is still to come is taken for the
first one of another frame. -/

namespace AeroNyra

namespace BLEMeshTransport

/-- A frame of an unknown type or of a length beyond the bound. -/
structure RejectedFrame where
  raw : UInt8
  payload : Data
  size : payload.length < 2 ^ 32
  rejected : FrameType.ofRawValue? raw = none ∨ maxDeclaredFrameLength < payload.length

namespace RejectedFrame

variable (f : RejectedFrame)

def wire : Data := f.raw :: bigEndian f.payload.length ++ f.payload

/-- How many bytes it takes to reject the frame: its type, or its whole header. -/
def rejectedAfter : Nat :=
  match FrameType.ofRawValue? f.raw with
  | none => 1
  | some _ => headerLength

theorem rejectedAfter_pos : 0 < f.rejectedAfter := by
  unfold rejectedAfter
  split
  · exact Nat.one_pos
  · exact Nat.succ_pos _

theorem rejectedAfter_le : ¬f.wire.length < f.rejectedAfter := by
  have hheader : f.wire.length = headerLength + f.payload.length := by
    simp only [wire, headerLength, List.length_cons, List.length_append,
      MediaChunker.length_bigEndian, List.cons_append, lengthPrefixBytes]
    omega
  unfold rejectedAfter
  split
  · rw [hheader]
    unfold headerLength
    omega
  · omega

/-- The state after a part of the frame that does not suffice to reject it. -/
def collected : Data → ReassemblyState
  | [] => {}
  | _ :: taken => { buffer := taken, type := FrameType.ofRawValue? f.raw }

/-- In a part of the frame that does not suffice, the type is known. -/
theorem collected_type {part : Data} (hpart : part ≠ []) (hshort : part.length < f.rejectedAfter) :
    (f.collected part).type ≠ none := by
  obtain ⟨first, taken, rfl⟩ := List.exists_cons_of_ne_nil hpart
  intro hnone
  have hnone : FrameType.ofRawValue? f.raw = none := hnone
  simp [rejectedAfter, hnone] at hshort

variable {f} {taken later : Data}

/-- The declared length, in a part of the frame with all of it. -/
theorem readU32_part (h : taken ++ later = bigEndian f.payload.length ++ f.payload)
    (hlong : lengthPrefixBytes ≤ taken.length) : readU32 taken 0 = f.payload.length := by
  have htake : taken.take lengthPrefixBytes = bigEndian f.payload.length := by
    have htake : (taken ++ later).take lengthPrefixBytes = taken.take lengthPrefixBytes :=
      List.take_append_of_le_length hlong
    rw [← htake, h]
    exact List.take_left' rfl
  have hread := MediaChunker.readU32_bigEndian f.size [] (taken.drop lengthPrefixBytes)
  rw [List.nil_append, ← htake, List.take_append_drop] at hread
  exact hread

/-- Behind a known type, the whole length prefix rejects the frame. -/
theorem takeLength_rejected (type : FrameType) (hlength : maxDeclaredFrameLength < f.payload.length)
    (h : taken ++ later = bigEndian f.payload.length ++ f.payload) :
    ReassemblyState.takeLength ⟨taken, some type, -1⟩ type =
      if taken.length < lengthPrefixBytes then (⟨taken, some type, -1⟩, none) else ({}, none) := by
  unfold ReassemblyState.takeLength
  rw [if_pos (show (-1 : Int) < 0 by omega)]
  dsimp only
  by_cases hlong : lengthPrefixBytes ≤ taken.length
  · rw [if_pos hlong, if_neg (show ¬taken.length < lengthPrefixBytes by omega),
      readU32_part h hlong, if_neg (show ¬f.payload.length ≤ maxDeclaredFrameLength by omega)]
  · rw [if_neg hlong, if_pos (show taken.length < lengthPrefixBytes by omega)]

/-- A chunk of the frame, up to the one with which it is rejected. -/
theorem ingest_part (f : RejectedFrame) (done piece later : Data)
    (hword : done ++ piece ++ later = f.wire)
    (hpiece : piece ≠ []) (hdone : done.length < f.rejectedAfter) :
    (f.collected done).ingest piece =
      if (done ++ piece).length < f.rejectedAfter then (f.collected (done ++ piece), none)
      else ({}, none) := by
  unfold rejectedAfter at hdone ⊢
  cases htype : FrameType.ofRawValue? f.raw with
  | none =>
    simp only [htype] at hdone ⊢
    obtain rfl : done = [] := List.length_eq_zero_iff.mp (by omega)
    obtain ⟨first, taken, rfl⟩ := List.exists_cons_of_ne_nil hpiece
    obtain ⟨rfl, _⟩ := List.cons.inj hword
    simp [collected, ReassemblyState.ingest, htype]
  | some type =>
    dsimp only
    have hlength := f.rejected.resolve_left (by simp [htype])
    cases done with
    | nil =>
      obtain ⟨first, taken, rfl⟩ := List.exists_cons_of_ne_nil hpiece
      obtain ⟨rfl, htaken⟩ := List.cons.inj hword
      have hrejected := takeLength_rejected type hlength htaken
      simp only [collected, ReassemblyState.ingest, List.nil_append, htype, hrejected, headerLength,
        List.length_cons]
      simp only [show taken.length + 1 < 1 + lengthPrefixBytes ↔
        taken.length < lengthPrefixBytes by omega]
    | cons raw taken =>
      have htaken : taken ++ piece ++ later = bigEndian f.payload.length ++ f.payload :=
        (List.cons.inj hword).2
      have hrejected := takeLength_rejected type hlength htaken
      simp only [collected, ReassemblyState.ingest, List.cons_append, htype, hrejected,
        headerLength, List.length_cons]
      simp only [show (taken ++ piece).length + 1 < 1 + lengthPrefixBytes ↔
        (taken ++ piece).length < lengthPrefixBytes by omega]

/-- The chunks of the frame up to the one with which it is rejected. -/
theorem feedAll_part (f : RejectedFrame) {chunks : List Data} (later : Data)
    (hwire : chunks.flatten ++ later = f.wire) (hchunks : ∀ chunk ∈ chunks, chunk ≠ [])
    (hshort : chunks.dropLast.flatten.length < f.rejectedAfter) :
    reader.feedAll {} chunks =
      (if chunks.flatten.length < f.rejectedAfter then f.collected chunks.flatten else {}, []) := by
  exact Reader.feedAll_dropped f.collected rfl f.rejectedAfter_pos f.ingest_part chunks later
    hwire hchunks hshort

end RejectedFrame

/-! ### The frames behind it -/

/-- Behind the chunks, all frames that come in chunks are completed, and the first chunk is the
only one whose first byte is taken for the type of a frame. -/
structure Resynchronises (s : ReassemblyState) (chunks : List Data) : Prop where
  followUps : ∀ words : List ((FrameType × Data) × List Data), (∀ word ∈ words, InChunks word) →
    (words.map (·.1)).Sublist
      (reader.feedAll (reader.feedAll s chunks).1 (words.flatMap (·.2))).2
  noHeader : ∀ before chunk after, chunks = before ++ chunk :: after → before ≠ [] →
    (reader.feedAll s before).1.type ≠ none

/-- A state in which a type is awaited holds nothing. -/
theorem ReassemblyState.Collecting.eq_fresh {s : ReassemblyState} (h : s.Collecting)
    (htype : s.type = none) : s = {} := by
  cases h with
  | fresh => rfl
  | length type h => cases htype
  | payload type hmax h => cases htype

/-- The frame that a state completes has the type that the state has. -/
theorem ReassemblyState.type_of_ingest {s : ReassemblyState} {type : FrameType}
    (htype : s.type = some type)
    {chunk : Data} {completed : FrameType × Data} (h : (s.ingest chunk).2 = some completed) :
    completed.1 = type := by
  simp only [ReassemblyState.ingest, htype] at h
  have hpayload : ∀ u : ReassemblyState, (u.takePayload type).2 = some completed →
    completed.1 = type := by
    intro u hu
    unfold takePayload at hu
    split at hu
    · rw [← Option.some.inj hu]
    · cases hu
  unfold takeLength at h
  split at h
  · split at h
    · dsimp only at h
      split at h
      · exact hpayload _ h
      · cases h
    · cases h
  · exact hpayload _ h

/-- The frames that come after some bytes are all completed only if these left nothing behind. -/
theorem followUps_iff {s : ReassemblyState} (h : s.Collecting) :
    (∀ words : List ((FrameType × Data) × List Data), (∀ word ∈ words, InChunks word) →
      (words.map (·.1)).Sublist (reader.feedAll s (words.flatMap (·.2))).2) ↔ s = {} := by
  constructor
  · intro hall
    by_contra hne
    obtain ⟨type, htype⟩ : ∃ type, s.type = some type := by
      cases hnone : s.type with
      | none => exact absurd (h.eq_fresh hnone) hne
      | some type => exact ⟨type, rfl⟩
    obtain ⟨other, hother⟩ : ∃ other : FrameType, other ≠ type := by
      cases type with
      | envelope => exact ⟨.bundle, by decide⟩
      | bundle | reconnect | audioFrame => exact ⟨.envelope, by decide⟩
    have hempty : InChunks ((other, []), [other.rawValue :: bigEndian 0]) :=
      ⟨by simp [frame], by simp, by simp⟩
    have hsublist := hall [((other, []), [other.rawValue :: bigEndian 0])] (by simpa using hempty)
    have hmem := hsublist.subset (List.mem_singleton.mpr rfl)
    have hfed : (other, []) ∈ (s.ingest (other.rawValue :: bigEndian 0)).2.toList := by
      simpa [Reader.feedAll, reader] using hmem
    exact hother (s.type_of_ingest htype (Option.mem_toList.mp hfed))
  · rintro rfl words hwords
    rw [feedAll_inChunks hwords]

variable {history chunks : List Data}

/-- A stream that awaits a frame resynchronises after a frame that it rejects if and only if the
frame's last chunk is the one with which it is rejected. -/
theorem resynchronises_iff (f : RejectedFrame)
    (hawaits : (reader.feedAll {} history).1.type = none) (hchunks : ∀ chunk ∈ chunks, chunk ≠ [])
    (hwire : chunks.flatten = f.wire) :
    Resynchronises (reader.feedAll {} history).1 chunks ↔
      chunks.dropLast.flatten.length < f.rejectedAfter := by
  have hfresh := (ReassemblyState.Collecting.fresh.feedAll history).eq_fresh hawaits
  rw [hfresh]
  have hparts : ∀ before rest, chunks = before ++ rest →
      before.dropLast.flatten.length < f.rejectedAfter → reader.feedAll {} before =
        (if before.flatten.length < f.rejectedAfter then f.collected before.flatten
          else {}, []) := by
    intro before rest hsplit hshort
    refine f.feedAll_part rest.flatten ?_ (fun chunk hchunk => ?_) hshort
    · rw [← hwire, hsplit, List.flatten_append]
    · exact hchunks chunk (hsplit ▸ List.mem_append_left _ hchunk)
  constructor
  · intro h
    by_contra hlong
    have hpos := f.rejectedAfter_pos
    obtain ⟨before, rest, hsplit, hreject, hfirst⟩ := Reader.exists_first_reaching hpos
      (not_lt.mp hlong)
    have hne : chunks ≠ [] := by
      rintro rfl
      exact hlong hpos
    have hchunks' : chunks = before ++ (rest ++ [chunks.getLast hne]) := by
      rw [← List.append_assoc, ← hsplit, List.dropLast_append_getLast]
    have hstate := hparts before _ hchunks' hfirst
    rw [if_neg (not_lt.mpr hreject)] at hstate
    have hbefore : before ≠ [] := by
      rintro rfl
      exact absurd hreject (not_le.mpr hpos)
    obtain ⟨chunk, after, hafter⟩ : ∃ chunk after, rest ++ [chunks.getLast hne] = chunk :: after :=
      List.exists_cons_of_ne_nil (by simp)
    apply h.noHeader before chunk after (by rw [hchunks', hafter]) hbefore
    rw [hstate]
  · intro hshort
    have hall := hparts chunks [] (List.append_nil _).symm hshort
    have hlong : ¬chunks.flatten.length < f.rejectedAfter := by
      rw [hwire]
      exact f.rejectedAfter_le
    rw [if_neg hlong] at hall
    constructor
    · rw [hall]
      exact (followUps_iff .fresh).mpr rfl
    · rintro before chunk after rfl hbefore
      have hlast : (chunk :: after) ≠ [] := List.cons_ne_nil _ _
      rw [List.dropLast_append_of_ne_nil hlast, List.flatten_append, List.length_append] at hshort
      have hle := Reader.length_flatten_dropLast_le before
      rw [hparts before (chunk :: after) rfl (by omega), if_pos (by omega)]
      refine f.collected_type ?_ (by omega)
      obtain ⟨first, later, rfl⟩ := List.exists_cons_of_ne_nil hbefore
      have hfirst := hchunks first (by simp)
      simp [hfirst]

/-- A frame of a type that a later version may have, with a payload that begins like an envelope's
frame of 20 bytes. -/
def laterFrame : RejectedFrame := ⟨9, [1, 0, 0, 0, 20, 7], by decide, .inl rfl⟩

theorem resynchronises_laterFrame :
    [laterFrame.wire].dropLast.flatten.length < laterFrame.rejectedAfter ∧
      Resynchronises (reader.feedAll {} []).1 [laterFrame.wire] :=
  ⟨by decide, (resynchronises_iff laterFrame rfl (by decide) rfl).mpr (by decide)⟩

/-- In two chunks, the frame is rejected with the first one, and the second one swallows the bundle
behind it. -/
theorem laterFrame_swallows :
    let chunks : List Data := [[9, 0, 0, 0, 6], [1, 0, 0, 0, 20, 7]]
    let bundle : (FrameType × Data) × List Data := ((.bundle, [8]), [[2, 0, 0, 0, 1, 8]])
    chunks.flatten = laterFrame.wire ∧ InChunks bundle ∧
      (reader.feedAll {} (chunks ++ bundle.2)).2 = [] ∧ ¬Resynchronises {} chunks := by
  intro chunks bundle
  have hbundle : InChunks bundle := ⟨by decide, by decide, by decide⟩
  refine ⟨rfl, hbundle, by decide, fun h => ?_⟩
  have hsublist := h.followUps [bundle] (by simpa using hbundle)
  revert hsublist
  decide

end BLEMeshTransport

end AeroNyra
