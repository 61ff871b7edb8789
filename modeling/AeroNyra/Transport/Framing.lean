import AeroNyra.Core.Message
import AeroNyra.Lib.Reader
import AeroNyra.Media.Chunker

/-! Wire frames, `[type][4-byte big-endian length][payload]`, and the reassembly of a link's frames
from the pieces that its writes carry. -/

namespace AeroNyra

namespace Envelope

def headerSize : Nat := 1 + 1 + MessageID.byteCount

def wireData (e : Envelope) : Data := e.version :: e.ttl :: e.id.bytes ++ e.ciphertext

/-- An envelope of the current version, with its hops capped. -/
def ofWire? (data : Data) : Option Envelope :=
  match data with
  | version :: ttl :: rest =>
    if headerSize ≤ data.length ∧ version = currentVersion then
      (MessageID.ofBytes? (rest.take MessageID.byteCount)).map fun id =>
        ⟨version, min ttl maxHops, id, rest.drop MessageID.byteCount⟩
    else none
  | _ => none

/-- An envelope that this device may send comes back from its bytes. -/
theorem ofWire?_wireData {e : Envelope} (hversion : e.version = currentVersion)
    (hhops : e.ttl ≤ maxHops) : ofWire? e.wireData = some e := by
  obtain ⟨version, ttl, id, ciphertext⟩ := e
  have hid : id.bytes.length = MessageID.byteCount := id.size
  have htake : (id.bytes ++ ciphertext).take MessageID.byteCount = id.bytes := List.take_left' hid
  have hdrop : (id.bytes ++ ciphertext).drop MessageID.byteCount = ciphertext := List.drop_left' hid
  have hlength : headerSize ≤ (version :: ttl :: (id.bytes ++ ciphertext)).length := by
    simp only [headerSize, List.length_cons, List.length_append, hid]
    omega
  have hcap : min ttl maxHops = ttl := if_pos hhops
  have hof : MessageID.ofBytes? id.bytes = some id := dif_pos hid
  show ofWire? (version :: ttl :: (id.bytes ++ ciphertext)) = _
  unfold ofWire?
  dsimp only
  rw [if_pos ⟨hlength, hversion⟩, htake, hdrop, hof, Option.map_some, hcap]

end Envelope

namespace BLEMeshTransport

/-- The identifier of a characteristic. -/
abbrev CBUUID := BitVec 128

inductive FrameType
  | envelope
  | bundle
  | reconnect
  | audioFrame
  deriving DecidableEq

namespace FrameType

def rawValue : FrameType → UInt8
  | envelope => 1
  | bundle => 2
  | reconnect => 3
  | audioFrame => 4

def ofRawValue? (raw : UInt8) : Option FrameType :=
  [envelope, bundle, reconnect, audioFrame].find? (·.rawValue = raw)

theorem ofRawValue?_rawValue (type : FrameType) : ofRawValue? type.rawValue = some type := by
  cases type <;> rfl

end FrameType

def lengthPrefixBytes : Nat := 4

def maxDeclaredFrameLength : Nat := 65536

/-- The frame of a payload; none when the process traps on a length that no `UInt32` holds. -/
def frame (type : FrameType) (payload : Data) : Option Data :=
  if payload.length < 2 ^ 32 then some (type.rawValue :: bigEndian payload.length ++ payload)
    else none

theorem eq_of_frame {type : FrameType} {payload wire : Data} (h : frame type payload = some wire) :
    wire = type.rawValue :: bigEndian payload.length ++ payload := by
  unfold frame at h
  split at h
  · exact (Option.some.inj h).symm
  · cases h

/-- What has been collected of a frame; the declared length is negative until it is known. -/
structure ReassemblyState where
  buffer : Data := []
  type : Option FrameType := none
  declaredLength : Int := -1
  deriving DecidableEq

namespace ReassemblyState

/-- The payload, once all of it is there. -/
def takePayload (s : ReassemblyState) (type : FrameType) :
    ReassemblyState × Option (FrameType × Data) :=
  if s.declaredLength ≤ s.buffer.length then
    ({}, some (type, s.buffer.take s.declaredLength.toNat))
  else (s, none)

/-- The length prefix; one beyond the bound drops the buffer. -/
def takeLength (s : ReassemblyState) (type : FrameType) :
    ReassemblyState × Option (FrameType × Data) :=
  if s.declaredLength < 0 then
    if lengthPrefixBytes ≤ s.buffer.length then
      let declared := readU32 s.buffer 0
      if declared ≤ maxDeclaredFrameLength then
        takePayload { s with
          buffer := s.buffer.drop lengthPrefixBytes
          declaredLength := declared } type
      else ({}, none)
    else (s, none)
  else s.takePayload type

/-- Feeds bytes, and returns the frame that they complete; an unknown type drops the buffer. -/
def ingest (s : ReassemblyState) (chunk : Data) : ReassemblyState × Option (FrameType × Data) :=
  let s := { s with buffer := s.buffer ++ chunk }
  match s.type with
  | some type => s.takeLength type
  | none =>
    match s.buffer with
    | [] => (s, none)
    | first :: rest =>
      match FrameType.ofRawValue? first with
      | some type => takeLength { s with type := some type, buffer := rest } type
      | none => ({}, none)

end ReassemblyState

/-! ### Frames in pieces -/

/-- Reassembly as a reader of the pieces of a stream. -/
def reader : Reader ReassemblyState UInt8 (FrameType × Data) := ⟨{}, ReassemblyState.ingest⟩

/-- The state after a part of a frame. -/
def collected (type : FrameType) (payload : Data) : Data → ReassemblyState
  | [] => {}
  | _ :: taken =>
    if taken.length < lengthPrefixBytes then { buffer := taken, type := some type }
    else
      { buffer := taken.drop lengthPrefixBytes
        type := some type
        declaredLength := payload.length }

variable {type : FrameType} {payload : Data}

theorem takePayload_part {taken later : Data} (h : taken ++ later = payload) :
    ReassemblyState.takePayload ⟨taken, some type, payload.length⟩ type =
      if later = [] then ({}, some (type, payload))
      else (⟨taken, some type, payload.length⟩, none) := by
  subst h
  unfold ReassemblyState.takePayload
  by_cases hlater : later = []
  · subst hlater
    simp
  · have hpos := List.length_pos_iff.mpr hlater
    rw [if_neg hlater, if_neg]
    simp only [List.length_append]
    omega

/-- A part of a frame with the whole length prefix. -/
theorem behind_prefix {taken later : Data}
    (h : taken ++ later = bigEndian payload.length ++ payload)
    (hlong : lengthPrefixBytes ≤ taken.length) :
    taken = bigEndian payload.length ++ taken.drop lengthPrefixBytes ∧
      taken.drop lengthPrefixBytes ++ later = payload := by
  have htaken : taken = bigEndian payload.length ++ taken.drop lengthPrefixBytes := by
    have htake : (taken ++ later).take lengthPrefixBytes = taken.take lengthPrefixBytes :=
      List.take_append_of_le_length hlong
    have hfour : (bigEndian payload.length).length = lengthPrefixBytes := rfl
    rw [h, List.take_left' hfour] at htake
    rw [htake, List.take_append_drop]
  refine ⟨htaken, ?_⟩
  rw [htaken, List.append_assoc] at h
  exact List.append_cancel_left h

/-- What is behind the type of a frame, in any part of it. -/
theorem takeLength_part (hsize : payload.length ≤ maxDeclaredFrameLength) (raw : UInt8)
    {taken later : Data} (h : taken ++ later = bigEndian payload.length ++ payload) :
    ReassemblyState.takeLength ⟨taken, some type, -1⟩ type =
      if later = [] then ({}, some (type, payload))
      else (collected type payload (raw :: taken), none) := by
  unfold ReassemblyState.takeLength
  rw [if_pos (show (-1 : Int) < 0 by omega)]
  by_cases hlong : lengthPrefixBytes ≤ taken.length
  · obtain ⟨htaken, hrest⟩ := behind_prefix h hlong
    have hread : readU32 taken 0 = payload.length := by
      have hsmall : payload.length < 2 ^ 32 := by
        unfold maxDeclaredFrameLength at hsize
        omega
      have hread := MediaChunker.readU32_bigEndian hsmall [] (taken.drop lengthPrefixBytes)
      rw [List.nil_append, ← htaken] at hread
      exact hread
    dsimp only
    rw [if_pos hlong, hread, if_pos hsize, takePayload_part hrest, collected,
      if_neg (show ¬taken.length < lengthPrefixBytes by omega)]
  · have hlater : later ≠ [] := by
      rintro rfl
      apply hlong
      rw [List.append_nil] at h
      rw [h, List.length_append, MediaChunker.length_bigEndian]
      exact Nat.le_add_right _ _
    rw [if_neg hlong, if_neg hlater, collected,
      if_pos (show taken.length < lengthPrefixBytes by omega)]

/-- A frame of a declared length within the bound is read in whatever pieces it comes. -/
theorem expects_frame (hsize : payload.length ≤ maxDeclaredFrameLength) :
    reader.Expects (type, payload) {} (type.rawValue :: bigEndian payload.length ++ payload) := by
  refine Reader.Expects.of_prefixes (collected type payload) ?_ [] _ rfl
  intro done piece later hword hpiece
  show ReassemblyState.ingest (collected type payload done) piece = _
  cases done with
  | nil =>
    obtain ⟨raw, taken, rfl⟩ := List.exists_cons_of_ne_nil hpiece
    obtain ⟨hraw, htaken⟩ := List.cons.inj hword
    subst hraw
    simp only [collected, ReassemblyState.ingest, List.nil_append, FrameType.ofRawValue?_rawValue]
    exact takeLength_part hsize type.rawValue htaken
  | cons raw taken =>
    obtain ⟨hraw, htaken⟩ := List.cons.inj hword
    subst hraw
    have htaken : taken ++ piece ++ later = bigEndian payload.length ++ payload := htaken
    by_cases hlong : taken.length < lengthPrefixBytes
    · rw [show collected type payload (type.rawValue :: taken) = ⟨taken, some type, -1⟩ from
        if_pos hlong]
      exact takeLength_part hsize type.rawValue htaken
    · rw [show collected type payload (type.rawValue :: taken) =
        ⟨taken.drop lengthPrefixBytes, some type, payload.length⟩ from if_neg hlong]
      have hlong : lengthPrefixBytes ≤ taken.length := by omega
      rw [List.append_assoc] at htaken
      obtain ⟨_, hrest⟩ := behind_prefix htaken hlong
      rw [← List.append_assoc] at hrest
      have hlonger : ¬(taken ++ piece).length < lengthPrefixBytes := by
        rw [List.length_append]
        omega
      have hafter : collected type payload (type.rawValue :: taken ++ piece) =
          ⟨taken.drop lengthPrefixBytes ++ piece, some type, payload.length⟩ := by
        rw [← List.drop_append_of_le_length hlong]
        exact if_neg hlonger
      rw [hafter]
      show ReassemblyState.takeLength ⟨_, some type, payload.length⟩ type = _
      unfold ReassemblyState.takeLength
      rw [if_neg (show ¬(payload.length : Int) < 0 by omega)]
      exact takePayload_part hrest

/-- The chunks are those of the frame, none of them empty, and its length is within the bound. -/
structure InChunks (word : (FrameType × Data) × List Data) : Prop where
  framed : frame word.1.1 word.1.2 = some word.2.flatten
  bound : word.1.2.length ≤ maxDeclaredFrameLength
  nonempty : ∀ chunk ∈ word.2, chunk ≠ []

theorem InChunks.ready {word : (FrameType × Data) × List Data} (h : InChunks word) :
    reader.Ready {} word := by
  obtain ⟨⟨type, payload⟩, chunks⟩ := word
  have hwire : chunks.flatten = type.rawValue :: bigEndian payload.length ++ payload :=
    eq_of_frame h.framed
  refine ⟨?_, h.nonempty, ?_⟩
  · rintro rfl
    cases hwire
  · show reader.Expects (type, payload) {} chunks.flatten
    rw [hwire]
    exact expects_frame h.bound

/-- A frame within the bound is read from its chunks, of whatever size. -/
theorem ready_cut {type : FrameType} {payload wire : Data} {size : Nat} (hsize : 0 < size)
    (hframe : frame type payload = some wire) (hbound : payload.length ≤ maxDeclaredFrameLength) :
    reader.Ready {} ((type, payload), Pieces.cut size wire) := by
  refine InChunks.ready ⟨?_, hbound, fun piece hpiece => Pieces.ne_nil_of_mem_cut hsize hpiece⟩
  show frame type payload = some (Pieces.cut size wire).flatten
  rw [Pieces.flatten_cut hsize, hframe]

/-- The envelope that a completed frame yields. -/
def dispatchFrame : FrameType × Data → Option Envelope
  | (.envelope, payload) => Envelope.ofWire? payload
  | _ => none

end BLEMeshTransport

end AeroNyra
