import AeroNyra.Lib.Dict
import AeroNyra.Transport.Framing

/-! Reassembly of all streams that reach this device: one state for each link and characteristic,
and one direction for notifications and one for writes.  No stream sees another one's bytes, and
none holds more than a frame. -/

namespace AeroNyra

namespace BLEMeshTransport

/-- How bytes reach this device: from a peripheral or from a central. -/
inductive Inbound
  | notification
  | write
  deriving DecidableEq

/-- Where bytes come from. -/
structure Source where
  via : Inbound
  link : UUID
  char : CBUUID
  deriving DecidableEq

abbrev LinkReassembly := Dict UUID (Dict CBUUID ReassemblyState)

namespace LinkReassembly

/-- The state of a stream, which is fresh if it has none. -/
def state (reassembly : LinkReassembly) (link : UUID) (char : CBUUID) : ReassemblyState :=
  (((AList.lookup link reassembly).getD ∅).lookup char).getD {}

/-- Fetches the inner map and the state, feeds the bytes, and writes both back. -/
def ingest (reassembly : LinkReassembly) (link : UUID) (char : CBUUID) (value : Data) :
    LinkReassembly × Option (FrameType × Data) :=
  let linkMap := (AList.lookup link reassembly).getD ∅
  let state := (linkMap.lookup char).getD {}
  let ingested := state.ingest value
  (AList.insert link (linkMap.insert char ingested.1) reassembly, ingested.2)

theorem state_ingest (reassembly : LinkReassembly) (link link' : UUID) (char char' : CBUUID)
    (value : Data) :
    state (ingest reassembly link char value).1 link' char' =
      if link' = link ∧ char' = char then ((reassembly.state link char).ingest value).1
      else reassembly.state link' char' := by
  simp only [state, ingest, Dict.lookup_insert]
  by_cases hlink : link' = link
  · subst hlink
    by_cases hchar : char' = char
    · subst hchar
      simp
    · simp [hchar]
  · simp [hlink]

end LinkReassembly

/-- The streams that reach this device. -/
structure Reassembly where
  notifyReassembly : LinkReassembly := ∅
  writeReassembly : LinkReassembly := ∅

namespace Reassembly

def ingestNotify (r : Reassembly) (link : UUID) (char : CBUUID) (value : Data) :
    Reassembly × Option (FrameType × Data) :=
  let ingested := r.notifyReassembly.ingest link char value
  ({ r with notifyReassembly := ingested.1 }, ingested.2)

def ingestWrite (r : Reassembly) (link : UUID) (char : CBUUID) (value : Data) :
    Reassembly × Option (FrameType × Data) :=
  let ingested := r.writeReassembly.ingest link char value
  ({ r with writeReassembly := ingested.1 }, ingested.2)

/-- The bytes of one notification or write. -/
def ingest (r : Reassembly) (source : Source) (value : Data) :
    Reassembly × Option (FrameType × Data) :=
  match source.via with
  | .notification => r.ingestNotify source.link source.char value
  | .write => r.ingestWrite source.link source.char value

def state (r : Reassembly) (source : Source) : ReassemblyState :=
  match source.via with
  | .notification => r.notifyReassembly.state source.link source.char
  | .write => r.writeReassembly.state source.link source.char

theorem state_ingest (r : Reassembly) (source source' : Source) (value : Data) :
    (r.ingest source value).1.state source' =
      if source' = source then ((r.state source).ingest value).1 else r.state source' := by
  obtain ⟨via, link, char⟩ := source
  obtain ⟨via', link', char'⟩ := source'
  cases via <;> cases via' <;>
    simp [ingest, ingestNotify, ingestWrite, state, LinkReassembly.state_ingest]

theorem item_ingest (r : Reassembly) (source : Source) (value : Data) :
    (r.ingest source value).2 = ((r.state source).ingest value).2 := by
  obtain ⟨via, link, char⟩ := source
  cases via <;> rfl

/-- A reader for each source. -/
def demux : Demux Reassembly Source reader where
  view := state
  feed := ingest
  own r source value := by
    rw [state_ingest, if_pos rfl]
    rfl
  other r source' source value hne := by rw [state_ingest, if_neg hne]
  item := item_ingest

/-- Notifications and writes, one after another, and the frames that they complete. -/
def ingestAll (r : Reassembly) (arrivals : List (Source × Data)) :
    Reassembly × List (Source × (FrameType × Data)) :=
  demux.feedAll r arrivals

end Reassembly

/-! ### What is buffered between chunks -/

def headerLength : Nat := 1 + lengthPrefixBytes

namespace ReassemblyState

/-- A frame has not begun, or its type is known and either its length or some of its payload is
missing. -/
inductive Collecting : ReassemblyState → Prop
  | fresh : Collecting {}
  | length {buffer : Data} (type : FrameType) (h : buffer.length < lengthPrefixBytes) :
    Collecting ⟨buffer, some type, -1⟩
  | payload {buffer : Data} (type : FrameType) {declared : Nat}
      (hmax : declared ≤ maxDeclaredFrameLength)
    (h : buffer.length < declared) : Collecting ⟨buffer, some type, declared⟩

theorem collecting_takePayload {buffer : Data} (type : FrameType) {declared : Nat}
    (hmax : declared ≤ maxDeclaredFrameLength) :
    (takePayload ⟨buffer, some type, declared⟩ type).1.Collecting := by
  unfold takePayload
  split
  · exact .fresh
  · rename_i hshort
    exact .payload type hmax (by simpa using hshort)

theorem collecting_takeLength {buffer : Data} (type : FrameType) :
    (takeLength ⟨buffer, some type, -1⟩ type).1.Collecting := by
  unfold takeLength
  rw [if_pos (show (-1 : Int) < 0 by omega)]
  dsimp only
  split
  · split
    · rename_i hmax
      exact collecting_takePayload type hmax
    · exact .fresh
  · rename_i hshort
    exact .length type (by omega)

/-- Whatever bytes come. -/
theorem Collecting.ingest {s : ReassemblyState} (h : s.Collecting) (chunk : Data) :
    (s.ingest chunk).1.Collecting := by
  cases h with
  | fresh =>
    cases chunk with
    | nil => exact .fresh
    | cons first rest =>
      simp only [ReassemblyState.ingest, List.nil_append]
      split
      · exact collecting_takeLength _
      · exact .fresh
  | length type h => exact collecting_takeLength type
  | payload type hmax h =>
    simp only [ReassemblyState.ingest, takeLength]
    rw [if_neg (show ¬((_ : Nat) : Int) < 0 by omega)]
    exact collecting_takePayload type hmax

theorem Collecting.feedAll {s : ReassemblyState} (h : s.Collecting) (chunks : List Data) :
    (reader.feedAll s chunks).1.Collecting := by
  induction chunks generalizing s with
  | nil => exact h
  | cons chunk chunks ih => exact ih (h.ingest chunk)

theorem Collecting.length_buffer_le {s : ReassemblyState} (h : s.Collecting) :
    s.buffer.length ≤ maxDeclaredFrameLength + headerLength := by
  cases h with
  | fresh => exact Nat.zero_le _
  | length type h =>
    dsimp only [headerLength]
    omega
  | payload type hmax h =>
    dsimp only
    omega

end ReassemblyState

/-! ### Frames in chunks -/

/-- Frames that come in chunks, after whatever left the stream fresh, are those that the stream
completes, in order. -/
theorem feedAll_inChunks {words : List ((FrameType × Data) × List Data)}
    (hwords : ∀ word ∈ words, InChunks word) :
    reader.feedAll {} (words.flatMap (·.2)) = ({}, words.map (·.1)) :=
  Reader.feedAll_words fun word hword => (hwords word hword).ready

variable {source : Source} {r : Reassembly} {words : List ((FrameType × Data) × List Data)}
  {arrivals : List (Source × Data)}

/-- A fresh stream completes the frames whose chunks it gets, in order, whatever other streams get
in between; and no chunks at all make a stream hold more than a frame. -/
theorem stream_frames (hfresh : r.state source = {}) (hwords : ∀ word ∈ words, InChunks word)
    (harrivals : under source arrivals = words.flatMap (·.2)) :
    under source (r.ingestAll arrivals).2 = words.map (·.1) ∧
      ∀ hostile : List (Source × Data),
        (((Reassembly.ingestAll {} hostile).1.state source).buffer).length ≤
          maxDeclaredFrameLength + headerLength := by
  constructor
  · have hstream := (Reassembly.demux.feedAll_under r arrivals source).2
    have hview : Reassembly.demux.view r source = {} := hfresh
    rw [hview, harrivals, feedAll_inChunks hwords] at hstream
    exact hstream
  · intro hostile
    have hstream := (Reassembly.demux.feedAll_under {} hostile source).1
    have hcollecting := ReassemblyState.Collecting.fresh.feedAll (under source hostile)
    have hview : Reassembly.demux.view {} source = {} := by
      obtain ⟨via, link, char⟩ := source
      cases via <;> rfl
    rw [hview] at hstream
    rw [← hstream] at hcollecting
    exact hcollecting.length_buffer_le

/-- Two frames of one characteristic, the first with its header cut in two, around a frame of
another characteristic of the link. -/
theorem stream_frames_interleaved :
    let mailbox : Source := ⟨.notification, 1, 1⟩
    let audio : Source := ⟨.notification, 1, 2⟩
    under mailbox (Reassembly.ingestAll {}
        [(mailbox, [1, 0]), (audio, [4, 0, 0, 0, 0]), (mailbox, [0, 0, 1, 9]),
          (mailbox, [2, 0, 0, 0, 0])]).2 = [(.envelope, [9]), (.bundle, [])] ∧
      ∀ hostile : List (Source × Data),
        (((Reassembly.ingestAll {} hostile).1.state mailbox).buffer).length ≤
          maxDeclaredFrameLength + headerLength := by
  intro mailbox audio
  have hwords : ∀ word ∈ [((FrameType.envelope, [9]), [[1, 0], [0, 0, 1, 9]]),
      ((FrameType.bundle, []), [[2, 0, 0, 0, 0]])], InChunks word := by
    intro word hword
    simp only [List.mem_cons, List.not_mem_nil, or_false] at hword
    rcases hword with rfl | rfl
    · exact ⟨rfl, by decide, by decide⟩
    · exact ⟨rfl, by decide, by decide⟩
  exact stream_frames rfl hwords (by decide)

end BLEMeshTransport

end AeroNyra
