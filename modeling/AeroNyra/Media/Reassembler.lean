import AeroNyra.Lib.Dict
import AeroNyra.Media.Chunker

/-! The receiver's reassembly of media transfers.  Manifests and chunks are buffered by the media
identifier alone, and a buffer is emptied only when its transfer completes. -/

namespace AeroNyra

structure MediaReassembler where
  manifests : Dict String MediaManifest
  chunks : Dict String (List Data)

namespace MediaReassembler

open MediaChunker

structure Completed where
  mediaID : String
  mime : MediaMimeType
  data : Data
  sentAt : Option Int
  isStory : Bool
  isPushToTalk : Bool
  deriving DecidableEq

/-- An arrived manifest or chunk. -/
inductive Item
  | manifest (m : MediaManifest)
  | chunk (bytes : Data)
  deriving DecidableEq

def new : MediaReassembler := ⟨∅, ∅⟩

/-- The chunks buffered for an identifier. -/
def buffered (r : MediaReassembler) (id : String) : List Data := (r.chunks.lookup id).getD []

variable (hashHex : Data → String) (r : MediaReassembler)

def tryComplete (id : String) : MediaReassembler × Option Completed :=
  match r.manifests.lookup id with
  | none => (r, none)
  | some m =>
    if (missingIndices (r.buffered id) m).isEmpty then
      match reassemble hashHex (r.buffered id) m with
      | .ok blob => (⟨AList.erase id r.manifests, AList.erase id r.chunks⟩,
          some ⟨id, m.mime, blob, m.sentAt, m.isStory, m.isPushToTalk⟩)
      | .error _ => (r, none)
    else (r, none)

def ingestManifest (m : MediaManifest) : MediaReassembler × Option Completed :=
  if manifestWithinBounds m then
    tryComplete hashHex { r with manifests := AList.insert m.mediaID m r.manifests } m.mediaID
  else (r, none)

def ingestChunk (bytes : Data) : MediaReassembler × Option Completed :=
  match parse bytes with
  | .error _ => (r, none)
  | .ok p =>
    let id := hex p.mediaID
    tryComplete hashHex { r with chunks := AList.insert id (r.buffered id ++ [bytes]) r.chunks } id

def ingest : Item → MediaReassembler × Option Completed
  | .manifest m => ingestManifest hashHex r m
  | .chunk bytes => ingestChunk hashHex r bytes

/-- The transfers that a list of items completes, in order. -/
def completions : MediaReassembler → List Item → List Completed
  | _, [] => []
  | r, item :: items =>
    (ingest hashHex r item).2.toList ++ completions (ingest hashHex r item).1 items

/-- The items complete a transfer of `blob`. -/
def Emits (items : List Item) (blob : Data) : Prop :=
  ∃ d ∈ completions hashHex r items, d.data = blob

variable {hashHex r}

theorem emits_cons_of_ingest {item : Item} {items : List Item} {blob : Data} {d : Completed}
    (h : (ingest hashHex r item).2 = some d) (hd : d.data = blob) :
    Emits hashHex r (item :: items) blob :=
  ⟨d, by simp [completions, h], hd⟩

theorem emits_cons_of_rest {item : Item} {items : List Item} {blob : Data}
    (h : Emits hashHex (ingest hashHex r item).1 items blob) :
    Emits hashHex r (item :: items) blob := by
  obtain ⟨d, hmem, hd⟩ := h
  exact ⟨d, List.mem_append_right _ hmem, hd⟩

/-- A property of the buffers under which no item of a list completes anything is kept up to the
list's end. -/
theorem not_emits (Inv : MediaReassembler → Prop) {items : List Item} {blob : Data}
    (keep : ∀ r, Inv r → ∀ item ∈ items,
      (ingest hashHex r item).2 = none ∧ Inv (ingest hashHex r item).1)
    (start : Inv r) : ¬Emits hashHex r items blob := by
  induction items generalizing r with
  | nil => simp [Emits, completions]
  | cons item items ih =>
    obtain ⟨hnone, hinv⟩ := keep r start item List.mem_cons_self
    have hrest := ih (fun r hr i hi => keep r hr i (List.mem_cons_of_mem _ hi)) hinv
    rintro ⟨d, hmem, hd⟩
    rw [completions, hnone] at hmem
    exact hrest ⟨d, by simpa using hmem, hd⟩

/-! ### One transfer -/

/-- The items of a transfer. -/
def items (m : MediaManifest) (chunks : List Data) : List Item :=
  .manifest m :: chunks.map .chunk

/-- The chunks among the items. -/
def chunksOf (items : List Item) : List Data :=
  items.filterMap fun
    | .chunk bytes => some bytes
    | .manifest _ => none

/-- The buffers of `id` hold what `seen` brought of the transfer with manifest `m`. -/
structure Holds (id : String) (m : MediaManifest) (seen : List Item) (r : MediaReassembler) :
    Prop where
  manifest : r.manifests.lookup id = if .manifest m ∈ seen then some m else none
  chunks : r.buffered id = chunksOf seen

theorem holds_new (id : String) (m : MediaManifest) : Holds id m [] new :=
  ⟨by simp [new], by simp [new, buffered, chunksOf]⟩

section Transfer

variable {c : MediaChunker} {blob mediaID : Data} {stamp : Stamp} {m : MediaManifest}
  {chunks : List Data} {seen : List Item}

theorem mem_chunksOf {b : Data} : b ∈ chunksOf seen ↔ Item.chunk b ∈ seen := by
  simp only [chunksOf, List.mem_filterMap]
  constructor
  · rintro ⟨item, hmem, hitem⟩
    cases item with
    | manifest => cases hitem
    | chunk bytes => cases hitem; exact hmem
  · exact fun h => ⟨_, h, rfl⟩

theorem mem_chunks_of_items {b : Data} (h : Item.chunk b ∈ items m chunks) : b ∈ chunks := by
  simpa [items] using h

/-- What the completed transfer of a blob is. -/
def Completed.of (mediaID : Data) (stamp : Stamp) (blob : Data) : Completed :=
  ⟨hex mediaID, stamp.mime, blob, stamp.sentAt, stamp.isStory, stamp.isPushToTalk⟩

/-- With all of a transfer in the buffers, it completes, and leaves the buffers. -/
theorem tryComplete_of_whole (hsplit : Splits hashHex c blob stamp mediaID m chunks)
    (hbounds : manifestWithinBounds m) (hseen : ∀ i ∈ seen, i ∈ items m chunks)
    (h : Holds (hex mediaID) m seen r) (hall : ∀ i ∈ items m chunks, i ∈ seen) :
    tryComplete hashHex r (hex mediaID) =
      (⟨AList.erase (hex mediaID) r.manifests, AList.erase (hex mediaID) r.chunks⟩,
        some (Completed.of mediaID stamp blob)) := by
  have hbuf : ∀ b ∈ chunksOf seen, b ∈ chunks := fun b hb =>
    mem_chunks_of_items (hseen _ (mem_chunksOf.mp hb))
  have hparse : ∀ b ∈ chunksOf seen, parse b = .ok (fields b) := fun b hb =>
    hsplit.parse_mem (hbuf b hb)
  have hcount : m.chunkCount = (c.payloads blob).length := by rw [hsplit.manifest]
  have hindices : ∀ i < (c.payloads blob).length, ∃ b ∈ chunksOf seen, (fields b).index = i := by
    intro i hi
    obtain ⟨b, hb, hindex⟩ := hsplit.mem_chunk hi
    exact ⟨b, mem_chunksOf.mpr (hall _ (by simp [items, hb])), hindex⟩
  have hok : reassemble hashHex (chunksOf seen) m = .ok blob :=
    hsplit.reassembled hashHex hbounds hbuf fun b hb =>
      mem_chunksOf.mpr (hall _ (by simp [items, hb]))
  have hmissing : missingIndices (chunksOf seen) m = [] := by
    rw [missingIndices_eq_nil hbounds, hcount, Int.toNat_natCast]
    exact fun i hi => (mem_indices hparse).mpr (hindices i hi)
  have hmanifest : Item.manifest m ∈ seen := hall _ (by simp [items])
  unfold tryComplete
  rw [h.manifest, h.chunks, if_pos hmanifest]
  simp only [hmissing, List.isEmpty_nil, ↓reduceIte, hok]
  rw [hsplit.manifest]
  rfl

/-- With less of a transfer in the buffers, nothing happens. -/
theorem tryComplete_of_part (hsplit : Splits hashHex c blob stamp mediaID m chunks)
    (hbounds : manifestWithinBounds m) (hseen : ∀ i ∈ seen, i ∈ items m chunks)
    (h : Holds (hex mediaID) m seen r) (hless : ¬∀ i ∈ items m chunks, i ∈ seen) :
    tryComplete hashHex r (hex mediaID) = (r, none) := by
  have hparse : ∀ b ∈ chunksOf seen, parse b = .ok (fields b) := fun b hb =>
    hsplit.parse_mem (mem_chunks_of_items (hseen _ (mem_chunksOf.mp hb)))
  have hcount : m.chunkCount = (c.payloads blob).length := by rw [hsplit.manifest]
  unfold tryComplete
  rw [h.manifest, h.chunks]
  by_cases hmanifest : Item.manifest m ∈ seen
  · have hmissing : missingIndices (chunksOf seen) m ≠ [] := by
      intro hnone
      rw [missingIndices_eq_nil hbounds, hcount, Int.toNat_natCast] at hnone
      apply hless
      intro i hi
      rcases List.mem_cons.mp hi with rfl | hchunk
      · exact hmanifest
      · obtain ⟨b, hb, rfl⟩ := List.mem_map.mp hchunk
        obtain ⟨k, payload, hk, _, hf⟩ := hsplit.of_mem hb
        obtain ⟨b', hb', hindex⟩ := (mem_indices hparse).mp
          (hnone k (List.getElem?_eq_some_iff.mp hk).1)
        have hsame : b' = b := hsplit.eq_of_index
          (mem_chunks_of_items (hseen _ (mem_chunksOf.mp hb'))) hb (by rw [hindex, hf])
        exact hsame ▸ mem_chunksOf.mp hb'
    simp [hmanifest, List.isEmpty_iff, hmissing]
  · simp [hmanifest]

/-- With all of a transfer in the buffers, it completes; with less, nothing happens. -/
theorem tryComplete_of_holds (hsplit : Splits hashHex c blob stamp mediaID m chunks)
    (hbounds : manifestWithinBounds m) (hseen : ∀ i ∈ seen, i ∈ items m chunks)
    (h : Holds (hex mediaID) m seen r) :
    (∃ d, (tryComplete hashHex r (hex mediaID)).2 = some d ∧ d.data = blob) ∨
      (tryComplete hashHex r (hex mediaID) = (r, none) ∧ ¬∀ i ∈ items m chunks, i ∈ seen) := by
  by_cases hall : ∀ i ∈ items m chunks, i ∈ seen
  · rw [tryComplete_of_whole hsplit hbounds hseen h hall]
    exact .inl ⟨_, rfl, rfl⟩
  · exact .inr ⟨tryComplete_of_part hsplit hbounds hseen h hall, hall⟩

/-- An item of a transfer is buffered, and completion is tried. -/
theorem ingest_eq_tryComplete (hsplit : Splits hashHex c blob stamp mediaID m chunks)
    (hbounds : manifestWithinBounds m) {item : Item} (hitem : item ∈ items m chunks)
    (h : Holds (hex mediaID) m seen r) :
    ∃ r', ingest hashHex r item = tryComplete hashHex r' (hex mediaID) ∧
      Holds (hex mediaID) m (seen ++ [item]) r' := by
  have hmedia : m.mediaID = hex mediaID := by rw [hsplit.manifest]
  cases item with
  | manifest m' =>
    obtain rfl : m' = m := by simpa [items] using hitem
    refine ⟨{ r with manifests := AList.insert (hex mediaID) m' r.manifests }, ?_, ?_, ?_⟩
    · simp [ingest, ingestManifest, hbounds, hmedia]
    · simp
    · simpa [chunksOf, buffered] using h.chunks
  | chunk b =>
    have hb := mem_chunks_of_items hitem
    obtain ⟨i, payload, _, _, hf⟩ := hsplit.of_mem hb
    refine ⟨⟨r.manifests, AList.insert (hex mediaID) (r.buffered (hex mediaID) ++ [b]) r.chunks⟩,
      ?_, ?_, ?_⟩
    · simp [ingest, ingestChunk, hsplit.parse_mem hb, hf]
    · simpa using h.manifest
    · have hold := h.chunks
      unfold buffered at hold ⊢
      rw [Dict.lookup_insert, if_pos rfl, Option.getD_some, hold]
      simp [chunksOf]

/-- One more item of a transfer completes it, or is one more item in the buffers. -/
theorem ingest_of_holds (hsplit : Splits hashHex c blob stamp mediaID m chunks)
    (hbounds : manifestWithinBounds m) (hseen : ∀ i ∈ seen, i ∈ items m chunks) {item : Item}
    (hitem : item ∈ items m chunks) (h : Holds (hex mediaID) m seen r) :
    (∃ d, (ingest hashHex r item).2 = some d ∧ d.data = blob) ∨
      (Holds (hex mediaID) m (seen ++ [item]) (ingest hashHex r item).1 ∧
        ¬∀ i ∈ items m chunks, i ∈ seen ++ [item]) := by
  have hseen' : ∀ i ∈ seen ++ [item], i ∈ items m chunks := fun i hi =>
    (List.mem_append.mp hi).elim (hseen i) fun hi => List.mem_singleton.mp hi ▸ hitem
  obtain ⟨r', htry, hnext⟩ := ingest_eq_tryComplete hsplit hbounds hitem h
  rcases tryComplete_of_holds hsplit hbounds hseen' hnext with hd | ⟨hsame, hmore⟩
  · exact .inl (htry ▸ hd)
  · refine .inr ⟨?_, hmore⟩
    rw [htry, hsame]
    exact hnext

/-- The items of a transfer, in any order and with any repetitions, complete it once they are all
there. -/
theorem emits_of_holds (hsplit : Splits hashHex c blob stamp mediaID m chunks)
    (hbounds : manifestWithinBounds m) {rest : List Item} (hseen : ∀ i ∈ seen, i ∈ items m chunks)
    (hrest : ∀ i ∈ rest, i ∈ items m chunks) (hall : ∀ i ∈ items m chunks, i ∈ seen ++ rest)
    (hless : ¬∀ i ∈ items m chunks, i ∈ seen) (h : Holds (hex mediaID) m seen r) :
    Emits hashHex r rest blob := by
  induction rest generalizing r seen with
  | nil => exact absurd (fun i hi => by simpa using hall i hi) hless
  | cons item rest ih =>
    rcases ingest_of_holds hsplit hbounds hseen (hrest item List.mem_cons_self) h with
      ⟨d, hd, hblob⟩ | ⟨hnext, hmore⟩
    · exact emits_cons_of_ingest hd hblob
    · refine emits_cons_of_rest (ih (fun i hi => ?_)
        (fun i hi => hrest i (List.mem_cons_of_mem _ hi)) (fun i hi => ?_) hmore hnext)
      · rcases List.mem_append.mp hi with hi | hi
        · exact hseen i hi
        · exact List.mem_singleton.mp hi ▸ hrest item List.mem_cons_self
      · simpa using hall i hi

end Transfer

end MediaReassembler

end AeroNyra
