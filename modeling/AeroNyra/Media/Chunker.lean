import AeroNyra.Lib.Pieces
import AeroNyra.Core.Message

/-! Media blobs as a manifest and a list of chunks: `split` on the sender's side, and `parse`,
`reassemble` and `missingIndices` on the receiver's.  The hash of a blob is the parameter
`hashHex`. -/

namespace AeroNyra

inductive MediaMimeType
  | jpeg
  | m4a
  | mp4
  deriving DecidableEq

/-- The announcement of a transfer.  Its numbers come from the wire, so they may be negative;
`sentAt` is in seconds. -/
structure MediaManifest where
  mediaID : String
  mime : MediaMimeType
  totalBytes : Int
  chunkCount : Int
  sha256 : String
  sentAt : Option Int
  isStory : Bool
  isPushToTalk : Bool
  deriving DecidableEq

/-- Two lowercase hexadecimal digits for each byte. -/
def hex (bytes : Data) : String :=
  String.ofList
    (bytes.flatMap fun b => [Nat.digitChar (b.toNat / 16), Nat.digitChar (b.toNat % 16)])

/-- A `UInt32`, big-endian. -/
def bigEndian (n : Nat) : Data :=
  [.ofNat (n / 2 ^ 24), .ofNat (n / 2 ^ 16), .ofNat (n / 2 ^ 8), .ofNat n]

/-- The big-endian number that four bytes at an offset make. -/
def readU32 (bytes : Data) (offset : Nat) : Nat :=
  ((bytes.drop offset).take 4).foldl (fun n b => n * 256 + b.toNat) 0

/-- The chunker's errors, and the trap of a number that no `UInt32` holds. -/
inductive MediaChunkerError
  | invalidBucket (size : Int)
  | emptyBlob
  | malformedChunk
  | missingChunks (expected : Int) (got : Nat)
  | inconsistentChunks
  | integrityFailure
  | manifestOutOfBounds (chunkCount totalBytes : Int)
  | trap
  deriving DecidableEq

namespace MediaChunker

/-- The chunk header: the media identifier, the index, and the total. -/
def headerSize : Nat := 16 + 4 + 4

def maxTotalBytes : Int := 16 * 1024 * 1024

def maxChunkCount : Int := 32768

def manifestWithinBounds (m : MediaManifest) : Bool :=
  1 ≤ m.chunkCount && m.chunkCount ≤ maxChunkCount && 1 ≤ m.totalBytes &&
    m.totalBytes ≤ maxTotalBytes && m.chunkCount ≤ m.totalBytes

end MediaChunker

/-- A chunker that its initialiser accepts. -/
structure MediaChunker where
  targetBucket : Nat
  reservedBytes : Nat
  known : targetBucket ∈ PayloadBucket.sizes
  room : MediaChunker.headerSize + reservedBytes < targetBucket

namespace MediaChunker

def init? (targetBucket reservedBytes : Nat) : Except MediaChunkerError MediaChunker :=
  if known : targetBucket ∈ PayloadBucket.sizes then
    if room : headerSize + reservedBytes < targetBucket then
      .ok ⟨targetBucket, reservedBytes, known, room⟩
    else .error (.invalidBucket targetBucket)
  else .error (.invalidBucket targetBucket)

/-- What a transfer's manifest says besides its geometry. -/
structure Stamp where
  mime : MediaMimeType
  sentAt : Option Int
  isStory : Bool
  isPushToTalk : Bool

structure ParsedChunk where
  mediaID : Data
  index : Nat
  total : Nat
  payload : Data
  deriving DecidableEq

/-- One chunk on the wire. -/
def chunk (mediaID : Data) (index total : Nat) (payload : Data) : Data :=
  mediaID ++ bigEndian index ++ bigEndian total ++ payload

/-- The fields at their fixed places. -/
def fields (bytes : Data) : ParsedChunk :=
  ⟨bytes.take 16, readU32 bytes 16, readU32 bytes 20, bytes.drop headerSize⟩

def parse (bytes : Data) : Except MediaChunkerError ParsedChunk :=
  if bytes.length < headerSize then .error .malformedChunk else .ok (fields bytes)

variable (hashHex : Data → String) (c : MediaChunker)

/-- The media bytes that a chunk carries. -/
def payloadPerChunk : Nat := c.targetBucket - headerSize - c.reservedBytes

def payloads (blob : Data) : List Data := Pieces.cut c.payloadPerChunk blob

def split (blob : Data) (stamp : Stamp) (mediaID : Data) :
    Except MediaChunkerError (MediaManifest × List Data) :=
  if blob.isEmpty then .error .emptyBlob
  else if mediaID.length ≠ 16 then .error .malformedChunk
  else if 2 ^ 32 ≤ (c.payloads blob).length then .error .trap
  else
    .ok (⟨hex mediaID, stamp.mime, blob.length, (c.payloads blob).length, hashHex blob,
        stamp.sentAt, stamp.isStory, stamp.isPushToTalk⟩,
      (c.payloads blob).mapIdx fun i payload =>
        chunk mediaID i (c.payloads blob).length payload)

/-- Puts the parsed chunks in their slots; an index outside the slots is an error. -/
def place (slots : List (Option Data)) (p : ParsedChunk) :
    Except MediaChunkerError (List (Option Data)) :=
  match Pieces.place slots (p.index, p.payload) with
  | some slots => .ok slots
  | none => .error .inconsistentChunks

/-- The end of `reassemble`: the bytes of slots that are all filled. -/
def joinSlots (m : MediaManifest) (slots : List (Option Data)) : Except MediaChunkerError Data :=
  if (slots.reduceOption.length : Int) ≠ m.chunkCount then
    .error (.missingChunks m.chunkCount slots.reduceOption.length)
  else if hashHex slots.reduceOption.flatten ≠ m.sha256 then .error .integrityFailure
  else .ok slots.reduceOption.flatten

/-- `reassemble` once the chunks are parsed. -/
def reassembleParsed (m : MediaManifest) : List ParsedChunk → Except MediaChunkerError Data
  | [] => .error (.missingChunks m.chunkCount 0)
  | first :: rest =>
    if rest.any fun p => p.mediaID != first.mediaID || p.total != first.total then
      .error .inconsistentChunks
    else if (first.total : Int) ≠ m.chunkCount then .error .inconsistentChunks
    else
      ((first :: rest).foldlM place (List.replicate m.chunkCount.toNat none)).bind
        (joinSlots hashHex m)

def reassemble (chunks : List Data) (m : MediaManifest) : Except MediaChunkerError Data :=
  if !manifestWithinBounds m then .error (.manifestOutOfBounds m.chunkCount m.totalBytes)
  else (chunks.mapM parse).bind (reassembleParsed hashHex m)

/-- The indices of the chunks that parse. -/
def indices (chunks : List Data) : List Nat :=
  chunks.filterMap fun bytes => (parse bytes).toOption.map (·.index)

def missingIndices (chunks : List Data) (m : MediaManifest) : List Nat :=
  if !manifestWithinBounds m then []
  else (List.range m.chunkCount.toNat).filter (· ∉ indices chunks)

/-! ### Parsing what `split` writes -/

variable {c}

theorem payloadPerChunk_pos : 0 < c.payloadPerChunk := by
  have := c.room
  unfold payloadPerChunk
  omega

theorem length_bigEndian (n : Nat) : (bigEndian n).length = 4 := rfl

theorem readU32_bigEndian {n : Nat} (hn : n < 2 ^ 32) (pre post : Data) :
    readU32 (pre ++ bigEndian n ++ post) pre.length = n := by
  have htake : ((pre ++ bigEndian n ++ post).drop pre.length).take 4 = bigEndian n := by
    rw [List.append_assoc, List.drop_left]
    exact List.take_left' (length_bigEndian n)
  rw [readU32, htake]
  simp only [bigEndian, List.foldl_cons, List.foldl_nil, UInt8.toNat_ofNat']
  omega

theorem fields_chunk {mediaID : Data} {i n : Nat} (payload : Data) (hid : mediaID.length = 16)
    (hi : i < 2 ^ 32) (hn : n < 2 ^ 32) :
    fields (chunk mediaID i n payload) = ⟨mediaID, i, n, payload⟩ := by
  have hhead : (mediaID ++ bigEndian i ++ bigEndian n).length = headerSize := by
    simp [hid, length_bigEndian, headerSize]
  have hindex : readU32 (chunk mediaID i n payload) 16 = i := by
    have := readU32_bigEndian hi mediaID (bigEndian n ++ payload)
    rw [hid] at this
    simpa [chunk] using this
  have htotal : readU32 (chunk mediaID i n payload) 20 = n := by
    have := readU32_bigEndian hn (mediaID ++ bigEndian i) payload
    simpa [hid, length_bigEndian, chunk] using this
  have htake : (chunk mediaID i n payload).take 16 = mediaID := by
    rw [chunk, List.append_assoc, List.append_assoc]
    exact List.take_left' hid
  have hdrop : (chunk mediaID i n payload).drop headerSize = payload := by
    rw [chunk]
    exact List.drop_left' hhead
  rw [fields, hindex, htotal, htake, hdrop]

theorem parse_chunk {mediaID : Data} (i n : Nat) (payload : Data) (hid : mediaID.length = 16) :
    parse (chunk mediaID i n payload) = .ok (fields (chunk mediaID i n payload)) := by
  have hlong : ¬(chunk mediaID i n payload).length < headerSize := by
    simp only [chunk, List.length_append, hid, length_bigEndian, headerSize]
    omega
  rw [parse, if_neg hlong]

/-- What `split` returns. -/
structure Splits (c : MediaChunker) (blob : Data) (stamp : Stamp) (mediaID : Data)
    (m : MediaManifest) (chunks : List Data) : Prop where
  nonempty : blob ≠ []
  wide : mediaID.length = 16
  counted : (c.payloads blob).length < 2 ^ 32
  manifest : m = ⟨hex mediaID, stamp.mime, blob.length, (c.payloads blob).length, hashHex blob,
    stamp.sentAt, stamp.isStory, stamp.isPushToTalk⟩
  chunks : chunks = (c.payloads blob).mapIdx fun i payload =>
    chunk mediaID i (c.payloads blob).length payload

theorem splits_of_split {blob mediaID : Data} {stamp : Stamp} {m : MediaManifest}
    {chunks : List Data} (h : c.split hashHex blob stamp mediaID = .ok (m, chunks)) :
    Splits hashHex c blob stamp mediaID m chunks := by
  unfold split at h
  split at h
  · cases h
  · rename_i hempty
    split at h
    · cases h
    · rename_i hwide
      split at h
      · cases h
      · rename_i hcount
        cases h
        exact ⟨by simpa using hempty, by simpa using hwide, by simpa using hcount, rfl, rfl⟩

namespace Splits

variable {hashHex} {blob mediaID : Data} {stamp : Stamp} {m : MediaManifest} {chunks : List Data}

theorem flatten (_ : Splits hashHex c blob stamp mediaID m chunks) :
    (c.payloads blob).flatten = blob :=
  Pieces.flatten_cut payloadPerChunk_pos blob

/-- Each chunk carries a payload at its index. -/
theorem of_mem (h : Splits hashHex c blob stamp mediaID m chunks) {b : Data} (hb : b ∈ chunks) :
    ∃ i payload, (c.payloads blob)[i]? = some payload ∧
      b = chunk mediaID i (c.payloads blob).length payload ∧
      fields b = ⟨mediaID, i, (c.payloads blob).length, payload⟩ := by
  rw [h.chunks, List.mem_mapIdx] at hb
  obtain ⟨i, hi, rfl⟩ := hb
  have hsmall := h.counted
  exact ⟨i, _, List.getElem?_eq_getElem hi, rfl, fields_chunk _ h.wide (by omega) hsmall⟩

theorem parse_mem (h : Splits hashHex c blob stamp mediaID m chunks) {b : Data}
    (hb : b ∈ chunks) : parse b = .ok (fields b) := by
  obtain ⟨i, payload, _, rfl, _⟩ := h.of_mem hb
  exact parse_chunk i _ payload h.wide

theorem mem_chunk (h : Splits hashHex c blob stamp mediaID m chunks) {i : Nat}
    (hi : i < (c.payloads blob).length) :
    ∃ b ∈ chunks, (fields b).index = i := by
  have hmem : chunk mediaID i (c.payloads blob).length (c.payloads blob)[i] ∈ chunks := by
    rw [h.chunks, List.mem_mapIdx]
    exact ⟨i, hi, rfl⟩
  have hsmall := h.counted
  refine ⟨_, hmem, ?_⟩
  rw [fields_chunk _ h.wide (by omega) hsmall]

/-- Each index has one chunk. -/
theorem eq_of_index (h : Splits hashHex c blob stamp mediaID m chunks) {b b' : Data}
    (hb : b ∈ chunks)
    (hb' : b' ∈ chunks) (hindex : (fields b).index = (fields b').index) : b = b' := by
  obtain ⟨i, payload, hi, rfl, hf⟩ := h.of_mem hb
  obtain ⟨j, payload', hj, rfl, hf'⟩ := h.of_mem hb'
  rw [hf, hf'] at hindex
  obtain rfl : i = j := hindex
  obtain rfl : payload = payload' := Option.some.inj (hi.symm.trans hj)
  rfl

/-- A chunk and what is reserved fill the bucket at most. -/
theorem length_le (h : Splits hashHex c blob stamp mediaID m chunks) {b : Data} (hb : b ∈ chunks) :
    b.length + c.reservedBytes ≤ c.targetBucket := by
  obtain ⟨i, payload, hpayload, rfl, _⟩ := h.of_mem hb
  have hpiece : payload.length ≤ c.payloadPerChunk :=
    Pieces.length_le_of_mem_cut (List.mem_of_getElem? hpayload)
  have hroom := c.room
  unfold payloadPerChunk headerSize at hpiece
  unfold headerSize at hroom
  simp only [chunk, List.length_append, length_bigEndian, h.wide]
  omega

theorem count_pos (h : Splits hashHex c blob stamp mediaID m chunks) :
    0 < (c.payloads blob).length := by
  have hflat := h.flatten
  cases hp : c.payloads blob with
  | nil =>
    rw [hp] at hflat
    exact absurd hflat.symm h.nonempty
  | cons x xs => exact Nat.succ_pos _

end Splits

/-! ### What `reassemble` accepts and returns -/

theorem mapM_parse {chunks : List Data} {f : Data → ParsedChunk}
    (h : ∀ b ∈ chunks, parse b = .ok (f b)) : chunks.mapM parse = .ok (chunks.map f) := by
  induction chunks with
  | nil => rfl
  | cons b chunks ih =>
    rw [List.mapM_cons, h b List.mem_cons_self, ih fun b' hb => h b' (List.mem_cons_of_mem _ hb)]
    rfl

theorem mem_of_mapM_parse {chunks : List Data} {ps : List ParsedChunk} {b : Data} {p : ParsedChunk}
    (h : chunks.mapM parse = .ok ps) (hb : b ∈ chunks) (hp : parse b = .ok p) : p ∈ ps := by
  induction chunks generalizing ps with
  | nil => simp at hb
  | cons c chunks ih =>
    rw [List.mapM_cons] at h
    cases hc : parse c with
    | error e => simp [hc, bind, Except.bind] at h
    | ok q =>
      cases hrest : chunks.mapM parse with
      | error e => simp [hc, hrest, bind, Except.bind] at h
      | ok qs =>
        have hps : q :: qs = ps := by
          simpa [hc, hrest, bind, Except.bind, pure, Except.pure] using h
        subst hps
        rcases List.mem_cons.mp hb with rfl | hb
        · cases hc.symm.trans hp
          exact List.mem_cons_self
        · exact List.mem_cons_of_mem _ (ih hrest hb)

theorem foldlM_place (parsed : List ParsedChunk) (slots : List (Option Data)) :
    parsed.foldlM place slots =
      match (parsed.map fun p => (p.index, p.payload)).foldlM Pieces.place slots with
      | some slots => .ok slots
      | none => .error .inconsistentChunks := by
  induction parsed generalizing slots with
  | nil => rfl
  | cons p parsed ih =>
    simp only [List.foldlM_cons, List.map_cons, place]
    cases Pieces.place slots (p.index, p.payload) with
    | none => rfl
    | some slots' => exact ih slots'

/-- A set of chunks in which one has another total than the manifest is refused. -/
theorem reassemble_ne_ok {chunks : List Data} {m : MediaManifest} {b : Data} {p : ParsedChunk}
    (hb : b ∈ chunks) (hp : parse b = .ok p) (htotal : (p.total : Int) ≠ m.chunkCount)
    (blob : Data) : reassemble hashHex chunks m ≠ .ok blob := by
  intro h
  unfold reassemble at h
  split at h
  · cases h
  · cases hps : chunks.mapM parse with
    | error e => simp [hps, Except.bind] at h
    | ok ps =>
      have hmem := mem_of_mapM_parse hps hb hp
      rw [hps] at h
      cases ps with
      | nil => simp at hmem
      | cons first rest =>
        simp only [Except.bind, reassembleParsed] at h
        split at h
        · cases h
        · rename_i hany
          split at h
          · cases h
          · rename_i hfirst
            apply htotal
            rcases List.mem_cons.mp hmem with rfl | hmem
            · simpa using hfirst
            · have hsame : p.total = first.total := by
                simp only [List.any_eq_true, not_exists, not_and] at hany
                have := hany p hmem
                simp only [Bool.or_eq_true, bne_iff_ne, ne_eq, not_or, not_not] at this
                exact this.2
              rw [hsame]
              simpa using hfirst

/-- What is reassembled has the manifest's hash. -/
theorem hash_of_reassemble {chunks : List Data} {m : MediaManifest} {blob : Data}
    (h : reassemble hashHex chunks m = .ok blob) : hashHex blob = m.sha256 := by
  have hjoin : ∀ slots, joinSlots hashHex m slots = .ok blob → hashHex blob = m.sha256 := by
    intro slots hslots
    unfold joinSlots at hslots
    split at hslots
    · cases hslots
    · split at hslots
      · cases hslots
      · rename_i hsha
        rw [← Except.ok.inj hslots]
        exact not_not.mp hsha
  unfold reassemble at h
  split at h
  · cases h
  · cases hps : chunks.mapM parse with
    | error e => simp [hps, Except.bind] at h
    | ok ps =>
      rw [hps] at h
      cases ps with
      | nil => cases h
      | cons first rest =>
        simp only [Except.bind, reassembleParsed] at h
        split at h
        · cases h
        · split at h
          · cases h
          · split at h
            · cases h
            · exact hjoin _ h

/-- A complete and consistent set of chunks of `xs` gives their bytes. -/
theorem reassemble_eq_ok (mediaID : Data) {m : MediaManifest} {xs chunks : List Data}
    {f : Data → ParsedChunk} (hbounds : manifestWithinBounds m)
    (hcount : m.chunkCount = xs.length) (hsha : hashHex xs.flatten = m.sha256)
    (hne : chunks ≠ []) (hparse : ∀ b ∈ chunks, parse b = .ok (f b))
    (hid : ∀ b ∈ chunks, (f b).mediaID = mediaID) (htotal : ∀ b ∈ chunks, (f b).total = xs.length)
    (hpiece : ∀ b ∈ chunks, xs[(f b).index]? = some (f b).payload)
    (hall : ∀ i < xs.length, ∃ b ∈ chunks, (f b).index = i) :
    reassemble hashHex chunks m = .ok xs.flatten := by
  obtain ⟨b, rest, rfl⟩ := List.exists_cons_of_ne_nil hne
  have hany : ¬(rest.map f).any
    (fun p => p.mediaID != (f b).mediaID || p.total != (f b).total) := by
    simp only [List.any_map, List.any_eq_true, Function.comp_apply, not_exists, not_and]
    intro b' hb'
    have hb' := List.mem_cons_of_mem b hb'
    simp [hid b' hb', hid b List.mem_cons_self, htotal b' hb', htotal b List.mem_cons_self]
  have hpieces : ∀ p ∈ ((b :: rest).map f).map (fun p => (p.index, p.payload)),
      xs[p.1]? = some p.2 := by
    intro p hp
    simp only [List.map_map, List.mem_map, Function.comp_apply] at hp
    obtain ⟨b', hb', rfl⟩ := hp
    exact hpiece b' hb'
  obtain ⟨slots, hfold, hpart, hfill⟩ := Pieces.foldlM_place
    (Pieces.partlyFilled_replicate xs) hpieces
  have hslots : slots = xs.map some := by
    refine hpart.eq_map fun i hi => (hfill i).mpr (.inl ?_)
    obtain ⟨b', hb', hindex⟩ := hall i hi
    simp only [List.map_map, List.mem_map, Function.comp_apply]
    exact ⟨b', hb', hindex⟩
  have hplace : ((b :: rest).map f).foldlM place (List.replicate m.chunkCount.toNat none) =
      .ok slots := by
    rw [foldlM_place, hcount, Int.toNat_natCast, hfold]
  have hjoin : joinSlots hashHex m slots = .ok xs.flatten := by
    rw [joinSlots, hslots, Pieces.reduceOption_map_some]
    simp [hcount, hsha]
  have hfirst : ((f b).total : Int) = m.chunkCount := by
    rw [htotal b List.mem_cons_self, hcount]
  have hparsed : reassembleParsed hashHex m ((b :: rest).map f) = .ok xs.flatten := by
    rw [List.map_cons, reassembleParsed, if_neg hany, if_neg (not_not.mpr hfirst), ← List.map_cons,
      hplace]
    exact hjoin
  rw [reassemble, hbounds, mapM_parse hparse]
  exact hparsed

/-- All chunks of a transfer, in any order and with any repetitions, give its blob. -/
theorem Splits.reassembled {blob mediaID : Data} {stamp : Stamp} {m : MediaManifest}
    {chunks received : List Data}
    (h : Splits hashHex c blob stamp mediaID m chunks) (hbounds : manifestWithinBounds m)
    (hsent : ∀ b ∈ received, b ∈ chunks) (hall : ∀ b ∈ chunks, b ∈ received) :
    reassemble hashHex received m = .ok blob := by
  have hcount : m.chunkCount = (c.payloads blob).length := by rw [h.manifest]
  have hfields : ∀ b ∈ received, ∃ i payload, (c.payloads blob)[i]? = some payload ∧
      fields b = ⟨mediaID, i, (c.payloads blob).length, payload⟩ := by
    intro b hb
    obtain ⟨i, payload, hi, _, hf⟩ := h.of_mem (hsent b hb)
    exact ⟨i, payload, hi, hf⟩
  have hindices : ∀ i < (c.payloads blob).length, ∃ b ∈ received, (fields b).index = i := by
    intro i hi
    obtain ⟨b, hb, hindex⟩ := h.mem_chunk hi
    exact ⟨b, hall b hb, hindex⟩
  have hne : received ≠ [] := by
    obtain ⟨b, hb, _⟩ := hindices 0 h.count_pos
    exact List.ne_nil_of_mem hb
  rw [← h.flatten]
  refine reassemble_eq_ok hashHex mediaID hbounds hcount ?_ hne
    (fun b hb => h.parse_mem (hsent b hb))
    (fun b hb => ?_) (fun b hb => ?_) (fun b hb => ?_) hindices
  · rw [h.flatten, h.manifest]
  · obtain ⟨i, payload, _, hf⟩ := hfields b hb
    rw [hf]
  · obtain ⟨i, payload, _, hf⟩ := hfields b hb
    rw [hf]
  · obtain ⟨i, payload, hi, hf⟩ := hfields b hb
    rw [hf]
    exact hi

theorem missingIndices_eq_nil {chunks : List Data} {m : MediaManifest}
    (hbounds : manifestWithinBounds m) :
    missingIndices chunks m = [] ↔ ∀ i < m.chunkCount.toNat, i ∈ indices chunks := by
  simp [missingIndices, hbounds, List.filter_eq_nil_iff]

theorem mem_indices {chunks : List Data} {f : Data → ParsedChunk}
    (hparse : ∀ b ∈ chunks, parse b = .ok (f b)) {i : Nat} :
    i ∈ indices chunks ↔ ∃ b ∈ chunks, (f b).index = i := by
  simp only [indices, List.mem_filterMap]
  refine exists_congr fun b => and_congr_right fun hb => ?_
  simp [hparse b hb, Except.toOption]

end MediaChunker

end AeroNyra
