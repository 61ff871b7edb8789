import AeroNyra.Media.Chunker

/-! Chunkers of every configuration: what the bucket and the reserve leave for a chunk bounds the
blobs that the receiver takes, besides the size limit. -/

namespace AeroNyra.MediaChunker

variable {hashHex : Data → String} {c : MediaChunker} {blob mediaID : Data} {stamp : Stamp}
  {m : MediaManifest} {chunks : List Data}

/-- The initialiser accepts the chunkers there are. -/
theorem init?_eq_ok {targetBucket reservedBytes : Nat} :
    init? targetBucket reservedBytes = .ok c ↔ c.targetBucket = targetBucket ∧
      c.reservedBytes = reservedBytes := by
  constructor
  · intro h
    unfold init? at h
    split at h
    · split at h
      · cases h
        exact ⟨rfl, rfl⟩
      · cases h
    · cases h
  · rintro ⟨rfl, rfl⟩
    rw [init?, dif_pos c.known, dif_pos c.room]

/-- A blob is cut into as few chunks as the receiver accepts. -/
def FewChunks (c : MediaChunker) (blob : Data) : Prop :=
    blob.length ≤ maxChunkCount * c.payloadPerChunk

theorem length_payloads_le_iff (c : MediaChunker) (blob : Data) (count : Nat) :
    (c.payloads blob).length ≤ count ↔ blob.length ≤ count * c.payloadPerChunk := by
  have hpos : 0 < c.payloadPerChunk := payloadPerChunk_pos
  rw [payloads, Pieces.length_cut hpos, ← Nat.lt_succ_iff, Nat.div_lt_iff_lt_mul hpos, Nat.succ_mul]
  omega

/-- Every blob within the size limit is split. -/
theorem split_ok (hblob : blob ≠ []) (hsize : (blob.length : Int) ≤ maxTotalBytes)
    (hwide : mediaID.length = 16)
    (stamp : Stamp) : ∃ m chunks, c.split hashHex blob stamp mediaID = .ok (m, chunks) := by
  have hcount : (c.payloads blob).length ≤ blob.length := by
    rw [length_payloads_le_iff]
    exact Nat.le_mul_of_pos_right _ payloadPerChunk_pos
  have hempty : blob.isEmpty = false := by simpa using hblob
  have hfew : (c.payloads blob).length < 2 ^ 32 := by
    unfold maxTotalBytes at hsize
    omega
  rw [split, if_neg (by simp [hempty]), if_neg (not_not.mpr hwide), if_neg hfew.not_ge]
  exact ⟨_, _, rfl⟩

/-- The manifest of a blob within the size limit is within the bounds when the chunks are few. -/
theorem Splits.withinBounds_iff (h : Splits hashHex c blob stamp mediaID m chunks)
    (hsize : (blob.length : Int) ≤ maxTotalBytes) : manifestWithinBounds m ↔ FewChunks c blob := by
  have hpos := List.length_pos_iff.mpr h.nonempty
  have hcount := h.count_pos
  have hone : (c.payloads blob).length ≤ blob.length := by
    rw [length_payloads_le_iff]
    exact Nat.le_mul_of_pos_right _ payloadPerChunk_pos
  have hfew : FewChunks c blob ↔ (c.payloads blob).length ≤ 32768 := by
    rw [length_payloads_le_iff, FewChunks, maxChunkCount]
    exact_mod_cast Iff.rfl
  unfold maxTotalBytes at hsize
  rw [hfew]
  simp only [h.manifest, manifestWithinBounds, maxChunkCount, maxTotalBytes, Bool.and_eq_true,
    decide_eq_true_eq]
  omega

/-- A blob survives a configuration: it is split, the manifest is within the bounds, every chunk
fits the bucket with the reserve, and from all chunks, in any order and with any repetitions, the
receiver gets the blob back. -/
def RoundTrips (hashHex : Data → String) (c : MediaChunker) (blob mediaID : Data)
    (stamp : Stamp) : Prop :=
  ∃ m chunks, c.split hashHex blob stamp mediaID = .ok (m, chunks) ∧ manifestWithinBounds m ∧
    (∀ b ∈ chunks, b.length + c.reservedBytes ≤ c.targetBucket) ∧
    ∀ received : List Data, (∀ b ∈ received, b ∈ chunks) → (∀ b ∈ chunks, b ∈ received) →
      reassemble hashHex received m = .ok blob

/-- What a configuration does to a blob: the chunks always fit the bucket, and the receiver accepts
the manifest and gets the blob back where the chunks are few, and refuses every set of chunks
elsewhere. -/
structure Carries (hashHex : Data → String) (c : MediaChunker) (blob mediaID : Data)
    (stamp : Stamp) : Prop where
  split : ∃ m chunks, c.split hashHex blob stamp mediaID = .ok (m, chunks) ∧
    (manifestWithinBounds m ↔ FewChunks c blob) ∧
    (∀ b ∈ chunks, b.length + c.reservedBytes ≤ c.targetBucket) ∧
    (FewChunks c blob → ∀ received : List Data, (∀ b ∈ received, b ∈ chunks) →
      (∀ b ∈ chunks, b ∈ received) → reassemble hashHex received m = .ok blob) ∧
    (¬FewChunks c blob → ∀ received : List Data,
      reassemble hashHex received m = .error (.manifestOutOfBounds m.chunkCount m.totalBytes))
  room : 512 ≤ c.payloadPerChunk → FewChunks c blob

theorem fewChunks_of_room (hsize : (blob.length : Int) ≤ maxTotalBytes)
    (hroom : 512 ≤ c.payloadPerChunk) :
    FewChunks c blob := by
  have hproduct : 32768 * 512 ≤ 32768 * c.payloadPerChunk := Nat.mul_le_mul_left _ hroom
  unfold FewChunks maxChunkCount
  unfold maxTotalBytes at hsize
  omega

/-- Every configuration carries every blob within the size limit that it cuts into as few chunks as
the receiver accepts; with 512 bytes for a chunk, that is every blob within the size limit. -/
theorem configurations_carry (hashHex : Data → String) (c : MediaChunker) (blob mediaID : Data)
    (stamp : Stamp) (hblob : blob ≠ []) (hsize : (blob.length : Int) ≤ maxTotalBytes)
    (hwide : mediaID.length = 16) :
    Carries hashHex c blob mediaID stamp := by
  obtain ⟨m, chunks, hsplit⟩ : ∃ m chunks, c.split hashHex blob stamp mediaID = .ok (m, chunks) :=
    split_ok hblob hsize hwide stamp
  have h := splits_of_split hashHex hsplit
  have hbounds := h.withinBounds_iff hsize
  refine ⟨⟨m, chunks, hsplit, hbounds, fun b hb => h.length_le hb,
    fun hfew received hsent hall => ?_,
    fun hmany received => ?_⟩, fewChunks_of_room hsize⟩
  · exact h.reassembled hashHex (hbounds.mpr hfew) hsent hall
  · have hout : manifestWithinBounds m = false := Bool.eq_false_iff.mpr fun hin =>
      hmany (hbounds.mp hin)
    rw [reassemble, hout]
    rfl

/-- A short note in the default bucket. -/
theorem configurations_carry_note :
    Carries hex ⟨4096, 0, by decide, by decide⟩ [7, 7, 7] (.replicate 16 1)
      ⟨.m4a, none, false, true⟩ :=
  configurations_carry hex _ _ _ _ (List.cons_ne_nil 7 [7, 7]) (by decide) List.length_replicate

/-- With one byte for a chunk, a blob of 32769 bytes is split into more chunks than the receiver
accepts. -/
theorem smallest_chunks_refused : ∃ c, init? 256 231 = .ok c ∧
    ((List.replicate 32769 (7 : UInt8)).length : Int) ≤ maxTotalBytes ∧
      ¬RoundTrips hex c (List.replicate 32769 7) (.replicate 16 1) ⟨.jpeg, none, false, false⟩ := by
  have hsize : ((List.replicate 32769 (7 : UInt8)).length : Int) ≤ maxTotalBytes := by
    rw [List.length_replicate]
    decide
  refine ⟨⟨256, 231, by decide, by decide⟩, rfl, hsize, ?_⟩
  rintro ⟨m, chunks, hsplit, hbounds, _, _⟩
  have hfew := ((splits_of_split hex hsplit).withinBounds_iff hsize).mp hbounds
  rw [FewChunks, List.length_replicate] at hfew
  exact absurd hfew (by decide)

end AeroNyra.MediaChunker
