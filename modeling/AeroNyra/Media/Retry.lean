import AeroNyra.Media.Configurations
import AeroNyra.Media.Reassembler

/-! Retries of a media transfer under the same identifier.  A retry that cuts the blob as the first
attempt did completes from whatever has arrived; one that cuts it otherwise never completes once a
chunk of the first attempt is buffered, because the buffer then never agrees on the total. -/

namespace AeroNyra.MediaReassembler

open MediaChunker

def mediaBucket : Nat := 4096

def mediaReserved : Nat := 1

def mediaBucketNostr : Nat := 16384

/-- The bucket that `sendMedia` selects. -/
def sendBucket (reachable redrive : Bool) : Nat :=
  let goingOverBLE := if redrive then false else reachable
  if goingOverBLE || redrive then mediaBucket else mediaBucketNostr

def sendChunker (reachable redrive : Bool) : MediaChunker where
  targetBucket := sendBucket reachable redrive
  reservedBytes := mediaReserved
  known := by cases reachable <;> cases redrive <;> decide
  room := by cases reachable <;> cases redrive <;> decide

/-- After any part of the first attempt but all of it, in any order, the whole second attempt,
with any repetitions between, completes the blob. -/
def RetryCompletes (hashHex : Data → String) (first second : List Item) (blob : Data) : Prop :=
  ∀ before after : List Item, (∀ i ∈ before, i ∈ first) → (¬∀ i ∈ first, i ∈ before) →
    (∀ i ∈ after, i ∈ second ∨ i ∈ before) → (∀ i ∈ second, i ∈ after) →
    Emits hashHex new (before ++ after) blob

variable {hashHex : Data → String} {r : MediaReassembler}

section

variable {c c' : MediaChunker} {blob mediaID : Data} {stamp : Stamp} {m m' : MediaManifest}
  {chunks chunks' : List Data}

/-- A blob within the size limit has a manifest within the bounds, in either bucket. -/
theorem withinBounds_iff {reachable redrive : Bool}
    (h : Splits hashHex (sendChunker reachable redrive) blob stamp mediaID m chunks) :
    manifestWithinBounds m ↔ (blob.length : Int) ≤ maxTotalBytes := by
  constructor
  · intro hbounds
    simp only [h.manifest, manifestWithinBounds, Bool.and_eq_true, decide_eq_true_eq] at hbounds
    exact hbounds.1.2
  · intro hsize
    have hroom : 512 ≤ (sendChunker reachable redrive).payloadPerChunk := by
      cases reachable <;> cases redrive <;> decide
    exact (h.withinBounds_iff hsize).mpr (fewChunks_of_room hsize hroom)

/-- Two attempts with equal payloads are the same. -/
theorem items_eq_of_payloads (h : Splits hashHex c blob stamp mediaID m chunks)
    (h' : Splits hashHex c' blob stamp mediaID m' chunks')
    (heq : c.payloads blob = c'.payloads blob) : items m chunks = items m' chunks' := by
  rw [h.manifest, h.chunks, h'.manifest, h'.chunks, heq]

/-- An attempt that repeats the first one completes. -/
theorem retryCompletes_of_eq (h : Splits hashHex c blob stamp mediaID m chunks)
    (hbounds : manifestWithinBounds m) :
    RetryCompletes hashHex (items m chunks) (items m chunks) blob := by
  intro before after hbefore _ hafter hall
  have hmem : ∀ i ∈ before ++ after, i ∈ items m chunks := fun i hi =>
    (List.mem_append.mp hi).elim (hbefore i) fun hi => (hafter i hi).elim id (hbefore i)
  refine emits_of_holds h hbounds (by simp) hmem (fun i hi => ?_) (fun hless => ?_)
    (holds_new _ m)
  · exact List.mem_append_right _ (List.mem_append_right _ (hall i hi))
  · have := hless (.manifest m) (by simp [items])
    simp at this

/-- A manifest that is out of bounds is not stored, and nothing completes. -/
theorem not_emits_of_out_of_bounds (h : Splits hashHex c blob stamp mediaID m chunks)
    (hbounds : ¬manifestWithinBounds m) {after : List Item}
    (hafter : ∀ i ∈ after, i ∈ items m chunks)
    (hnone : r.manifests.lookup (hex mediaID) = none) : ¬Emits hashHex r after blob := by
  refine not_emits (fun r => r.manifests.lookup (hex mediaID) = none) (fun r hr i hi => ?_)
    hnone
  cases i with
  | manifest m' =>
    have hm : m' = m := by simpa [items] using hafter _ hi
    simp [ingest, ingestManifest, hm, hbounds, hr]
  | chunk b =>
    have hb := mem_chunks_of_items (hafter _ hi)
    obtain ⟨_, _, _, _, hf⟩ := h.of_mem hb
    simp [ingest, ingestChunk, h.parse_mem hb, hf, tryComplete, hr]

/-- The buffer of `id` holds a chunk that belongs to another cut than the manifest's. -/
structure Mixed (id : String) (m : MediaManifest) (r : MediaReassembler) : Prop where
  manifest : r.manifests.lookup id = none ∨ r.manifests.lookup id = some m
  foreign : ∃ b ∈ r.buffered id, ∃ p, parse b = .ok p ∧ (p.total : Int) ≠ m.chunkCount

theorem tryComplete_of_mixed {id : String} (h : Mixed id m r) :
    tryComplete hashHex r id = (r, none) := by
  obtain ⟨b, hb, p, hp, htotal⟩ := h.foreign
  have hne := reassemble_ne_ok hashHex hb hp htotal
  unfold tryComplete
  rcases h.manifest with hm | hm
  · rw [hm]
  · rw [hm]
    dsimp only
    split
    · split
      · rename_i blob hok
        exact absurd hok (hne blob)
      · rfl
    · rfl

/-- Over a foreign chunk no attempt completes, and the chunk stays. -/
theorem not_emits_of_mixed (h : Splits hashHex c blob stamp mediaID m chunks)
    {after : List Item} (hafter : ∀ i ∈ after, i ∈ items m chunks)
    (hmixed : Mixed (hex mediaID) m r) : ¬Emits hashHex r after blob := by
  have hmedia : m.mediaID = hex mediaID := by rw [h.manifest]
  refine not_emits (Mixed (hex mediaID) m) (fun r hr i hi => ?_) hmixed
  cases i with
  | manifest m' =>
    have hm : m' = m := by simpa [items] using hafter _ hi
    subst hm
    have hnext : Mixed (hex mediaID) m'
        { r with manifests := AList.insert (hex mediaID) m' r.manifests } :=
      ⟨.inr (by simp), hr.foreign⟩
    simp only [ingest, ingestManifest, hmedia]
    split
    · rw [tryComplete_of_mixed hnext]
      exact ⟨rfl, hnext⟩
    · exact ⟨rfl, hr⟩
  | chunk b =>
    have hb := mem_chunks_of_items (hafter _ hi)
    obtain ⟨_, _, _, _, hf⟩ := h.of_mem hb
    have hnext : Mixed (hex mediaID) m
        ⟨r.manifests, AList.insert (hex mediaID) (r.buffered (hex mediaID) ++ [b]) r.chunks⟩ := by
      refine ⟨hr.manifest, ?_⟩
      obtain ⟨b', hb', hforeign⟩ := hr.foreign
      refine ⟨b', ?_, hforeign⟩
      simp only [buffered, Dict.lookup_insert, ↓reduceIte, Option.getD_some]
      exact List.mem_append_left _ hb'
    simp only [ingest, ingestChunk, h.parse_mem hb, hf]
    rw [tryComplete_of_mixed hnext]
    exact ⟨rfl, hnext⟩

/-- A lone chunk of the first attempt keeps an attempt with another number of chunks from
completing. -/
theorem not_retryCompletes_of_counts (h : Splits hashHex c blob stamp mediaID m chunks)
    (h' : Splits hashHex c' blob stamp mediaID m' chunks')
    (hne : (c.payloads blob).length ≠ (c'.payloads blob).length) :
    ¬RetryCompletes hashHex (items m chunks) (items m' chunks') blob := by
  obtain ⟨b, hb, _⟩ := h.mem_chunk h.count_pos
  obtain ⟨_, _, _, _, hf⟩ := h.of_mem hb
  have hparse := h.parse_mem hb
  have hstart : ingest hashHex new (.chunk b) = (⟨∅, AList.insert (hex mediaID) [b] ∅⟩, none) := by
    simp [ingest, ingestChunk, hparse, hf, tryComplete, new, buffered]
  intro hcompletes
  obtain ⟨d, hmem, hd⟩ := hcompletes [.chunk b] (items m' chunks') (by simp [items, hb])
    (fun hall => by have := hall (.manifest m) (by simp [items]); simp at this)
    (fun i hi => .inl hi) (fun i hi => hi)
  have hbuffered : b ∈ buffered ⟨∅, AList.insert (hex mediaID) [b] ∅⟩ (hex mediaID) := by
    rw [buffered, AList.lookup_insert]
    simp
  refine not_emits_of_mixed h' (r := ⟨∅, AList.insert (hex mediaID) [b] ∅⟩) (fun i hi => hi)
    ⟨.inl (by simp), b, hbuffered, _, hparse, ?_⟩ ⟨d, ?_, hd⟩
  · rw [hf, h'.manifest]
    dsimp only
    exact_mod_cast hne
  · rw [List.singleton_append, completions, hstart] at hmem
    simpa using hmem

end

/-- Every nonempty blob within the size limit is split. -/
theorem exists_split (hashHex : Data → String) (reachable redrive : Bool) {blob mediaID : Data}
    (stamp : Stamp) (hblob : blob ≠ []) (hsize : (blob.length : Int) ≤ maxTotalBytes)
    (hwide : mediaID.length = 16) :
    ∃ sent, (sendChunker reachable redrive).split hashHex blob stamp mediaID = .ok sent := by
  obtain ⟨m, chunks, hsplit⟩ : ∃ m chunks,
      (sendChunker reachable redrive).split hashHex blob stamp mediaID = .ok (m, chunks) :=
    split_ok hblob hsize hwide stamp
  exact ⟨_, hsplit⟩

/-- A retry of a transfer completes from every part of the first attempt exactly when the blob is
within the size limit and both attempts use the same bucket or need only one chunk. -/
theorem retryCompletes_iff (stamp : Stamp) (blob mediaID : Data)
    (reachable redrive reachable' redrive' : Bool) (first second : MediaManifest × List Data)
    (hfirst : (sendChunker reachable redrive).split hashHex blob stamp mediaID = .ok first)
    (hsecond : (sendChunker reachable' redrive').split hashHex blob stamp mediaID = .ok second) :
    RetryCompletes hashHex (items first.1 first.2) (items second.1 second.2) blob ↔
      (blob.length : Int) ≤ maxTotalBytes ∧
        (sendBucket reachable redrive = sendBucket reachable' redrive' ∨ blob.length ≤ 4071) := by
  have h := splits_of_split hashHex hfirst
  have h' := splits_of_split hashHex hsecond
  constructor
  · intro hcompletes
    have hbounds : manifestWithinBounds second.1 := by
      by_contra hout
      refine not_emits_of_out_of_bounds h' hout (r := new) (fun i hi => hi) (by simp [new])
        (hcompletes [] (items second.1 second.2) (by simp) (fun hall => ?_) (fun i hi => .inl hi)
          fun i hi => hi)
      have := hall (.manifest first.1) (by simp [items])
      simp at this
    refine ⟨(withinBounds_iff h').mp hbounds, ?_⟩
    by_contra hother
    rw [not_or] at hother
    refine not_retryCompletes_of_counts h h' ?_ hcompletes
    have hcount := Pieces.length_cut (payloadPerChunk_pos (c := sendChunker reachable redrive)) blob
    have hcount' :=
      Pieces.length_cut (payloadPerChunk_pos (c := sendChunker reachable' redrive')) blob
    rw [payloads, payloads, hcount, hcount']
    have hlong : 4071 < blob.length := Nat.lt_of_not_le hother.2
    revert hother
    cases reachable <;> cases redrive <;> cases reachable' <;> cases redrive' <;>
      simp [sendBucket, sendChunker, payloadPerChunk, mediaBucket, mediaBucketNostr,
        mediaReserved, headerSize] <;> omega
  · rintro ⟨hsize, hsame⟩
    have heq : items first.1 first.2 = items second.1 second.2 := by
      refine items_eq_of_payloads h h' ?_
      rcases hsame with hbucket | hshort
      · have : sendChunker reachable redrive = sendChunker reachable' redrive' := by
          simp [sendChunker, hbucket]
        rw [this]
      · rw [payloads, payloads, Pieces.cut_of_length_le h.nonempty,
          Pieces.cut_of_length_le h.nonempty]
        · refine hshort.trans ?_
          cases reachable' <;> cases redrive' <;> decide
        · refine hshort.trans ?_
          cases reachable <;> cases redrive <;> decide
    rw [heq]
    exact retryCompletes_of_eq h' ((withinBounds_iff h').mpr hsize)

/-- A blob that is one chunk in both buckets completes whichever transport the retry takes. -/
theorem retryCompletes_single :
    ∃ first second,
      (sendChunker true false).split hex [7, 7, 7] ⟨.m4a, none, false, true⟩
        (.replicate 16 1) = .ok first ∧
      (sendChunker false false).split hex [7, 7, 7] ⟨.m4a, none, false, true⟩
        (.replicate 16 1) = .ok second ∧
      RetryCompletes hex (items first.1 first.2) (items second.1 second.2) [7, 7, 7] := by
  obtain ⟨first, h⟩ := exists_split hex true false ⟨.m4a, none, false, true⟩
    (List.cons_ne_nil 7 [7, 7]) (by decide) (List.length_replicate (n := 16) (a := 1))
  obtain ⟨second, h'⟩ := exists_split hex false false ⟨.m4a, none, false, true⟩
    (List.cons_ne_nil 7 [7, 7]) (by decide) (List.length_replicate (n := 16) (a := 1))
  exact ⟨first, second, h, h',
    (retryCompletes_iff _ _ _ true false false false first second h h').mpr
      ⟨by decide, .inr (by decide)⟩⟩

/-- The chunks of a first attempt over BLE keep a retry over Nostr from completing. -/
theorem retry_stuck :
    ∃ first second,
      (sendChunker true false).split hex (.replicate 5000 7) ⟨.jpeg, none, false, false⟩
        (.replicate 16 1) = .ok first ∧
      (sendChunker false false).split hex (.replicate 5000 7) ⟨.jpeg, none, false, false⟩
        (.replicate 16 1) = .ok second ∧
      ¬RetryCompletes hex (items first.1 first.2) (items second.1 second.2)
        (.replicate 5000 7) := by
  have hblob : List.replicate 5000 (7 : UInt8) ≠ [] := by
    rw [List.replicate_succ]
    exact List.cons_ne_nil _ _
  have hsize : ((List.replicate 5000 (7 : UInt8)).length : Int) ≤ maxTotalBytes := by
    rw [List.length_replicate]
    decide
  obtain ⟨first, h⟩ := exists_split hex true false ⟨.jpeg, none, false, false⟩
    hblob hsize (List.length_replicate (n := 16) (a := 1))
  obtain ⟨second, h'⟩ := exists_split hex false false ⟨.jpeg, none, false, false⟩
    hblob hsize (List.length_replicate (n := 16) (a := 1))
  refine ⟨first, second, h, h', ?_⟩
  refine not_retryCompletes_of_counts (splits_of_split hex h) (splits_of_split hex h') ?_
  rw [payloads, payloads, Pieces.length_cut payloadPerChunk_pos,
    Pieces.length_cut payloadPerChunk_pos, List.length_replicate]
  decide

end AeroNyra.MediaReassembler
