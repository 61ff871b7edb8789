import AeroNyra.Coordinator.Outbound
import AeroNyra.Lib.SHA256
import AeroNyra.Media.Retry
import AeroNyra.Transport.Deliverable

/-! The lengths of the plaintexts that `sendMedia` hands to `seal`.  Media are sealed as they are,
so the last chunk and the manifest show the length of the blob. -/

namespace AeroNyra.FirstContactCoordinator

open MediaChunker MediaReassembler

/-- What `sendMedia` commits a transfer to: the peer's presence over BLE, a re-drive, an address at
a relay. -/
structure Way where
  isReachable : Bool
  redrive : Bool
  hasRecipient : Bool

namespace Way

def chunker (w : Way) : MediaChunker := sendChunker w.isReachable w.redrive

/-- Something may carry the transfer. -/
def carries (w : Way) : Bool := Outbound.goingOverBLE w.redrive w.isReachable || w.hasRecipient

end Way

/-- The plaintexts of a burst, which ends behind the first payload that is not carried. -/
def emitted (carried : Nat → Bool) : Nat → List MessagePayload → List Data
  | _, [] => []
  | i, payload :: rest =>
    payload.sealedPlaintext :: if carried i then emitted carried (i + 1) rest else []

section

variable (sha256 : Data → Data) (dateText : Int → String) (w : Way) (stamp : Stamp)

def hashHex (blob : Data) : String := hex (sha256 blob)

/-- The plaintexts that `sendMedia` hands to `seal`. -/
def sealedBySendMedia (carried : Nat → Bool) (id : MessageID) (blob : Data) : List Data :=
  match w.chunker.split (hashHex sha256) blob stamp id.bytes with
  | .error _ => []
  | .ok (m, chunks) =>
    if w.carries then emitted carried 0 (BLEMeshTransport.transfer dateText m chunks) else []

/-- However the transport fares, and under whatever identifiers, the two blobs give plaintexts of
the same lengths. -/
def HidesLength (blob blob' : Data) : Prop :=
  ∀ (carried : Nat → Bool) (id id' : MessageID),
    (sealedBySendMedia sha256 dateText w stamp carried id blob).map List.length =
      (sealedBySendMedia sha256 dateText w stamp carried id' blob').map List.length

end

variable {sha256 : Data → Data} {dateText : Int → String} {w : Way} {stamp : Stamp}
  {blob blob' mediaID mediaID' : Data} {m m' : MediaManifest} {chunks chunks' : List Data}

/-! ### The burst -/

theorem emitted_all (i : Nat) (payloads : List MessagePayload) :
    emitted (fun _ => true) i payloads = payloads.map MessagePayload.sealedPlaintext := by
  induction payloads generalizing i with
  | nil => rfl
  | cons payload rest ih =>
    rw [emitted, if_pos rfl, ih, List.map_cons]

/-- How far a burst gets has nothing to do with its payloads. -/
theorem map_length_emitted {carried : Nat → Bool} {i : Nat}
    {payloads payloads' : List MessagePayload}
    (h : payloads.map (·.sealedPlaintext.length) = payloads'.map (·.sealedPlaintext.length)) :
    (emitted carried i payloads).map List.length =
    (emitted carried i payloads').map List.length := by
  induction payloads generalizing i payloads' with
  | nil =>
    have hnil : payloads' = [] := List.map_eq_nil_iff.mp h.symm
    rw [hnil]
  | cons payload rest ih =>
    cases payloads' with
    | nil => cases h
    | cons payload' rest' =>
      obtain ⟨hhead, htail⟩ := List.cons.inj h
      dsimp only at hhead
      rw [emitted, emitted, List.map_cons, List.map_cons, hhead]
      split
      · rw [ih htail]
      · rfl

/-! ### Its lengths -/

theorem utf8ByteSize_digits {n : Nat} (h : n < 16) : (Nat.digitChar n).utf8Size = 1 := by
  revert n
  decide

theorem utf8ByteSize_hex (bytes : Data) : (hex bytes).utf8ByteSize = 2 * bytes.length := by
  induction bytes with
  | nil => rfl
  | cons b bytes ih =>
    have hhigh := utf8ByteSize_digits (n := b.toNat / 16) (by have := b.toNat_lt; omega)
    have hlow := utf8ByteSize_digits (n := b.toNat % 16) (by omega)
    rw [hex] at ih ⊢
    rw [List.flatMap_cons, List.cons_append, List.cons_append, List.nil_append, String.ofList_cons,
      String.ofList_cons, String.utf8ByteSize_append, String.utf8ByteSize_append, ih,
      String.utf8ByteSize_singleton, String.utf8ByteSize_singleton, hhigh, hlow, List.length_cons]
    omega

theorem length_payloads_eq {c : MediaChunker} (h : blob.length = blob'.length) :
    (c.payloads blob).length = (c.payloads blob').length := by
  have hlengths := congrArg List.length (Pieces.map_length_cut (payloadPerChunk_pos (c := c)) h)
  rwa [List.length_map, List.length_map] at hlengths

/-- The manifests of two blobs of one length are equally long. -/
theorem length_json_eq (hsha : ∀ data, (sha256 data).length = 32) {c : MediaChunker}
    (h : Splits (hashHex sha256) c blob stamp mediaID m chunks)
    (h' : Splits (hashHex sha256) c blob' stamp mediaID' m' chunks')
    (hlength : blob.length = blob'.length) :
    (utf8 (m.json dateText)).length = (utf8 (m'.json dateText)).length := by
  have hcount : (c.payloads blob).length = (c.payloads blob').length := length_payloads_eq hlength
  have hm := h.manifest
  have hm' := h'.manifest
  have hid : (hex mediaID).utf8ByteSize = (hex mediaID').utf8ByteSize := by
    rw [utf8ByteSize_hex, utf8ByteSize_hex, h.wide, h'.wide]
  have hhash : (hashHex sha256 blob).utf8ByteSize = (hashHex sha256 blob').utf8ByteSize := by
    rw [hashHex, hashHex, utf8ByteSize_hex, utf8ByteSize_hex, hsha, hsha]
  rw [hcount, hlength] at hm
  subst hm hm'
  rw [length_utf8, length_utf8]
  delta MediaManifest.json
  simp only [String.utf8ByteSize_append, hid, hhash]

theorem map_length_chunks {hash : Data → String} {c : MediaChunker}
    (h : Splits hash c blob stamp mediaID m chunks) :
    chunks.map List.length = (c.payloads blob).map (headerSize + ·.length) := by
  rw [h.chunks]
  apply List.ext_getElem?
  intro i
  simp only [List.getElem?_map, List.getElem?_mapIdx, Option.map_map]
  congr 1
  funext payload
  simp only [Function.comp_apply, chunk, List.length_append, h.wide, length_bigEndian, headerSize]

theorem length_chunks {hash : Data → String} {c : MediaChunker}
    (h : Splits hash c blob stamp mediaID m chunks) : chunks.length = (c.payloads blob).length := by
  rw [h.chunks, List.length_mapIdx]

theorem lengths_transfer (m : MediaManifest) (chunks : List Data) :
    (BLEMeshTransport.transfer dateText m chunks).map (·.sealedPlaintext.length) =
      ((utf8 (m.json dateText)).length + 1) :: chunks.map (·.length + 1) := by
  rw [BLEMeshTransport.transfer, List.map_cons, List.map_map]
  rfl

theorem sum_map_add (k : Nat) (pieces : List Data) :
    (pieces.map (k + ·.length)).sum = (pieces.map List.length).sum + k * pieces.length := by
  induction pieces with
  | nil => rfl
  | cons piece pieces ih =>
    rw [List.map_cons, List.sum_cons, ih, List.map_cons, List.sum_cons, List.length_cons,
      Nat.mul_succ]
    omega

theorem map_length_congr (f : Nat → Nat) {pieces pieces' : List Data}
    (h : pieces.map List.length = pieces'.map List.length) :
    pieces.map (f ·.length) = pieces'.map (f ·.length) := by
  have hmap := congrArg (List.map f) h
  rwa [List.map_map, List.map_map] at hmap

/-- The bytes of all chunks, with a header for each. -/
theorem sum_length_chunks {hash : Data → String} {c : MediaChunker}
    (h : Splits hash c blob stamp mediaID m chunks) :
    (chunks.map List.length).sum = blob.length + headerSize * (c.payloads blob).length := by
  rw [map_length_chunks h, sum_map_add]
  congr 1
  exact Pieces.sum_length_cut payloadPerChunk_pos blob

/-- Two transfers of equally many chunks have the same lengths exactly when their blobs have. -/
theorem lengths_transfer_iff (hsha : ∀ data, (sha256 data).length = 32)
    (h : Splits (hashHex sha256) w.chunker blob stamp mediaID m chunks)
    (h' : Splits (hashHex sha256) w.chunker blob' stamp mediaID' m' chunks')
    (hcount : (w.chunker.payloads blob).length = (w.chunker.payloads blob').length) :
    (BLEMeshTransport.transfer dateText m chunks).map (·.sealedPlaintext.length) =
        (BLEMeshTransport.transfer dateText m' chunks').map (·.sealedPlaintext.length) ↔
      blob.length = blob'.length := by
  rw [lengths_transfer, lengths_transfer, List.cons.injEq]
  constructor
  · rintro ⟨_, hchunks⟩
    have hsum := congrArg List.sum hchunks
    simp only [Nat.add_comm _ 1] at hsum
    rw [sum_map_add, sum_map_add, sum_length_chunks h, sum_length_chunks h', hcount,
      length_chunks h, length_chunks h', hcount] at hsum
    omega
  · intro hlength
    have hpieces := Pieces.map_length_cut (payloadPerChunk_pos (c := w.chunker)) hlength
    have hchunks : chunks.map List.length = chunks'.map List.length := by
      rw [map_length_chunks h, map_length_chunks h']
      exact map_length_congr (headerSize + ·) hpieces
    exact ⟨by rw [length_json_eq hsha h h' hlength], map_length_congr (· + 1) hchunks⟩

/-! ### The observer -/

theorem splits_of_lt (w : Way) (sha256 : Data → Data) (stamp : Stamp) (id : MessageID)
    (hblob : blob ≠ []) (hcount : (w.chunker.payloads blob).length < 2 ^ 32) :
    ∃ m chunks, w.chunker.split (hashHex sha256) blob stamp id.bytes = .ok (m, chunks) ∧
      Splits (hashHex sha256) w.chunker blob stamp id.bytes m chunks := by
  have hwide : ¬id.bytes.length ≠ 16 := by
    have hsize : id.bytes.length = 16 := id.size
    omega
  have hempty : ¬blob.isEmpty = true := by simpa using hblob
  have hsplit : ∃ p, w.chunker.split (hashHex sha256) blob stamp id.bytes = .ok p := by
    unfold split
    rw [if_neg hempty, if_neg hwide, if_neg (by omega)]
    exact ⟨_, rfl⟩
  obtain ⟨⟨m, chunks⟩, hok⟩ := hsplit
  exact ⟨m, chunks, hok, splits_of_split _ hok⟩

/-- A blob that `split` refuses, or traps over, is not sent. -/
theorem sealed_of_not_split {carried : Nat → Bool} {id : MessageID}
    (h : blob = [] ∨ 2 ^ 32 ≤ (w.chunker.payloads blob).length) :
    sealedBySendMedia sha256 dateText w stamp carried id blob = [] := by
  have hsplit : ∃ e, w.chunker.split (hashHex sha256) blob stamp id.bytes = .error e := by
    unfold split
    rcases h with rfl | htrap
    · exact ⟨_, rfl⟩
    · rw [if_pos htrap]
      split
      · exact ⟨_, rfl⟩
      · split
        · exact ⟨_, rfl⟩
        · exact ⟨_, rfl⟩
  obtain ⟨e, herror⟩ := hsplit
  rw [sealedBySendMedia, herror]

theorem sealed_of_not_carries {carried : Nat → Bool} {id : MessageID} (h : ¬w.carries = true) :
    sealedBySendMedia sha256 dateText w stamp carried id blob = [] := by
  unfold sealedBySendMedia
  split
  · rfl
  · rw [if_neg h]

theorem sealed_of_split {carried : Nat → Bool} {id : MessageID} (hcarries : w.carries = true)
    (h : w.chunker.split (hashHex sha256) blob stamp id.bytes = .ok (m, chunks)) :
    sealedBySendMedia sha256 dateText w stamp carried id blob =
      emitted carried 0 (BLEMeshTransport.transfer dateText m chunks) := by
  rw [sealedBySendMedia, h]
  exact if_pos hcarries

theorem payloads_eq_nil_iff {c : MediaChunker} : (c.payloads blob).length = 0 ↔ blob = [] := by
  constructor
  · intro h
    have hflat := Pieces.flatten_cut (payloadPerChunk_pos (c := c)) blob
    rw [show Pieces.cut c.payloadPerChunk blob = [] from List.length_eq_zero_iff.mp h] at hflat
    exact hflat.symm
  · rintro rfl
    rfl

/-- What is sent whole shows the length of the blob. -/
theorem length_eq_of_hides (hsha : ∀ data, (sha256 data).length = 32)
    (hcount : (w.chunker.payloads blob).length = (w.chunker.payloads blob').length)
    (hhides : HidesLength sha256 dateText w stamp blob blob') (hcarries : w.carries = true)
    (hlt : (w.chunker.payloads blob).length < 2 ^ 32) (hblob : blob ≠ []) (hblob' : blob' ≠ []) :
    blob.length = blob'.length := by
  let id : MessageID := ⟨List.replicate 16 0, rfl⟩
  obtain ⟨m, chunks, hok, h⟩ := splits_of_lt w sha256 stamp id hblob hlt
  obtain ⟨m', chunks', hok', h'⟩ := splits_of_lt w sha256 stamp id hblob' (hcount ▸ hlt)
  have hlengths := hhides (fun _ => true) id id
  rw [sealed_of_split hcarries hok, sealed_of_split hcarries hok', emitted_all, emitted_all,
    List.map_map, List.map_map] at hlengths
  exact (lengths_transfer_iff hsha h h' hcount).mp hlengths

theorem hides_of_length_eq (hsha : ∀ data, (sha256 data).length = 32)
    (hlength : blob.length = blob'.length) : HidesLength sha256 dateText w stamp blob blob' := by
  have hcount : (w.chunker.payloads blob).length = (w.chunker.payloads blob').length :=
    length_payloads_eq hlength
  intro carried id id'
  by_cases hcarries : w.carries = true
  · by_cases hrefused : blob = [] ∨ 2 ^ 32 ≤ (w.chunker.payloads blob).length
    · have hrefused' : blob' = [] ∨ 2 ^ 32 ≤ (w.chunker.payloads blob').length := by
        rwa [← hcount, ← payloads_eq_nil_iff (c := w.chunker), ← hcount, payloads_eq_nil_iff]
      rw [sealed_of_not_split hrefused, sealed_of_not_split hrefused']
    · obtain ⟨hblob, hlt⟩ := not_or.mp hrefused
      have hblob' : blob' ≠ [] := by
        rw [Ne, ← payloads_eq_nil_iff (c := w.chunker), ← hcount, payloads_eq_nil_iff]
        exact hblob
      obtain ⟨m, chunks, hok, h⟩ := splits_of_lt w sha256 stamp id hblob (Nat.not_le.mp hlt)
      obtain ⟨m', chunks', hok', h'⟩ :=
        splits_of_lt w sha256 stamp id' hblob' (hcount ▸ Nat.not_le.mp hlt)
      rw [sealed_of_split hcarries hok, sealed_of_split hcarries hok']
      exact map_length_emitted ((lengths_transfer_iff hsha h h' hcount).mpr hlength)
  · rw [sealed_of_not_carries hcarries, sealed_of_not_carries hcarries]

theorem lengths_hidden_iff (hsha : ∀ data, (sha256 data).length = 32)
    (hcount : (w.chunker.payloads blob).length = (w.chunker.payloads blob').length) :
    HidesLength sha256 dateText w stamp blob blob' ↔
      (w.carries = true → (w.chunker.payloads blob).length < 2 ^ 32 →
        blob.length = blob'.length) := by
  have hempty : blob = [] ↔ blob' = [] := by
    rw [← payloads_eq_nil_iff (c := w.chunker), hcount, payloads_eq_nil_iff]
  constructor
  · intro hhides hcarries hlt
    by_cases hblob : blob = []
    · rw [hblob, hempty.mp hblob]
    · exact length_eq_of_hides hsha hcount hhides hcarries hlt hblob (mt hempty.mpr hblob)
  · intro hlength
    by_cases hcarries : w.carries = true
    · by_cases hlt : (w.chunker.payloads blob).length < 2 ^ 32
      · exact hides_of_length_eq hsha (hlength hcarries hlt)
      · intro carried id id'
        rw [sealed_of_not_split (.inr (Nat.not_lt.mp hlt)),
          sealed_of_not_split (.inr (hcount ▸ Nat.not_lt.mp hlt))]
    · intro carried id id'
      rw [sealed_of_not_carries hcarries, sealed_of_not_carries hcarries]

theorem lengths_hidden_photos :
    HidesLength SHA256.hash (fun _ => "0") ⟨true, false, false⟩ ⟨.jpeg, none, false, false⟩
      [1, 2, 3] [4, 5, 6] :=
  (lengths_hidden_iff SHA256.length_hash (by decide)).mpr fun _ _ => rfl

theorem count_replicate (n : Nat) :
    ((Way.chunker ⟨true, false, false⟩).payloads (List.replicate n 0)).length =
    (n + 4071 - 1) / 4071 := by
  rw [payloads, Pieces.length_cut payloadPerChunk_pos, List.length_replicate]
  rfl

/-- Two photos of two chunks each, over BLE. -/
theorem lengths_show :
    ((Way.chunker ⟨true, false, false⟩).payloads (List.replicate 5000 0)).length =
        ((Way.chunker ⟨true, false, false⟩).payloads (List.replicate 6000 0)).length ∧
      ¬HidesLength SHA256.hash (fun _ => "0") ⟨true, false, false⟩ ⟨.jpeg, none, false, false⟩
        (List.replicate 5000 0) (List.replicate 6000 0) := by
  have hcount : ((Way.chunker ⟨true, false, false⟩).payloads (List.replicate 5000 0)).length =
      ((Way.chunker ⟨true, false, false⟩).payloads (List.replicate 6000 0)).length := by
    rw [count_replicate, count_replicate]
  refine ⟨hcount, ?_⟩
  intro hhides
  have hlength := length_eq_of_hides SHA256.length_hash hcount hhides rfl
    (by rw [count_replicate]; decide)
    (List.ne_nil_of_length_pos (by rw [List.length_replicate]; decide))
    (List.ne_nil_of_length_pos (by rw [List.length_replicate]; decide))
  rw [List.length_replicate, List.length_replicate] at hlength
  exact absurd hlength (by decide)

end AeroNyra.FirstContactCoordinator
