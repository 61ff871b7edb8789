import AeroNyra.Media.Bodies
import AeroNyra.Transport.Reassembly

/-! What becomes of a text, a call signal and a medium that is sealed and sent: whether the padded
and sealed plaintext, with its headers, is within the length that a receiver accepts. -/

namespace AeroNyra

/-! ### The manifest's bytes -/

def MediaMimeType.rawValue : MediaMimeType → String
  | jpeg => "jpeg"
  | m4a => "m4a"
  | mp4 => "mp4"

/-- The date of a story, which other media leave out. -/
def MediaManifest.sentAtJson (dateText : Int → String) : Option Int → String
  | some t => ",\"sentAt\":" ++ dateText t
  | none => ""

/-- The manifest's JSON, in which the order of the keys has no influence on the length; `dateText`
writes a date as a number. -/
def MediaManifest.json (dateText : Int → String) (m : MediaManifest) : String :=
  "\x7b\"mediaID\":\"" ++ m.mediaID ++ "\",\"mime\":\"" ++ m.mime.rawValue ++
    "\",\"totalBytes\":" ++ toString m.totalBytes ++ ",\"chunkCount\":" ++ toString m.chunkCount ++
    ",\"sha256\":\"" ++ m.sha256 ++ "\"" ++
    MediaManifest.sentAtJson dateText m.sentAt ++ ",\"isStory\":" ++ toString m.isStory ++
    ",\"isPushToTalk\":" ++ toString m.isPushToTalk ++ "\x7d"

namespace BLEMeshTransport

/-- However its frame is cut, a receiver whose stream is fresh yields the envelope. -/
def Delivered (e : Envelope) : Prop :=
  ∀ chunks : List Data, (∀ chunk ∈ chunks, chunk ≠ []) →
    frame .envelope e.wireData = some chunks.flatten →
    e ∈ (reader.feedAll {} chunks).2.filterMap dispatchFrame

/-- However its frame is cut, no receiver yields the envelope. -/
def Lost (e : Envelope) : Prop :=
  ∀ chunks : List Data, (∀ chunk ∈ chunks, chunk ≠ []) →
    frame .envelope e.wireData = some chunks.flatten →
    e ∉ (reader.feedAll {} chunks).2.filterMap dispatchFrame

theorem length_wireData (e : Envelope) :
    e.wireData.length = Envelope.headerSize + e.ciphertext.length := by
  have hid : e.id.bytes.length = MessageID.byteCount := e.id.size
  simp only [Envelope.wireData, Envelope.headerSize, List.length_cons, List.length_append,
    List.cons_append, hid]
  omega

/-- An envelope that is parsed is as long as its bytes. -/
theorem length_of_ofWire? {data : Data} {e : Envelope} (h : Envelope.ofWire? data = some e) :
    e.wireData.length = data.length := by
  unfold Envelope.ofWire? at h
  split at h
  · rename_i version ttl rest
    obtain ⟨⟨hlong, _⟩, h⟩ := Option.ite_none_right_eq_some.mp h
    obtain ⟨id, _, rfl⟩ := Option.map_eq_some_iff.mp h
    rw [length_wireData]
    simp only [List.length_drop, List.length_cons, Envelope.headerSize] at hlong ⊢
    omega
  · cases h

namespace ReassemblyState

theorem length_takePayload {buffer : Data} {type : FrameType} {declared : Nat}
    (hmax : declared ≤ maxDeclaredFrameLength) {completed : FrameType × Data}
    (h : (takePayload ⟨buffer, some type, declared⟩ type).2 = some completed) :
    completed.2.length ≤ maxDeclaredFrameLength := by
  unfold takePayload at h
  split at h
  · obtain rfl := Option.some.inj h
    have htake := List.length_take_le declared buffer
    exact htake.trans hmax
  · cases h

theorem length_takeLength {buffer : Data} {type : FrameType} {completed : FrameType × Data}
    (h : (takeLength ⟨buffer, some type, -1⟩ type).2 = some completed) :
    completed.2.length ≤ maxDeclaredFrameLength := by
  unfold takeLength at h
  rw [if_pos (show (-1 : Int) < 0 by omega)] at h
  dsimp only at h
  split at h
  · split at h
    · rename_i hmax
      exact length_takePayload hmax h
    · cases h
  · cases h

/-- No frame beyond the bound is completed. -/
theorem Collecting.length_item_le {s : ReassemblyState} (h : s.Collecting) {chunk : Data}
    {completed : FrameType × Data} (hitem : (s.ingest chunk).2 = some completed) :
    completed.2.length ≤ maxDeclaredFrameLength := by
  cases h with
  | fresh =>
    cases chunk with
    | nil => cases hitem
    | cons first rest =>
      simp only [ReassemblyState.ingest, List.nil_append] at hitem
      split at hitem
      · exact length_takeLength hitem
      · cases hitem
  | length type h => exact length_takeLength hitem
  | payload type hmax h =>
    simp only [ReassemblyState.ingest, takeLength] at hitem
    rw [if_neg (show ¬((_ : Nat) : Int) < 0 by omega)] at hitem
    exact length_takePayload hmax hitem

theorem Collecting.length_items_le {s : ReassemblyState} (h : s.Collecting) (chunks : List Data) :
    ∀ completed ∈ (reader.feedAll s chunks).2, completed.2.length ≤ maxDeclaredFrameLength := by
  induction chunks generalizing s with
  | nil => exact nofun
  | cons chunk chunks ih =>
    intro completed hcompleted
    rcases List.mem_append.mp hcompleted with hfirst | hrest
    · exact h.length_item_le (Option.mem_toList.mp hfirst)
    · exact ih (h.ingest chunk) completed hrest

end ReassemblyState

theorem delivered_of_le {e : Envelope} (hversion : e.version = Envelope.currentVersion)
    (hhops : e.ttl ≤ Envelope.maxHops) (h : e.wireData.length ≤ maxDeclaredFrameLength) :
    Delivered e := by
  intro chunks hchunks hframe
  have hword : InChunks ((.envelope, e.wireData), chunks) := ⟨hframe, h, hchunks⟩
  rw [hword.ready.feedAll]
  have hyields : dispatchFrame (.envelope, e.wireData) = some e :=
    Envelope.ofWire?_wireData hversion hhops
  simp [hyields]

theorem lost_of_lt {e : Envelope} (h : maxDeclaredFrameLength < e.wireData.length) : Lost e := by
  intro chunks _ _ hmem
  obtain ⟨⟨type, payload⟩, hitem, hyields⟩ := List.mem_filterMap.mp hmem
  have hlength := ReassemblyState.Collecting.fresh.length_items_le chunks _ hitem
  cases type with
  | envelope =>
    have hparsed := length_of_ofWire? hyields
    dsimp only at hlength
    omega
  | bundle | reconnect | audioFrame => cases hyields

/-- An envelope whose frame is built is delivered or lost by its length. -/
theorem delivered_iff {e : Envelope} (hversion : e.version = Envelope.currentVersion)
    (hhops : e.ttl ≤ Envelope.maxHops) (hbuilt : (frame .envelope e.wireData).isSome) :
    (Delivered e ↔ e.wireData.length ≤ maxDeclaredFrameLength) ∧
      (Lost e ↔ maxDeclaredFrameLength < e.wireData.length) := by
  obtain ⟨wire, hwire⟩ := Option.isSome_iff_exists.mp hbuilt
  have hne : wire ≠ [] := by
    rw [eq_of_frame hwire]
    exact List.cons_ne_nil _ _
  have hapart : ¬(Delivered e ∧ Lost e) := by
    rintro ⟨hdelivered, hlost⟩
    have hsplit : frame .envelope e.wireData = some [wire].flatten := by simpa using hwire
    exact hlost [wire] (by simpa using hne) hsplit (hdelivered [wire] (by simpa using hne) hsplit)
  constructor
  · refine ⟨fun hdelivered => ?_, delivered_of_le hversion hhops⟩
    by_contra hlong
    exact hapart ⟨hdelivered, lost_of_lt (by omega)⟩
  · refine ⟨fun hlost => ?_, lost_of_lt⟩
    by_contra hshort
    exact hapart ⟨delivered_of_le hversion hhops (by omega), hlost⟩

/-! ### Padded and sealed -/

/-- The most bytes that pad to three times the largest bucket. -/
def maxPaddedContent : Nat := 3 * 16384

/-- The most bytes of a text or a call signal that fit with their kind and their length header. -/
def maxBody : Nat := maxPaddedContent - PayloadPadding.lengthHeaderSize - 1

theorem le_of_bucket {n bucket : Nat} (h : PayloadBucket.bucket n = some bucket) :
    n ≤ bucket ∧ bucket ≤ 16384 := by
  have hmem := List.mem_of_find?_eq_some h
  have hle := List.find?_some h
  refine ⟨by simpa using hle, ?_⟩
  simp only [PayloadBucket.sizes, List.mem_cons, List.not_mem_nil, or_false] at hmem
  omega

/-- Content pads to within three times the largest bucket, or to four times it at least. -/
theorem paddedSize_bounds (n : Nat) :
    (n ≤ maxPaddedContent → PayloadPadding.paddedSize n ≤ maxPaddedContent) ∧
      (maxPaddedContent < n → 4 * 16384 ≤ PayloadPadding.paddedSize n) := by
  have hlast : PayloadBucket.sizes.getLast? = some 16384 := rfl
  unfold PayloadPadding.paddedSize maxPaddedContent
  cases hbucket : PayloadBucket.bucket n with
  | some bucket =>
    obtain ⟨hle, hlargest⟩ := le_of_bucket hbucket
    dsimp only
    omega
  | none =>
    rw [hlast]
    dsimp only
    omega

theorem isSome_frame {e : Envelope} (h : Envelope.headerSize + e.ciphertext.length < 2 ^ 32) :
    (frame .envelope e.wireData).isSome := by
  rw [← length_wireData] at h
  rw [frame, if_pos h]
  rfl

section Sealing

variable {sealsTo : Data → Data → Prop} {overhead : Nat} {id : MessageID} {sealed : Data}

/-- What is padded and sealed is delivered or lost by the length of its body. -/
theorem padded_iff
    (hsealed : ∀ p c, sealsTo p c → p.length ≤ c.length ∧ c.length ≤ p.length + overhead)
    (hroom : Envelope.headerSize + maxPaddedContent + overhead ≤ maxDeclaredFrameLength)
    {payload : MessagePayload} (hkind : MessagePayload.isMedia payload.kind = false)
    (hseals : sealsTo payload.sealedPlaintext sealed)
    (hbuilt : (frame .envelope (Envelope.new id sealed).wireData).isSome) :
    (Delivered (Envelope.new id sealed) ↔ payload.body.length ≤ maxBody) ∧
      (Lost (Envelope.new id sealed) ↔ maxBody < payload.body.length) := by
  obtain ⟨hdelivered, hlost⟩ := delivered_iff rfl (UInt8.le_refl _) hbuilt
  have hplain := MessagePayload.length_padded hkind
  rw [MessagePayload.contentLength] at hplain
  obtain ⟨hshort, hlong⟩ :=
    paddedSize_bounds (PayloadPadding.lengthHeaderSize + (payload.body.length + 1))
  obtain ⟨hlow, hhigh⟩ := hsealed _ _ hseals
  rw [hplain] at hlow hhigh
  have hwire : (Envelope.new id sealed).wireData.length = Envelope.headerSize + sealed.length :=
    length_wireData _
  have hbody : payload.body.length ≤ maxBody ↔
      PayloadPadding.lengthHeaderSize + (payload.body.length + 1) ≤ maxPaddedContent := by
    unfold maxBody PayloadPadding.lengthHeaderSize maxPaddedContent
    omega
  have hfits : (Envelope.new id sealed).wireData.length ≤ maxDeclaredFrameLength ↔
      payload.body.length ≤ maxBody := by
    rw [hwire, hbody]
    constructor
    · intro hle
      by_contra hover
      have hfour := hlong (by omega)
      unfold Envelope.headerSize maxDeclaredFrameLength at hle
      omega
    · intro hle
      have hthree := hshort hle
      omega
  rw [hdelivered, hlost, hfits]
  exact ⟨Iff.rfl, by omega⟩

/-- What is sealed as it is, within three times the largest bucket, is delivered. -/
theorem unpadded_delivered
    (hsealed : ∀ p c, sealsTo p c → p.length ≤ c.length ∧ c.length ≤ p.length + overhead)
    (hroom : Envelope.headerSize + maxPaddedContent + overhead ≤ maxDeclaredFrameLength)
    {payload : MessagePayload} (hkind : MessagePayload.isMedia payload.kind = true)
    (hlength : payload.body.length + 1 ≤ maxPaddedContent)
    (hseals : sealsTo payload.sealedPlaintext sealed) : Delivered (Envelope.new id sealed) := by
  have hplain : payload.sealedPlaintext.length = payload.body.length + 1 := by
    simp [MessagePayload.sealedPlaintext, hkind, MessagePayload.encoded]
  obtain ⟨_, hhigh⟩ := hsealed _ _ hseals
  have hwire : (Envelope.new id sealed).wireData.length = Envelope.headerSize + sealed.length :=
    length_wireData _
  exact delivered_of_le rfl (UInt8.le_refl _) (by omega)

end Sealing

/-! ### Media -/

/-- The chunker for transfers over BLE, with a byte reserved for the kind. -/
def mediaChunker : MediaChunker := ⟨4096, 1, by decide, by decide⟩

theorem length_toString_le {n e : Nat} (he : 0 < e) (h : n < 10 ^ e) :
    (toString (n : Int)).length ≤ e := (Nat.length_repr_le_iff he).mpr h

theorem utf8ByteSize_le (l : List Char) : (String.ofList l).utf8ByteSize ≤ 4 * l.length := by
  induction l with
  | nil => exact Nat.le_refl _
  | cons c l ih =>
    have hc := c.utf8Size_le_four
    rw [String.ofList_cons, String.utf8ByteSize_append, String.utf8ByteSize_singleton,
      List.length_cons]
    omega

theorem length_utf8_le (text : String) : (utf8 text).length ≤ 4 * text.length := by
  have h := utf8ByteSize_le text.toList
  rw [String.ofList_toList, String.length_toList] at h
  exact h

theorem length_hex (bytes : Data) : (hex bytes).length = 2 * bytes.length := by
  rw [hex, String.length_ofList]
  induction bytes with
  | nil => rfl
  | cons b bytes ih =>
    rw [List.flatMap_cons, List.length_append, ih]
    simp only [List.length_cons, List.length_nil]
    omega

section Media

variable {hashHex : Data → String} {dateText : Int → String} {c : MediaChunker}
    {blob mediaID : Data}
  {stamp : MediaChunker.Stamp} {m : MediaManifest} {chunks : List Data}

theorem targetBucket_le (c : MediaChunker) : c.targetBucket ≤ 16384 := by
  have hknown := c.known
  simp only [PayloadBucket.sizes, List.mem_cons, List.not_mem_nil, or_false] at hknown
  omega

/-- A blob that is split has fewer than `10 ^ 14` bytes. -/
theorem length_blob_lt (h : MediaChunker.Splits hashHex c blob stamp mediaID m chunks) :
    blob.length < 10 ^ 14 := by
  have hper : c.payloadPerChunk ≤ 16384 := by
    have hbucket := targetBucket_le c
    unfold MediaChunker.payloadPerChunk
    omega
  have hcounted : (Pieces.cut c.payloadPerChunk blob).length < 2 ^ 32 := h.counted
  have hpos : 0 < c.payloadPerChunk := MediaChunker.payloadPerChunk_pos
  rw [Pieces.length_cut hpos, Nat.div_lt_iff_lt_mul hpos] at hcounted
  have hproduct : 2 ^ 32 * c.payloadPerChunk ≤ 2 ^ 32 * 16384 := Nat.mul_le_mul_left _ hper
  omega

theorem length_sentAtJson_le (hdate : ∀ t, (dateText t).length ≤ 24) (sentAt : Option Int) :
    (MediaManifest.sentAtJson dateText sentAt).length ≤ 34 := by
  cases sentAt with
  | none => exact Nat.zero_le _
  | some t =>
    have hlength := hdate t
    have hkey : (",\"sentAt\":" : String).length = 10 := by decide
    rw [MediaManifest.sentAtJson, String.length_append, hkey]
    omega

/-- The manifest's JSON is short. -/
theorem length_json (h : MediaChunker.Splits hashHex c blob stamp mediaID m chunks)
    (hhash : ∀ data, (hashHex data).length = 64) (hdate : ∀ t, (dateText t).length ≤ 24) :
    (m.json dateText).length ≤ 300 := by
  have hbytes : (toString (blob.length : Int)).length ≤ 14 :=
    length_toString_le (by decide) (length_blob_lt h)
  have hcounted : (c.payloads blob).length < 10 ^ 10 :=
    h.counted.trans_le (by decide)
  have hcount : (toString ((c.payloads blob).length : Int)).length ≤ 10 :=
    length_toString_le (by decide) hcounted
  have hid : (hex mediaID).length = 32 := by rw [length_hex, h.wide]
  have hmime : stamp.mime.rawValue.length ≤ 4 := by
    cases stamp.mime <;> decide
  have hbool : ∀ b : Bool, (toString b).length ≤ 5 := by decide
  have hstory := hbool stamp.isStory
  have htalk := hbool stamp.isPushToTalk
  have hsha := hhash blob
  have hstamp := length_sentAtJson_le hdate stamp.sentAt
  have hkeys : ("\x7b\"mediaID\":\"" : String).length + ("\",\"mime\":\"" : String).length +
      ("\",\"totalBytes\":" : String).length + (",\"chunkCount\":" : String).length +
      (",\"sha256\":\"" : String).length + ("\"" : String).length +
      (",\"isStory\":" : String).length +
      (",\"isPushToTalk\":" : String).length + ("\x7d" : String).length ≤ 120 := by decide
  have hm := h.manifest
  subst hm
  delta MediaManifest.json
  simp only [String.length_append]
  omega

/-- The payloads of a transfer, the manifest first. -/
def transfer (dateText : Int → String) (m : MediaManifest) (chunks : List Data) :
    List MessagePayload :=
  ⟨.mediaManifest, utf8 (m.json dateText)⟩ :: chunks.map fun chunk => ⟨.mediaChunk, chunk⟩

/-- With a byte reserved for the kind, all of a transfer is within the largest bucket. -/
theorem length_transfer_le (h : MediaChunker.Splits hashHex c blob stamp mediaID m chunks)
    (hreserved : 1 ≤ c.reservedBytes) (hhash : ∀ data, (hashHex data).length = 64)
    (hdate : ∀ t, (dateText t).length ≤ 24) {payload : MessagePayload}
    (hpayload : payload ∈ transfer dateText m chunks) :
    MessagePayload.isMedia payload.kind = true ∧ payload.body.length + 1 ≤ 16384 := by
  rcases List.mem_cons.mp hpayload with rfl | hchunk
  · have hjson := length_json h hhash hdate
    have hbytes := length_utf8_le (m.json dateText)
    refine ⟨rfl, ?_⟩
    dsimp only
    omega
  · obtain ⟨chunk, hmem, rfl⟩ := List.mem_map.mp hchunk
    have hlength := h.length_le hmem
    have hbucket := targetBucket_le c
    refine ⟨rfl, ?_⟩
    dsimp only
    omega

end Media

theorem length_utf8_replicate (n : Nat) :
    (utf8 (String.ofList (List.replicate n 'a'))).length = n := by
  rw [length_utf8]
  induction n with
  | zero => rfl
  | succ n ih =>
    rw [List.replicate_succ, String.ofList_cons, String.utf8ByteSize_append, ih,
      String.utf8ByteSize_singleton, show Char.utf8Size 'a' = 1 by decide]
    omega

theorem isMedia_callSignal (signal : CallSignal) :
    MessagePayload.isMedia (MessagePayload.callSignal signal).kind = false := by
  cases signal <;> rfl

theorem body_callSignal (signal : CallSignal) :
    (MessagePayload.callSignal signal).body = signal.encodedBody := by
  cases signal <;> rfl

/-- A text or a call signal whose frame is built is delivered when its body has at most `maxBody`
bytes and lost when it has more, and all of a transfer of media is delivered. -/
theorem deliverable {sealsTo : Data → Data → Prop} {overhead : Nat} {hashHex : Data → String}
    {dateText : Int → String}
    (hsealed : ∀ p c, sealsTo p c → p.length ≤ c.length ∧ c.length ≤ p.length + overhead)
    (hroom : Envelope.headerSize + maxPaddedContent + overhead ≤ maxDeclaredFrameLength)
    (hhash : ∀ data, (hashHex data).length = 64) (hdate : ∀ t, (dateText t).length ≤ 24) :
    (∀ (text : String) (id : MessageID) (sealed : Data),
      sealsTo (MessagePayload.sealedPlaintext ⟨.text, utf8 text⟩) sealed →
      (frame .envelope (Envelope.new id sealed).wireData).isSome →
      (Delivered (Envelope.new id sealed) ↔ (utf8 text).length ≤ maxBody) ∧
        (Lost (Envelope.new id sealed) ↔ maxBody < (utf8 text).length)) ∧
    (∀ (signal : CallSignal) (id : MessageID) (sealed : Data),
      sealsTo (MessagePayload.callSignal signal).sealedPlaintext sealed →
      (frame .envelope (Envelope.new id sealed).wireData).isSome →
      (Delivered (Envelope.new id sealed) ↔ signal.encodedBody.length ≤ maxBody) ∧
        (Lost (Envelope.new id sealed) ↔ maxBody < signal.encodedBody.length)) ∧
    (∀ (blob : Data) (stamp : MediaChunker.Stamp) (mediaID : Data) (m : MediaManifest)
      (chunks : List Data), mediaChunker.split hashHex blob stamp mediaID = .ok (m, chunks) →
      ∀ payload ∈ transfer dateText m chunks, ∀ (id : MessageID) (sealed : Data),
        sealsTo payload.sealedPlaintext sealed → Delivered (Envelope.new id sealed)) := by
  refine ⟨?texts, ?signals, ?media⟩
  case texts =>
    intro text id sealed hseals hbuilt
    exact padded_iff hsealed hroom rfl hseals hbuilt
  case signals =>
    intro signal id sealed hseals hbuilt
    have hiff := padded_iff hsealed hroom (isMedia_callSignal signal) hseals hbuilt
    rwa [body_callSignal] at hiff
  case media =>
    intro blob stamp mediaID m chunks hsplit payload hpayload id sealed hseals
    obtain ⟨hkind, hlength⟩ :=
      length_transfer_le (MediaChunker.splits_of_split hashHex hsplit)
        (Nat.le_refl 1) hhash hdate hpayload
    exact unpadded_delivered hsealed hroom hkind (hlength.trans (by decide)) hseals

/-- A sealing that appends a hundred bytes. -/
def appended (plaintext : Data) : Data := plaintext ++ List.replicate 100 0

theorem length_appended (plaintext : Data) :
    (appended plaintext).length = plaintext.length + 100 := by
  rw [appended, List.length_append, List.length_replicate]

/-- The digest of the blob `abc`. -/
def abcHash : String := "ba7816bf8f01cfea414140de5dae2223b00361a396177a9cb410ff61f20015ad"

theorem deliverable_short :
    Delivered (Envelope.new ⟨List.replicate 16 7, by decide⟩
      (appended (MessagePayload.sealedPlaintext ⟨.text, utf8 "hello"⟩))) ∧
    ∀ m chunks, mediaChunker.split (fun _ => abcHash) [97, 98, 99]
        ⟨.jpeg, some 0, true, false⟩ (List.replicate 16 1) = .ok (m, chunks) →
      ∀ payload ∈ transfer (fun _ => "0") m chunks,
        Delivered (Envelope.new ⟨List.replicate 16 7, by decide⟩
          (appended payload.sealedPlaintext)) := by
  have hsealed : ∀ p c, c = appended p → p.length ≤ c.length ∧ c.length ≤ p.length + 100 := by
    rintro p _ rfl
    rw [length_appended]
    omega
  obtain ⟨htexts, _, hmedia⟩ := @deliverable (fun p c => c = appended p) 100 (fun _ => abcHash)
    (fun _ => "0") hsealed (by decide) (fun _ => by decide) (fun _ => by decide)
  have hframed : (frame .envelope (Envelope.new ⟨List.replicate 16 7, by decide⟩
      (appended (MessagePayload.sealedPlaintext ⟨.text, utf8 "hello"⟩))).wireData).isSome := by
    apply isSome_frame
    rw [show (Envelope.new _ (appended _)).ciphertext = appended _ from rfl, length_appended,
      MessagePayload.length_padded rfl]
    decide
  refine ⟨(htexts "hello" _ _ rfl hframed).1.mpr (by decide), ?_⟩
  intro m chunks hsplit payload hpayload
  exact hmedia _ _ _ _ _ hsplit _ hpayload _ _ rfl

theorem appended_lost {text : String} (id : MessageID) (hlong : (utf8 text).length = 49148) :
    (frame .envelope (Envelope.new id
      (appended (MessagePayload.sealedPlaintext ⟨.text, utf8 text⟩))).wireData).isSome ∧
    Lost (Envelope.new id (appended (MessagePayload.sealedPlaintext ⟨.text, utf8 text⟩))) := by
  have hplain : (MessagePayload.sealedPlaintext ⟨.text, utf8 text⟩).length = 65536 := by
    rw [MessagePayload.length_padded rfl, MessagePayload.contentLength, hlong]
    decide
  have hsealed : (Envelope.new id
      (appended (MessagePayload.sealedPlaintext ⟨.text, utf8 text⟩))).ciphertext.length =
      65636 := by
    rw [show (Envelope.new _ (appended _)).ciphertext = appended _ from rfl,
      length_appended, hplain]
  constructor
  · apply isSome_frame
    rw [hsealed]
    decide
  · apply lost_of_lt
    rw [length_wireData, hsealed]
    decide

/-- A text of `49148` bytes is framed, and lost. -/
theorem long_text_lost : ∃ (text : String) (id : MessageID),
    text = String.ofList (List.replicate 49148 'a') ∧
    (frame .envelope (Envelope.new id
      (appended (MessagePayload.sealedPlaintext ⟨.text, utf8 text⟩))).wireData).isSome ∧
    Lost (Envelope.new id (appended (MessagePayload.sealedPlaintext ⟨.text, utf8 text⟩))) :=
  ⟨_, ⟨List.replicate 16 7, by decide⟩, rfl, appended_lost _ (length_utf8_replicate _)⟩

end BLEMeshTransport

end AeroNyra
