import AeroNyra.Calls.Signal
import Mathlib.Order.Bounds.Basic

/-! The payload format: what is sealed comes back, its length is a step of the ladder, and the
parsers of the bodies take what the builders make and nothing else. -/

namespace AeroNyra

/-! ### The ladder -/

namespace PayloadPadding

/-- The sizes that a padded plaintext may have. -/
def Ladder (size : Nat) : Prop :=
  size ∈ PayloadBucket.sizes ∨ ∃ k, 0 < k ∧ size = k * 16384

theorem paddedSize_eq (n : Nat) : paddedSize n =
    if n ≤ 256 then 256 else if n ≤ 1024 then 1024 else if n ≤ 4096 then 4096
    else if n ≤ 16384 then 16384 else (n + 16383) / 16384 * 16384 := by
  unfold paddedSize PayloadBucket.bucket PayloadBucket.sizes
  by_cases h256 : n ≤ 256
  · simp [h256]
  · by_cases h1024 : n ≤ 1024
    · simp [h256, h1024]
    · by_cases h4096 : n ≤ 4096
      · simp [h256, h1024, h4096]
      · by_cases h16384 : n ≤ 16384
        · simp [h256, h1024, h4096, h16384]
        · simp [h256, h1024, h4096, h16384]

theorem ladder_paddedSize (n : Nat) : Ladder (paddedSize n) := by
  rw [paddedSize_eq]
  split
  · exact .inl (by decide)
  split
  · exact .inl (by decide)
  split
  · exact .inl (by decide)
  split
  · exact .inl (by decide)
  · exact .inr ⟨(n + 16383) / 16384, by omega, rfl⟩

theorem le_paddedSize (n : Nat) : n ≤ paddedSize n := by
  rw [paddedSize_eq]
  split_ifs <;> omega

theorem paddedSize_le {n size : Nat} (hladder : Ladder size) (hle : n ≤ size) :
    paddedSize n ≤ size := by
  rw [paddedSize_eq]
  rcases hladder with hbucket | ⟨k, hk, hsize⟩
  · simp only [PayloadBucket.sizes, List.mem_cons, List.not_mem_nil, or_false] at hbucket
    split_ifs <;> omega
  · split_ifs <;> omega

/-- The smallest size of the ladder that holds the content. -/
theorem isLeast_paddedSize (n : Nat) : IsLeast {size | Ladder size ∧ n ≤ size} (paddedSize n) :=
  ⟨⟨ladder_paddedSize n, le_paddedSize n⟩, fun _ hsize => paddedSize_le hsize.1 hsize.2⟩

/-- Two lengths that no size of the ladder tells apart. -/
def SameSizeClass (n m : Nat) : Prop := ∀ size, Ladder size → (n ≤ size ↔ m ≤ size)

theorem paddedSize_eq_iff {n m : Nat} : paddedSize n = paddedSize m ↔ SameSizeClass n m := by
  constructor
  · intro heq size hladder
    constructor
    · intro hn
      exact Nat.le_trans (le_paddedSize m) (heq ▸ paddedSize_le hladder hn)
    · intro hm
      exact Nat.le_trans (le_paddedSize n) (heq ▸ paddedSize_le hladder hm)
  · intro hclass
    have hnm := paddedSize_le (ladder_paddedSize m)
      ((hclass _ (ladder_paddedSize m)).mpr (le_paddedSize m))
    have hmn := paddedSize_le (ladder_paddedSize n)
      ((hclass _ (ladder_paddedSize n)).mp (le_paddedSize n))
    omega

theorem length_pad (payload : Data) :
    (pad payload).length = paddedSize (lengthHeaderSize + payload.length) := by
  have hle := le_paddedSize (lengthHeaderSize + payload.length)
  simp only [pad, List.length_append, MediaChunker.length_bigEndian, List.length_replicate]
  unfold lengthHeaderSize at hle ⊢
  omega

end PayloadPadding

namespace MessagePayload

/-- What the sealed length of a padded kind is computed from. -/
def contentLength (payload : MessagePayload) : Nat :=
  PayloadPadding.lengthHeaderSize + (payload.body.length + 1)

theorem length_padded {payload : MessagePayload} (hkind : isMedia payload.kind = false) :
    payload.sealedPlaintext.length =
      PayloadPadding.paddedSize payload.contentLength := by
  have hpad : payload.sealedPlaintext = PayloadPadding.pad payload.encoded := by
    simp [sealedPlaintext, hkind]
  rw [hpad, PayloadPadding.length_pad]
  rfl

/-! ### Bodies of fixed lengths -/

/-- A parser takes what the builder makes from valid fields, gives these fields back, and takes
nothing else. -/
def Exact {α : Type} (parse : Data → Option α) (valid : α → Prop) (build : α → MessagePayload) :
    Prop :=
  ∀ body fields, parse body = some fields ↔ valid fields ∧ body = (build fields).body

/-- A body is two fields of given lengths exactly when it is cut into them behind the first one. -/
theorem fields_iff {n m : Nat} {body a b : Data} :
    body.length = n + m ∧ body.take n = a ∧ body.drop n = b ↔
      a.length = n ∧ b.length = m ∧ body = a ++ b := by
  constructor
  · rintro ⟨hlength, rfl, rfl⟩
    refine ⟨?_, ?_, (List.take_append_drop n body).symm⟩
    · rw [List.length_take]
      omega
    · rw [List.length_drop]
      omega
  · rintro ⟨rfl, rfl, rfl⟩
    exact ⟨List.length_append, List.take_left, List.drop_left⟩

theorem parseDeliveryAck_iff {body : Data} {wireID : MessageID} {hops : UInt8} :
    parseDeliveryAck body = some (wireID, hops) ↔ body = (deliveryAck wireID hops).body := by
  constructor
  · intro h
    unfold parseDeliveryAck at h
    split at h
    · rename_i hlength
      obtain ⟨id, hid, hrest⟩ := Option.bind_eq_some_iff.mp h
      obtain ⟨last, hlast, hpair⟩ := Option.map_eq_some_iff.mp hrest
      obtain ⟨rfl, rfl⟩ := Prod.mk.inj hpair
      have hbytes : id.bytes = body.take MessageID.byteCount := by
        unfold MessageID.ofBytes? at hid
        split at hid
        · rw [← Option.some.inj hid]
        · cases hid
      have hend : body.drop MessageID.byteCount = [last] := by
        obtain ⟨hlt, hget⟩ := List.getElem?_eq_some_iff.mp hlast
        rw [List.drop_eq_getElem_cons hlt, hget, List.drop_eq_nil_of_le (by omega)]
      show body = id.bytes ++ [last]
      rw [hbytes, ← hend, List.take_append_drop]
    · cases h
  · rintro rfl
    exact parseDeliveryAck_deliveryAck wireID hops

theorem parseNostrIdentity_iff {body pubkey : Data} : parseNostrIdentity body = some pubkey ↔
    pubkey.length = nostrPubkeyByteCount ∧ body = (nostrIdentityAnnounce pubkey).body := by
  unfold parseNostrIdentity nostrIdentityAnnounce
  grind

theorem parseInviteEcho_iff {body inviteID : Data} : parseInviteEcho body = some inviteID ↔
    inviteID.length = inviteEchoIDByteCount ∧ body = (inviteEchoV1 inviteID).body := by
  unfold parseInviteEcho inviteEchoV1
  grind

theorem parsePTTClose_iff {body pttID : Data} : parsePTTClose body = some pttID ↔
    pttID.length = pttIDByteCount ∧ body = (pttCloseV1 pttID).body := by
  unfold parsePTTClose pttCloseV1
  grind

theorem parseInviteEchoV2_iff {body inviteID pubkey : Data} :
    parseInviteEchoV2 body = some (inviteID, pubkey) ↔ inviteID.length = inviteEchoIDByteCount ∧
      pubkey.length = nostrPubkeyByteCount ∧ body = (inviteEchoV2 inviteID pubkey).body := by
  rw [show (inviteEchoV2 inviteID pubkey).body = inviteID ++ pubkey from rfl, ← fields_iff]
  simp [parseInviteEchoV2]

theorem parsePTTOpen_iff {body pttID secret : Data} :
    parsePTTOpen body = some (pttID, secret) ↔ pttID.length = pttIDByteCount ∧
      secret.length = 32 ∧ body = (pttOpenV1 pttID secret).body := by
  rw [show (pttOpenV1 pttID secret).body = pttID ++ secret from rfl, ← fields_iff,
    show pttIDByteCount + 32 = pttOpenBodyByteCount from rfl]
  simp [parsePTTOpen]

end MessagePayload

/-! ### Call signals -/

theorem fromUTF8?_iff {bytes : Data} {text : String} :
    String.fromUTF8? ⟨⟨bytes⟩⟩ = some text ↔ utf8 text = bytes := by
  unfold String.fromUTF8?
  constructor
  · intro h
    split at h
    · rw [← Option.some.inj h]
      rfl
    · cases h
  · rintro rfl
    have hbytes : (⟨⟨utf8 text⟩⟩ : ByteArray) = text.toUTF8 := rfl
    rw [hbytes]
    exact dif_pos text.isValidUTF8

namespace CallSignal

/-- A session description within the bound, after an identifier of the fixed length. -/
def Valid : CallSignal → Prop
  | .request callID sdp | .answer callID sdp =>
    callID.length = callIDByteCount ∧ sdp ≠ "" ∧ (utf8 sdp).length ≤ maxSDPBytes
  | .decline callID => callID.length = callIDByteCount

theorem length_utf8_pos {text : String} : 0 < (utf8 text).length ↔ text ≠ "" := by
  rw [length_utf8, Nat.pos_iff_ne_zero, Ne, String.utf8ByteSize_eq_zero_iff]

theorem splitIDAndSDP_iff {body callID : Data} {sdp : String} :
    splitIDAndSDP body = some (callID, sdp) ↔ callID.length = callIDByteCount ∧ sdp ≠ "" ∧
      (utf8 sdp).length ≤ maxSDPBytes ∧ body = callID ++ utf8 sdp := by
  unfold splitIDAndSDP
  constructor
  · intro h
    split at h
    · rename_i hsize
      obtain ⟨text, htext, hpair⟩ := Option.map_eq_some_iff.mp h
      obtain ⟨rfl, rfl⟩ := Prod.mk.inj hpair
      obtain ⟨hdecoded, hnonempty⟩ := Option.filter_eq_some_iff.mp htext
      have hbytes := fromUTF8?_iff.mp hdecoded
      refine ⟨?_, by simpa using hnonempty, ?_, ?_⟩
      · rw [List.length_take]
        omega
      · rw [hbytes, List.length_drop]
        omega
      · rw [hbytes, List.take_append_drop]
    · cases h
  · rintro ⟨hid, hnonempty, hbound, rfl⟩
    have hpos := length_utf8_pos.mpr hnonempty
    have hsize : callIDByteCount < (callID ++ utf8 sdp).length ∧
        (callID ++ utf8 sdp).length ≤ callIDByteCount + maxSDPBytes := by
      rw [List.length_append]
      omega
    have hdecoded : String.fromUTF8? ⟨⟨utf8 sdp⟩⟩ = some sdp := fromUTF8?_iff.mpr rfl
    rw [if_pos hsize, ← hid, List.drop_left, List.take_left, hdecoded]
    simp [hnonempty]

/-- Each parser of a body with a session description builds one constructor. -/
theorem map_splitIDAndSDP_iff {build : Data → String → CallSignal} {body : Data}
    {signal : CallSignal} :
    (splitIDAndSDP body).map (fun p => build p.1 p.2) = some signal ↔
      ∃ callID sdp, signal = build callID sdp ∧ callID.length = callIDByteCount ∧ sdp ≠ "" ∧
        (utf8 sdp).length ≤ maxSDPBytes ∧ body = callID ++ utf8 sdp := by
  rw [Option.map_eq_some_iff]
  constructor
  · rintro ⟨⟨callID, sdp⟩, hsplit, rfl⟩
    exact ⟨callID, sdp, rfl, splitIDAndSDP_iff.mp hsplit⟩
  · rintro ⟨callID, sdp, rfl, hfields⟩
    exact ⟨(callID, sdp), splitIDAndSDP_iff.mpr hfields, rfl⟩

/-- The parser of the body that a payload of the signal's kind carries. -/
def parserFor : CallSignal → Data → Option CallSignal
  | .request _ _ => parseRequestBody
  | .answer _ _ => parseAnswerBody
  | .decline _ => parseDeclineBody

theorem parseRequestBody_iff {body : Data} {signal : CallSignal} :
    parseRequestBody body = some signal ↔
      (∃ callID sdp, signal = .request callID sdp) ∧ signal.Valid ∧ body = signal.encodedBody := by
  unfold parseRequestBody
  rw [map_splitIDAndSDP_iff]
  constructor
  · rintro ⟨callID, sdp, rfl, hid, hnonempty, hbound, hbody⟩
    exact ⟨⟨callID, sdp, rfl⟩, ⟨hid, hnonempty, hbound⟩, hbody⟩
  · rintro ⟨⟨callID, sdp, rfl⟩, ⟨hid, hnonempty, hbound⟩, hbody⟩
    exact ⟨callID, sdp, rfl, hid, hnonempty, hbound, hbody⟩

theorem parseAnswerBody_iff {body : Data} {signal : CallSignal} :
    parseAnswerBody body = some signal ↔
      (∃ callID sdp, signal = .answer callID sdp) ∧ signal.Valid ∧ body = signal.encodedBody := by
  unfold parseAnswerBody
  rw [map_splitIDAndSDP_iff]
  constructor
  · rintro ⟨callID, sdp, rfl, hid, hnonempty, hbound, hbody⟩
    exact ⟨⟨callID, sdp, rfl⟩, ⟨hid, hnonempty, hbound⟩, hbody⟩
  · rintro ⟨⟨callID, sdp, rfl⟩, ⟨hid, hnonempty, hbound⟩, hbody⟩
    exact ⟨callID, sdp, rfl, hid, hnonempty, hbound, hbody⟩

theorem parseDeclineBody_iff {body : Data} {signal : CallSignal} :
    parseDeclineBody body = some signal ↔
      (∃ callID, signal = .decline callID) ∧ signal.Valid ∧ body = signal.encodedBody := by
  unfold parseDeclineBody
  constructor
  · intro h
    split at h
    · rename_i hsize
      obtain rfl := Option.some.inj h
      exact ⟨⟨body, rfl⟩, hsize, rfl⟩
    · cases h
  · rintro ⟨⟨callID, rfl⟩, hid, hbody⟩
    have hsize : body.length = callIDByteCount := hbody ▸ hid
    rw [if_pos hsize, hbody]
    rfl

end CallSignal

/-! ### The whole format -/

open MessagePayload in
theorem payload_format :
    (∀ payload : MessagePayload, wellSized payload.kind payload.body →
      payload.encoded.length < 2 ^ 25 →
      decodeSealed payload.sealedPlaintext = some payload ∧ decode payload.encoded = some payload) ∧
    (∀ payload : MessagePayload, isMedia payload.kind = false →
      IsLeast {size | PayloadPadding.Ladder size ∧ payload.contentLength ≤ size}
        payload.sealedPlaintext.length) ∧
    (∀ payload payload' : MessagePayload, isMedia payload.kind = false → isMedia payload'.kind =
      false → (payload.sealedPlaintext.length = payload'.sealedPlaintext.length ↔
        PayloadPadding.SameSizeClass payload.contentLength payload'.contentLength)) ∧
    Exact parseDeliveryAck (fun _ => True) (fun ack => deliveryAck ack.1 ack.2) ∧
    Exact parseNostrIdentity (·.length = nostrPubkeyByteCount) nostrIdentityAnnounce ∧
    Exact parseInviteEcho (·.length = inviteEchoIDByteCount) inviteEchoV1 ∧
    Exact parseInviteEchoV2
      (fun echo => echo.1.length = inviteEchoIDByteCount ∧ echo.2.length = nostrPubkeyByteCount)
      (fun echo => inviteEchoV2 echo.1 echo.2) ∧
    Exact parsePTTOpen (fun session => session.1.length = pttIDByteCount ∧ session.2.length = 32)
      (fun session => pttOpenV1 session.1 session.2) ∧
    Exact parsePTTClose (·.length = pttIDByteCount) pttCloseV1 ∧
    Exact CallSignal.parseRequestBody
      (fun signal => (∃ callID sdp, signal = .request callID sdp) ∧ signal.Valid) callSignal ∧
    Exact CallSignal.parseAnswerBody
      (fun signal => (∃ callID sdp, signal = .answer callID sdp) ∧ signal.Valid) callSignal ∧
    Exact CallSignal.parseDeclineBody
      (fun signal => (∃ callID, signal = .decline callID) ∧ signal.Valid) callSignal := by
  have hsignal (signal : CallSignal) : (callSignal signal).body = signal.encodedBody := by
    cases signal <;> rfl
  refine ⟨?_, ?_, ?_, ?_, ?_, ?_, ?_, ?_, ?_, ?_, ?_, ?_⟩
  · intro payload hsize hshort
    exact ⟨decodeSealed_sealedPlaintext hsize hshort, decode_encoded hsize⟩
  · intro payload hkind
    rw [length_padded hkind]
    exact PayloadPadding.isLeast_paddedSize _
  · intro payload payload' hkind hkind'
    rw [length_padded hkind, length_padded hkind']
    exact PayloadPadding.paddedSize_eq_iff
  · intro body ack
    rw [true_and]
    exact parseDeliveryAck_iff
  · intro body pubkey
    exact parseNostrIdentity_iff
  · intro body inviteID
    exact parseInviteEcho_iff
  · intro body echo
    rw [and_assoc]
    exact parseInviteEchoV2_iff
  · intro body session
    rw [and_assoc]
    exact parsePTTOpen_iff
  · intro body pttID
    exact parsePTTClose_iff
  · intro body signal
    rw [and_assoc, hsignal]
    exact CallSignal.parseRequestBody_iff
  · intro body signal
    rw [and_assoc, hsignal]
    exact CallSignal.parseAnswerBody_iff
  · intro body signal
    rw [and_assoc, hsignal]
    exact CallSignal.parseDeclineBody_iff

/-- A text of the longest length in the first class, and one byte more. -/
theorem payload_format_text :
    MessagePayload.decodeSealed (MessagePayload.sealedPlaintext ⟨.text, List.replicate 251 7⟩) =
        some ⟨.text, List.replicate 251 7⟩ ∧
      (MessagePayload.sealedPlaintext ⟨.text, List.replicate 251 7⟩).length ≠
        (MessagePayload.sealedPlaintext ⟨.text, List.replicate 252 7⟩).length ∧
      MessagePayload.parsePTTClose (List.replicate 15 7) = none := by
  obtain ⟨hround, _, hclass, _, _, _, _, _, hclose, _⟩ := payload_format
  refine ⟨(hround _ rfl ?_).1, ?_, ?_⟩
  · simp only [MessagePayload.encoded, List.length_cons, List.length_replicate]
    decide
  · intro heq
    have hsame := (hclass _ _ rfl rfl).mp heq 256 (.inl (by decide))
    simp only [MessagePayload.contentLength, List.length_replicate] at hsame
    exact absurd (hsame.mp (by decide)) (by decide)
  · rw [Option.eq_none_iff_forall_ne_some]
    intro pttID hpttID
    obtain ⟨hlength, hbody⟩ := (hclose _ _).mp hpttID
    have hlengths := congrArg List.length hbody
    rw [MessagePayload.pttCloseV1, hlength] at hlengths
    exact absurd hlengths (by decide)

end AeroNyra
