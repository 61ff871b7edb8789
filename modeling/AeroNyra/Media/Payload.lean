import AeroNyra.Media.Chunker

/-! Tagged plaintexts: the kind byte, the padding to a bucket, and the body of a delivery
acknowledgement. -/

namespace AeroNyra

/-- The bytes of a text. -/
def utf8 (text : String) : Data := text.toUTF8.data.toList

theorem length_utf8 (text : String) : (utf8 text).length = text.utf8ByteSize := rfl

inductive WirePayloadKind
  | text
  | mediaManifest
  | mediaChunk
  | ack
  | nostrIdentity
  | reconnectHello
  | inviteEcho
  | callRequest
  | callAnswer
  | callDecline
  | inviteEchoV2
  | pttOpen
  | pttClose
  deriving DecidableEq

namespace WirePayloadKind

def rawValue : WirePayloadKind → UInt8
  | text => 1
  | mediaManifest => 2
  | mediaChunk => 3
  | ack => 4
  | nostrIdentity => 5
  | reconnectHello => 6
  | inviteEcho => 7
  | callRequest => 8
  | callAnswer => 9
  | callDecline => 10
  | inviteEchoV2 => 11
  | pttOpen => 12
  | pttClose => 13

def ofRawValue? (tag : UInt8) : Option WirePayloadKind :=
  match tag.toNat with
  | 1 => some text
  | 2 => some mediaManifest
  | 3 => some mediaChunk
  | 4 => some ack
  | 5 => some nostrIdentity
  | 6 => some reconnectHello
  | 7 => some inviteEcho
  | 8 => some callRequest
  | 9 => some callAnswer
  | 10 => some callDecline
  | 11 => some inviteEchoV2
  | 12 => some pttOpen
  | 13 => some pttClose
  | _ => none

theorem ofRawValue?_rawValue (k : WirePayloadKind) : ofRawValue? k.rawValue = some k := by
  cases k <;> rfl

end WirePayloadKind

/-! ### Padding -/

namespace PayloadBucket

def bucket (length : Nat) : Option Nat := sizes.find? (length ≤ ·)

end PayloadBucket

namespace PayloadPadding

def lengthHeaderSize : Nat := 4

/-- The padded size of `contentLength` bytes, their header included. -/
def paddedSize (contentLength : Nat) : Nat :=
  match PayloadBucket.bucket contentLength, PayloadBucket.sizes.getLast? with
  | some bucket, _ => bucket
  | none, some largest => (contentLength + largest - 1) / largest * largest
  | none, none => contentLength

def pad (payload : Data) : Data :=
  let needed := lengthHeaderSize + payload.length
  bigEndian payload.length ++ payload ++ List.replicate (paddedSize needed - needed) 0

def unpad (padded : Data) : Option Data :=
  if padded.length < lengthHeaderSize then none
  else if padded.length < lengthHeaderSize + readU32 padded 0 then none
  else some ((padded.drop lengthHeaderSize).take (readU32 padded 0))

theorem unpad_pad {payload : Data} (h : payload.length < 2 ^ 32) :
    unpad (pad payload) = some payload := by
  have hheader : readU32 (pad payload) 0 = payload.length := by
    rw [pad, List.append_assoc]
    exact MediaChunker.readU32_bigEndian h [] _
  have hlength : lengthHeaderSize + payload.length ≤ (pad payload).length := by
    simp only [pad, List.length_append, MediaChunker.length_bigEndian, lengthHeaderSize]
    omega
  have hdrop : (pad payload).drop lengthHeaderSize = payload ++ List.replicate
      (paddedSize (lengthHeaderSize + payload.length) - (lengthHeaderSize + payload.length)) 0 := by
    rw [pad, List.append_assoc]
    exact List.drop_left' (MediaChunker.length_bigEndian _)
  rw [unpad, hheader, if_neg (by omega), if_neg (by omega), hdrop, List.take_left]

end PayloadPadding

/-! ### Payloads -/

/-- A tagged plaintext.  Every kind carries a body. -/
structure MessagePayload where
  kind : WirePayloadKind
  body : Data
  deriving DecidableEq

namespace MessagePayload

def pttIDByteCount : Nat := 16

def pttOpenBodyByteCount : Nat := pttIDByteCount + 32

def encoded (p : MessagePayload) : Data := p.kind.rawValue :: p.body

/-- The kinds that are sealed as they are. -/
def isMedia : WirePayloadKind → Bool
  | .mediaManifest | .mediaChunk => true
  | _ => false

def sealedPlaintext (p : MessagePayload) : Data :=
  if isMedia p.kind then p.encoded else PayloadPadding.pad p.encoded

/-- `decode` refuses the lengths of push-to-talk bodies only. -/
def wellSized : WirePayloadKind → Data → Bool
  | .pttOpen, body => body.length == pttOpenBodyByteCount
  | .pttClose, body => body.length == pttIDByteCount
  | _, _ => true

def decode : Data → Option MessagePayload
  | [] => none
  | tag :: body =>
    (WirePayloadKind.ofRawValue? tag).bind fun kind =>
      if wellSized kind body then some ⟨kind, body⟩ else none

def decodeSealed (plaintext : Data) : Option MessagePayload :=
  if plaintext.head? = some WirePayloadKind.mediaManifest.rawValue ∨
      plaintext.head? = some WirePayloadKind.mediaChunk.rawValue then
    decode plaintext
  else (PayloadPadding.unpad plaintext).bind decode

theorem decode_encoded {p : MessagePayload} (h : wellSized p.kind p.body) :
    decode p.encoded = some p := by
  simp [encoded, decode, WirePayloadKind.ofRawValue?_rawValue, h]

/-- Below `2 ^ 25` bytes the high byte of the length header is no media tag. -/
theorem decodeSealed_sealedPlaintext {p : MessagePayload} (h : wellSized p.kind p.body)
    (hshort : p.encoded.length < 2 ^ 25) : decodeSealed p.sealedPlaintext = some p := by
  cases hmedia : isMedia p.kind with
  | true =>
    have hhead : p.encoded.head? = some WirePayloadKind.mediaManifest.rawValue ∨
        p.encoded.head? = some WirePayloadKind.mediaChunk.rawValue := by
      rw [encoded, List.head?_cons]
      cases hk : p.kind <;> simp_all [isMedia]
    rw [sealedPlaintext, if_pos hmedia, decodeSealed, if_pos hhead, decode_encoded h]
  | false =>
    have hfirst : (PayloadPadding.pad p.encoded).head? =
        some (.ofNat (p.encoded.length / 2 ^ 24)) := rfl
    have hsmall : p.encoded.length / 2 ^ 24 = 0 ∨ p.encoded.length / 2 ^ 24 = 1 := by omega
    have hhead : ¬((PayloadPadding.pad p.encoded).head? =
          some WirePayloadKind.mediaManifest.rawValue ∨
        (PayloadPadding.pad p.encoded).head? = some WirePayloadKind.mediaChunk.rawValue) := by
      rw [hfirst]
      rcases hsmall with hzero | hone
      · rw [hzero]
        decide
      · rw [hone]
        decide
    rw [sealedPlaintext, if_neg (by simp [hmedia]), decodeSealed, if_neg hhead,
      PayloadPadding.unpad_pad (by omega), Option.bind_some, decode_encoded h]

/-! ### Bodies -/

def deliveryAck (wireID : MessageID) (hops : UInt8) : MessagePayload :=
  ⟨.ack, wireID.bytes ++ [hops]⟩

def parseDeliveryAck (body : Data) : Option (MessageID × UInt8) :=
  if body.length = MessageID.byteCount + 1 then
    (MessageID.ofBytes? (body.take MessageID.byteCount)).bind fun id =>
      body[MessageID.byteCount]?.map fun hops => (id, hops)
  else none

def reconnectHelloV1 : MessagePayload := ⟨.reconnectHello, [1]⟩

def nostrPubkeyByteCount : Nat := 32

def nostrIdentityAnnounce (pubkey : Data) : MessagePayload := ⟨.nostrIdentity, pubkey⟩

def parseNostrIdentity (body : Data) : Option Data :=
  if body.length = nostrPubkeyByteCount then some body else none

def inviteEchoIDByteCount : Nat := 16

def inviteEchoV1 (inviteID : Data) : MessagePayload := ⟨.inviteEcho, inviteID⟩

def parseInviteEcho (body : Data) : Option Data :=
  if body.length = inviteEchoIDByteCount then some body else none

def inviteEchoV2 (inviteID redeemerNostrPubkey : Data) : MessagePayload :=
  ⟨.inviteEchoV2, inviteID ++ redeemerNostrPubkey⟩

/-- The invite's identifier and the redeemer's Nostr key. -/
def parseInviteEchoV2 (body : Data) : Option (Data × Data) :=
  if body.length = inviteEchoIDByteCount + nostrPubkeyByteCount then
    some (body.take inviteEchoIDByteCount, body.drop inviteEchoIDByteCount)
  else none

def pttOpenV1 (pttID secret : Data) : MessagePayload := ⟨.pttOpen, pttID ++ secret⟩

def pttCloseV1 (pttID : Data) : MessagePayload := ⟨.pttClose, pttID⟩

/-- The session's identifier and secret. -/
def parsePTTOpen (body : Data) : Option (Data × Data) :=
  if body.length = pttOpenBodyByteCount then
    some (body.take pttIDByteCount, body.drop pttIDByteCount)
  else none

def parsePTTClose (body : Data) : Option Data :=
  if body.length = pttIDByteCount then some body else none

theorem parseDeliveryAck_deliveryAck (wireID : MessageID) (hops : UInt8) :
    parseDeliveryAck (deliveryAck wireID hops).body = some (wireID, hops) := by
  have hsize := wireID.size
  have htake : (wireID.bytes ++ [hops]).take MessageID.byteCount = wireID.bytes :=
    List.take_left' hsize
  have hlast : (wireID.bytes ++ [hops])[MessageID.byteCount]? = some hops := by
    rw [List.getElem?_append_right (by simp [hsize, MessageID.byteCount])]
    simp [hsize, MessageID.byteCount]
  rw [parseDeliveryAck, deliveryAck, if_pos (by simp [hsize, MessageID.byteCount]), htake, hlast]
  simp [MessageID.ofBytes?, MessageID.byteCount, hsize]

end MessagePayload

end AeroNyra
