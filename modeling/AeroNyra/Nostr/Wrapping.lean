import AeroNyra.Nostr.EventJSON
import AeroNyra.Nostr.NIP44
import AeroNyra.Transport.Deliverable
import Mathlib.Logic.Function.Basic

/-! How the internet transport wraps an envelope in three layers, and which of the envelopes that
the app makes come out of the other end.  Each layer is written in the next one as base64 of its
padded form, within the 65535 bytes that NIP-44 allows. -/

namespace AeroNyra

/-- secp256k1 as the code calls it: secrets and x-only public keys are bytes. -/
structure Secp256k1 where
  xOnlyPublicKey : Data → Option Data
  /-- A signature of a hash, under a secret. -/
  sign : Data → Data → Option Data
  /-- A signature, the hash, the public key. -/
  verify : Data → Data → Data → Bool
  ecdh : Data → Data → Option Data

/-- The libraries that the code calls. -/
structure NostrLibraries where
  curve : Secp256k1
  hmac : HMAC
  sha256 : Text → Data
  decodeEvent : Text → Option NostrEvent

variable (l : NostrLibraries)

namespace NIP44

/-- `nip44-v2`. -/
def salt : Data := [0x6e, 0x69, 0x70, 0x34, 0x34, 0x2d, 0x76, 0x32]

/-- The key that a secret and a peer's public key agree on. -/
def conversationKey (mySecret peerPublicKey : Data) : Except Stop Data := do
  let sharedX ← Access.unwrapped .curveFailed (l.curve.ecdh mySecret peerPublicKey)
  return l.hmac.code salt sharedX

end NIP44

/-- What unwrapping with our secret takes from the libraries. -/
def NostrLibraries.primitives (mySecret : Data) : NostrPrimitives where
  sha256 := l.sha256
  verify := l.curve.verify
  decrypt publicKey payload :=
    (NIP44.conversationKey l mySecret publicKey >>= NIP44.decrypt l.hmac payload).toOption
  decodeEvent := l.decodeEvent
  decodeEnvelope content := (Base64.decode content).bind Envelope.ofWire?

/-! ### Ephemeral keys -/

namespace NostrIdentity

def curveOrder : Data :=
  [0xFF, 0xFF, 0xFF, 0xFF, 0xFF, 0xFF, 0xFF, 0xFF, 0xFF, 0xFF, 0xFF, 0xFF, 0xFF, 0xFF, 0xFF, 0xFE,
    0xBA, 0xAE, 0xDC, 0xE6, 0xAF, 0x48, 0xA0, 0x3B, 0xBF, 0xD2, 0x5E, 0x8C, 0xD0, 0x36, 0x41, 0x41]

/-- The comparison of big-endian numbers, byte by byte. -/
def below : Data → Data → Bool
  | b :: bytes, o :: order => if b < o then true else if b > o then false else below bytes order
  | _, _ => false

def isValidScalar (bytes : Data) : Bool :=
  if bytes.length ≠ 32 then false
  else if bytes.all (· == 0) then false
  else below bytes curveOrder

end NostrIdentity

/-- What the generator yields for one wrap.  A draw is `none` where the generator fails. -/
structure WrapDraws where
  sealNonce : Option (Vector UInt8 32)
  sealBackdate : Fin (2 * 24 * 60 * 60 + 1)
  scalars : Vector (Option (Vector UInt8 32)) 8
  wrapNonce : Option (Vector UInt8 32)
  wrapBackdate : Fin (2 * 24 * 60 * 60 + 1)

/-- The first draw that is a scalar of the curve, among those before a failure. -/
def firstScalar : List (Option (Vector UInt8 32)) → Option Data
  | [] => none
  | none :: _ => none
  | some raw :: rest => if NostrIdentity.isValidScalar raw.toList then some raw.toList
      else firstScalar rest

namespace NostrEvent

def signed (kind : Int) (content : Text) (tags : List (List Text)) (createdAt : Int)
    (secretKey : Data) :
    Option NostrEvent := do
  let pub ← l.curve.xOnlyPublicKey secretKey
  let pubkeyHex := hexEncode pub
  let id := computeID (l.primitives secretKey) pubkeyHex createdAt kind tags content
  let idBytes ← hexDecode id
  let sig ← l.curve.sign idBytes secretKey
  return ⟨id, pubkeyHex, createdAt, kind, tags, content, hexEncode sig⟩

def randomizedTimestamp (now : Int) (backdate : Fin (2 * 24 * 60 * 60 + 1)) : Int :=
    now - backdate.val

end NostrEvent

inductive NostrGiftWrapError
  | curveFailed
  | ephemeralKeyGenerationFailed
  | serializationFailed
  | wrongKind
  | invalidSignature
  | malformedInnerEvent
  | senderBindingFailed
  | malformedEnvelope
  deriving DecidableEq

/-- How a wrap ends without an event. -/
inductive WrapStop
  | threw (error : NostrGiftWrapError)
  | nip44 (stop : Stop)
  deriving DecidableEq

namespace NostrGiftWrap

/-- A `guard let` that throws. -/
def unwrapped {α : Type} (error : NostrGiftWrapError) : Option α → Except WrapStop α
  | some a => .ok a
  | none => .error (.threw error)

/-- The encoder takes every event, so that nothing is `serializationFailed`. -/
def wrap (envelope : Envelope) (senderSecret peerPublicKey : Data) (now : Int) (draws : WrapDraws) :
    Except WrapStop NostrEvent := do
  let senderPub ← unwrapped .curveFailed (l.curve.xOnlyPublicKey senderSecret)
  let senderPubHex := NostrEvent.hexEncode senderPub
  let peerPubHex := NostrEvent.hexEncode peerPublicKey
  let rumorContent := Base64.encode envelope.wireData
  let rumorID :=
    NostrEvent.computeID (l.primitives senderSecret) senderPubHex now rumorKind [] rumorContent
  let rumor : NostrEvent := ⟨rumorID, senderPubHex, now, rumorKind, [], rumorContent, []⟩
  let sealKey ← (NIP44.conversationKey l senderSecret peerPublicKey).mapError .nip44
  let sealContent ← (NIP44.encrypt l.hmac rumor.json sealKey none draws.sealNonce).mapError .nip44
  let inner ← unwrapped .curveFailed (NostrEvent.signed l sealKind sealContent []
    (NostrEvent.randomizedTimestamp now draws.sealBackdate) senderSecret)
  let ephemeralSecret ← unwrapped .ephemeralKeyGenerationFailed (firstScalar draws.scalars.toList)
  let wrapKey ← (NIP44.conversationKey l ephemeralSecret peerPublicKey).mapError .nip44
  let wrapContent ← (NIP44.encrypt l.hmac inner.json wrapKey none draws.wrapNonce).mapError .nip44
  unwrapped .curveFailed (NostrEvent.signed l wrapKind wrapContent [[['p'], peerPubHex]]
    (NostrEvent.randomizedTimestamp now draws.wrapBackdate) ephemeralSecret)

/-! ### What the code relies on -/

/-- A secret and its public key. -/
structure KeyPair where
  secret : Data
  publicKey : Data

/-- The keys of the curve sign and agree, and the decoder reads what the encoder wrote. -/
structure Sound (l : NostrLibraries) : Prop where
  size {secret pub : Data} : l.curve.xOnlyPublicKey secret = some pub → pub.length = 32
  signs {secret pub hash : Data} : l.curve.xOnlyPublicKey secret = some pub → hash.length = 32 →
    ∃ sig, l.curve.sign hash secret = some sig ∧ sig.length = 64 ∧
    l.curve.verify sig hash pub = true
  agrees {secret pub secret' pub' : Data} : l.curve.xOnlyPublicKey secret = some pub →
    l.curve.xOnlyPublicKey secret' = some pub' →
    ∃ x, l.curve.ecdh secret pub' = some x ∧ l.curve.ecdh secret' pub = some x
  digest (t : Text) : (l.sha256 t).length = 32
  reads {e : NostrEvent} : (-2 ^ 63 ≤ e.createdAt ∧ e.createdAt < 2 ^ 63) →
    (-2 ^ 63 ≤ e.kind ∧ e.kind < 2 ^ 63) → l.decodeEvent e.json = some e

/-- The generator does not fail and draws a scalar of the curve, and the clock is an `Int64` two
days ago and now. -/
structure Ready (l : NostrLibraries) (now : Int) (draws : WrapDraws) : Prop where
  nonces : draws.sealNonce.isSome ∧ draws.wrapNonce.isSome
  scalar : ∃ secret, firstScalar draws.scalars.toList = some secret ∧
    (l.curve.xOnlyPublicKey secret).isSome
  clock : -2 ^ 63 + 2 * 24 * 60 * 60 ≤ now ∧ now < 2 ^ 63

/-- The envelope is wrapped, and the recipient unwraps it and learns who sent it. -/
def Carried (sender recipient : KeyPair) (now : Int) (draws : WrapDraws)
    (envelope : Envelope) : Prop :=
  ∃ giftWrap, wrap l envelope sender.secret recipient.publicKey now draws = .ok giftWrap ∧
    unwrap (l.primitives recipient.secret) giftWrap = some (envelope, sender.publicKey)

/-! ### Unwrapping -/

/-- The layers of a gift wrap that opens: each has its kind, the outer two verify, and the seal and
the rumor have one author. -/
structure Opened (p : NostrPrimitives) (giftWrap : NostrEvent) (envelope : Envelope)
    (sender : Data) :
    Prop where
  kind : giftWrap.kind = wrapKind
  valid : giftWrap.isValid p = true
  layers : ∃ wrapPub sealJSON inner rumorJSON rumor,
    (NostrEvent.hexDecode giftWrap.pubkey = some wrapPub ∧ wrapPub.length = 32 ∧
      p.decrypt wrapPub giftWrap.content = some sealJSON ∧ p.decodeEvent sealJSON = some inner) ∧
    (inner.kind = sealKind ∧ inner.isValid p = true ∧ NostrEvent.hexDecode inner.pubkey =
      some sender ∧ sender.length = 32 ∧ p.decrypt sender inner.content = some rumorJSON ∧
      p.decodeEvent rumorJSON = some rumor) ∧
    rumor.kind = rumorKind ∧ rumor.pubkey = inner.pubkey ∧ p.decodeEnvelope rumor.content =
      some envelope

theorem guard_eq_some {c : Prop} [Decidable c] {u : Unit} :
    (guard c : Option Unit) = some u ↔ c := by
  by_cases hc : c <;> simp [guard, hc]

theorem unwrap_eq_some {p : NostrPrimitives} {giftWrap : NostrEvent} {envelope : Envelope}
    {sender : Data} :
    unwrap p giftWrap = some (envelope, sender) ↔ Opened p giftWrap envelope sender := by
  rw [unwrap]
  simp only [Option.bind_eq_bind, Option.bind_eq_some_iff, guard_eq_some, exists_const]
  constructor
  · rintro ⟨hkind, hvalid, wrapPub, hwrapPub, hwide, sealJSON, hsealJSON, inner, hinner, hinnerKind,
      hinnerValid, sealPub, hsealPub, hsealWide, rumorJSON, hrumorJSON, rumor, hrumor,
        hrumorKind, hauthor,
      opened, henvelope, hsame⟩
    cases hsame
    exact ⟨hkind, hvalid, wrapPub, sealJSON, inner, rumorJSON, rumor,
      ⟨hwrapPub, hwide, hsealJSON, hinner⟩,
      ⟨hinnerKind, hinnerValid, hsealPub, hsealWide, hrumorJSON, hrumor⟩, hrumorKind,
      hauthor, henvelope⟩
  · rintro ⟨hkind, hvalid, wrapPub, sealJSON, inner, rumorJSON, rumor,
      ⟨hwrapPub, hwide, hsealJSON, hinner⟩,
      ⟨hinnerKind, hinnerValid, hsealPub, hsealWide, hrumorJSON, hrumor⟩, hrumorKind,
      hauthor, henvelope⟩
    exact ⟨hkind, hvalid, wrapPub, hwrapPub, hwide, sealJSON, hsealJSON, inner, hinner, hinnerKind,
      hinnerValid, sender, hsealPub, hsealWide, rumorJSON, hrumorJSON, rumor, hrumor,
        hrumorKind, hauthor,
      envelope, henvelope, rfl⟩

/-! ### Signed events -/

section Signed

variable {l} {secret pub : Data}

theorem length_computeID (hsound : Sound l) (p : Data) (pubkey : Text) (createdAt kind : Int)
    (tags : List (List Text)) (content : Text) :
    NostrEvent.Plain (NostrEvent.computeID (l.primitives p) pubkey createdAt kind tags content) ∧
      (NostrEvent.computeID (l.primitives p) pubkey createdAt kind tags content).length = 64 := by
  refine ⟨NostrEvent.plain_hexEncode _, ?_⟩
  rw [NostrEvent.computeID, NostrEvent.length_hexEncode]
  exact congrArg (2 * ·) (hsound.digest _)

/-- An event that is signed is valid, and says what it was signed for. -/
theorem signed_valid (hsound : Sound l) (hpub : l.curve.xOnlyPublicKey secret = some pub)
    (mySecret : Data) (kind createdAt : Int) (content : Text) (tags : List (List Text)) :
    ∃ id sig, NostrEvent.signed l kind content tags createdAt secret =
        some ⟨id, NostrEvent.hexEncode pub, createdAt, kind, tags, content, sig⟩ ∧
      NostrEvent.isValid (l.primitives mySecret)
        ⟨id, NostrEvent.hexEncode pub, createdAt, kind, tags, content, sig⟩ = true ∧
      (NostrEvent.Plain id ∧ id.length = 64) ∧ NostrEvent.Plain sig ∧ sig.length = 128 := by
  have hdigest := hsound.digest
    (NostrEvent.serializeForID (NostrEvent.hexEncode pub) createdAt kind tags content)
  obtain ⟨sig, hsig, hlong, hverify⟩ := hsound.signs hpub hdigest
  refine ⟨NostrEvent.computeID (l.primitives secret)
    (NostrEvent.hexEncode pub) createdAt kind tags content,
    NostrEvent.hexEncode sig, ?_, ?_, length_computeID hsound _ _ _ _ _ _,
      NostrEvent.plain_hexEncode _, ?_⟩
  · rw [NostrEvent.signed, hpub]
    simp only [Option.bind_eq_bind, Option.bind_some, NostrEvent.computeID,
      NostrEvent.hexDecode_hexEncode]
    exact congrArg (Option.bind · _) hsig
  · have hid : NostrEvent.computeID (l.primitives mySecret)
      (NostrEvent.hexEncode pub) createdAt kind tags
        content = NostrEvent.hexEncode (l.sha256
          (NostrEvent.serializeForID (NostrEvent.hexEncode pub) createdAt kind tags content)) := rfl
    unfold NostrEvent.isValid
    dsimp only
    rw [if_neg (fun hne => hne rfl), NostrEvent.computeID]
    simp only [NostrEvent.hexDecode_hexEncode]
    rw [if_pos ⟨hdigest, hlong, hsound.size hpub⟩]
    exact hverify
  · rw [NostrEvent.length_hexEncode, hlong]

end Signed

/-! ### The lengths of the layers -/

theorem plain_nil : NostrEvent.Plain [] := nofun

section Lengths

variable {l}

theorem unwrapped_ok {α : Type} {error : NostrGiftWrapError} {o : Option α} {a : α} :
    unwrapped error o = .ok a ↔ o = some a := by
  cases o <;> simp [unwrapped]

theorem mapError_ok {α : Type} {x : Except Stop α} {a : α} : x.mapError WrapStop.nip44 = .ok a ↔
    x = .ok a := by
  cases x <;> simp [Except.mapError]

/-- Two parties agree on a key. -/
theorem conversationKey_agrees (hsound : Sound l) {secret pub secret' pub' : Data}
    (hpub : l.curve.xOnlyPublicKey secret = some pub)
    (hpub' : l.curve.xOnlyPublicKey secret' = some pub') :
    ∃ key, NIP44.conversationKey l secret pub' = .ok key ∧
    NIP44.conversationKey l secret' pub = .ok key ∧
      key.length = 32 := by
  obtain ⟨x, hx, hx'⟩ := hsound.agrees hpub hpub'
  refine ⟨l.hmac.code NIP44.salt x, ?_, ?_, l.hmac.size _ _⟩
  · rw [NIP44.conversationKey, hx]
    rfl
  · rw [NIP44.conversationKey, hx']
    rfl

/-- A layer is longer than its content. -/
theorem length_content {id pubkey content sig : Text}
    (hpubkey : NostrEvent.Plain pubkey ∧ pubkey.length = 64)
    (hcontent : NostrEvent.Plain content) (hsig : NostrEvent.Plain sig) (hid : NostrEvent.Plain id)
    (createdAt kind : Int) :
    content.length <
      (NostrEvent.json ⟨id, pubkey, createdAt, kind, [], content, sig⟩).bytes.length := by
  rw [NostrEvent.length_json rfl hid hpubkey.1 hcontent hsig]
  dsimp only
  omega

/-- What a layer adds to its content. -/
theorem length_layer {id pubkey content sig : Text} {createdAt kind : Int}
    (hid : NostrEvent.Plain id ∧ id.length = 64)
    (hpubkey : NostrEvent.Plain pubkey ∧ pubkey.length = 64) (hcontent : NostrEvent.Plain content)
    (hsig : NostrEvent.Plain sig) (hclock : -2 ^ 63 ≤ createdAt ∧ createdAt < 2 ^ 63)
    (hkind : kind = rumorKind ∨ kind = sealKind) :
    0 < (NostrEvent.json ⟨id, pubkey, createdAt, kind, [], content, sig⟩).bytes.length ∧
      (NostrEvent.json ⟨id, pubkey, createdAt, kind, [], content, sig⟩).bytes.length ≤
        228 + content.length + sig.length := by
  have htime := NostrEvent.length_decimal_le hclock.1 hclock.2
  have hnumber : (NostrEvent.decimal kind).length ≤ 5 := by
    rcases hkind with rfl | rfl <;> decide
  rw [NostrEvent.length_json rfl hid.1 hpubkey.1 hcontent hsig]
  dsimp only
  omega

theorem length_hexEncode_pub (hsound : Sound l) {secret pub : Data}
    (hpub : l.curve.xOnlyPublicKey secret = some pub) :
    NostrEvent.Plain (NostrEvent.hexEncode pub) ∧ (NostrEvent.hexEncode pub).length = 64 := by
  refine ⟨NostrEvent.plain_hexEncode _, ?_⟩
  rw [NostrEvent.length_hexEncode, hsound.size hpub]

/-- Up to 40960 bytes, five eighths of the limit, are padded to no more. -/
theorem calcPaddedLen_le_fifth {n : Nat} (h : n ≤ 40960) : NIP44.calcPaddedLen n ≤ 40960 :=
  (NIP44.isLeast_calcPaddedLen n).2 ⟨.inr ⟨5, 13, by omega, by omega, by omega, rfl⟩, h⟩

/-- More are padded to six eighths. -/
theorem le_calcPaddedLen_sixth {n : Nat} (h : 40960 < n) : 49152 ≤ NIP44.calcPaddedLen n := by
  obtain ⟨hsize, hle⟩ := (NIP44.isLeast_calcPaddedLen n).1
  rcases hsize with ⟨j, _, _, hj⟩ | ⟨j, k, _, hj, _, hk⟩
  · omega
  · have hbig : 13 ≤ k := by
      by_contra hsmall
      have hpow : 2 ^ k ≤ 2 ^ 12 := Nat.pow_le_pow_right (by omega) (by omega)
      have hmul : 2 ^ k * j ≤ 2 ^ 12 * 8 := Nat.mul_le_mul hpow hj
      omega
    have hmultiple : 2 ^ k * j = 8192 * (2 ^ (k - 13) * j) := by
      rw [← Nat.mul_assoc, show 8192 =
        2 ^ 13 by rfl, ← Nat.pow_add, show 13 + (k - 13) = k by omega]
    omega

end Lengths

/-- The most bytes of an envelope of which it is shown that they fit; the envelopes of one bucket
have fewer, and those of two have more than fit. -/
def maxWire : Nat := 30500

section Carrying

variable {l} {sender recipient : KeyPair} {now : Int} {draws : WrapDraws} {envelope : Envelope}

theorem carried_of_le (hsound : Sound l)
    (hsender : l.curve.xOnlyPublicKey sender.secret = some sender.publicKey)
    (hrecipient : l.curve.xOnlyPublicKey recipient.secret = some recipient.publicKey)
    (hready : Ready l now draws) (hversion : envelope.version = Envelope.currentVersion)
    (hhops : envelope.ttl ≤ Envelope.maxHops) (hwire : envelope.wireData.length ≤ maxWire) :
    Carried l sender recipient now draws envelope := by
  obtain ⟨⟨hsealNonce, hwrapNonce⟩, ⟨ephemeral, hephemeral, hscalar⟩, hclock⟩ := hready
  obtain ⟨ephemeralPub, hephemeralPub⟩ := Option.isSome_iff_exists.mp hscalar
  obtain ⟨sealNonce, hsealNonce⟩ := Option.isSome_iff_exists.mp hsealNonce
  have hsealDrawn : NIP44.messageNonce none draws.sealNonce = .ok sealNonce.toList := by
    rw [hsealNonce]
    rfl
  obtain ⟨wrapNonce, hwrapNonce⟩ := Option.isSome_iff_exists.mp hwrapNonce
  have hwrapDrawn : NIP44.messageNonce none draws.wrapNonce = .ok wrapNonce.toList := by
    rw [hwrapNonce]
    rfl
  obtain ⟨sealKey, hsealKey, hsealKey', hsealWide⟩ :=
    conversationKey_agrees hsound hsender hrecipient
  obtain ⟨wrapKey, hwrapKey, hwrapKey', hwrapWide⟩ :=
    conversationKey_agrees hsound hephemeralPub hrecipient
  have hsenderHex := length_hexEncode_pub hsound hsender
  have hsealed := draws.sealBackdate.isLt
  -- the rumor, whose padded form is within five eighths of the limit
  obtain ⟨rumorID, hrumorIDEq⟩ : ∃ rumorID, rumorID = NostrEvent.computeID
    (l.primitives sender.secret)
    (NostrEvent.hexEncode sender.publicKey) now rumorKind [] (Base64.encode envelope.wireData) :=
    ⟨_, rfl⟩
  have hrumorID := hrumorIDEq ▸ length_computeID hsound sender.secret
    (NostrEvent.hexEncode sender.publicKey) now rumorKind [] (Base64.encode envelope.wireData)
  obtain ⟨rumor, hrumor⟩ : ∃ rumor : NostrEvent, rumor =
    ⟨rumorID, NostrEvent.hexEncode sender.publicKey, now,
    rumorKind, [], Base64.encode envelope.wireData, []⟩ := ⟨_, rfl⟩
  have hrumorLength := length_layer hrumorID hsenderHex (NostrEvent.plain_base64 envelope.wireData)
    plain_nil ⟨by omega, hclock.2⟩ (.inl rfl)
  rw [← hrumor, Base64.length_encode, List.length_nil] at hrumorLength
  have hrumorSmall : rumor.json.bytes.length ≤ 40960 := by
    unfold maxWire at hwire
    omega
  have hrumorBounds : 1 ≤ rumor.json.bytes.length ∧ rumor.json.bytes.length ≤ 65535 := by omega
  obtain ⟨sealContent, hsealContent, hsealGenuine⟩ := NIP44.encrypt_genuine (h := l.hmac) hsealWide
    hrumorBounds hsealDrawn
  have hrumorReads : l.decodeEvent rumor.json = some rumor := by
    rw [hrumor]
    refine hsound.reads ⟨?_, hclock.2⟩ (by decide : -2 ^ 63 ≤ rumorKind ∧ rumorKind < 2 ^ 63)
    show -2 ^ 63 ≤ now
    omega
  -- the seal
  obtain ⟨_, sealBytes, hsealBytes, hsealLength⟩ := NIP44.length_encrypt hsealContent
  have hpadded := calcPaddedLen_le_fifth hrumorSmall
  have hsealPlain : NostrEvent.Plain sealContent := hsealBytes ▸ NostrEvent.plain_base64 sealBytes
  obtain ⟨sealID, sealSig, hinner, hinnerValid, hsealID, hsealSig, hsealSigLength⟩ :=
    signed_valid hsound hsender recipient.secret sealKind
      (NostrEvent.randomizedTimestamp now draws.sealBackdate) sealContent []
  obtain ⟨inner, hinnerEq⟩ : ∃ inner : NostrEvent, inner =
    ⟨sealID, NostrEvent.hexEncode sender.publicKey,
    NostrEvent.randomizedTimestamp now draws.sealBackdate, sealKind, [], sealContent,
      sealSig⟩ := ⟨_, rfl⟩
  have hsealClock : -2 ^ 63 ≤ NostrEvent.randomizedTimestamp now draws.sealBackdate ∧
      NostrEvent.randomizedTimestamp now draws.sealBackdate < 2 ^ 63 := by
    unfold NostrEvent.randomizedTimestamp
    omega
  have hinnerLength := length_layer hsealID hsenderHex hsealPlain hsealSig hsealClock (.inr rfl)
  have hcontentLength : sealContent.length ≤ 54704 := by
    rw [hsealBytes, Base64.length_encode]
    omega
  rw [← hinnerEq] at hinner hinnerValid hinnerLength
  have hinnerBounds : 1 ≤ inner.json.bytes.length ∧ inner.json.bytes.length ≤ 65535 := by omega
  obtain ⟨wrapContent, hwrapContent, hwrapGenuine⟩ := NIP44.encrypt_genuine (h := l.hmac) hwrapWide
    hinnerBounds hwrapDrawn
  have hinnerReads : l.decodeEvent inner.json = some inner := by
    rw [hinnerEq]
    exact hsound.reads hsealClock (by decide : -2 ^ 63 ≤ sealKind ∧ sealKind < 2 ^ 63)
  -- the gift wrap
  obtain ⟨wrapID, wrapSig, hgift, hgiftValid, _⟩ :=
    signed_valid hsound hephemeralPub recipient.secret wrapKind
    (NostrEvent.randomizedTimestamp now draws.wrapBackdate) wrapContent
    [[['p'], NostrEvent.hexEncode recipient.publicKey]]
  refine ⟨_, ?_, unwrap_eq_some.mpr ⟨rfl, hgiftValid, ephemeralPub, inner.json, inner, rumor.json,
    rumor, ⟨NostrEvent.hexDecode_hexEncode _, hsound.size hephemeralPub, ?_, hinnerReads⟩,
    ⟨?_, hinnerValid, ?_, hsound.size hsender, ?_, hrumorReads⟩, ?_, ?_, ?_⟩⟩
  · rw [wrap]
    refine Access.bind_ok.mpr ⟨_, unwrapped_ok.mpr hsender, ?_⟩
    dsimp only
    rw [← hrumorIDEq, ← hrumor]
    refine Access.bind_ok.mpr ⟨_, mapError_ok.mpr hsealKey, ?_⟩
    refine Access.bind_ok.mpr ⟨_, mapError_ok.mpr hsealContent, ?_⟩
    refine Access.bind_ok.mpr ⟨_, unwrapped_ok.mpr hinner, ?_⟩
    refine Access.bind_ok.mpr ⟨_, unwrapped_ok.mpr hephemeral, ?_⟩
    refine Access.bind_ok.mpr ⟨_, mapError_ok.mpr hwrapKey, ?_⟩
    refine Access.bind_ok.mpr ⟨_, mapError_ok.mpr hwrapContent, ?_⟩
    exact unwrapped_ok.mpr hgift
  · show (NIP44.conversationKey l recipient.secret ephemeralPub >>=
      NIP44.decrypt l.hmac wrapContent).toOption = some inner.json
    rw [hwrapKey']
    exact congrArg Except.toOption (NIP44.decrypt_ok_iff.mpr hwrapGenuine)
  · rw [hinnerEq]
  · rw [hinnerEq]
    exact NostrEvent.hexDecode_hexEncode _
  · rw [hinnerEq]
    show (NIP44.conversationKey l recipient.secret sender.publicKey >>=
      NIP44.decrypt l.hmac sealContent).toOption = some rumor.json
    rw [hsealKey']
    exact congrArg Except.toOption (NIP44.decrypt_ok_iff.mpr hsealGenuine)
  · rw [hrumor]
  · rw [hrumor, hinnerEq]
  · rw [hrumor]
    show (Base64.decode (Base64.encode envelope.wireData)).bind Envelope.ofWire? = some envelope
    rw [Base64.decode_encode]
    exact Envelope.ofWire?_wireData hversion hhops

/-- What is wrapped is shorter than two of the largest buckets. -/
theorem length_of_wrap (hsound : Sound l)
    (hsender : l.curve.xOnlyPublicKey sender.secret = some sender.publicKey)
    {giftWrap : NostrEvent}
    (hwrap : wrap l envelope sender.secret recipient.publicKey now draws = .ok giftWrap) :
    envelope.wireData.length < 2 * 16384 := by
  by_contra hlong
  rw [wrap] at hwrap
  obtain ⟨senderPub, hpub, hwrap⟩ := Access.bind_ok.mp hwrap
  obtain rfl := Option.some.inj (hsender.symm.trans (unwrapped_ok.mp hpub))
  have hsenderHex := length_hexEncode_pub hsound hsender
  obtain ⟨sealKey, _, hwrap⟩ := Access.bind_ok.mp hwrap
  obtain ⟨sealContent, hsealContent, hwrap⟩ := Access.bind_ok.mp hwrap
  obtain ⟨inner, hinner, hwrap⟩ := Access.bind_ok.mp hwrap
  obtain ⟨_, _, hwrap⟩ := Access.bind_ok.mp hwrap
  obtain ⟨wrapKey, _, hwrap⟩ := Access.bind_ok.mp hwrap
  obtain ⟨wrapContent, hwrapContent, _⟩ := Access.bind_ok.mp hwrap
  -- the rumor is padded to six eighths of the limit, and the seal is beyond it
  obtain ⟨_, sealBytes, rfl, hsealLength⟩ := NIP44.length_encrypt (mapError_ok.mp hsealContent)
  have hrumor := length_content hsenderHex (NostrEvent.plain_base64 envelope.wireData) plain_nil
    (length_computeID hsound sender.secret (NostrEvent.hexEncode sender.publicKey) now rumorKind []
      (Base64.encode envelope.wireData)).1 now rumorKind
  rw [Base64.length_encode] at hrumor
  have hpadded := le_calcPaddedLen_sixth (show 40960 < _ from lt_of_lt_of_le (by omega) hrumor.le)
  obtain ⟨sealID, sealSig, hsigned, _, hsealID, hsealSig, _⟩ :=
    signed_valid hsound hsender recipient.secret sealKind
      (NostrEvent.randomizedTimestamp now draws.sealBackdate) (Base64.encode sealBytes) []
  obtain rfl := Option.some.inj (hsigned.symm.trans (unwrapped_ok.mp hinner))
  obtain ⟨⟨_, hlimit⟩, _⟩ := NIP44.length_encrypt (mapError_ok.mp hwrapContent)
  have hseal := length_content hsenderHex (NostrEvent.plain_base64 sealBytes) hsealSig hsealID.1
    (NostrEvent.randomizedTimestamp now draws.sealBackdate) sealKind
  rw [Base64.length_encode] at hseal
  omega

end Carrying

/-! ### The envelopes of the app -/

/-- The most bytes of a text or a call signal that fit the largest bucket with their kind and their
length header. -/
def maxBody : Nat := 16384 - PayloadPadding.lengthHeaderSize - 1

/-- Content pads to the largest bucket at most, or to two of it at least. -/
theorem paddedSize_one_bucket (n : Nat) : (n ≤ 16384 → PayloadPadding.paddedSize n ≤ 16384) ∧
    (16384 < n → 2 * 16384 ≤ PayloadPadding.paddedSize n) := by
  have hlast : PayloadBucket.sizes.getLast? = some 16384 := rfl
  unfold PayloadPadding.paddedSize
  cases hbucket : PayloadBucket.bucket n with
  | some bucket =>
    obtain ⟨hle, hlargest⟩ := BLEMeshTransport.le_of_bucket hbucket
    dsimp only
    omega
  | none =>
    rw [hlast]
    dsimp only
    omega

section Envelopes

variable {l} {sealsTo : Data → Data → Prop} {overhead : Nat} {sender recipient : KeyPair}
    {now : Int}
  {draws : WrapDraws} {id : MessageID} {sealed : Data}

/-- What is padded and sealed is carried exactly when its body fits a bucket. -/
theorem padded_carried_iff (hsound : Sound l)
    (hsealed : ∀ p c, sealsTo p c → p.length ≤ c.length ∧ c.length ≤ p.length + overhead)
    (hroom : Envelope.headerSize + 16384 + overhead ≤ maxWire)
    (hsender : l.curve.xOnlyPublicKey sender.secret = some sender.publicKey)
    (hrecipient : l.curve.xOnlyPublicKey recipient.secret = some recipient.publicKey)
    (hready : Ready l now draws) {payload : MessagePayload}
    (hkind : MessagePayload.isMedia payload.kind = false)
    (hseals : sealsTo payload.sealedPlaintext sealed) :
    Carried l sender recipient now draws (Envelope.new id sealed) ↔
      payload.body.length ≤ maxBody := by
  have hplain := MessagePayload.length_padded hkind
  rw [MessagePayload.contentLength] at hplain
  obtain ⟨hshort, hlong⟩ :=
    paddedSize_one_bucket (PayloadPadding.lengthHeaderSize + (payload.body.length + 1))
  obtain ⟨hlow, hhigh⟩ := hsealed _ _ hseals
  rw [hplain] at hlow hhigh
  have hwire : (Envelope.new id sealed).wireData.length = Envelope.headerSize + sealed.length :=
    BLEMeshTransport.length_wireData _
  have hbody : payload.body.length ≤ maxBody ↔
      PayloadPadding.lengthHeaderSize + (payload.body.length + 1) ≤ 16384 := by
    unfold maxBody PayloadPadding.lengthHeaderSize
    omega
  rw [hbody]
  constructor
  · rintro ⟨giftWrap, hwrap, _⟩
    have hlength := length_of_wrap hsound hsender hwrap
    by_contra hover
    have htwo := hlong (by omega)
    omega
  · intro hle
    have hone := hshort hle
    exact carried_of_le hsound hsender hrecipient hready rfl (UInt8.le_refl _) (by omega)

/-- What is sealed as it is, within a bucket, is carried. -/
theorem unpadded_carried (hsound : Sound l)
    (hsealed : ∀ p c, sealsTo p c → p.length ≤ c.length ∧ c.length ≤ p.length + overhead)
    (hroom : Envelope.headerSize + 16384 + overhead ≤ maxWire)
    (hsender : l.curve.xOnlyPublicKey sender.secret = some sender.publicKey)
    (hrecipient : l.curve.xOnlyPublicKey recipient.secret = some recipient.publicKey)
    (hready : Ready l now draws) {payload : MessagePayload}
    (hkind : MessagePayload.isMedia payload.kind = true) (hlength : payload.body.length + 1 ≤ 16384)
    (hseals : sealsTo payload.sealedPlaintext sealed) :
    Carried l sender recipient now draws (Envelope.new id sealed) := by
  have hplain : payload.sealedPlaintext.length = payload.body.length + 1 := by
    simp [MessagePayload.sealedPlaintext, hkind, MessagePayload.encoded]
  obtain ⟨_, hhigh⟩ := hsealed _ _ hseals
  have hwire : (Envelope.new id sealed).wireData.length = Envelope.headerSize + sealed.length :=
    BLEMeshTransport.length_wireData _
  exact carried_of_le hsound hsender hrecipient hready rfl (UInt8.le_refl _) (by omega)

end Envelopes

/-- A text or a call signal is carried exactly when its body has at most `maxBody` bytes, all of a
transfer of media is carried, and what is unwrapped has three layers that are bound to its
sender. -/
theorem gift_wrap_carries {sealsTo : Data → Data → Prop} {overhead : Nat} {hashHex : Data → String}
    {dateText : Int → String} (hsound : Sound l)
    (hsealed : ∀ p c, sealsTo p c → p.length ≤ c.length ∧ c.length ≤ p.length + overhead)
    (hroom : Envelope.headerSize + 16384 + overhead ≤ maxWire)
    (hhash : ∀ data, (hashHex data).length = 64) (hdate : ∀ t, (dateText t).length ≤ 24)
    (sender recipient : KeyPair) (now : Int) (draws : WrapDraws)
    (hsender : l.curve.xOnlyPublicKey sender.secret = some sender.publicKey)
    (hrecipient : l.curve.xOnlyPublicKey recipient.secret = some recipient.publicKey)
    (hready : Ready l now draws) :
    (∀ (text : String) (id : MessageID) (sealed : Data),
      sealsTo (MessagePayload.sealedPlaintext ⟨.text, utf8 text⟩) sealed →
      (Carried l sender recipient now draws (Envelope.new id sealed) ↔
        (utf8 text).length ≤ maxBody)) ∧
    (∀ (signal : CallSignal) (id : MessageID) (sealed : Data),
      sealsTo (MessagePayload.callSignal signal).sealedPlaintext sealed →
      (Carried l sender recipient now draws (Envelope.new id sealed) ↔
        signal.encodedBody.length ≤ maxBody)) ∧
    (∀ (chunker : MediaChunker), 1 ≤ chunker.reservedBytes →
      ∀ (blob : Data) (stamp : MediaChunker.Stamp) (mediaID : Data) (m : MediaManifest)
      (chunks : List Data),
      chunker.split hashHex blob stamp mediaID = .ok (m, chunks) →
      ∀ payload ∈ BLEMeshTransport.transfer dateText m chunks, ∀ (id : MessageID) (sealed : Data),
        sealsTo payload.sealedPlaintext sealed →
        Carried l sender recipient now draws (Envelope.new id sealed)) ∧
    (∀ giftWrap envelope author, unwrap (l.primitives recipient.secret) giftWrap = some
      (envelope, author) → Opened (l.primitives recipient.secret) giftWrap envelope author) := by
  refine ⟨?texts, ?signals, ?media, ?opens⟩
  case texts =>
    intro text id sealed hseals
    exact padded_carried_iff hsound hsealed hroom hsender hrecipient hready rfl hseals
  case signals =>
    intro signal id sealed hseals
    rw [← BLEMeshTransport.body_callSignal]
    exact padded_carried_iff hsound hsealed hroom hsender hrecipient hready
      (BLEMeshTransport.isMedia_callSignal signal) hseals
  case media =>
    intro chunker hreserved blob stamp mediaID m chunks hsplit payload hpayload id sealed hseals
    obtain ⟨hkind, hlength⟩ := BLEMeshTransport.length_transfer_le
      (MediaChunker.splits_of_split hashHex hsplit) hreserved hhash hdate hpayload
    exact unpadded_carried hsound hsealed hroom hsender hrecipient hready hkind hlength hseals
  case opens =>
    intro giftWrap envelope author
    exact unwrap_eq_some.mp

/-! ### Three keys of the curve -/

/-- The coordinates of some multiples of the generator. -/
def multiples : List (Nat × Nat) :=
  [(1, 0x79be667ef9dcbbac55a06295ce870b07029bfcdb2dce28d959f2815b16f81798),
    (2, 0xc6047f9441ed7d6d3045406e95c07cd85c778e4b8cef3ca7abac09b95c709ee5),
    (3, 0xf9308a019258c31049344f85f89d5229b531c845836f99b08601f113bce036f9),
    (4, 0xe493dbf1c10d80f3581e4904930b1404cc6c13900ee0758474fa94abe8c4cd13),
    (6, 0xfff97bd5755eeea420453a14355235d382f6472f8568a18b2f057a1460297556),
    (9, 0xacd484e2f0c7f65309ad178a9f559abde09796974c57e714c35f110dfc27ccbe)]

def xOf (n : Nat) : Option Data := (multiples.lookup n).map fun x => (NIP44.bytes32 x).toList

def secretOf (n : Nat) : Data := (NIP44.bytes32 n).toList

/-- Which of the three secrets, and which of the three public keys. -/
def scalarOf (secret : Data) : Option Nat := [1, 2, 3].find? fun n => secretOf n = secret

def logOf (pub : Data) : Option Nat := [1, 2, 3].find? fun n => xOf n = some pub

/-- The hash of the seal of a hello, and its signature under the first secret. -/
def sealDigest : Data :=
  (NIP44.bytes32 0xca21a19069c6f5e3995841dbf1d8906c9257cd0dd951815ddea6e1bcc2b2bff4).toList

def sealSignature : Data :=
  (NIP44.bytes32 0x94ac6906ec067f4e38fe4e0b801c77f1bb78c26410d7b63ad66e18b71d86e026).toList ++
    (NIP44.bytes32 0x8cb4cb9666b1884ad3b36e757d3e9c81f2a23a2bfe02fe0e85b16f671ab6ee08).toList

/-- The hash of its gift wrap, and the signature of that under the third. -/
def wrapDigest : Data :=
  (NIP44.bytes32 0xb67c0f86653adde120b00b8930e0232e3835b6ed359c212f1e300f575005ebf1).toList

def wrapSignature : Data :=
  (NIP44.bytes32 0x4f0b332d9d9941ace4a2179e4a08de627627de9c189a06f07e3e421474a45efd).toList ++
    (NIP44.bytes32 0x62fe100c78dbc1629cb5b00203040931cb4bbc4b50a3ebf927b2f61fbbee7486).toList

/-- The signature of a hash under the `n`-th secret; one for all of the others. -/
def signatureOf (n : Nat) (hash : Data) : Data :=
  if n = 1 ∧ hash = sealDigest then sealSignature
  else if n = 3 ∧ hash = wrapDigest then wrapSignature
  else List.replicate 64 1

/-- The curve on its first three secrets. -/
def knownCurve : Secp256k1 where
  xOnlyPublicKey secret := (scalarOf secret).bind xOf
  sign hash secret := (scalarOf secret).map (signatureOf · hash)
  verify sig hash pub := (logOf pub).any fun n => sig = signatureOf n hash
  ecdh secret pub := do
    let m ← scalarOf secret
    let n ← logOf pub
    xOf (m * n)

noncomputable def knownLibraries : NostrLibraries where
  curve := knownCurve
  hmac := NIP44.knownHMAC
  sha256 t := SHA256.hash t.bytes
  decodeEvent := Function.partialInv NostrEvent.json

theorem logOf_xOf : ∀ n ∈ [1, 2, 3], ∃ pub, xOf n = some pub ∧ logOf pub = some n := by
  have hall : ∀ n ∈ [1, 2, 3], (xOf n).isSome ∧ (xOf n).bind logOf = some n := by decide +kernel
  intro n hn
  obtain ⟨hsome, hlog⟩ := hall n hn
  obtain ⟨pub, hpub⟩ := Option.isSome_iff_exists.mp hsome
  rw [hpub] at hlog
  exact ⟨pub, hpub, hlog⟩

theorem knownCurve_pub {secret pub : Data} (h : knownCurve.xOnlyPublicKey secret = some pub) :
    ∃ n ∈ [1, 2, 3], scalarOf secret = some n ∧ xOf n = some pub ∧ logOf pub = some n := by
  obtain ⟨n, hscalar, hx⟩ := Option.bind_eq_some_iff.mp h
  have hmem : n ∈ [1, 2, 3] := List.mem_of_find?_eq_some hscalar
  obtain ⟨pub', hpub', hlog⟩ := logOf_xOf n hmem
  obtain rfl := Option.some.inj (hx.symm.trans hpub')
  exact ⟨n, hmem, hscalar, hx, hlog⟩

theorem length_signatureOf (n : Nat) (hash : Data) : (signatureOf n hash).length = 64 := by
  unfold signatureOf
  split
  · rw [sealSignature, List.length_append, Vector.length_toList, Vector.length_toList]
  · split
    · rw [wrapSignature, List.length_append, Vector.length_toList, Vector.length_toList]
    · exact List.length_replicate

theorem sound_known : Sound knownLibraries where
  size h := by
    obtain ⟨n, _, _, hx, _⟩ := knownCurve_pub h
    obtain ⟨x, _, rfl⟩ := Option.map_eq_some_iff.mp hx
    exact Vector.length_toList
  signs {_ _ hash} h _ := by
    obtain ⟨n, _, hscalar, _, hlog⟩ := knownCurve_pub h
    refine ⟨signatureOf n hash, ?_, length_signatureOf n hash, ?_⟩
    · show (scalarOf _).map _ = _
      rw [hscalar]
      rfl
    · show (logOf _).any _ = true
      rw [hlog]
      exact decide_eq_true rfl
  agrees h h' := by
    obtain ⟨m, hm, hscalar, _, hlog⟩ := knownCurve_pub h
    obtain ⟨n, hn, hscalar', _, hlog'⟩ := knownCurve_pub h'
    have hall : ∀ m ∈ [1, 2, 3], ∀ n ∈ [1, 2, 3], (xOf (m * n)).isSome := by decide +kernel
    obtain ⟨x, hx⟩ := Option.isSome_iff_exists.mp (hall m hm n hn)
    refine ⟨x, ?_, ?_⟩
    · show (scalarOf _).bind _ = _
      rw [hscalar, Option.bind_some, hlog']
      exact hx
    · show (scalarOf _).bind _ = _
      rw [hscalar', Option.bind_some, hlog]
      rw [Nat.mul_comm] at hx
      exact hx
  digest _ := SHA256.length_hash _
  reads _ _ := Function.partialInv_left NostrEvent.json_injective _

def keyPairOf (n : Nat) : KeyPair := ⟨secretOf n, (xOf n).getD []⟩

def knownDraws : WrapDraws :=
  ⟨some (NIP44.bytes32 7), 1000, Vector.replicate 8 (some (NIP44.bytes32 3)),
  some (NIP44.bytes32 8), 2000⟩

theorem ready_known : Ready knownLibraries 1700000000 knownDraws where
  nonces := ⟨rfl, rfl⟩
  scalar := by
    have hfirst : firstScalar knownDraws.scalars.toList = some (secretOf 3) := by decide +kernel
    have hpub : (knownCurve.xOnlyPublicKey (secretOf 3)).isSome := by decide +kernel
    exact ⟨_, hfirst, hpub⟩
  clock := by omega

theorem pub_known : knownLibraries.curve.xOnlyPublicKey (keyPairOf 1).secret =
    some (keyPairOf 1).publicKey ∧
    knownLibraries.curve.xOnlyPublicKey (keyPairOf 2).secret = some (keyPairOf 2).publicKey := by
  show knownCurve.xOnlyPublicKey _ = _ ∧ knownCurve.xOnlyPublicKey _ = _
  decide +kernel

/-- A short text is carried. -/
theorem gift_wrap_carries_hello : Carried knownLibraries (keyPairOf 1)
    (keyPairOf 2) 1700000000 knownDraws (Envelope.new ⟨List.replicate 16 7, by decide⟩
      (BLEMeshTransport.appended (MessagePayload.sealedPlaintext ⟨.text, utf8 "hello"⟩))) := by
  have hsealed : ∀ p c, c = BLEMeshTransport.appended p → p.length ≤ c.length ∧
    c.length ≤ p.length + 100 := by
    rintro p _ rfl
    rw [BLEMeshTransport.length_appended]
    omega
  have hdigest (data : Data) : (String.ofList (NostrEvent.hexEncode (SHA256.hash data))).length =
    64 := by
    rw [String.length_ofList, NostrEvent.length_hexEncode, SHA256.length_hash]
  obtain ⟨htexts, _⟩ := @gift_wrap_carries knownLibraries
    (fun p c => c = BLEMeshTransport.appended p) 100
    (fun data => String.ofList (NostrEvent.hexEncode (SHA256.hash data)))
    (fun _ => "0") sound_known hsealed
    (by decide) hdigest (fun _ => by decide) (keyPairOf 1)
    (keyPairOf 2) 1700000000 knownDraws pub_known.1
    pub_known.2 ready_known
  exact (htexts "hello" _ _ rfl).mpr (by decide)

/-- An offer of 16364 bytes, which the limit of offers allows, is not. -/
theorem long_offer_not_carried : ∃ (sdp : String) (id : MessageID),
    sdp = String.ofList (List.replicate 16364 'a') ∧ (utf8 sdp).length ≤ CallSignal.maxSDPBytes ∧
    ¬Carried knownLibraries (keyPairOf 1) (keyPairOf 2) 1700000000 knownDraws
      (Envelope.new id (BLEMeshTransport.appended
        (MessagePayload.callSignal (.request (List.replicate 16 9) sdp)).sealedPlaintext)) := by
  refine ⟨_, ⟨List.replicate 16 7, by decide⟩, rfl, ?_, ?_⟩
  · rw [BLEMeshTransport.length_utf8_replicate]
    decide
  · rintro ⟨giftWrap, hwrap, _⟩
    have hlength := length_of_wrap sound_known pub_known.1 hwrap
    have hplain : (MessagePayload.callSignal (.request (List.replicate 16 9)
        (String.ofList (List.replicate 16364 'a')))).sealedPlaintext.length = 32768 := by
      rw [MessagePayload.length_padded (BLEMeshTransport.isMedia_callSignal _),
        MessagePayload.contentLength, BLEMeshTransport.body_callSignal, CallSignal.encodedBody,
          List.length_append,
        BLEMeshTransport.length_utf8_replicate, List.length_replicate]
      decide
    rw [BLEMeshTransport.length_wireData] at hlength
    have hsealed : (Envelope.new ⟨List.replicate 16 7, by decide⟩ (BLEMeshTransport.appended
        (MessagePayload.callSignal (.request (List.replicate 16 9)
          (String.ofList (List.replicate 16364 'a')))).sealedPlaintext)).ciphertext.length =
          32868 := by
      rw [show (Envelope.new _ (BLEMeshTransport.appended _)).ciphertext =
        BLEMeshTransport.appended _ from rfl, BLEMeshTransport.length_appended, hplain]
    omega

end NostrGiftWrap

end AeroNyra
