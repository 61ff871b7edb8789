import AeroNyra.Lib.Access
import AeroNyra.Lib.Base64
import AeroNyra.Lib.SHA256
import AeroNyra.Nostr.ChaCha20
import AeroNyra.Nostr.Text
import Mathlib.Data.Nat.Size
import Mathlib.Order.Bounds.Basic

/-! The encryption of NIP-44, version 2: the keys of a message, the padding, and the payload.  What
is encrypted decrypts to itself, and what decrypts has the version, the code and the padding of
something encrypted.  Subscripts and ranges are checked, and none of them is out of range. -/

namespace AeroNyra

inductive NIP44Error
  | invalidConversationKey
  | invalidPlaintextLength
  | randomGenerationFailed
  | invalidPayload
  | invalidMAC
  | invalidPadding
  | curveFailed
  deriving DecidableEq

/-- How a call ends without a value. -/
abbrev Stop := Halt NIP44Error

/-- `HMAC<SHA256>` of the cryptographic library. -/
structure HMAC where
  code : Data → Data → Data
  size (key message : Data) : (code key message).length = 32

namespace NIP44

open Access

def version : UInt8 := 2

/-! ### Padding -/

def calcPaddedLen (unpadded : Nat) : Nat :=
  if unpadded ≤ 32 then 32
  else
    let bitLength := Nat.size (unpadded - 1)
    let nextPower := 1 <<< bitLength
    let chunk := if nextPower ≤ 256 then 32 else nextPower / 8
    chunk * ((unpadded - 1) / chunk + 1)

def pad (plaintext : Data) : Data :=
  let u := plaintext.length
  [.ofNat (u / 256), .ofNat u] ++ plaintext ++ List.replicate (calcPaddedLen u - u) 0

/-! ### Key schedule -/

variable (h : HMAC)

/-- The loop of `hkdfExpand`. -/
def expandFrom (prk info : Data) (length : Nat) (output t : Data) (counter : UInt8) : Data :=
  if output.length < length then
    let t := h.code prk (t ++ info ++ [counter])
    expandFrom prk info length (output ++ t) t (counter + 1)
  else output
termination_by length - output.length
decreasing_by
  simp only [List.length_append, h.size]
  omega

def hkdfExpand (prk info : Data) (length : Nat) : Data :=
  (expandFrom h prk info length [] [] 1).take length

/-- The key and the nonce of the cipher, and the key of the code. -/
def messageKeys (conversationKey nonce : Data) : Except Stop (Data × Data × Data) := do
  let k := hkdfExpand h conversationKey nonce 76
  let chachaKey ← slice k 0 32
  let chachaNonce ← slice k 32 44
  let hmacKey ← slice k 44 76
  return (chachaKey, chachaNonce, hmacKey)

/-! ### Encrypt and decrypt -/

/-- The nonce of the caller, or what the system's generator draws. -/
def messageNonce (nonce : Option Data) (drawn : Option (Vector UInt8 32)) : Except Stop Data :=
  match nonce with
  | some nonce => do
    ensure (nonce.length = 32) .invalidPayload
    return nonce
  | none => (unwrapped .randomGenerationFailed drawn).map Vector.toList

def encrypt (plaintext : Text) (conversationKey : Data) (nonce : Option Data)
    (drawn : Option (Vector UInt8 32)) : Except Stop Text := do
  ensure (conversationKey.length = 32) .invalidConversationKey
  let plaintextBytes := plaintext.bytes
  ensure (1 ≤ plaintextBytes.length ∧ plaintextBytes.length ≤ 65535) .invalidPlaintextLength
  let nonceData ← messageNonce nonce drawn
  let (chachaKey, chachaNonce, hmacKey) ← messageKeys h conversationKey nonceData
  let padded := pad plaintextBytes
  let ciphertext ← inRange (ChaCha20.xor padded chachaKey chachaNonce 0) >>= unwrapped .curveFailed
  let mac := h.code hmacKey (nonceData ++ ciphertext)
  return Base64.encode ([version] ++ nonceData ++ ciphertext ++ mac)

def decrypt (payload : Text) (conversationKey : Data) : Except Stop Text := do
  ensure (conversationKey.length = 32) .invalidConversationKey
  let bytes ← unwrapped .invalidPayload (Base64.decode payload)
  ensure (99 ≤ bytes.length ∧ bytes.length ≤ 65603) .invalidPayload
  let first ← inRange bytes[0]?
  ensure (first = version) .invalidPayload
  let nonce ← slice bytes 1 33
  let macStart := bytes.length - 32
  let ciphertext ← slice bytes 33 macStart
  let mac ← slice bytes macStart bytes.length
  let (chachaKey, chachaNonce, hmacKey) ← messageKeys h conversationKey nonce
  ensure (mac = h.code hmacKey (nonce ++ ciphertext)) .invalidMAC
  let padded ← inRange (ChaCha20.xor ciphertext chachaKey chachaNonce 0) >>= unwrapped
    .invalidPayload
  ensure (2 ≤ padded.length) .invalidPadding
  let high ← inRange padded[0]?
  let low ← inRange padded[1]?
  let unpaddedLen := high.toNat * 256 + low.toNat
  ensure (1 ≤ unpaddedLen ∧ 2 + unpaddedLen ≤ padded.length ∧
    padded.length = 2 + calcPaddedLen unpaddedLen) .invalidPadding
  let text ← slice padded 2 (2 + unpaddedLen)
  unwrapped .invalidPadding (Text.ofBytes? text)

/-! ### The padded lengths -/

/-- The lengths that plaintexts are padded to: the multiples of 32 up to 256, and beyond it the
multiples of an eighth of a power of two, in the upper half of that power. -/
def PaddedSize (c : Nat) : Prop :=
  (∃ j, 1 ≤ j ∧ j ≤ 8 ∧ c = 32 * j) ∨ ∃ j k, 5 ≤ j ∧ j ≤ 8 ∧ 6 ≤ k ∧ c = 2 ^ k * j

theorem PaddedSize.le {c : Nat} (hc : PaddedSize c) : 32 ≤ c := by
  rcases hc with ⟨j, hj, _, rfl⟩ | ⟨j, k, hj, _, hk, rfl⟩
  · omega
  · have hpow : 2 ^ 6 ≤ 2 ^ k := Nat.pow_le_pow_right (by omega) hk
    calc 32 ≤ 2 ^ 6 * 1 := by omega
      _ ≤ 2 ^ k * j := Nat.mul_le_mul hpow (by omega)

/-- The multiple of `chunk` that follows `m` is the least above it. -/
theorem chunk_mul_le {chunk m q : Nat} (h : m < chunk * q) : chunk * (m / chunk + 1) ≤ chunk * q :=
  Nat.mul_le_mul_left chunk (Nat.div_lt_of_lt_mul h)

theorem lt_chunk_mul {chunk : Nat} (m : Nat) (h : 0 < chunk) : m < chunk * (m / chunk + 1) :=
  Nat.lt_mul_div_succ m h

/-- Up to 256, the length is padded to a multiple of 32. -/
theorem calcPaddedLen_small {n : Nat} (hn : 32 < n) (hsmall : n ≤ 256) :
    calcPaddedLen n = 32 * ((n - 1) / 32 + 1) := by
  have hsize : Nat.size (n - 1) ≤ 8 := Nat.size_le.mpr (by omega)
  have hpow : 2 ^ Nat.size (n - 1) ≤ 2 ^ 8 := Nat.pow_le_pow_right (by omega) hsize
  rw [calcPaddedLen, if_neg (by omega)]
  simp only [Nat.one_shiftLeft]
  rw [if_pos (by omega)]

/-- Beyond 256, it is padded to a multiple of an eighth of the next power of two. -/
theorem calcPaddedLen_large {n : Nat} (hn : 256 < n) : ∃ k, 6 ≤ k ∧ 2 ^ (k + 2) < n ∧
    n ≤ 2 ^ (k + 3) ∧ calcPaddedLen n = 2 ^ k * ((n - 1) / 2 ^ k + 1) := by
  have hsize : 8 < Nat.size (n - 1) := Nat.lt_size.mpr (by omega)
  obtain ⟨k, hk⟩ : ∃ k, Nat.size (n - 1) = k + 3 := ⟨Nat.size (n - 1) - 3, by omega⟩
  have hlow : 2 ^ (k + 2) ≤ n - 1 := Nat.lt_size.mp (by omega)
  have hhigh : n - 1 < 2 ^ (k + 3) := Nat.size_le.mp (by omega)
  have hpow : 2 ^ 9 ≤ 2 ^ (k + 3) := Nat.pow_le_pow_right (by omega) (by omega)
  have heighth : 2 ^ (k + 3) / 8 = 2 ^ k := by rw [Nat.pow_add]; omega
  refine ⟨k, by omega, by omega, by omega, ?_⟩
  rw [calcPaddedLen, if_neg (by omega)]
  simp only [Nat.one_shiftLeft, hk]
  rw [if_neg (by omega), heighth]

/-- A length is padded to the least size that holds it. -/
theorem isLeast_calcPaddedLen (n : Nat) : IsLeast {c | PaddedSize c ∧ n ≤ c} (calcPaddedLen n) := by
  by_cases htiny : n ≤ 32
  · rw [calcPaddedLen, if_pos htiny]
    exact ⟨⟨.inl ⟨1, by omega⟩, htiny⟩, fun c hc => hc.1.le⟩
  by_cases hsmall : n ≤ 256
  · rw [calcPaddedLen_small (by omega) hsmall]
    have hlt := lt_chunk_mul (n - 1) (show 0 < 32 by omega)
    refine ⟨⟨.inl ⟨(n - 1) / 32 + 1, by omega, by omega, rfl⟩, by omega⟩, fun c hc => ?_⟩
    obtain ⟨⟨j, _, _, rfl⟩ | ⟨j, k, _, _, hk, rfl⟩, hle⟩ := hc
    · exact chunk_mul_le (by omega)
    · have hmultiple : 2 ^ k * j = 32 * (2 ^ (k - 5) * j) := by
        rw [← Nat.mul_assoc, show 32 = 2 ^ 5 by rfl, ← Nat.pow_add, show 5 + (k - 5) = k by omega]
      rw [hmultiple]
      exact chunk_mul_le (by omega)
  · obtain ⟨k, hk, hlow, hhigh, heq⟩ := calcPaddedLen_large (n := n) (by omega)
    have hpos : 0 < 2 ^ k := Nat.two_pow_pos k
    have hlt := lt_chunk_mul (n - 1) hpos
    have hfour : 4 ≤ (n - 1) / 2 ^ k := by
      rw [Nat.le_div_iff_mul_le hpos, Nat.mul_comm]
      rw [Nat.pow_add] at hlow
      omega
    have height : (n - 1) / 2 ^ k < 8 := by
      rw [Nat.div_lt_iff_lt_mul hpos, Nat.mul_comm]
      rw [Nat.pow_add] at hhigh
      omega
    rw [heq]
    refine ⟨⟨.inr ⟨(n - 1) / 2 ^ k + 1, k, by omega, by omega, hk, rfl⟩, by omega⟩, fun c hc => ?_⟩
    have hpow : 2 ^ 6 ≤ 2 ^ k := Nat.pow_le_pow_right (by omega) hk
    obtain ⟨⟨j, _, _, rfl⟩ | ⟨j, l, _, hj, _, rfl⟩, hle⟩ := hc
    · -- too small a size
      rw [Nat.pow_add] at hlow
      omega
    · have hl : k ≤ l := by
        by_contra hl
        have hpow' : 2 ^ l * 2 ≤ 2 ^ k := by
          rw [← Nat.pow_succ]
          exact Nat.pow_le_pow_right (by omega) (by omega)
        have hmul : 2 ^ l * j ≤ 2 ^ l * 8 := Nat.mul_le_mul_left _ hj
        rw [Nat.pow_add] at hlow
        omega
      have hmultiple : 2 ^ l * j = 2 ^ k * (2 ^ (l - k) * j) := by
        rw [← Nat.mul_assoc, ← Nat.pow_add, show k + (l - k) = l by omega]
      rw [hmultiple] at hle ⊢
      exact chunk_mul_le (by omega)

theorem le_calcPaddedLen (n : Nat) : n ≤ calcPaddedLen n := (isLeast_calcPaddedLen n).1.2

theorem calcPaddedLen_mono : Monotone calcPaddedLen := fun m n hmn =>
  (isLeast_calcPaddedLen m).2 ⟨(isLeast_calcPaddedLen n).1.1, hmn.trans (le_calcPaddedLen n)⟩

/-- Lengths that the same sizes hold are padded alike. -/
theorem calcPaddedLen_congr {m n : Nat} (h : ∀ c, PaddedSize c → (m ≤ c ↔ n ≤ c)) :
    calcPaddedLen m = calcPaddedLen n := by
  have hle {m n : Nat} (h : ∀ c, PaddedSize c → (m ≤ c ↔ n ≤ c)) : calcPaddedLen m ≤
    calcPaddedLen n :=
    have hn := (isLeast_calcPaddedLen n).1
    (isLeast_calcPaddedLen m).2 ⟨hn.1, (h _ hn.1).mpr hn.2⟩
  exact Nat.le_antisymm (hle h) (hle fun c hc => (h c hc).symm)

/-- No plaintext of a payload is padded to more than 64 KiB. -/
theorem calcPaddedLen_le {n : Nat} (hn : n ≤ 65536) : calcPaddedLen n ≤ 65536 :=
  (isLeast_calcPaddedLen n).2 ⟨.inr ⟨8, 13, by omega, by omega, by omega, rfl⟩, hn⟩

/-! ### The keys of a message -/

variable {h}

/-- The loop ends with as many bytes as are asked for, or more. -/
theorem length_expandFrom (prk info : Data) (length : Nat) (output t : Data) (counter : UInt8) :
    length ≤ (expandFrom h prk info length output t counter).length := by
  fun_induction expandFrom h prk info length output t counter with
  | case1 output t counter hlt t' ih => exact ih
  | case2 output t counter hge => omega

theorem length_hkdfExpand (prk info : Data) (length : Nat) :
    (hkdfExpand h prk info length).length = length := by
  have hlength := length_expandFrom (h := h) prk info length [] [] 1
  rw [hkdfExpand, List.length_take]
  omega

/-- The keys have the lengths that the cipher asks for. -/
theorem messageKeys_ok (conversationKey nonce : Data) : ∃ chachaKey chachaNonce hmacKey,
    messageKeys h conversationKey nonce = .ok (chachaKey, chachaNonce, hmacKey) ∧
      chachaKey.length = 32 ∧ chachaNonce.length = 12 := by
  have hlength := length_hkdfExpand (h := h) conversationKey nonce 76
  have hslice (lower upper : Nat) (hlower : lower ≤ upper) (hupper : upper ≤ 76) :
      ∃ r, (slice (hkdfExpand h conversationKey nonce 76) lower upper : Except Stop Data) = .ok r ∧
        r.length = upper - lower := by
    refine ⟨_, slice_ok.mpr ⟨hlower, by omega, rfl⟩, ?_⟩
    rw [List.length_take, List.length_drop, hlength]
    omega
  obtain ⟨chachaKey, hkey, hkeylen⟩ := hslice 0 32 (by omega) (by omega)
  obtain ⟨chachaNonce, hnonce, hnoncelen⟩ := hslice 32 44 (by omega) (by omega)
  obtain ⟨hmacKey, hmac, _⟩ := hslice 44 76 (by omega) (by omega)
  refine ⟨chachaKey, chachaNonce, hmacKey, ?_, hkeylen, hnoncelen⟩
  exact bind_ok.mpr ⟨_, hkey, bind_ok.mpr ⟨_, hnonce, bind_ok.mpr ⟨_, hmac, rfl⟩⟩⟩

theorem length_messageNonce {nonce : Option Data} {drawn : Option (Vector UInt8 32)}
    {nonceData : Data}
    (hnonce : messageNonce nonce drawn = .ok nonceData) : nonceData.length = 32 := by
  cases nonce with
  | some nonce =>
    obtain ⟨_, hlen, hsame⟩ := bind_ok.mp hnonce
    cases hsame
    exact ensure_ok.mp hlen
  | none =>
    cases drawn with
    | none => cases hnonce
    | some v =>
      cases hnonce
      exact v.size_toArray

theorem safe_messageNonce {nonce : Option Data} {drawn : Option (Vector UInt8 32)} :
    Safe (messageNonce nonce drawn) := by
  cases nonce with
  | some nonce => exact Safe.ensure.bind fun _ _ => .ok _
  | none =>
    cases drawn with
    | none => nofun
    | some v => exact .ok _

/-! ### Padded plaintexts -/

theorem length_pad (plaintext : Data) :
    (pad plaintext).length = 2 + calcPaddedLen plaintext.length := by
  have hle := le_calcPaddedLen plaintext.length
  simp only [pad, List.length_append, List.length_cons, List.length_nil, List.length_replicate]
  omega

/-- The two bytes before the plaintext are its length. -/
theorem declared_pad {u : Nat} (hu : u ≤ 65535) :
    (UInt8.ofNat (u / 256)).toNat * 256 + (UInt8.ofNat u).toNat = u := by
  simp only [UInt8.toNat_ofNat']
  omega

/-! ### Genuine payloads -/

variable (h)

/-- A payload of version 2 whose code verifies under the keys of the message, and whose ciphertext
is of a plaintext that declares the length of the text and has the padded length for it. -/
structure Genuine (payload : Text) (conversationKey : Data) (text : Text) : Prop where
  key : conversationKey.length = 32
  plaintext : 1 ≤ text.bytes.length ∧ text.bytes.length ≤ 65535
  parts : ∃ nonce ciphertext mac chachaKey chachaNonce hmacKey padding,
    Base64.decode payload = some ([version] ++ nonce ++ ciphertext ++ mac) ∧
      nonce.length = 32 ∧ mac.length = 32 ∧
      ciphertext.length = 2 + calcPaddedLen text.bytes.length ∧
      messageKeys h conversationKey nonce = .ok (chachaKey, chachaNonce, hmacKey) ∧
      mac = h.code hmacKey (nonce ++ ciphertext) ∧
      ChaCha20.xor ciphertext chachaKey chachaNonce 0 =
        some (some ([.ofNat (text.bytes.length / 256), .ofNat text.bytes.length] ++
          text.bytes ++ padding))

variable {h}

/-- The bytes of a payload, cut as the code cuts them. -/
theorem cut_payload {bytes : Data} (hlen : 99 ≤ bytes.length) (hfirst : bytes[0]? = some version) :
    bytes = [version] ++ (bytes.drop 1).take 32 ++ (bytes.drop 33).take (bytes.length - 65) ++
      bytes.drop (bytes.length - 32) := by
  have hhead : bytes = version :: bytes.drop 1 := by
    cases bytes with
    | nil => cases hfirst
    | cons b rest =>
      cases hfirst
      rfl
  have hbody := (List.take_append_drop 32 (bytes.drop 1)).symm
  have htail := (List.take_append_drop (bytes.length - 65) (bytes.drop 33)).symm
  rw [List.drop_drop] at hbody htail
  rw [show 33 + (bytes.length - 65) = bytes.length - 32 by omega] at htail
  calc bytes = [version] ++ bytes.drop 1 := hhead
    _ = [version] ++ ((bytes.drop 1).take 32 ++ bytes.drop 33) := congrArg _ hbody
    _ = [version] ++ ((bytes.drop 1).take 32 ++ ((bytes.drop 33).take (bytes.length - 65) ++
          bytes.drop (bytes.length - 32))) := congrArg (fun r => [version] ++ (_ ++ r)) htail
    _ = _ := by simp only [List.append_assoc]

/-- A padded plaintext, cut as the code cuts it. -/
theorem cut_padded {padded : Data} {high low : UInt8} {u : Nat} (hhigh : padded[0]? = some high)
    (hlow : padded[1]? = some low) (hu : high.toNat * 256 + low.toNat = u) :
    padded = [.ofNat (u / 256), .ofNat u] ++ (padded.drop 2).take u ++ padded.drop (2 + u) := by
  have hhighlt := high.toNat_lt
  have hlowlt := low.toNat_lt
  have hfirst : UInt8.ofNat (u / 256) = high := by
    apply UInt8.toNat_inj.mp
    rw [UInt8.toNat_ofNat']
    omega
  have hsecond : UInt8.ofNat u = low := by
    apply UInt8.toNat_inj.mp
    rw [UInt8.toNat_ofNat']
    omega
  have hhead : padded = high :: low :: padded.drop 2 := by
    match padded with
    | [] => cases hhigh
    | [_] => cases hlow
    | _ :: _ :: _ =>
      cases hhigh
      cases hlow
      rfl
  have hbody := (List.take_append_drop u (padded.drop 2)).symm
  rw [List.drop_drop] at hbody
  calc padded = [high, low] ++ padded.drop 2 := hhead
    _ = [high, low] ++ ((padded.drop 2).take u ++ padded.drop (2 + u)) := congrArg _ hbody
    _ = _ := by rw [hfirst, hsecond, List.append_assoc]

/-- A payload decrypts to a text exactly when it is genuine. -/
theorem decrypt_ok_iff {payload text : Text} {conversationKey : Data} :
    decrypt h payload conversationKey = .ok text ↔ Genuine h payload conversationKey text := by
  constructor
  · intro hok
    rw [decrypt] at hok
    simp only [bind_ok, ensure_ok, exists_const, unwrapped_ok, inRange_ok, slice_ok] at hok
    obtain ⟨hkey, bytes, hdecode, ⟨hlen, hhigh⟩, first, hfirst, rfl, nonce,
      ⟨-, -, hnonce⟩, ciphertext,
      ⟨-, -, hciphertext⟩, mac, ⟨-, -, hmac⟩, ⟨chachaKey, chachaNonce, hmacKey⟩, hkeys,
      hcode, padded,
      ⟨_, hplain, rfl⟩, hpadded, high, hhigh, low, hlow, ⟨hpos, hfits, hcanonical⟩, body,
      ⟨-, -, hbody⟩, htext⟩ := hok
    have hbytes := Text.bytes_of_ofBytes? htext
    have hlenbody : text.bytes.length = high.toNat * 256 + low.toNat := by
      rw [hbytes, hbody, List.length_take, List.length_drop]
      omega
    have hhighlt := high.toNat_lt
    have hlowlt := low.toNat_lt
    refine ⟨hkey, by omega, nonce, ciphertext, mac, chachaKey, chachaNonce, hmacKey,
      padded.drop (2 + text.bytes.length), ?_, ?_, ?_, ?_, hkeys, hcode, ?_⟩
    · rw [hdecode, hnonce, hciphertext, hmac, List.take_of_length_le
        (l := bytes.drop (bytes.length - 32)),
        show bytes.length - 32 - 33 = bytes.length - 65 by omega]
      · exact congrArg some (cut_payload hlen hfirst)
      · rw [List.length_drop]
    · rw [hnonce, List.length_take, List.length_drop]
      omega
    · rw [hmac, List.length_take, List.length_drop]
      omega
    · have hlenplain := ChaCha20.length_xor hplain
      rw [hlenbody, ← hcanonical, hlenplain]
    · have hcut := cut_padded hhigh hlow hlenbody.symm
      rw [Nat.add_sub_cancel_left, ← hlenbody] at hbody
      rw [← hbody, ← hbytes] at hcut
      exact hplain.trans (congrArg (some ∘ some) hcut)
  · rintro ⟨hkey, ⟨hpos, hfits⟩, nonce, ciphertext, mac, chachaKey, chachaNonce, hmacKey, padding,
      hdecode, hnonce, hmac, hciphertext, hkeys, hcode, hplain⟩
    have hle := le_calcPaddedLen text.bytes.length
    have hleast := (isLeast_calcPaddedLen text.bytes.length).1.1.le
    have hmost := calcPaddedLen_le (n := text.bytes.length) (by omega)
    have hlenplain := ChaCha20.length_xor hplain
    have hdeclared := declared_pad hfits
    simp only [List.length_append, List.length_cons, List.length_nil] at hlenplain
    rw [decrypt]
    simp only [bind_ok, ensure_ok, exists_const, unwrapped_ok, inRange_ok]
    refine ⟨hkey, _, hdecode, ?_, version, rfl, rfl, nonce, ?_, ciphertext, ?_, mac, ?_, _, hkeys,
      hcode, _, ⟨_, hplain, rfl⟩, ?_, _, rfl, _, rfl, ?_, text.bytes, ?_, Text.ofBytes?_bytes text⟩
    · simp only [List.length_append, List.length_cons, List.length_nil]
      omega
    · rw [List.append_assoc ([version] ++ nonce)]
      exact slice_append _ _ _ rfl (by rw [hnonce]; rfl)
    · apply slice_append <;> simp only [List.length_append, List.length_cons, List.length_nil] <;>
        omega
    · rw [← List.append_nil ([version] ++ nonce ++ ciphertext ++ mac)]
      apply slice_append <;> simp only [List.length_append, List.length_cons, List.length_nil] <;>
        omega
    · simp
    · rw [hdeclared]
      simp only [List.length_append, List.length_cons, List.length_nil]
      omega
    · rw [hdeclared]
      exact slice_append [.ofNat (text.bytes.length / 256), .ofNat text.bytes.length]
        text.bytes padding
        rfl rfl

theorem xor_reverts {key nonce : Data} (data : Data) (hkey : key.length = 32)
    (hnonce : nonce.length = 12) :
    ∃ out, ChaCha20.xor data key nonce 0 = some (some out) ∧
      ChaCha20.xor out key nonce 0 = some (some data) := ChaCha20.xor_xor hkey hnonce 0 data

/-- What the code encrypts is a payload that is genuine. -/
theorem encrypt_genuine {plaintext : Text} {conversationKey nonceData : Data} {nonce : Option Data}
    {drawn : Option (Vector UInt8 32)} (hkey : conversationKey.length = 32)
    (hplaintext : 1 ≤ plaintext.bytes.length ∧ plaintext.bytes.length ≤ 65535)
    (hnonce : messageNonce nonce drawn = .ok nonceData) :
    ∃ payload, encrypt h plaintext conversationKey nonce drawn = .ok payload ∧
      Genuine h payload conversationKey plaintext := by
  obtain ⟨chachaKey, chachaNonce, hmacKey, hkeys, hkeylen, hnoncelen⟩ :=
    messageKeys_ok (h := h) conversationKey nonceData
  obtain ⟨ciphertext, hxor, hback⟩ := xor_reverts (pad plaintext.bytes) hkeylen hnoncelen
  have hlen := ChaCha20.length_xor hxor
  rw [length_pad] at hlen
  refine ⟨_, ?_, hkey, hplaintext, nonceData, ciphertext, h.code hmacKey (nonceData ++ ciphertext),
    chachaKey, chachaNonce, hmacKey, _, Base64.decode_encode _, length_messageNonce hnonce,
      h.size _ _,
    hlen, hkeys, rfl, hback⟩
  rw [encrypt]
  simp only [bind_ok, ensure_ok, exists_const, unwrapped_ok, inRange_ok]
  exact ⟨hkey, hplaintext, _, hnonce, _, hkeys, _, ⟨_, hxor, rfl⟩, rfl⟩

/-- A plaintext that is encrypted has a length that NIP-44 allows, and its payload is base64 of the
version, the nonce, the padded plaintext and the code. -/
theorem length_encrypt {plaintext payload : Text} {conversationKey : Data} {nonce : Option Data}
    {drawn : Option (Vector UInt8 32)}
    (hok : encrypt h plaintext conversationKey nonce drawn = .ok payload) :
    (1 ≤ plaintext.bytes.length ∧ plaintext.bytes.length ≤ 65535) ∧
    ∃ bytes, payload = Base64.encode bytes ∧
      bytes.length = 67 + calcPaddedLen plaintext.bytes.length := by
  rw [encrypt] at hok
  simp only [bind_ok, ensure_ok, exists_const, unwrapped_ok, inRange_ok] at hok
  obtain ⟨hkey, hplaintext, nonceData, hnonce, ⟨chachaKey, chachaNonce, hmacKey⟩, hkeys, ciphertext,
    ⟨_, hxor, rfl⟩, hpayload⟩ := hok
  have hlen := ChaCha20.length_xor hxor
  rw [length_pad] at hlen
  refine ⟨hplaintext, _, (Except.ok.inj hpayload).symm, ?_⟩
  simp only [List.length_append, List.length_singleton, length_messageNonce hnonce, hlen, h.size]
  omega

theorem decrypt_safe (payload : Text) (conversationKey : Data) :
    Safe (decrypt h payload conversationKey) := by
  rw [decrypt]
  refine Safe.ensure.bind fun _ _ => (Safe.unwrapped _).bind fun bytes _ =>
    Safe.ensure.bind fun _ hlen => ?_
  have hlen := ensure_ok.mp hlen
  refine (Safe.inRange (by simp; omega)).bind fun first _ => Safe.ensure.bind fun _ _ =>
    (Safe.slice (by omega) (by omega)).bind fun nonce _ =>
    (Safe.slice (by omega) (by omega)).bind fun ciphertext _ =>
    (Safe.slice (by omega) (by omega)).bind fun mac _ => ?_
  obtain ⟨chachaKey, chachaNonce, hmacKey, hkeys, hkeylen, hnoncelen⟩ :=
    messageKeys_ok (h := h) conversationKey nonce
  obtain ⟨padded, hxor, _⟩ := xor_reverts ciphertext hkeylen hnoncelen
  rw [hkeys]
  refine (Safe.ok _).bind fun _ hsame => ?_
  cases hsame
  refine Safe.ensure.bind fun _ _ => ?_
  simp only [hxor]
  refine (Safe.ok _).bind fun _ hsame => ?_
  cases hsame
  refine Safe.ensure.bind fun _ htwo => ?_
  have htwo := ensure_ok.mp htwo
  refine (Safe.inRange (by simp; omega)).bind fun high _ => (Safe.inRange (by simp; omega)).bind
    fun low _ =>
    Safe.ensure.bind fun _ hfits => ?_
  have hfits := ensure_ok.mp hfits
  exact (Safe.slice (by omega) hfits.2.1).bind fun text _ => Safe.unwrapped _

theorem encrypt_safe (plaintext : Text) (conversationKey : Data) (nonce : Option Data)
    (drawn : Option (Vector UInt8 32)) :
    Safe (encrypt h plaintext conversationKey nonce drawn) := by
  rw [encrypt]
  refine Safe.ensure.bind fun _ _ => Safe.ensure.bind fun _ _ =>
    safe_messageNonce.bind fun nonceData _ => ?_
  obtain ⟨chachaKey, chachaNonce, hmacKey, hkeys, hkeylen, hnoncelen⟩ :=
    messageKeys_ok (h := h) conversationKey nonceData
  obtain ⟨ciphertext, hxor, _⟩ := xor_reverts (pad plaintext.bytes) hkeylen hnoncelen
  rw [hkeys]
  refine (Safe.ok _).bind fun _ hsame => ?_
  cases hsame
  simp only [hxor]
  exact (Safe.ok _).bind fun _ _ => .ok _

variable (h)

/-- What is encrypted decrypts to itself, the padding is the least size that holds the plaintext,
only genuine payloads decrypt, and no input takes a subscript out of range. -/
theorem opens_genuine :
    (∀ plaintext conversationKey nonce drawn, conversationKey.length = 32 → nonce.length = 32 →
      1 ≤ plaintext.bytes.length → plaintext.bytes.length ≤ 65535 →
      ∃ payload, encrypt h plaintext conversationKey (some nonce) drawn = .ok payload ∧
        decrypt h payload conversationKey = .ok plaintext) ∧
    (∀ n, n ≤ calcPaddedLen n) ∧ Monotone calcPaddedLen ∧
    (∀ n, IsLeast {c | PaddedSize c ∧ n ≤ c} (calcPaddedLen n)) ∧
    (∀ m n, (∀ c, PaddedSize c → (m ≤ c ↔ n ≤ c)) → calcPaddedLen m = calcPaddedLen n) ∧
    (∀ payload conversationKey text, decrypt h payload conversationKey = .ok text →
      Genuine h payload conversationKey text) ∧
    (∀ plaintext conversationKey nonce drawn,
      encrypt h plaintext conversationKey nonce drawn ≠ .error .trapped) ∧
    (∀ payload conversationKey, decrypt h payload conversationKey ≠ .error .trapped) := by
  refine ⟨fun plaintext key nonce drawn hkey hnonce hpos hfits => ?_, le_calcPaddedLen,
    calcPaddedLen_mono,
    isLeast_calcPaddedLen, fun m n => calcPaddedLen_congr, fun _ _ _ => decrypt_ok_iff.mp,
      encrypt_safe,
    decrypt_safe⟩
  have hdata : messageNonce (some nonce) drawn = .ok nonce := by
    simp [messageNonce, ensure, hnonce]
  obtain ⟨payload, hpayload, hgenuine⟩ := encrypt_genuine (h := h) hkey ⟨hpos, hfits⟩ hdata
  exact ⟨payload, hpayload, decrypt_ok_iff.mpr hgenuine⟩

/-- The 32 bytes of a number, the highest first. -/
def bytes32 (n : Nat) : Vector UInt8 32 := Vector.ofFn fun i => .ofNat (n / 256 ^ (31 - i.val))

def knownKey : Data :=
  (bytes32 0xc41c775356fd92eadc63ff5a0dc1da211b268cbea22316767095b2871ea1412d).toList

def knownNonce : Data := (bytes32 1).toList

/-- The codes of SHA-256. -/
def knownHMAC : HMAC := ⟨SHA256.hmac, SHA256.length_hmac⟩

/-- The published payload of "a" is what the code encrypts it to, and decrypts. -/
theorem opens_genuine_known :
    ∃ payload, payload = ("AgAAAAAAAAAAAAAAAAAAAAAAAAAAAAAAAAAAAAAAAAABee0G5VSK0/9Yyp" ++
      "IObAtDKfYEAjD35uVkHyB0F4DwrcNaCXlCWZKaArsGrY6M9wnuTMxWfp1RTN9Xga8no+kF5Vsb").toList ∧
    encrypt knownHMAC ['a'] knownKey (some knownNonce) none = .ok payload ∧
    decrypt knownHMAC payload knownKey = .ok ['a'] := by
  obtain ⟨payload, hpayload, hback⟩ := (opens_genuine knownHMAC).1 ['a'] knownKey knownNonce none
    (by decide +kernel) (by decide +kernel) (by decide +kernel) (by decide +kernel)
  have hvector : encrypt knownHMAC ['a'] knownKey (some knownNonce) none =
      .ok ("AgAAAAAAAAAAAAAAAAAAAAAAAAAAAAAAAAAAAAAAAAABee0G5VSK0/9Yyp" ++
        "IObAtDKfYEAjD35uVkHyB0F4DwrcNaCXlCWZKaArsGrY6M9wnuTMxWfp1RTN9Xga8no+kF5Vsb").toList := by
    decide +kernel
  exact ⟨payload, Except.ok.inj (hpayload.symm.trans hvector), hpayload, hback⟩

end NIP44

end AeroNyra
