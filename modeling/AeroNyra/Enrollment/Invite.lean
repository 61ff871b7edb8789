import AeroNyra.Enrollment.Service

/-! Invites and the ledger of pending invites on the wire, and the sums of their times.  Every time
is an `Int64` of Unix milliseconds, and both an invite's expiry and a ledger's are read from bytes
that bound them by nothing else. -/

namespace AeroNyra

/-! ### Readers -/

/-- The big-endian number that the bytes make. -/
def number (bytes : Data) : Nat := bytes.foldl (fun n b => n * 256 + b.toNat) 0

/-- `Int64(bitPattern:)` of a 64-bit word. -/
def int64 (n : Nat) : Int := if n < 2 ^ 63 then n else n - 2 ^ 64

/-- The first `count` bytes and the rest. -/
def readBytes (count : Nat) (bytes : Data) : Option (Data × Data) :=
  if count ≤ bytes.length then some (bytes.take count, bytes.drop count) else none

/-- The big-endian number in the first `width` bytes, and the rest. -/
def readWord (width : Nat) (bytes : Data) : Option (Nat × Data) :=
  (readBytes width bytes).map fun p => (number p.1, p.2)

theorem foldl_number_lt (bytes : Data) (n : Nat) :
    bytes.foldl (fun n b => n * 256 + b.toNat) n < (n + 1) * 256 ^ bytes.length := by
  induction bytes generalizing n with
  | nil => simp
  | cons b bytes ih =>
    have hb := b.toNat_lt
    calc (b :: bytes).foldl (fun n b => n * 256 + b.toNat) n
        < (n * 256 + b.toNat + 1) * 256 ^ bytes.length := ih (n * 256 + b.toNat)
      _ ≤ (n + 1) * 256 * 256 ^ bytes.length := Nat.mul_le_mul_right _ (by omega)
      _ = (n + 1) * 256 ^ (b :: bytes).length := by
        rw [List.length_cons, Nat.pow_succ', Nat.mul_assoc]

theorem number_lt (bytes : Data) : number bytes < 256 ^ bytes.length := by
  have h := foldl_number_lt bytes 0
  rwa [Nat.zero_add, Nat.one_mul] at h

/-- The lowest `width` bytes of a number, big-endian. -/
def bigEndianBytes : Nat → Nat → Data
  | 0, _ => []
  | width + 1, n => bigEndianBytes width (n / 256) ++ [.ofNat n]

theorem length_bigEndianBytes (width n : Nat) : (bigEndianBytes width n).length = width := by
  induction width generalizing n with
  | zero => rfl
  | succ width ih => rw [bigEndianBytes, List.length_append, ih, List.length_singleton]

theorem number_append (bytes : Data) (b : UInt8) :
    number (bytes ++ [b]) = number bytes * 256 + b.toNat := by
  rw [number, List.foldl_append]
  rfl

theorem number_bigEndianBytes {width n : Nat} (h : n < 256 ^ width) :
    number (bigEndianBytes width n) = n := by
  induction width generalizing n with
  | zero =>
    have hzero : n = 0 := by simpa using h
    rw [hzero]
    rfl
  | succ width ih =>
    have hdiv : n / 256 < 256 ^ width := Nat.div_lt_of_lt_mul (by rwa [Nat.pow_succ'] at h)
    rw [bigEndianBytes, number_append, ih hdiv, UInt8.toNat_ofNat']
    omega

theorem bigEndianBytes_number (bytes : Data) :
    bigEndianBytes bytes.length (number bytes) = bytes := by
  induction bytes using List.reverseRecOn with
  | nil => rfl
  | append_singleton bytes b ih =>
    have hb := b.toNat_lt
    have hhigh : (number bytes * 256 + b.toNat) / 256 = number bytes := by omega
    have hlow : UInt8.ofNat (number bytes * 256 + b.toNat) = b := by
      apply UInt8.toNat_inj.mp
      rw [UInt8.toNat_ofNat']
      omega
    rw [List.length_append, List.length_singleton, number_append, bigEndianBytes, hhigh, hlow, ih]

/-- The range of an `Int64`. -/
def InInt64 (n : Int) : Prop := -2 ^ 63 ≤ n ∧ n < 2 ^ 63

theorem inInt64_int64 {n : Nat} (h : n < 2 ^ 64) : InInt64 (int64 n) := by
  unfold InInt64 int64
  split <;> omega

theorem inInt64_int64_number {bytes : Data} (h : bytes.length ≤ 8) :
    InInt64 (int64 (number bytes)) := by
  apply inInt64_int64
  have hlt := number_lt bytes
  have hpow : 256 ^ bytes.length ≤ 256 ^ 8 := Nat.pow_le_pow_right (by decide) h
  omega

theorem readWord_eq_some {width : Nat} {bytes rest : Data} {n : Nat}
    (h : readWord width bytes = some (n, rest)) : n = number (bytes.take width) := by
  unfold readWord readBytes at h
  split at h
  · simp only [Option.map_some, Option.some.injEq, Prod.mk.injEq] at h
    exact h.1.symm
  · cases h

theorem addMillis_isSome {a b : Int} : (addMillis a b).isSome ↔ InInt64 (a + b) := by
  unfold addMillis InInt64
  split <;> simp_all

/-! ### Payloads and invites -/

/-- What a code carries: a prekey bundle, and a Nostr key if the device has one. -/
structure PairingPayload where
  bundle : Data
  nostrPublicKey : Option Data
  deriving DecidableEq

namespace PairingPayload

def currentVersion : UInt8 := 1

def nostrKeyByteCount : Nat := 32

/-- A length of four bytes and then as many bytes. -/
def readBlob (bytes : Data) : Option (Data × Data) :=
  (readWord 4 bytes).bind fun p => readBytes p.1 p.2

def ofWire? : Data → Option PairingPayload
  | [] => none
  | version :: bytes =>
    if version = currentVersion then do
      let (bundle, bytes) ← readBlob bytes
      let (nostrKey, bytes) ← readBlob bytes
      if bytes ≠ [] then none
      else if nostrKey.length = 0 then some ⟨bundle, none⟩
      else if nostrKey.length = nostrKeyByteCount then some ⟨bundle, some nostrKey⟩
      else none
    else none

end PairingPayload

/-- A short-lived wrapper of a payload, which its minter burns once. -/
structure Invite where
  payload : PairingPayload
  id : Data
  mintedAt : Int
  expiresAt : Int
  deriving DecidableEq

namespace Invite

def currentVersion : UInt8 := 1

def idByteCount : Nat := 16

/-- None when the expiry overflows. -/
def mint (payload : PairingPayload) (now ttlMillis : Int) (id : Data) : Option Invite :=
  (addMillis now ttlMillis).map fun expiresAt => ⟨payload, id, now, expiresAt⟩

/-- None when the sum overflows. -/
def isLive (i : Invite) (now : Int) : Option Bool :=
  (addMillis i.expiresAt defaultSkewMillis).map fun last => decide (now ≤ last)

def ofWire? : Data → Option Invite
  | [] => none
  | version :: bytes =>
    if version = currentVersion then do
      let (id, bytes) ← readBytes idByteCount bytes
      let (mintedRaw, bytes) ← readWord 8 bytes
      let (expiresRaw, bytes) ← readWord 8 bytes
      let (payloadLen, bytes) ← readWord 4 bytes
      let (payloadBytes, bytes) ← readBytes payloadLen bytes
      if bytes ≠ [] then none
      else (PairingPayload.ofWire? payloadBytes).map fun payload =>
        ⟨payload, id, int64 mintedRaw, int64 expiresRaw⟩
    else none

/-- The decoder accepts every expiry that eight bytes spell, and no other. -/
theorem inInt64_expiresAt {wire : Data} {i : Invite} (h : ofWire? wire = some i) :
    InInt64 i.expiresAt := by
  match wire, h with
  | version :: bytes, h =>
    by_cases hv : version = currentVersion
    · rw [ofWire?, if_pos hv] at h
      obtain ⟨⟨id, b₁⟩, _, h⟩ := Option.bind_eq_some_iff.mp h
      obtain ⟨⟨minted, b₂⟩, _, h⟩ := Option.bind_eq_some_iff.mp h
      obtain ⟨⟨expires, b₃⟩, hexpires, h⟩ := Option.bind_eq_some_iff.mp h
      obtain ⟨⟨length, b₄⟩, _, h⟩ := Option.bind_eq_some_iff.mp h
      obtain ⟨⟨payload, b₅⟩, _, h⟩ := Option.bind_eq_some_iff.mp h
      dsimp only at h
      split at h
      · cases h
      · obtain ⟨p, _, rfl⟩ := Option.map_eq_some_iff.mp h
        rw [readWord_eq_some hexpires]
        exact inInt64_int64_number (List.length_take_le 8 b₂)
    · rw [ofWire?, if_neg hv] at h
      cases h

end Invite

/-! ### The ledger -/

namespace PendingInvites

/-- None when the sum overflows. -/
def isPending (p : PendingInvites) (id : Data) (now : Int) : Option Bool :=
  match p.pending.lookup id with
  | none => some false
  | some expiresAt =>
    (addMillis expiresAt Invite.defaultSkewMillis).map fun last => decide (now ≤ last)

end PendingInvites

namespace PendingInvitesCodec

inductive CodecError
  | shortBuffer
  | unknownVersion (version : UInt8)
  | lengthMismatch (expected actual : Nat)
  | duplicateID
  deriving DecidableEq

def version : UInt8 := 1

def idSize : Nat := 16

def entrySize : Nat := 16 + 8

def headerSize : Nat := 1 + 2

/-- The loop over the records that are left, with the entries read so far. -/
def decodeEntries : Nat → Data → Dict Data Int → Except CodecError (Dict Data Int)
  | 0, _, map => .ok map
  | count + 1, bytes, map =>
    let id := bytes.take idSize
    let expiresAt := int64 (number ((bytes.drop idSize).take 8))
    if (map.lookup id).isSome then .error .duplicateID
    else decodeEntries count (bytes.drop entrySize) (AList.insert id expiresAt map)

def decode : Data → Except CodecError PendingInvites
  | versionByte :: high :: low :: entries =>
    let count := high.toNat * 256 + low.toNat
    let expected := headerSize + count * entrySize
    if versionByte ≠ version then .error (.unknownVersion versionByte)
    else if headerSize + entries.length ≠ expected then
      .error (.lengthMismatch expected (headerSize + entries.length))
    else (decodeEntries count entries ∅).map .mk
  | _ => .error .shortBuffer

theorem inInt64_decodeEntries {count : Nat} {bytes : Data} {map map' : Dict Data Int}
    (hmap : ∀ id expiresAt, map.lookup id = some expiresAt → InInt64 expiresAt)
    (h : decodeEntries count bytes map = .ok map') :
    ∀ id expiresAt, map'.lookup id = some expiresAt → InInt64 expiresAt := by
  induction count generalizing bytes map with
  | zero =>
    obtain rfl := Except.ok.inj h
    exact hmap
  | succ count ih =>
    unfold decodeEntries at h
    dsimp only at h
    split at h
    · cases h
    · refine ih (fun id expiresAt hlookup => ?_) h
      rw [Dict.lookup_insert] at hlookup
      split at hlookup
      · obtain rfl := Option.some.inj hlookup
        exact inInt64_int64_number (List.length_take_le 8 _)
      · exact hmap id expiresAt hlookup

theorem inInt64_decode {bytes : Data} {p : PendingInvites} (h : decode bytes = .ok p) :
    ∀ id expiresAt, p.pending.lookup id = some expiresAt → InInt64 expiresAt := by
  unfold decode at h
  split at h
  · dsimp only at h
    split at h
    · cases h
    · split at h
      · cases h
      · rename_i entries _ _
        generalize hmap : decodeEntries _ entries ∅ = result at h
        match result, h with
        | .ok map, h =>
          obtain rfl := Except.ok.inj h
          exact inInt64_decodeEntries (fun id expiresAt hnone => by simp at hnone) hmap
  · cases h

end PendingInvitesCodec

/-! ### Sums that overflow -/

/-- The expiry and the skew sum to an `Int64`. -/
def ExpiryFits (expiresAt : Int) : Prop := expiresAt + Invite.defaultSkewMillis < 2 ^ 63

instance (expiresAt : Int) : Decidable (ExpiryFits expiresAt) :=
  inferInstanceAs (Decidable (_ < _))

/-- The expiry check of every operation evaluates exactly when the expiry fits. -/
theorem addSkew_isSome {expiresAt : Int} (h : InInt64 expiresAt) :
    (addMillis expiresAt Invite.defaultSkewMillis).isSome ↔ ExpiryFits expiresAt := by
  have hskew : Invite.defaultSkewMillis = 120000 := rfl
  unfold InInt64 at h
  rw [addMillis_isSome]
  unfold InInt64 ExpiryFits
  omega

theorem Invite.isLive_iff {i : Invite} (h : InInt64 i.expiresAt) (now : Int) :
    (∃ live, i.isLive now = some live ∧ (live ↔ now ≤ i.expiresAt + defaultSkewMillis)) ↔
      ExpiryFits i.expiresAt := by
  rw [← addSkew_isSome h]
  unfold Invite.isLive
  constructor
  · rintro ⟨live, hlive, _⟩
    exact Option.isSome_map.symm.trans (Option.isSome_of_eq_some hlive)
  · intro hfits
    obtain ⟨last, hlast⟩ := Option.isSome_iff_exists.mp hfits
    refine ⟨decide (now ≤ last), by rw [hlast]; rfl, ?_⟩
    unfold addMillis at hlast
    split at hlast
    · obtain rfl := Option.some.inj hlast
      exact decide_eq_true_iff
    · cases hlast

namespace PendingInvites

/-- The entries of the ledger are `Int64`s, as the codec reads them. -/
def InRange (p : PendingInvites) : Prop :=
  ∀ id expiresAt, p.pending.lookup id = some expiresAt → InInt64 expiresAt

/-- Every expiry in the ledger fits. -/
def Fits (p : PendingInvites) : Prop :=
  ∀ id expiresAt, p.pending.lookup id = some expiresAt → ExpiryFits expiresAt

variable {p : PendingInvites}

theorem consume_isSome (h : p.InRange) (now : Int) :
    (∀ id, (p.consume id now).isSome) ↔ p.Fits := by
  unfold Fits
  refine forall_congr' fun id => ?_
  unfold consume
  cases hid : p.pending.lookup id with
  | none => simp
  | some expiresAt => simp [addSkew_isSome (h id expiresAt hid)]

theorem isPending_isSome (h : p.InRange) (now : Int) :
    (∀ id, (p.isPending id now).isSome) ↔ p.Fits := by
  unfold Fits
  refine forall_congr' fun id => ?_
  unfold isPending
  cases hid : p.pending.lookup id with
  | none => simp
  | some expiresAt => simp [addSkew_isSome (h id expiresAt hid)]

theorem prune_isSome (h : p.InRange) (now : Int) : (p.prune now).isSome ↔ p.Fits := by
  have hall : (p.pending.pairs.all fun e => (addMillis e.2 Invite.defaultSkewMillis).isSome) ↔
      p.Fits := by
    rw [List.all_eq_true, Prod.forall]
    refine forall₂_congr fun id expiresAt => ?_
    rw [Dict.mem_pairs]
    exact ⟨fun hsum hid => (addSkew_isSome (h id expiresAt hid)).mp (hsum hid),
      fun hfits hid => (addSkew_isSome (h id expiresAt hid)).mpr (hfits hid)⟩
  unfold prune
  split
  · rename_i hsums
    exact iff_of_true rfl (hall.mp hsums)
  · rename_i hsums
    exact iff_of_false Bool.false_ne_true fun hfits => hsums (hall.mpr hfits)

end PendingInvites

/-- `PairingService.redeemInvite` traps where the expiry check of its invite does. -/
theorem Pairing.redeem_isSome (s : Pairing) (k : Data) (i : Invite) (reply : Pairing.Reply) :
    (s.redeem (some ⟨k, some (i.id, i.expiresAt)⟩) reply).isSome =
      (i.isLive reply.now).isSome := by
  simp [Pairing.redeem, Invite.isLive]

/-- What `mint`, `isLive`, `consume`, `isPending` and `prune` do at one time, for an invite, a
ledger, and the lifetime of a new invite: every sum is an `Int64`, and the invite is live up to its
expiry and the skew.  `register` computes nothing. -/
structure ClockSafe (i : Invite) (p : PendingInvites) (now ttlMillis : Int) : Prop where
  mint : ∀ payload id, (Invite.mint payload now ttlMillis id).isSome
  isLive : ∃ live, i.isLive now = some live ∧
    (live ↔ now ≤ i.expiresAt + Invite.defaultSkewMillis)
  consume : ∀ id, (p.consume id now).isSome
  isPending : ∀ id, (p.isPending id now).isSome
  prune : (p.prune now).isSome

/-- For every invite and every ledger that are read from bytes, no sum overflows if and only if the
expiry of the new invite is an `Int64` and every expiry that was read leaves room for the skew. -/
theorem clockSafe_iff (wire ledger : Data) (i : Invite) (p : PendingInvites) (now ttlMillis : Int)
    (hwire : Invite.ofWire? wire = some i) (hledger : PendingInvitesCodec.decode ledger = .ok p) :
    ClockSafe i p now ttlMillis ↔
      InInt64 (now + ttlMillis) ∧ ExpiryFits i.expiresAt ∧ p.Fits := by
  have hrange : p.InRange := PendingInvitesCodec.inInt64_decode hledger
  have hlive := Invite.isLive_iff (Invite.inInt64_expiresAt hwire) now
  have hmint : ∀ payload id, (Invite.mint payload now ttlMillis id).isSome ↔
      InInt64 (now + ttlMillis) := by
    intro payload id
    rw [← addMillis_isSome]
    simp [Invite.mint]
  constructor
  · intro h
    exact ⟨(hmint ⟨[], none⟩ []).mp (h.mint ⟨[], none⟩ []), hlive.mp h.isLive,
      (PendingInvites.prune_isSome hrange now).mp h.prune⟩
  · rintro ⟨hsum, hexpiry, hfits⟩
    exact ⟨fun payload id => (hmint payload id).mpr hsum, hlive.mpr hexpiry,
      (PendingInvites.consume_isSome hrange now).mpr hfits,
      (PendingInvites.isPending_isSome hrange now).mpr hfits,
      (PendingInvites.prune_isSome hrange now).mpr hfits⟩

/-- The bytes of an invite with an empty bundle, minted at 0, whose expiry is spelled by
`expiresAt`. -/
def inviteWire (expiresAt : Data) : Data :=
  [1] ++ .replicate 16 7 ++ .replicate 8 0 ++ expiresAt ++ [0, 0, 0, 9] ++
  [1, 0, 0, 0, 0, 0, 0, 0, 0]

set_option maxRecDepth 4096 in
theorem clockSafe_iff_early : ∃ i p,
    Invite.ofWire? (inviteWire [0, 0, 0, 0, 0, 0, 3, 232]) = some i ∧
      PendingInvitesCodec.decode [1, 0, 0] = .ok p ∧
      (ClockSafe i p 5 10 ↔ InInt64 (5 + 10) ∧ ExpiryFits i.expiresAt ∧ p.Fits) := by
  have hwire : Invite.ofWire? (inviteWire [0, 0, 0, 0, 0, 0, 3, 232]) =
      some ⟨⟨[], none⟩, .replicate 16 7, 0, 1000⟩ := by decide +kernel
  have hledger : PendingInvitesCodec.decode [1, 0, 0] = .ok .empty := rfl
  exact ⟨_, _, hwire, hledger, clockSafe_iff _ _ _ _ 5 10 hwire hledger⟩

/-- A pasted invite that expires at the last millisecond of an `Int64` traps its redeemer. -/
theorem clock_overflows : ∃ i, Invite.ofWire? (inviteWire (127 :: .replicate 7 255)) = some i ∧
    i.isLive 0 = none ∧ ¬ClockSafe i .empty 0 600000 := by
  refine ⟨⟨⟨[], none⟩, .replicate 16 7, 0, 2 ^ 63 - 1⟩, by decide, by decide, fun h => ?_⟩
  obtain ⟨live, hlive, _⟩ := h.isLive
  have hnone : Invite.isLive ⟨⟨[], none⟩, .replicate 16 7, 0, 2 ^ 63 - 1⟩ 0 = none := by decide
  cases hnone.symm.trans hlive

end AeroNyra
