import AeroNyra.Lib.Access
import AeroNyra.Enrollment.Invite

/-! Pair codes and invites as the code writes them and reads them, subscript by subscript.  What is
accepted is exactly what is written, so that no accepted bytes begin others, and the readers accept
what the readers over the rest of the bytes accept. -/

namespace AeroNyra

open Access

/-- `UInt64(bitPattern:)` of an `Int64`. -/
def bitPattern (n : Int) : Nat := (n % 2 ^ 64).toNat

theorem bitPattern_lt (n : Int) : bitPattern n < 2 ^ 64 := by
  unfold bitPattern
  omega

theorem int64_bitPattern {n : Int} (h : InInt64 n) : int64 (bitPattern n) = n := by
  unfold InInt64 at h
  unfold int64 bitPattern
  split <;> omega

theorem bitPattern_int64 {n : Nat} (h : n < 2 ^ 64) : bitPattern (int64 n) = n := by
  unfold int64 bitPattern
  split <;> omega

/-! ### Writing -/

/-- `UInt32(_)` of a count, which traps beyond 32 bits. -/
def appendBlob (d blob : Data) : Access Unit Data :=
  if blob.length < 2 ^ 32 then .ok (d ++ bigEndianBytes 4 blob.length ++ blob) else .error .trapped

def PairingPayload.wireData (p : PairingPayload) : Access Unit Data := do
  let d ← appendBlob [currentVersion] p.bundle
  appendBlob d (p.nostrPublicKey.getD [])

def Invite.wireData (i : Invite) : Access Unit Data := do
  let payloadBytes ← i.payload.wireData
  appendBlob ([currentVersion] ++ i.id ++ bigEndianBytes 8 (bitPattern i.mintedAt) ++
    bigEndianBytes 8 (bitPattern i.expiresAt)) payloadBytes

/-! ### Reading -/

section Reading

variable {ε : Type} (error : ε) (bytes : Data)

/-- The loop over `width` bytes from `i` on. -/
def readLoop (ε : Type) (bytes : Data) : Nat → Nat → Nat → Access ε Nat
  | 0, _, v => .ok v
  | width + 1, i, v => do
    let b ← inRange bytes[i]?
    readLoop ε bytes width (i + 1) (v * 256 + b.toNat)

/-- The number in `width` bytes at `i`, and the place behind them. -/
def readNumber (width i : Nat) : Access ε (Nat × Nat) := do
  let last ← sum i width
  ensure (last ≤ bytes.length) error
  let v ← readLoop ε bytes width i 0
  return (v, last)

/-- As many bytes at `i`, and the place behind them. -/
def readSlice (count i : Nat) : Access ε (Data × Nat) := do
  let last ← sum i count
  ensure (last ≤ bytes.length) error
  let blob ← slice bytes i last
  return (blob, last)

/-- A length of four bytes and then as many bytes. -/
def readBlobAt (i : Nat) : Access ε (Data × Nat) := do
  let (len, i) ← readNumber error bytes 4 i
  readSlice error bytes len i

end Reading

/-- No key where the blob is empty. -/
def PairingPayload.nostrKeyOf (nostrBlob : Data) : Access Unit (Option Data) :=
  if nostrBlob.length = 0 then .ok none
  else if nostrBlob.length = nostrKeyByteCount then .ok (some nostrBlob)
  else .error (.threw ())

/-- `init?(wire:)`. -/
def PairingPayload.parse (bytes : Data) : Access Unit PairingPayload := do
  ensure (1 ≤ bytes.length) ()
  let version ← inRange bytes[0]?
  ensure (version = currentVersion) ()
  let (bundleBlob, i) ← readBlobAt () bytes 1
  let (nostrBlob, i) ← readBlobAt () bytes i
  ensure (i = bytes.length) ()
  let nostrKey ← nostrKeyOf nostrBlob
  return ⟨bundleBlob, nostrKey⟩

def Invite.parse (bytes : Data) : Access Unit Invite := do
  ensure (1 ≤ bytes.length) ()
  let version ← inRange bytes[0]?
  ensure (version = currentVersion) ()
  let (id, i) ← readSlice () bytes idByteCount 1
  let (mintedRaw, i) ← readNumber () bytes 8 i
  let (expiresRaw, i) ← readNumber () bytes 8 i
  let (payloadLen, i) ← readNumber () bytes 4 i
  let (payloadBytes, i) ← readSlice () bytes payloadLen i
  ensure (i = bytes.length) ()
  let payload ← PairingPayload.parse payloadBytes
  return ⟨payload, id, int64 mintedRaw, int64 expiresRaw⟩

/-! ### What is read at a place -/

section Places

variable {ε : Type} {error : ε} {bytes : Data} {i j : Nat}

/-- The bytes from `i` to `j`. -/
def Spans (bytes part : Data) (i j : Nat) : Prop :=
  j = i + part.length ∧ bytes.drop i = part ++ bytes.drop j

theorem readLoop_ok {width v : Nat} (h : i + width ≤ bytes.length) :
    readLoop ε bytes width i v =
      .ok (((bytes.drop i).take width).foldl (fun n b => n * 256 + b.toNat) v) := by
  induction width generalizing i v with
  | zero => rfl
  | succ width ih =>
    have hget : bytes[i]? = some bytes[i] := List.getElem?_eq_getElem (by omega)
    rw [readLoop, hget]
    show readLoop ε bytes width (i + 1) _ = _
    rw [ih (by omega), List.drop_eq_getElem_cons (show i < bytes.length by omega),
      List.take_succ_cons]
    rfl

theorem spans_take {count : Nat} (h : i + count ≤ bytes.length) :
    Spans bytes ((bytes.drop i).take count) i (i + count) := by
  constructor
  · rw [List.length_take, List.length_drop]
    omega
  · rw [← List.drop_drop, List.take_append_drop]

theorem Spans.take {part : Data} (h : Spans bytes part i j) :
    (bytes.drop i).take part.length = part := by
  rw [h.2, List.take_left]

theorem Spans.le {part : Data} (h : Spans bytes part i j) (hi : i ≤ bytes.length) :
    j ≤ bytes.length := by
  have hlength := congrArg List.length h.2
  simp only [List.length_append, List.length_drop] at hlength
  have hj := h.1
  omega

/-- A part of as many bytes is read wherever it is. -/
theorem readSlice_ok {count : Nat} {part : Data} (hi : i ≤ bytes.length)
    (hsum : i + count < 2 ^ 63) :
    readSlice error bytes count i = .ok (part, j) ↔ part.length = count ∧ Spans bytes part i j := by
  rw [readSlice]
  simp only [bind_ok, sum_ok, ensure_ok, slice_ok, exists_const]
  constructor
  · rintro ⟨last, ⟨_, rfl⟩, hle, blob, ⟨_, _, rfl⟩, hsame⟩
    cases hsame
    rw [Nat.add_sub_cancel_left]
    have hspans := spans_take hle
    refine ⟨?_, hspans⟩
    have hj := hspans.1
    omega
  · rintro ⟨rfl, hspans⟩
    have hj := hspans.1
    have hle := hspans.le hi
    refine ⟨_, ⟨hsum, rfl⟩, by omega, _, ⟨by omega, by omega, rfl⟩, ?_⟩
    rw [Nat.add_sub_cancel_left, hspans.take, ← hj]
    rfl

/-- A number is read from the bytes that spell it. -/
theorem readNumber_ok {width n : Nat} (hi : i ≤ bytes.length) (hsum : i + width < 2 ^ 63) :
    readNumber error bytes width i = .ok (n, j) ↔
      n < 256 ^ width ∧ Spans bytes (bigEndianBytes width n) i j := by
  rw [readNumber]
  simp only [bind_ok, sum_ok, ensure_ok, exists_const]
  constructor
  · rintro ⟨last, ⟨_, rfl⟩, hle, v, hv, hsame⟩
    cases hsame
    rw [readLoop_ok hle] at hv
    cases hv
    have hspans := spans_take hle
    have hlength : ((bytes.drop i).take width).length = width := by
      have hj := hspans.1
      omega
    have hlt := number_lt ((bytes.drop i).take width)
    have hback := bigEndianBytes_number ((bytes.drop i).take width)
    rw [hlength] at hlt hback
    exact ⟨hlt, by rw [← number, hback]; exact hspans⟩
  · rintro ⟨hn, hspans⟩
    have hj := hspans.1
    have hle := hspans.le hi
    rw [length_bigEndianBytes] at hj
    refine ⟨_, ⟨hsum, rfl⟩, by omega, n, ?_, by rw [hj]; rfl⟩
    have htake := hspans.take
    rw [length_bigEndianBytes] at htake
    rw [readLoop_ok (by omega), htake]
    exact congrArg Except.ok (number_bigEndianBytes hn)

theorem spans_append {x y : Data} :
    Spans bytes (x ++ y) i j ↔ ∃ k, Spans bytes x i k ∧ Spans bytes y k j := by
  constructor
  · rintro ⟨hj, hdrop⟩
    have hx : bytes.drop (i + x.length) = y ++ bytes.drop j := by
      rw [← List.drop_drop, hdrop, List.append_assoc, List.drop_left]
    rw [List.length_append] at hj
    refine ⟨i + x.length, ⟨rfl, ?_⟩, by omega, hx⟩
    rw [hx, hdrop, List.append_assoc]
  · rintro ⟨k, ⟨hk, hx⟩, hj, hy⟩
    refine ⟨by rw [List.length_append]; omega, ?_⟩
    rw [hx, hy, List.append_assoc]

theorem spans_whole {whole : Data} : Spans bytes whole 0 bytes.length ↔ bytes = whole := by
  constructor
  · rintro ⟨_, hdrop⟩
    rwa [List.drop_zero, List.drop_length, List.append_nil] at hdrop
  · rintro rfl
    exact ⟨(Nat.zero_add _).symm, by rw [List.drop_zero, List.drop_length, List.append_nil]⟩

theorem spans_first {b : UInt8} : Spans bytes [b] 0 1 ↔ bytes[0]? = some b := by
  cases bytes with
  | nil => simp [Spans]
  | cons c rest => simp [Spans]

/-- A blob behind its length. -/
def blobBytes (blob : Data) : Data := bigEndianBytes 4 blob.length ++ blob

theorem readBlobAt_ok {blob : Data} (hi : i ≤ bytes.length) (hroom : i < 2 ^ 62) :
    readBlobAt error bytes i = .ok (blob, j) ↔ blob.length < 2 ^ 32 ∧
      Spans bytes (blobBytes blob) i j := by
  rw [readBlobAt, blobBytes, spans_append]
  simp only [bind_ok, Prod.exists]
  constructor
  · rintro ⟨len, k, hlen, hblob⟩
    obtain ⟨hlt, hspans⟩ := (readNumber_ok hi (by omega)).mp hlen
    have hk := hspans.1
    rw [length_bigEndianBytes] at hk
    obtain ⟨rfl, hspans'⟩ := (readSlice_ok (hspans.le hi) (by omega)).mp hblob
    exact ⟨hlt, k, hspans, hspans'⟩
  · rintro ⟨hlt, k, hspans, hspans'⟩
    have hk := hspans.1
    rw [length_bigEndianBytes] at hk
    exact ⟨blob.length, k, (readNumber_ok hi (by omega)).mpr ⟨hlt, hspans⟩,
      (readSlice_ok (hspans.le hi) (by omega)).mpr ⟨rfl, hspans'⟩⟩

/-! ### No subscript is out of range -/

theorem readSlice_safe {count : Nat} (hsum : i + count < 2 ^ 63) :
    Safe (readSlice error bytes count i) := by
  refine (Safe.sum hsum).bind fun last hlast => Safe.ensure.bind fun _ hle => ?_
  obtain ⟨_, rfl⟩ := sum_ok.mp hlast
  exact (Safe.slice (by omega) (ensure_ok.mp hle)).bind fun _ _ => .ok _

theorem readNumber_safe {width : Nat} (hsum : i + width < 2 ^ 63) :
    Safe (readNumber error bytes width i) := by
  refine (Safe.sum hsum).bind fun last hlast => Safe.ensure.bind fun _ hle => ?_
  obtain ⟨_, rfl⟩ := sum_ok.mp hlast
  rw [readLoop_ok (ensure_ok.mp hle)]
  exact .ok _

theorem readBlobAt_safe (hi : i ≤ bytes.length) (hroom : i < 2 ^ 62) :
    Safe (readBlobAt error bytes i) := by
  refine (readNumber_safe (by omega)).bind fun read hread => ?_
  obtain ⟨hlt, hspans⟩ := (readNumber_ok hi (by omega)).mp hread
  have hk := hspans.1
  rw [length_bigEndianBytes] at hk
  exact readSlice_safe (by omega)

end Places

/-! ### Payloads -/

namespace PairingPayload

/-- A bundle within its length field, and a Nostr key of 32 bytes or none. -/
structure Valid (p : PairingPayload) : Prop where
  bundle : p.bundle.length < 2 ^ 32
  key : ∀ key, p.nostrPublicKey = some key → key.length = nostrKeyByteCount

/-- The wire form. -/
def wire (p : PairingPayload) : Data :=
  [currentVersion] ++ (blobBytes p.bundle ++ blobBytes (p.nostrPublicKey.getD []))

theorem Valid.length_key {p : PairingPayload} (h : p.Valid) :
    (p.nostrPublicKey.getD []).length < 2 ^ 32 := by
  cases hnostr : p.nostrPublicKey with
  | none => exact Nat.two_pow_pos 32
  | some key =>
    have hlength := h.key key hnostr
    unfold nostrKeyByteCount at hlength
    show key.length < 2 ^ 32
    omega

theorem wireData_ok {p : PairingPayload} (h : p.Valid) : p.wireData = .ok p.wire := by
  rw [wireData, appendBlob, if_pos h.bundle]
  show appendBlob _ _ = _
  rw [appendBlob, if_pos h.length_key]
  simp only [wire, blobBytes, List.append_assoc]

theorem nostrKeyOf_ok {nostrBlob : Data} {nostrKey : Option Data} :
    nostrKeyOf nostrBlob = .ok nostrKey ↔
    (∀ key, nostrKey = some key → key.length = nostrKeyByteCount) ∧
    nostrBlob = nostrKey.getD [] := by
  unfold nostrKeyOf
  constructor
  · intro h
    split at h
    · rename_i hempty
      cases h
      exact ⟨nofun, List.length_eq_zero_iff.mp hempty⟩
    · split at h
      · rename_i hlength
        cases h
        refine ⟨fun key hkey => ?_, rfl⟩
        cases hkey
        exact hlength
      · cases h
  · rintro ⟨hlength, rfl⟩
    cases nostrKey with
    | none => rfl
    | some key =>
      have hkey := hlength key rfl
      rw [Option.getD_some, if_neg (by rw [hkey]; decide), if_pos hkey]

/-- What is accepted is what is written, and nothing else. -/
theorem parse_ok_iff {bytes : Data} {p : PairingPayload} :
    parse bytes = .ok p ↔ p.Valid ∧ bytes = p.wire := by
  rw [← spans_whole, wire, spans_append, parse]
  simp only [bind_ok, ensure_ok, exists_const, inRange_ok, Prod.exists]
  constructor
  · rintro ⟨hlong, version, hfirst, rfl, bundle, k, hbundle, nostr, _, hnostr, rfl, nostrKey,
      hkey, hsame⟩
    cases hsame
    obtain ⟨hlt, hspans⟩ := (readBlobAt_ok hlong (by omega)).mp hbundle
    have hk := hspans.1
    rw [blobBytes, List.length_append, length_bigEndianBytes] at hk
    obtain ⟨_, hspans'⟩ := (readBlobAt_ok (hspans.le hlong) (by omega)).mp hnostr
    obtain ⟨hwide, rfl⟩ := nostrKeyOf_ok.mp hkey
    exact ⟨⟨hlt, hwide⟩, 1, spans_first.mpr hfirst, spans_append.mpr ⟨k, hspans, hspans'⟩⟩
  · rintro ⟨hvalid, i, hfirst, hrest⟩
    obtain rfl : i = 1 := hfirst.1
    have hlong : 1 ≤ bytes.length := hfirst.le (Nat.zero_le _)
    obtain ⟨k, hspans, hspans'⟩ := spans_append.mp hrest
    have hlt := hvalid.bundle
    have hk := hspans.1
    rw [blobBytes, List.length_append, length_bigEndianBytes] at hk
    have hkey : (p.nostrPublicKey.getD []).length < 2 ^ 32 := hvalid.length_key
    exact ⟨hlong, _, spans_first.mp hfirst, rfl, p.bundle, k,
      (readBlobAt_ok hlong (by omega)).mpr ⟨hlt, hspans⟩, _, _,
      (readBlobAt_ok (hspans.le hlong) (by omega)).mpr ⟨hkey, hspans'⟩, rfl, _,
      nostrKeyOf_ok.mpr ⟨hvalid.key, rfl⟩, rfl⟩

theorem parse_safe (bytes : Data) : Safe (parse bytes) := by
  refine Safe.ensure.bind fun _ hlong => ?_
  have hlong := ensure_ok.mp hlong
  refine (Safe.inRange (by simp; omega)).bind fun version _ => Safe.ensure.bind fun _ _ =>
    (readBlobAt_safe hlong (by omega)).bind fun bundle hbundle => ?_
  obtain ⟨hlt, hspans⟩ := (readBlobAt_ok hlong (by omega)).mp hbundle
  have hk := hspans.1
  rw [blobBytes, List.length_append, length_bigEndianBytes] at hk
  refine (readBlobAt_safe (hspans.le hlong) (by omega)).bind fun nostr _ =>
    Safe.ensure.bind fun _ _ => ?_
  refine Safe.bind ?_ fun _ _ => .ok _
  unfold nostrKeyOf
  split
  · exact .ok _
  · split
    · exact .ok _
    · exact .threw

end PairingPayload

/-! ### Invites -/

namespace Invite

/-- An identifier of 16 bytes, times that are `Int64`s, and a payload whose wire form is within its
length field. -/
structure Valid (i : Invite) : Prop where
  payload : i.payload.Valid
  id : i.id.length = idByteCount
  mintedAt : InInt64 i.mintedAt
  expiresAt : InInt64 i.expiresAt
  length : i.payload.wire.length < 2 ^ 32

def wire (i : Invite) : Data :=
  [currentVersion] ++ (i.id ++ (bigEndianBytes 8 (bitPattern i.mintedAt) ++
    (bigEndianBytes 8 (bitPattern i.expiresAt) ++ blobBytes i.payload.wire)))

theorem wireData_ok {i : Invite} (h : i.Valid) : i.wireData = .ok i.wire := by
  rw [wireData, PairingPayload.wireData_ok h.payload]
  show appendBlob _ _ = _
  rw [appendBlob, if_pos h.length]
  simp only [wire, blobBytes, List.append_assoc]

/-- A payload whose wire form is beyond its length field traps. -/
theorem wireData_trapped {i : Invite} (h : i.payload.Valid)
    (hlength : 2 ^ 32 ≤ i.payload.wire.length) :
    i.wireData = .error .trapped := by
  rw [wireData, PairingPayload.wireData_ok h]
  show appendBlob _ _ = _
  rw [appendBlob, if_neg (by omega)]

theorem parse_ok_iff {bytes : Data} {i : Invite} : parse bytes = .ok i ↔ i.Valid ∧
    bytes = i.wire := by
  rw [← spans_whole, wire, spans_append, parse]
  simp only [bind_ok, ensure_ok, exists_const, inRange_ok, Prod.exists]
  constructor
  · rintro ⟨hlong, version, hfirst, rfl, id, k₁, hid, minted, k₂, hminted, expires, k₃, hexpires,
      len, k₄, hlen, blob, _, hblob, rfl, payload, hpayload, hsame⟩
    cases hsame
    obtain ⟨hidlen, hspans₁⟩ := (readSlice_ok hlong (by decide)).mp hid
    have hk₁ := hspans₁.1
    unfold idByteCount at hidlen
    obtain ⟨hmintedlt, hspans₂⟩ := (readNumber_ok (hspans₁.le hlong) (by omega)).mp hminted
    have hk₂ := hspans₂.1
    rw [length_bigEndianBytes] at hk₂
    obtain ⟨hexpireslt, hspans₃⟩ :=
      (readNumber_ok (hspans₂.le (hspans₁.le hlong)) (by omega)).mp hexpires
    have hk₃ := hspans₃.1
    rw [length_bigEndianBytes] at hk₃
    have hle₃ := hspans₃.le (hspans₂.le (hspans₁.le hlong))
    obtain ⟨hlt, hspans₄⟩ := (readNumber_ok hle₃ (by omega)).mp hlen
    have hk₄ := hspans₄.1
    rw [length_bigEndianBytes] at hk₄
    obtain ⟨rfl, hspans₅⟩ := (readSlice_ok (hspans₄.le hle₃) (by omega)).mp hblob
    obtain ⟨hvalid, rfl⟩ := PairingPayload.parse_ok_iff.mp hpayload
    refine ⟨⟨hvalid, hidlen, inInt64_int64 (by omega), inInt64_int64 (by omega), hlt⟩, 1,
      spans_first.mpr hfirst, ?_⟩
    dsimp only
    rw [bitPattern_int64 (by omega), bitPattern_int64 (by omega)]
    simp only [spans_append, blobBytes]
    exact ⟨k₁, hspans₁, k₂, hspans₂, k₃, hspans₃, k₄, hspans₄, hspans₅⟩
  · rintro ⟨hvalid, j, hfirst, hrest⟩
    obtain rfl : j = 1 := hfirst.1
    have hlong : 1 ≤ bytes.length := hfirst.le (Nat.zero_le _)
    simp only [spans_append, blobBytes] at hrest
    obtain ⟨k₁, hspans₁, k₂, hspans₂, k₃, hspans₃, k₄, hspans₄, hspans₅⟩ := hrest
    have hid := hvalid.id
    unfold idByteCount at hid
    have hk₁ := hspans₁.1
    have hk₂ := hspans₂.1
    have hk₃ := hspans₃.1
    have hk₄ := hspans₄.1
    rw [length_bigEndianBytes] at hk₂ hk₃ hk₄
    have hlt := hvalid.length
    have hle₁ := hspans₁.le hlong
    have hle₃ := hspans₃.le (hspans₂.le hle₁)
    have hminted := bitPattern_lt i.mintedAt
    have hexpires := bitPattern_lt i.expiresAt
    refine ⟨hlong, _, spans_first.mp hfirst, rfl, i.id, k₁,
      (readSlice_ok hlong (by decide)).mpr ⟨hid, hspans₁⟩, _, k₂,
      (readNumber_ok hle₁ (by omega)).mpr ⟨by omega, hspans₂⟩, _, k₃,
      (readNumber_ok (hspans₂.le hle₁) (by omega)).mpr ⟨by omega, hspans₃⟩, _, k₄,
      (readNumber_ok hle₃ (by omega)).mpr ⟨hlt, hspans₄⟩, _, _,
      (readSlice_ok (hspans₄.le hle₃) (by omega)).mpr ⟨rfl, hspans₅⟩, rfl, _,
      PairingPayload.parse_ok_iff.mpr ⟨hvalid.payload, rfl⟩, ?_⟩
    rw [int64_bitPattern hvalid.mintedAt, int64_bitPattern hvalid.expiresAt]
    rfl

theorem parse_safe (bytes : Data) : Safe (parse bytes) := by
  refine Safe.ensure.bind fun _ hlong => ?_
  have hlong := ensure_ok.mp hlong
  refine (Safe.inRange (by simp; omega)).bind fun version _ => Safe.ensure.bind fun _ _ =>
    (readSlice_safe (by decide)).bind fun id hid => ?_
  obtain ⟨hidlen, hspans₁⟩ := (readSlice_ok hlong (by decide)).mp hid
  have hk₁ := hspans₁.1
  unfold idByteCount at hidlen
  have hle₁ := hspans₁.le hlong
  refine (readNumber_safe (by omega)).bind fun minted hminted => ?_
  obtain ⟨_, hspans₂⟩ := (readNumber_ok hle₁ (by omega)).mp hminted
  have hk₂ := hspans₂.1
  rw [length_bigEndianBytes] at hk₂
  have hle₂ := hspans₂.le hle₁
  refine (readNumber_safe (by omega)).bind fun expires hexpires => ?_
  obtain ⟨_, hspans₃⟩ := (readNumber_ok hle₂ (by omega)).mp hexpires
  have hk₃ := hspans₃.1
  rw [length_bigEndianBytes] at hk₃
  have hle₃ := hspans₃.le hle₂
  refine (readNumber_safe (by omega)).bind fun len hlen => ?_
  obtain ⟨hlt, hspans₄⟩ := (readNumber_ok hle₃ (by omega)).mp hlen
  have hk₄ := hspans₄.1
  rw [length_bigEndianBytes] at hk₄
  exact (readSlice_safe (by omega)).bind fun payload _ => Safe.ensure.bind fun _ _ =>
    (PairingPayload.parse_safe _).bind fun _ _ => .ok _

end Invite

/-! ### The readers over the rest of the bytes -/

theorem readBytes_eq_some {count : Nat} {bytes part rest : Data} :
    readBytes count bytes = some (part, rest) ↔ part.length = count ∧ bytes = part ++ rest := by
  unfold readBytes
  constructor
  · intro h
    split at h
    · rename_i hle
      cases h
      exact ⟨List.length_take_of_le hle, (List.take_append_drop count bytes).symm⟩
    · cases h
  · rintro ⟨rfl, rfl⟩
    rw [if_pos (by rw [List.length_append]; omega), List.take_left, List.drop_left]

theorem readWord_eq_some_iff {width n : Nat} {bytes rest : Data} :
    readWord width bytes = some (n, rest) ↔ n < 256 ^ width ∧
      bytes = bigEndianBytes width n ++ rest := by
  unfold readWord
  rw [Option.map_eq_some_iff]
  constructor
  · rintro ⟨⟨part, rest'⟩, hread, hsame⟩
    cases hsame
    obtain ⟨rfl, rfl⟩ := readBytes_eq_some.mp hread
    exact ⟨number_lt part, by rw [bigEndianBytes_number]⟩
  · rintro ⟨hn, rfl⟩
    exact ⟨(bigEndianBytes width n, rest), readBytes_eq_some.mpr
      ⟨length_bigEndianBytes width n, rfl⟩,
      by rw [number_bigEndianBytes hn]⟩

theorem PairingPayload.readBlob_eq_some {bytes blob rest : Data} :
    readBlob bytes = some (blob, rest) ↔ blob.length < 2 ^ 32 ∧ bytes = blobBytes blob ++ rest := by
  unfold readBlob blobBytes
  simp only [Option.bind_eq_some_iff, Prod.exists, readWord_eq_some_iff, readBytes_eq_some]
  constructor
  · rintro ⟨len, bytes', ⟨hlt, rfl⟩, rfl, rfl⟩
    exact ⟨hlt, (List.append_assoc _ _ _).symm⟩
  · rintro ⟨hlt, rfl⟩
    exact ⟨blob.length, blob ++ rest, ⟨hlt, List.append_assoc _ _ _⟩, rfl, rfl⟩

/-- The two readers of a payload accept the same. -/
theorem PairingPayload.ofWire?_eq_some {bytes : Data} {p : PairingPayload} :
    ofWire? bytes = some p ↔ parse bytes = .ok p := by
  rw [parse_ok_iff]
  cases bytes with
  | nil => exact ⟨nofun, fun h => absurd h.2 nofun⟩
  | cons version bytes =>
    rw [ofWire?, Option.ite_none_right_eq_some]
    simp only [Option.bind_eq_bind, Option.bind_eq_some_iff, Prod.exists, readBlob_eq_some]
    constructor
    · rintro ⟨rfl, bundle, rest, ⟨hlt, rfl⟩, nostr, last, ⟨_, rfl⟩, hrest⟩
      obtain ⟨hend, hkey⟩ := Option.ite_none_left_eq_some.mp hrest
      obtain rfl : last = [] := by simpa using hend
      split at hkey
      · rename_i hempty
        cases hkey
        rw [List.length_eq_zero_iff.mp hempty, List.append_nil]
        exact ⟨⟨hlt, nofun⟩, rfl⟩
      · obtain ⟨hwide, hsame⟩ := Option.ite_none_right_eq_some.mp hkey
        cases hsame
        rw [List.append_nil]
        refine ⟨⟨hlt, fun key hkey => ?_⟩, rfl⟩
        cases hkey
        exact hwide
    · rintro ⟨hvalid, hwire⟩
      obtain ⟨rfl, rfl⟩ := List.cons.inj hwire
      refine ⟨rfl, p.bundle, _, ⟨hvalid.bundle, rfl⟩, _, [],
        ⟨hvalid.length_key, (List.append_nil _).symm⟩, ?_⟩
      obtain ⟨bundle, nostrKey⟩ := p
      cases nostrKey with
      | none => rfl
      | some key =>
        have hkey : key.length = nostrKeyByteCount := hvalid.key key rfl
        rw [if_neg (fun h => h rfl), Option.getD_some, if_neg (by rw [hkey]; decide), if_pos hkey]

/-- The two readers of an invite accept the same. -/
theorem Invite.ofWire?_eq_some {bytes : Data} {i : Invite} :
    ofWire? bytes = some i ↔ parse bytes = .ok i := by
  rw [parse_ok_iff]
  cases bytes with
  | nil => exact ⟨nofun, fun h => absurd h.2 nofun⟩
  | cons version bytes =>
    rw [ofWire?, Option.ite_none_right_eq_some]
    simp only [Option.bind_eq_bind, Option.bind_eq_some_iff, Prod.exists, readWord_eq_some_iff,
      readBytes_eq_some]
    constructor
    · rintro ⟨rfl, id, _, ⟨hid, rfl⟩, minted, _, ⟨hminted, rfl⟩, expires, _, ⟨hexpires, rfl⟩, len,
        _, ⟨hlt, rfl⟩, blob, last, ⟨rfl, rfl⟩, hrest⟩
      obtain ⟨hend, hpayload⟩ := Option.ite_none_left_eq_some.mp hrest
      obtain rfl : last = [] := by simpa using hend
      obtain ⟨payload, hparsed, rfl⟩ := Option.map_eq_some_iff.mp hpayload
      obtain ⟨hvalid, rfl⟩ := PairingPayload.parse_ok_iff.mp
        (PairingPayload.ofWire?_eq_some.mp hparsed)
      refine ⟨⟨hvalid, hid, inInt64_int64 (by omega), inInt64_int64 (by omega), hlt⟩, ?_⟩
      simp only [wire, bitPattern_int64 (show minted < 2 ^ 64 by omega),
        bitPattern_int64 (show expires < 2 ^ 64 by omega), List.append_nil, blobBytes,
          List.cons_append,
        List.nil_append]
    · rintro ⟨hvalid, hwire⟩
      obtain ⟨rfl, rfl⟩ := List.cons.inj hwire
      have hminted := bitPattern_lt i.mintedAt
      have hexpires := bitPattern_lt i.expiresAt
      refine ⟨rfl, i.id, _, ⟨hvalid.id, rfl⟩, _, _, ⟨by omega, rfl⟩, _, _, ⟨by omega, rfl⟩, _, _,
        ⟨hvalid.length, rfl⟩, _, [], ⟨rfl, (List.append_nil _).symm⟩, ?_⟩
      rw [if_neg (fun h => h rfl),
        PairingPayload.ofWire?_eq_some.mpr (PairingPayload.parse_ok_iff.mpr ⟨hvalid.payload, rfl⟩)]
      simp only [Option.map_some, int64_bitPattern hvalid.mintedAt,
        int64_bitPattern hvalid.expiresAt]

/-! ### Nothing that is accepted begins something else that is -/

theorem blobBytes_cancel {blob blob' rest rest' : Data} (h : blob.length < 2 ^ 32)
    (h' : blob'.length < 2 ^ 32)
    (hsame : blobBytes blob ++ rest = blobBytes blob' ++ rest') : blob = blob' ∧ rest = rest' := by
  have hread : PairingPayload.readBlob (blobBytes blob ++ rest) = some (blob, rest) :=
    PairingPayload.readBlob_eq_some.mpr ⟨h, rfl⟩
  have hread' : PairingPayload.readBlob (blobBytes blob ++ rest) = some (blob', rest') :=
    PairingPayload.readBlob_eq_some.mpr ⟨h', hsame⟩
  have hboth := Option.some.inj (hread.symm.trans hread')
  exact ⟨congrArg Prod.fst hboth, congrArg Prod.snd hboth⟩

theorem PairingPayload.wire_of_prefix {p p' : PairingPayload} (h : p.Valid) (h' : p'.Valid)
    (hbegins : p.wire <+: p'.wire) : p.wire = p'.wire := by
  obtain ⟨rest, hrest⟩ := hbegins
  have hbody : blobBytes p.bundle ++ (blobBytes (p.nostrPublicKey.getD []) ++ rest) =
      blobBytes p'.bundle ++ blobBytes (p'.nostrPublicKey.getD []) := by
    have htail := (List.cons.inj hrest).2
    simpa using htail
  obtain ⟨_, hkeys⟩ := blobBytes_cancel h.bundle h'.bundle hbody
  rw [← List.append_nil (blobBytes (p'.nostrPublicKey.getD []))] at hkeys
  obtain ⟨_, rfl⟩ := blobBytes_cancel h.length_key h'.length_key hkeys
  rwa [List.append_nil] at hrest

/-- What is before the length field of an invite's payload. -/
theorem Invite.length_wire {i : Invite} (h : i.Valid) : ∃ front, front.length = 33 ∧
    i.wire = front ++ blobBytes i.payload.wire := by
  refine ⟨[currentVersion] ++ (i.id ++ (bigEndianBytes 8 (bitPattern i.mintedAt) ++
    bigEndianBytes 8 (bitPattern i.expiresAt))), ?_, ?_⟩
  · simp only [List.length_append, List.length_singleton, length_bigEndianBytes, h.id, idByteCount]
  · simp only [wire, List.append_assoc]

theorem Invite.wire_of_prefix {i i' : Invite} (h : i.Valid) (h' : i'.Valid)
    (hbegins : i.wire <+: i'.wire) : i.wire = i'.wire := by
  obtain ⟨rest, hrest⟩ := hbegins
  obtain ⟨front, hfront, hwire⟩ := Invite.length_wire h
  obtain ⟨front', hfront', hwire'⟩ := Invite.length_wire h'
  have hparts := hrest
  rw [hwire, hwire', List.append_assoc] at hparts
  obtain ⟨_, hblob⟩ := List.append_inj hparts (hfront.trans hfront'.symm)
  rw [← List.append_nil (blobBytes i'.payload.wire)] at hblob
  obtain ⟨_, rfl⟩ := blobBytes_cancel h.length h'.length hblob
  rwa [List.append_nil] at hrest

/-- What is written is read back, what is accepted is what is written, nothing that is accepted
begins something else that is, and no bytes take a subscript or a sum out of range. -/
theorem codecs_strict :
    ((∀ p : PairingPayload, p.Valid → ∃ bytes, p.wireData = .ok bytes ∧ PairingPayload.parse bytes =
      .ok p) ∧ (∀ bytes p, PairingPayload.parse bytes = .ok p → p.wireData = .ok bytes) ∧
      (∀ bytes bytes' p p', PairingPayload.parse bytes = .ok p →
        PairingPayload.parse bytes' = .ok p' → bytes <+: bytes' → bytes = bytes') ∧
      ∀ bytes, PairingPayload.parse bytes ≠ .error .trapped) ∧
    (∀ i : Invite, i.Valid → ∃ bytes, i.wireData = .ok bytes ∧ Invite.parse bytes = .ok i) ∧
      (∀ bytes i, Invite.parse bytes = .ok i → i.wireData = .ok bytes) ∧
      (∀ bytes bytes' i i', Invite.parse bytes = .ok i → Invite.parse bytes' = .ok i' →
        bytes <+: bytes' → bytes = bytes') ∧
      ∀ bytes, Invite.parse bytes ≠ .error .trapped := by
  refine ⟨⟨?_, ?_, ?_, PairingPayload.parse_safe⟩, ?_, ?_, ?_, Invite.parse_safe⟩
  · intro p hvalid
    exact ⟨_, PairingPayload.wireData_ok hvalid, PairingPayload.parse_ok_iff.mpr ⟨hvalid, rfl⟩⟩
  · intro bytes p hparse
    obtain ⟨hvalid, rfl⟩ := PairingPayload.parse_ok_iff.mp hparse
    exact PairingPayload.wireData_ok hvalid
  · intro bytes bytes' p p' hparse hparse' hbegins
    obtain ⟨hvalid, rfl⟩ := PairingPayload.parse_ok_iff.mp hparse
    obtain ⟨hvalid', rfl⟩ := PairingPayload.parse_ok_iff.mp hparse'
    exact PairingPayload.wire_of_prefix hvalid hvalid' hbegins
  · intro i hvalid
    exact ⟨_, Invite.wireData_ok hvalid, Invite.parse_ok_iff.mpr ⟨hvalid, rfl⟩⟩
  · intro bytes i hparse
    obtain ⟨hvalid, rfl⟩ := Invite.parse_ok_iff.mp hparse
    exact Invite.wireData_ok hvalid
  · intro bytes bytes' i i' hparse hparse' hbegins
    obtain ⟨hvalid, rfl⟩ := Invite.parse_ok_iff.mp hparse
    obtain ⟨hvalid', rfl⟩ := Invite.parse_ok_iff.mp hparse'
    exact Invite.wire_of_prefix hvalid hvalid' hbegins

/-- An invite with a bundle of three bytes. -/
def shortInvite : Invite := ⟨⟨[1, 2, 3], none⟩, List.replicate 16 7, -1, 1000⟩

theorem codecs_strict_short : ∃ bytes, shortInvite.wireData = .ok bytes ∧ bytes.length = 49 ∧
    Invite.parse bytes = .ok shortInvite := by
  have hvalid : shortInvite.Valid :=
    ⟨⟨by decide, nofun⟩, rfl, by unfold InInt64; decide, by unfold InInt64; decide, by decide⟩
  obtain ⟨bytes, hbytes, hparse⟩ := codecs_strict.2.1 shortInvite hvalid
  have hlength : shortInvite.wireData.map List.length = .ok 49 := by decide +kernel
  rw [hbytes] at hlength
  exact ⟨bytes, hbytes, Except.ok.inj hlength, hparse⟩

theorem long_bundle_trapped {bundle : Data} (h : bundle.length = 2 ^ 32 - 1) :
    (PairingPayload.mk bundle none).Valid ∧
      (Invite.mk ⟨bundle, none⟩ (List.replicate 16 7) 0 1000).wireData = .error .trapped := by
  have hvalid : (PairingPayload.mk bundle none).Valid := ⟨by dsimp only; omega, nofun⟩
  refine ⟨hvalid, Invite.wireData_trapped hvalid ?_⟩
  simp only [PairingPayload.wire, blobBytes, List.length_append, length_bigEndianBytes,
    List.length_singleton]
  omega

/-- A bundle that fills its length field is written in a pair code, and not in an invite. -/
theorem longest_bundle_trapped : ∃ i : Invite, i.payload.bundle = List.replicate (2 ^ 32 - 1) 0 ∧
    i.payload.Valid ∧ i.id.length = Invite.idByteCount ∧ InInt64 i.mintedAt ∧ InInt64 i.expiresAt ∧
    i.wireData = .error .trapped := by
  obtain ⟨bundle, hbundle⟩ : ∃ bundle : Data, bundle = List.replicate (2 ^ 32 - 1) 0 := ⟨_, rfl⟩
  obtain ⟨hvalid, htrapped⟩ := long_bundle_trapped (hbundle ▸ List.length_replicate)
  have hrange : InInt64 0 ∧ InInt64 1000 := by
    unfold InInt64
    decide
  exact ⟨_, hbundle, hvalid, rfl, hrange.1, hrange.2, htrapped⟩

end AeroNyra
