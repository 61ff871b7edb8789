import AeroNyra.Enrollment.Wire
import AeroNyra.Session.Survival

/-! The wire form of a bundle: its public fields one behind the other, keys and signatures behind
their lengths.  The reader walks a cursor over bytes whose indices need not begin at zero. -/

namespace AeroNyra.BundleWire

open Access ProtocolStore

/-- Bytes with the index of the first one: `Data` may be a slice of other data. -/
structure DataSlice where
  startIndex : Nat
  bytes : Data

namespace DataSlice

def endIndex (d : DataSlice) : Nat := d.startIndex + d.bytes.length

/-- `d[lower..<upper]`. -/
def subscript {ε : Type} (d : DataSlice) (lower upper : Nat) : Access ε Data :=
  if d.startIndex ≤ lower then slice d.bytes (lower - d.startIndex) (upper - d.startIndex)
  else .error .trapped

end DataSlice

inductive Failure
  | bundleMalformed
  /-- A key that libsignal does not take. -/
  | signal
  deriving DecidableEq

variable {L : LibSignal}

/-! ### Writing -/

def putU32 (d : Data) (v : UInt32) : Data := d ++ bigEndianBytes 4 v.toNat

/-- `UInt32(_)` of a count, which traps beyond 32 bits. -/
def putBlob (d b : Data) : Access Failure Data :=
  if b.length < 2 ^ 32 then .ok (putU32 d (.ofNat b.length) ++ b) else .error .trapped

def encode (m : BundleMaterial L) : Access Failure Data := do
  let d := putU32 [] m.registrationId
  let d := putU32 d m.deviceId
  let d := putU32 d m.preKeyId
  let d ← putBlob d (L.publicKeys.serialize m.preKeyPublic)
  let d := putU32 d m.signedPreKeyId
  let d ← putBlob d (L.publicKeys.serialize m.signedPreKeyPublic)
  let d ← putBlob d m.signedPreKeySignature
  let d ← putBlob d (L.identityKeys.serialize m.identityKey)
  let d := putU32 d m.kyberPreKeyId
  let d ← putBlob d (L.serializeKEM m.kyberPreKeyPublic)
  putBlob d m.kyberPreKeySignature

/-! ### Reading -/

/-- The fields of the material again. -/
abbrev Decoded (L : LibSignal) := BundleMaterial L

section Reading

variable (d : DataSlice)

def need (cursor n : Nat) : Access Failure Unit := ensure (cursor + n ≤ d.endIndex) .bundleMalformed

/-- The four bytes at the cursor, and the cursor behind them. -/
def getU32 (cursor : Nat) : Access Failure (UInt32 × Nat) := do
  need d cursor 4
  let slice ← d.subscript cursor (cursor + 4)
  return (slice.foldl (fun n b => n <<< 8 ||| b.toUInt32) 0, cursor + 4)

def getBlob (cursor : Nat) : Access Failure (Data × Nat) := do
  let (len, cursor) ← getU32 d cursor
  need d cursor len.toNat
  let slice ← d.subscript cursor (cursor + len.toNat)
  return (slice, cursor + len.toNat)

end Reading

/-- `parseKEM` is libsignal's reader of post-quantum keys. -/
def decode (parseKEM : Data → Option L.KEMPublicKey) (d : DataSlice) :
    Access Failure (Decoded L) := do
  let cursor := d.startIndex
  let (registrationId, cursor) ← getU32 d cursor
  let (deviceId, cursor) ← getU32 d cursor
  let (preKeyId, cursor) ← getU32 d cursor
  let (blob, cursor) ← getBlob d cursor
  let preKeyPublic ← unwrapped .signal (L.publicKeys.parse blob)
  let (signedPreKeyId, cursor) ← getU32 d cursor
  let (blob, cursor) ← getBlob d cursor
  let signedPreKeyPublic ← unwrapped .signal (L.publicKeys.parse blob)
  let (signedPreKeySignature, cursor) ← getBlob d cursor
  let (blob, cursor) ← getBlob d cursor
  let identityKey ← unwrapped .signal (L.identityKeys.parse blob)
  let (kyberPreKeyId, cursor) ← getU32 d cursor
  let (blob, cursor) ← getBlob d cursor
  let kyberPreKeyPublic ← unwrapped .signal (parseKEM blob)
  let (kyberPreKeySignature, _) ← getBlob d cursor
  return ⟨registrationId, deviceId, preKeyId, preKeyPublic, signedPreKeyId, signedPreKeyPublic,
    signedPreKeySignature, identityKey, kyberPreKeyId, kyberPreKeyPublic, kyberPreKeySignature⟩

/-! ### What is at the cursor -/

section Cursor

variable {d : DataSlice} {c c' : Nat}

/-- The cursor goes from `c` to `c'` over these bytes. -/
def Between (d : DataSlice) (c c' : Nat) (part : Data) : Prop :=
  ∃ before after, d.bytes = before ++ part ++ after ∧ c = d.startIndex + before.length ∧
  c' = c + part.length

theorem between_append {x y : Data} :
    Between d c c' (x ++ y) ↔ ∃ k, Between d c k x ∧ Between d k c' y := by
  constructor
  · rintro ⟨before, after, hbytes, hc, hc'⟩
    rw [List.length_append] at hc'
    refine ⟨c + x.length, ⟨before, y ++ after, by simp [hbytes], hc, rfl⟩, before ++ x,
      after, by simp [hbytes], ?_, by omega⟩
    rw [List.length_append]
    omega
  · rintro ⟨k, ⟨before, after, hbytes, hc, rfl⟩, before', after', hbytes', hk, rfl⟩
    have hfront : before' = before ++ x := by
      have hlength : before'.length = (before ++ x).length := by
        rw [List.length_append]
        omega
      rw [hbytes, List.append_assoc before'] at hbytes'
      exact (List.append_inj_left hbytes' hlength.symm).symm
    subst hfront
    refine ⟨before, after', by simp [hbytes'], hc, ?_⟩
    rw [List.length_append, Nat.add_assoc]

theorem Between.le {part : Data} (h : Between d c c' part) :
    d.startIndex ≤ c ∧ c' ≤ d.endIndex ∧ c' = c + part.length := by
  obtain ⟨before, after, hbytes, hc, hc'⟩ := h
  unfold DataSlice.endIndex
  rw [hbytes]
  simp only [List.length_append]
  omega

theorem between_whole {whole : Data} :
    (∃ c', Between d d.startIndex c' whole) ↔ ∃ rest, d.bytes = whole ++ rest := by
  constructor
  · rintro ⟨c', before, after, hbytes, hc, _⟩
    obtain rfl : before = [] := List.length_eq_zero_iff.mp (by omega)
    exact ⟨after, hbytes⟩
  · rintro ⟨rest, hbytes⟩
    exact ⟨_, [], rest, hbytes, rfl, rfl⟩

/-- A range that ends within the bytes. -/
theorem subscript_ok {ε : Type} {n : Nat} {part : Data} (hend : c + n ≤ d.endIndex) :
    (d.subscript c (c + n) : Access ε Data) = .ok part ↔ part.length = n ∧
    Between d c (c + n) part := by
  unfold DataSlice.endIndex at hend
  unfold DataSlice.subscript
  by_cases hstart : d.startIndex ≤ c
  · obtain ⟨i, rfl⟩ := Nat.exists_eq_add_of_le hstart
    have hn : d.startIndex + i + n - d.startIndex = i + n := by omega
    rw [if_pos hstart, slice_ok, hn, Nat.add_sub_cancel_left, Nat.add_sub_cancel_left]
    constructor
    · rintro ⟨_, hupper, rfl⟩
      have hlength : ((d.bytes.drop i).take n).length = n := by
        rw [List.length_take, List.length_drop]
        omega
      refine ⟨hlength, d.bytes.take i, (d.bytes.drop i).drop n, ?_, ?_, by omega⟩
      · rw [List.append_assoc, List.take_append_drop, List.take_append_drop]
      · rw [List.length_take]
        omega
    · rintro ⟨rfl, before, after, hbytes, hc, _⟩
      obtain rfl : i = before.length := by omega
      refine ⟨by omega, by omega, ?_⟩
      rw [hbytes, List.append_assoc, List.drop_left, List.take_left]
  · rw [if_neg hstart]
    constructor
    · nofun
    · rintro ⟨_, hpart⟩
      exact absurd hpart.le.1 hstart

/-- One byte more of a word of 32 bits. -/
theorem toNat_next {n : UInt32} (b : UInt8) (h : n.toNat < 2 ^ 24) :
    (n <<< 8 ||| b.toUInt32).toNat = n.toNat * 256 + b.toNat := by
  have hb : b.toNat < 2 ^ 8 := b.toNat_lt
  have hshift : (n <<< 8).toNat = n.toNat <<< 8 := by
    rw [UInt32.toNat_shiftLeft]
    show n.toNat <<< 8 % 2 ^ 32 = _
    rw [Nat.shiftLeft_eq]
    omega
  rw [UInt32.toNat_or, hshift, UInt8.toNat_toUInt32, ← Nat.shiftLeft_add_eq_or_of_lt hb,
    Nat.shiftLeft_eq]

theorem toNat_fold (bytes : Data) (n : UInt32) (h : (n.toNat + 1) * 256 ^ bytes.length ≤ 2 ^ 32) :
    (bytes.foldl (fun n b => n <<< 8 ||| b.toUInt32) n : UInt32).toNat =
      bytes.foldl (fun n b => n * 256 + b.toNat) n.toNat := by
  induction bytes generalizing n with
  | nil => rfl
  | cons b bytes ih =>
    have hb := b.toNat_lt
    rw [List.length_cons, Nat.pow_succ', ← Nat.mul_assoc] at h
    have hone : 1 ≤ 256 ^ bytes.length := Nat.one_le_pow _ _ (by decide)
    have hsmall : (n.toNat + 1) * 256 ≤ 2 ^ 32 := Nat.le_trans (Nat.le_mul_of_pos_right _ hone) h
    have hnext := toNat_next b (show n.toNat < 2 ^ 24 by omega)
    rw [List.foldl_cons, List.foldl_cons, ih, hnext]
    rw [hnext]
    exact Nat.le_trans (Nat.mul_le_mul_right _ (by omega)) h

/-- Four bytes are the word that is spelled by them. -/
theorem getU32_ok {v : UInt32} : getU32 d c = .ok (v, c') ↔
    Between d c c' (bigEndianBytes 4 v.toNat) := by
  have hwide (n : Nat) : (bigEndianBytes 4 n).length = 4 := length_bigEndianBytes 4 n
  have hvalue {part : Data} (hpart : part.length = 4) :
      (part.foldl (fun n b => n <<< 8 ||| b.toUInt32) 0 : UInt32).toNat = number part :=
    toNat_fold part 0 (by rw [hpart]; decide)
  rw [getU32]
  simp only [bind_ok, need, ensure_ok, exists_const]
  constructor
  · rintro ⟨hend, part, hpart, hsame⟩
    obtain ⟨hlength, hbetween⟩ := (subscript_ok hend).mp hpart
    cases hsame
    have hback := bigEndianBytes_number part
    rw [hlength, ← hvalue hlength] at hback
    rwa [hback]
  · intro hbetween
    obtain ⟨_, hend, hc'⟩ := hbetween.le
    rw [hwide] at hc'
    subst hc'
    refine ⟨hend, _, (subscript_ok hend).mpr ⟨hwide _, hbetween⟩, ?_⟩
    have hback : number (bigEndianBytes 4 v.toNat) = v.toNat := number_bigEndianBytes v.toNat_lt
    rw [← hvalue (hwide _)] at hback
    rw [UInt32.toNat_inj.mp hback]
    rfl

theorem getBlob_ok {b : Data} :
    getBlob d c = .ok (b, c') ↔ b.length < 2 ^ 32 ∧ Between d c c' (blobBytes b) := by
  rw [getBlob, blobBytes, between_append]
  simp only [bind_ok, Prod.exists, need, ensure_ok, exists_const, getU32_ok]
  constructor
  · rintro ⟨len, k, hlen, hend, part, hpart, hsame⟩
    cases hsame
    obtain ⟨hlength, hbetween⟩ := (subscript_ok hend).mp hpart
    have hlt := len.toNat_lt
    rw [← hlength] at hlen hlt
    exact ⟨hlt, k, hlen, hbetween⟩
  · rintro ⟨hlt, k, hlen, hbetween⟩
    obtain ⟨_, hend, hc'⟩ := hbetween.le
    have hvalue : (UInt32.ofNat b.length).toNat = b.length := UInt32.toNat_ofNat_of_lt' hlt
    subst hc'
    refine ⟨.ofNat b.length, k, by rw [hvalue]; exact hlen, ?_⟩
    rw [hvalue]
    exact ⟨hend, b, (subscript_ok hend).mpr ⟨rfl, hbetween⟩, rfl⟩

/-! ### No read is out of range -/

theorem subscript_safe {n : Nat} (hstart : d.startIndex ≤ c) (hend : c + n ≤ d.endIndex) :
    Safe (d.subscript c (c + n) : Access Failure Data) := by
  unfold DataSlice.endIndex at hend
  rw [DataSlice.subscript, if_pos hstart]
  exact Safe.slice (by omega) (by omega)

theorem getU32_safe (hstart : d.startIndex ≤ c) : Safe (getU32 d c) :=
  Safe.ensure.bind fun _ hend => (subscript_safe hstart (ensure_ok.mp hend)).bind fun _ _ => .ok _

theorem start_le_of_getU32 {read : UInt32 × Nat} (h : getU32 d c = .ok read) :
    d.startIndex ≤ read.2 := by
  obtain ⟨hstart, _, hc'⟩ := (getU32_ok.mp h).le
  omega

theorem start_le_of_getBlob {read : Data × Nat} (h : getBlob d c = .ok read) :
    d.startIndex ≤ read.2 := by
  obtain ⟨hstart, _, hc'⟩ := (getBlob_ok.mp h).2.le
  omega

theorem getBlob_safe (hstart : d.startIndex ≤ c) : Safe (getBlob d c) := by
  refine (getU32_safe hstart).bind fun read hread => Safe.ensure.bind fun _ hend => ?_
  exact (subscript_safe (start_le_of_getU32 hread) (ensure_ok.mp hend)).bind fun _ _ => .ok _

end Cursor

/-! ### What is written -/

/-- The bytes of a bundle. -/
def wire (m : BundleMaterial L) : Data :=
  bigEndianBytes 4 m.registrationId.toNat ++ (bigEndianBytes 4 m.deviceId.toNat ++
    (bigEndianBytes 4 m.preKeyId.toNat ++ (blobBytes (L.publicKeys.serialize m.preKeyPublic) ++
    (bigEndianBytes 4 m.signedPreKeyId.toNat ++
      (blobBytes (L.publicKeys.serialize m.signedPreKeyPublic) ++
    (blobBytes m.signedPreKeySignature ++ (blobBytes (L.identityKeys.serialize m.identityKey) ++
    (bigEndianBytes 4 m.kyberPreKeyId.toNat ++ (blobBytes (L.serializeKEM m.kyberPreKeyPublic) ++
    blobBytes m.kyberPreKeySignature)))))))))

/-- The keys and signatures are within their length fields. -/
structure Limited (m : BundleMaterial L) : Prop where
  preKey : (L.publicKeys.serialize m.preKeyPublic).length < 2 ^ 32
  signedPreKey : (L.publicKeys.serialize m.signedPreKeyPublic).length < 2 ^ 32
  signedSignature : m.signedPreKeySignature.length < 2 ^ 32
  identityKey : (L.identityKeys.serialize m.identityKey).length < 2 ^ 32
  kyberPreKey : (L.serializeKEM m.kyberPreKeyPublic).length < 2 ^ 32
  kyberSignature : m.kyberPreKeySignature.length < 2 ^ 32

/-- Parsing and serializing keys are inverse to each other. -/
structure Inverse (L : LibSignal) (parseKEM : Data → Option L.KEMPublicKey) : Prop where
  publicKeys {b : Data} {k : L.PublicKey} : L.publicKeys.parse b = some k ↔
    L.publicKeys.serialize k = b
  identityKeys {b : Data} {k : L.IdentityKey} : L.identityKeys.parse b = some k ↔
    L.identityKeys.serialize k = b
  kem {b : Data} {k : L.KEMPublicKey} : parseKEM b = some k ↔ L.serializeKEM k = b

theorem putBlob_ok {d b : Data} (h : b.length < 2 ^ 32) : putBlob d b = .ok (d ++ blobBytes b) := by
  have hvalue : (UInt32.ofNat b.length).toNat = b.length := UInt32.toNat_ofNat_of_lt' h
  rw [putBlob, if_pos h, putU32, hvalue, blobBytes, List.append_assoc]

theorem encode_ok {m : BundleMaterial L} (h : Limited m) : encode m = .ok (wire m) := by
  rw [encode]
  simp only [bind_ok]
  refine ⟨_, putBlob_ok h.preKey, _, putBlob_ok h.signedPreKey, _, putBlob_ok h.signedSignature,
    _, putBlob_ok h.identityKey, _, putBlob_ok h.kyberPreKey, ?_⟩
  rw [putBlob_ok h.kyberSignature]
  simp only [putU32, wire, List.append_assoc, List.nil_append]

section Decoding

variable {parseKEM : Data → Option L.KEMPublicKey} {d : DataSlice} {m : BundleMaterial L}

/-- A bundle is read exactly where its bytes are the first ones, whatever is behind them. -/
theorem decode_ok_iff (hinverse : Inverse L parseKEM) :
    decode parseKEM d = .ok m ↔ Limited m ∧ ∃ rest, d.bytes = wire m ++ rest := by
  rw [← between_whole, decode]
  simp only [bind_ok, Prod.exists, unwrapped_ok, getU32_ok, getBlob_ok, hinverse.publicKeys,
    hinverse.identityKeys, hinverse.kem]
  constructor
  · rintro ⟨registrationId, c₁, h₁, deviceId, c₂, h₂, preKeyId, c₃, h₃, _, c₄, ⟨hl₄, h₄⟩,
      preKey, rfl,
      signedId, c₅, h₅, _, c₆, ⟨hl₆, h₆⟩, signedKey, rfl, signature, c₇, ⟨hl₇, h₇⟩, _, c₈,
        ⟨hl₈, h₈⟩, identity,
      rfl, kyberId, c₉, h₉, _, c₁₀, ⟨hl₁₀, h₁₀⟩, kyberKey, rfl, kyberSignature, c₁₁,
        ⟨hl₁₁, h₁₁⟩, hsame⟩
    cases hsame
    refine ⟨⟨hl₄, hl₆, hl₇, hl₈, hl₁₀, hl₁₁⟩, c₁₁, ?_⟩
    simp only [wire, between_append]
    exact ⟨c₁, h₁, c₂, h₂, c₃, h₃, c₄, h₄, c₅, h₅, c₆, h₆, c₇, h₇, c₈, h₈, c₉, h₉, c₁₀, h₁₀, h₁₁⟩
  · rintro ⟨hlimited, c₁₁, hwire⟩
    simp only [wire, between_append] at hwire
    obtain ⟨c₁, h₁, c₂, h₂, c₃, h₃, c₄, h₄, c₅, h₅, c₆, h₆, c₇, h₇, c₈, h₈, c₉, h₉, c₁₀, h₁₀,
      h₁₁⟩ := hwire
    exact ⟨_, c₁, h₁, _, c₂, h₂, _, c₃, h₃, _, c₄, ⟨hlimited.preKey, h₄⟩, _, rfl, _, c₅, h₅, _, c₆,
      ⟨hlimited.signedPreKey, h₆⟩, _, rfl, _, c₇, ⟨hlimited.signedSignature, h₇⟩, _, c₈,
      ⟨hlimited.identityKey, h₈⟩, _, rfl, _, c₉, h₉, _, c₁₀, ⟨hlimited.kyberPreKey, h₁₀⟩, _,
      rfl, _, c₁₁,
      ⟨hlimited.kyberSignature, h₁₁⟩, rfl⟩

theorem decode_safe (parseKEM : Data → Option L.KEMPublicKey) (d : DataSlice) :
    Safe (decode parseKEM d) := by
  refine (getU32_safe (Nat.le_refl _)).bind fun r₁ h₁ => (getU32_safe (start_le_of_getU32 h₁)).bind
    fun r₂ h₂ =>
    (getU32_safe (start_le_of_getU32 h₂)).bind fun r₃ h₃ =>
    (getBlob_safe (start_le_of_getU32 h₃)).bind fun r₄ h₄ =>
    (Safe.unwrapped _).bind fun _ _ => (getU32_safe (start_le_of_getBlob h₄)).bind fun r₅ h₅ =>
    (getBlob_safe (start_le_of_getU32 h₅)).bind fun r₆ h₆ => (Safe.unwrapped _).bind fun _ _ =>
    (getBlob_safe (start_le_of_getBlob h₆)).bind fun r₇ h₇ =>
    (getBlob_safe (start_le_of_getBlob h₇)).bind fun r₈ h₈ =>
    (Safe.unwrapped _).bind fun _ _ => (getU32_safe (start_le_of_getBlob h₈)).bind fun r₉ h₉ =>
    (getBlob_safe (start_le_of_getU32 h₉)).bind fun r₁₀ h₁₀ => (Safe.unwrapped _).bind fun _ _ =>
    (getBlob_safe (start_le_of_getBlob h₁₀)).bind fun _ _ => .ok _

/-- No bundle begins another. -/
theorem eq_of_wire {m m' : BundleMaterial L} (hinverse : Inverse L parseKEM) (h : Limited m)
    (h' : Limited m')
    {rest rest' : Data} (hsame : wire m ++ rest = wire m' ++ rest') : m = m' ∧ rest = rest' := by
  have hread : decode parseKEM ⟨0, wire m ++ rest⟩ = .ok m :=
    (decode_ok_iff hinverse).mpr ⟨h, rest, rfl⟩
  have hread' : decode parseKEM ⟨0, wire m ++ rest⟩ = .ok m' :=
    (decode_ok_iff hinverse).mpr ⟨h', rest', hsame⟩
  obtain rfl := Except.ok.inj (hread.symm.trans hread')
  exact ⟨rfl, List.append_cancel_left hsame⟩

/-- The encoding of a bundle with further bytes behind it. -/
def Followed (L : LibSignal) (bytes : Data) : Prop :=
  ∃ (m : BundleMaterial L) (rest : Data), Limited m ∧ rest ≠ [] ∧ bytes = wire m ++ rest

/-- What the bytes are accepted for is encoded as them. -/
def Exact (parseKEM : Data → Option L.KEMPublicKey) (d : DataSlice) : Prop :=
  ∀ m, decode parseKEM d = .ok m → encode m = .ok d.bytes

theorem exact_iff (hinverse : Inverse L parseKEM) : Exact parseKEM d ↔ ¬Followed L d.bytes := by
  constructor
  · rintro hexact ⟨m, rest, hlimited, hrest, hbytes⟩
    have hencoded := hexact m ((decode_ok_iff hinverse).mpr ⟨hlimited, rest, hbytes⟩)
    rw [encode_ok hlimited, hbytes] at hencoded
    have hlength := congrArg List.length (Except.ok.inj hencoded)
    rw [List.length_append] at hlength
    exact hrest (List.length_eq_zero_iff.mp (by omega))
  · intro hfollowed m hread
    obtain ⟨hlimited, rest, hbytes⟩ := (decode_ok_iff hinverse).mp hread
    have hrest : rest = [] := by
      by_contra hne
      exact hfollowed ⟨m, rest, hlimited, hne, hbytes⟩
    rw [encode_ok hlimited, hbytes, hrest, List.append_nil]

/-- A bundle within its length fields comes back from its bytes, wherever they begin; no bytes are
read out of range; less than all the bytes of a bundle is not accepted; and what is accepted is an
encoding exactly where nothing is behind one. -/
theorem bundle_wire (hinverse : Inverse L parseKEM) :
    (∀ m : BundleMaterial L, Limited m → ∃ bytes, encode m = .ok bytes ∧
      (∀ start, decode parseKEM ⟨start, bytes⟩ = .ok m) ∧
      ∀ front rest, rest ≠ [] → bytes = front ++ rest →
        ∀ start, ∃ failure, decode parseKEM ⟨start, front⟩ = .error (.threw failure)) ∧
    (∀ d, decode parseKEM d ≠ .error .trapped) ∧
    ∀ d, Exact parseKEM d ↔ ¬Followed L d.bytes := by
  refine ⟨fun m hlimited => ⟨wire m, encode_ok hlimited, ?_, ?_⟩, decode_safe parseKEM,
    fun d => exact_iff hinverse⟩
  · intro start
    exact (decode_ok_iff hinverse).mpr ⟨hlimited, [], (List.append_nil _).symm⟩
  · intro front rest hrest hwire start
    cases hread : decode parseKEM ⟨start, front⟩ with
    | ok m' =>
      obtain ⟨hlimited', rest', hfront⟩ := (decode_ok_iff hinverse).mp hread
      have hfront : front = wire m' ++ rest' := hfront
      rw [hfront, List.append_assoc] at hwire
      have hwhole : wire m ++ [] = wire m' ++ (rest' ++ rest) := by rw [List.append_nil, hwire]
      obtain ⟨_, hnil⟩ := eq_of_wire hinverse hlimited hlimited' hwhole
      exact absurd (List.append_eq_nil_iff.mp hnil.symm).2 hrest
    | error halt =>
      cases halt with
      | threw failure => exact ⟨failure, rfl⟩
      | trapped => exact absurd hread (decode_safe parseKEM _)

end Decoding

/-! ### A bundle -/

/-- Keys of the lengths and with the first bytes that libsignal gives them. -/
def sample : BundleMaterial PersistentBeaconStore.bytewise where
  registrationId := 4711
  deviceId := 1
  preKeyId := 7
  preKeyPublic := (5 :: List.replicate 32 9 : Data)
  signedPreKeyId := 1
  signedPreKeyPublic := (5 :: List.replicate 32 11 : Data)
  signedPreKeySignature := List.replicate 64 3
  identityKey := (5 :: List.replicate 32 13 : Data)
  kyberPreKeyId := 1
  kyberPreKeyPublic := (8 :: List.replicate 1568 2 : Data)
  kyberPreKeySignature := List.replicate 64 4

theorem inverse_bytewise : Inverse PersistentBeaconStore.bytewise some :=
  ⟨Option.some_inj.trans eq_comm, Option.some_inj.trans eq_comm, Option.some_inj.trans eq_comm⟩

theorem length_key (first : UInt8) (n : Nat) (b : UInt8) (h : n + 1 < 2 ^ 32) :
    (first :: List.replicate n b).length < 2 ^ 32 := by
  rw [List.length_cons, List.length_replicate]
  exact h

theorem limited_sample : Limited sample where
  preKey := length_key 5 32 9 (by decide)
  signedPreKey := length_key 5 32 11 (by decide)
  signedSignature := by
    show (List.replicate 64 _).length < _
    rw [List.length_replicate]
    decide
  identityKey := length_key 5 32 13 (by decide)
  kyberPreKey := length_key 8 1568 2 (by decide)
  kyberSignature := by
    show (List.replicate 64 _).length < _
    rw [List.length_replicate]
    decide

theorem bundle_wire_sample : ∃ bytes, encode sample = .ok bytes ∧
    ∀ start, decode some ⟨start, bytes⟩ = .ok sample := by
  obtain ⟨bytes, hencoded, hdecoded, _⟩ := (bundle_wire inverse_bytewise).1 sample limited_sample
  exact ⟨bytes, hencoded, hdecoded⟩

/-- With a byte behind it, the bundle is accepted just the same. -/
theorem trailing_byte_accepted : encode sample = .ok (wire sample) ∧
    decode some ⟨0, wire sample ++ [0]⟩ = .ok sample ∧ encode sample ≠ .ok
      (wire sample ++ [0]) := by
  have hencoded := encode_ok limited_sample
  refine ⟨hencoded, (decode_ok_iff inverse_bytewise).mpr ⟨limited_sample, [0], rfl⟩, ?_⟩
  rw [hencoded]
  intro hsame
  have hlength := congrArg List.length (Except.ok.inj hsame)
  rw [List.length_append, List.length_singleton] at hlength
  omega

end AeroNyra.BundleWire
