import AeroNyra.Coordinator.Beacons
import AeroNyra.Enrollment.Invite
import AeroNyra.Lib.Pieces
import AeroNyra.Lib.SHA256
import AeroNyra.Media.Payload
import Mathlib.Data.Finset.Dedup

/-! Two contacts on one link: what the recogniser of each finds in the emission set of the other,
and in the set of its own device. -/

namespace AeroNyra

/-! ### Tokens -/

namespace ReconnectBeacon

def domainTag : Data := "AeroNyra/reconnect-beacon/v1".toUTF8.data.toList

def tokenLength : Nat := 16

/-- The truncated HMAC over tag, epoch and label. -/
def token (hmac : Data → Data → Data) (secret : Data) (epoch : Nat) (label : Data) : Data :=
  (hmac secret (domainTag ++ bigEndianBytes 8 epoch ++ label)).take tokenLength

theorem mem_emissionSet_iff {real set : List Data} {rng : Rng} (h : emissionSet real rng = some set)
    {t : Data} : t ∈ set ↔ t ∈ real ∨ ∃ i < emissionSetSize - real.length, rng.decoy i = t := by
  obtain ⟨_, h⟩ := Option.ite_none_right_eq_some.mp h
  rw [← Option.some.inj h, (rng.perm _).mem_iff, List.mem_append, List.mem_map]
  simp only [List.mem_range]

end ReconnectBeacon

/-! ### The recogniser -/

namespace BeaconRecognizer

/-- The epochs around one, within `UInt64`. -/
def epochWindow (epoch skew : Nat) : List Nat :=
  let lo := if skew ≤ epoch then epoch - skew else 0
  let hi := if 2 ^ 64 - 1 - skew < epoch then 2 ^ 64 - 1 else epoch + skew
  List.range' lo (hi + 1 - lo)

theorem mem_epochWindow {epoch skew e : Nat} (he : e < 2 ^ 64) (hlow : epoch ≤ e + skew)
    (hhigh : e ≤ epoch + skew) : e ∈ epochWindow epoch skew := by
  unfold epochWindow
  rw [List.mem_range'_1]
  split <;> split <;> omega

variable (token : Data → Nat → Data → Data)

/-- The predicted tokens with their identities, epoch by epoch. -/
def expected (contacts : List Contact) (epoch skew : Nat) : List (Data × Data) :=
  (epochWindow epoch skew).flatMap fun e =>
    contacts.map fun c => (token c.secret e c.identity, c.identity)

/-- None where the label's precondition traps. -/
def expectedTable (contacts : List Contact) (epoch skew : Nat) : Option (Dict Data Data) :=
  if ∀ c ∈ contacts, c.identity.length = ReconnectBeacon.labelLength then
    some (Dict.insertAll ∅ (expected token contacts epoch skew))
  else none

/-- The identities whose predicted tokens are in the set. -/
def recognize (emissionSet : List Data) (contacts : List Contact) (epoch skew : Nat) :
    Option (Finset Data) :=
  if contacts.isEmpty then some ∅
  else (expectedTable token contacts epoch skew).map fun table =>
    (emissionSet.filterMap table.lookup).toFinset

/-- Where no two predictions collide, the recogniser finds whose predicted tokens are in the set. -/
theorem recognize_spec {token : Data → Nat → Data → Data} (emissionSet : List Data)
    {contacts : List Contact} {epoch skew : Nat}
    (hlabels : ∀ c ∈ contacts, c.identity.length = ReconnectBeacon.labelLength)
    (hone : ∀ t k k', (t, k) ∈ expected token contacts epoch skew →
      (t, k') ∈ expected token contacts epoch skew → k' = k) :
    ∃ present, recognize token emissionSet contacts epoch skew = some present ∧
      ∀ k, k ∈ present ↔ ∃ t ∈ emissionSet, (t, k) ∈ expected token contacts epoch skew := by
  unfold recognize
  cases hcontacts : contacts with
  | nil =>
    refine ⟨∅, rfl, fun k => ?_⟩
    simp [expected]
  | cons c rest =>
    rw [← hcontacts, if_neg (by simp [hcontacts]), expectedTable, if_pos hlabels]
    refine ⟨_, rfl, fun k => ?_⟩
    rw [List.mem_toFinset, List.mem_filterMap]
    refine exists_congr fun t => and_congr_right fun _ => ?_
    constructor
    · intro h
      exact (Dict.mem_of_lookup_insertAll h).resolve_right (by simp)
    · intro h
      exact Dict.lookup_insertAll (fun k' hk' => hone t k k' h hk') (.inl h)

end BeaconRecognizer

/-! ### The payload -/

namespace FirstContactCoordinator

def encodeEmissionSet (set : List Data) : Data := set.flatten

/-- None unless the payload is made of whole tokens. -/
def decodeEmissionSet (data : Data) : Option (List Data) :=
  if data.length % ReconnectBeacon.tokenLength = 0 then some
    (Pieces.cut ReconnectBeacon.tokenLength data)
  else none

theorem length_encodeEmissionSet {set : List Data}
    (h : ∀ t ∈ set, t.length = ReconnectBeacon.tokenLength) :
    (encodeEmissionSet set).length = set.length * ReconnectBeacon.tokenLength := by
  induction set with
  | nil => rfl
  | cons t set ih =>
    have hrest := ih fun u hu => h u (List.mem_cons_of_mem _ hu)
    rw [encodeEmissionSet] at hrest ⊢
    rw [List.flatten_cons, List.length_append, hrest, h t List.mem_cons_self, List.length_cons,
      Nat.succ_mul, Nat.add_comm]

theorem decode_encodeEmissionSet {set : List Data}
    (h : ∀ t ∈ set, t.length = ReconnectBeacon.tokenLength) :
    decodeEmissionSet (encodeEmissionSet set) = some set := by
  unfold decodeEmissionSet
  rw [if_pos (by rw [length_encodeEmissionSet h]; exact Nat.mul_mod_left _ _)]
  exact congrArg some (Pieces.cut_flatten (by decide) h)

end FirstContactCoordinator

/-! ### Two devices -/

/-- The key agreement, the derivation behind it, and the keyed hash.  A private key gives a public
key; the agreement of a private and a public key throws on bytes that are no key. -/
structure BeaconCrypto where
  publicKey : Data → Data
  agree : Data → Data → Option Data
  hkdf : Data → Data
  hmac : Data → Data → Data

namespace BeaconCrypto

variable (c : BeaconCrypto)

/-- `DiscoverySecret.derive`. -/
def derive (agreementPrivate theirs : Data) : Option Data :=
    (c.agree agreementPrivate theirs).map c.hkdf

/-- What X25519 and HMAC-SHA256 promise. -/
structure Lawful : Prop where
  symmetric : ∀ a b, c.agree a (c.publicKey b) = c.agree b (c.publicKey a)
  keyLength : ∀ a, (c.publicKey a).length = 32
  macLength : ∀ key message, (c.hmac key message).length = 32

def token : Data → Nat → Data → Data := ReconnectBeacon.token c.hmac

variable {c}

theorem Lawful.length_token (h : c.Lawful) (secret : Data) (epoch : Nat) (label : Data) :
    (c.token secret epoch label).length = ReconnectBeacon.tokenLength := by
  rw [token, ReconnectBeacon.token, List.length_take, h.macLength]
  rfl

end BeaconCrypto

/-- A device with its contact list, its epoch, and the randomness of its emission set: the bytes of
each decoy and the shuffle. -/
structure BeaconDevice where
  agreementPrivate : Data
  contacts : List Data
  epoch : Nat
  byte : Nat → Nat → UInt8
  shuffle : List Data → List Data
  perm : ∀ set, (shuffle set).Perm set

namespace BeaconDevice

open ReconnectEpochBuilder FirstContactCoordinator
open BeaconRecognizer (Contact)

def rng (d : BeaconDevice) : Rng :=
  ⟨fun i => (List.range ReconnectBeacon.tokenLength).map (d.byte i), d.shuffle, d.perm⟩

variable (c : BeaconCrypto) (d : BeaconDevice)

def identity : Data := c.publicKey d.agreementPrivate

def plan : Except Failure Plan :=
  ReconnectEpochBuilder.plan (c.derive d.agreementPrivate) c.token
    (d.identity c) d.contacts d.epoch d.rng

/-- The beacon-set payload that the device sends. -/
def payload : Option Data := (d.plan c).toOption.map fun p => encodeEmissionSet p.emissionSet

/-- Whom the device finds in a payload. -/
def recognizes (payload : Data) (skew : Nat) : Option (Finset Data) :=
  (d.plan c).toOption.bind fun p =>
    (decodeEmissionSet payload).bind fun set =>
      BeaconRecognizer.recognize c.token set p.recognizerContacts d.epoch skew

/-- A list within the emission cap whose keys are all valid, and an epoch in range. -/
structure Valid : Prop where
  capped : d.contacts.length ≤ ReconnectBeacon.emissionSetSize
  keys : ∀ k ∈ d.contacts, k.length = 32 ∧ (c.agree d.agreementPrivate k).isSome
  epoch : d.epoch < 2 ^ 64

/-- What the device's tokens are made of: the secret, the epoch and the label. -/
def emitted : List (Data × Nat × Data) :=
  d.contacts.filterMap fun k => (c.derive d.agreementPrivate k).map fun secret =>
    (secret, d.epoch, d.identity c)

/-- What the tokens that the device predicts are made of. -/
def predicted (skew : Nat) : List (Data × Nat × Data) :=
  (BeaconRecognizer.epochWindow d.epoch skew).flatMap fun e =>
    d.contacts.filterMap fun k => (c.derive d.agreementPrivate k).map fun secret => (secret, e, k)

/-- The tokens that one device predicts collide neither with each other nor with the tokens and the
decoys of the other. -/
structure CollisionFree (sender : BeaconDevice) (skew : Nat) : Prop where
  tokens : ∀ x ∈ sender.emitted c ++ d.predicted c skew, ∀ y ∈ d.predicted c skew,
    c.token x.1 x.2.1 x.2.2 = c.token y.1 y.2.1 y.2.2 → x = y
  decoys : ∀ i < ReconnectBeacon.emissionSetSize - sender.contacts.length, ∀ y ∈ d.predicted c skew,
    sender.rng.decoy i ≠ c.token y.1 y.2.1 y.2.2

variable {c d} {sender : BeaconDevice} {skew : Nat}

/-- What the builder makes of a valid list: each contact with its secret, and the set of the
tokens. -/
structure Planned (c : BeaconCrypto) (d : BeaconDevice) (cs : List Contact)
    (set : List Data) : Prop where
  plan : d.plan c = .ok ⟨set, cs⟩
  identities : cs.map (·.identity) = d.contacts
  secrets : ∀ x ∈ cs, c.derive d.agreementPrivate x.identity = some x.secret
  emission : ReconnectBeacon.emissionSet (cs.map fun x => c.token x.secret d.epoch (d.identity c))
    d.rng = some set

theorem Valid.planned (hlawful : c.Lawful) (h : d.Valid c) : ∃ cs set, d.Planned c cs set := by
  have hid : (d.identity c).length = ReconnectBeacon.labelLength := hlawful.keyLength _
  have hderivable : Derivable (c.derive d.agreementPrivate) d.contacts := by
    intro k hk
    rw [BeaconCrypto.derive, Option.isSome_map]
    exact (h.keys k hk).2
  cases hcs : d.contacts.mapM (contact (c.derive d.agreementPrivate)) with
  | none => exact absurd hderivable (mapM_contact_eq_none.mp hcs)
  | some cs =>
    obtain ⟨hids, hsecrets⟩ := mapM_contact hcs
    have hlength : (cs.map fun x => c.token x.secret d.epoch (d.identity c)).length ≤
        ReconnectBeacon.emissionSetSize := by
      rw [List.length_map, ← List.length_map (f := fun x : Contact => x.identity), hids]
      exact h.capped
    obtain ⟨set, hset⟩ := ReconnectBeacon.emissionSet_isSome d.rng hlength
    refine ⟨cs, set, ⟨?_, hids, hsecrets, hset⟩⟩
    rw [BeaconDevice.plan, ReconnectEpochBuilder.plan, if_pos hid, hcs]
    dsimp only
    rw [hset]

namespace Planned

variable {cs : List Contact} {set : List Data} (h : d.Planned c cs set)

include h

theorem exists_contact {k secret : Data} (hk : k ∈ d.contacts)
    (hsecret : c.derive d.agreementPrivate k = some secret) : ⟨k, secret⟩ ∈ cs := by
  rw [← h.identities] at hk
  obtain ⟨x, hx, rfl⟩ := List.mem_map.mp hk
  obtain rfl := Option.some.inj ((h.secrets x hx).symm.trans hsecret)
  exact hx

theorem identity_mem {x : Contact} (hx : x ∈ cs) : x.identity ∈ d.contacts := by
  rw [← h.identities]
  exact List.mem_map_of_mem hx

theorem mem_emitted {x : Contact} (hx : x ∈ cs) :
    (x.secret, d.epoch, d.identity c) ∈ d.emitted c := by
  refine List.mem_filterMap.mpr ⟨x.identity, h.identity_mem hx, ?_⟩
  rw [h.secrets x hx]
  rfl

theorem mem_predicted {x : Contact} {e skew : Nat} (hx : x ∈ cs)
    (he : e ∈ BeaconRecognizer.epochWindow d.epoch skew) :
    (x.secret, e, x.identity) ∈ d.predicted c skew := by
  refine List.mem_flatMap.mpr ⟨e, he, List.mem_filterMap.mpr ⟨x.identity, h.identity_mem hx, ?_⟩⟩
  rw [h.secrets x hx]
  rfl

theorem length_eq : cs.length = d.contacts.length := by
  rw [← h.identities, List.length_map]

theorem mem_set_iff {t : Data} : t ∈ set ↔ (∃ x ∈ cs, c.token x.secret d.epoch (d.identity c) = t) ∨
    ∃ i < ReconnectBeacon.emissionSetSize - d.contacts.length, d.rng.decoy i = t := by
  rw [ReconnectBeacon.mem_emissionSet_iff h.emission, List.mem_map, List.length_map, h.length_eq]

theorem length_of_mem (hlawful : c.Lawful) {t : Data} (ht : t ∈ set) :
    t.length = ReconnectBeacon.tokenLength := by
  rcases h.mem_set_iff.mp ht with ⟨x, _, rfl⟩ | ⟨i, _, rfl⟩
  · exact hlawful.length_token _ _ _
  · rw [rng, List.length_map, List.length_range]

theorem payload_eq : d.payload c = some (encodeEmissionSet set) := by
  rw [payload, h.plan]
  rfl

end Planned

/-- Whom a device finds in the payload of a sender: the sender, if a secret with it was among the
sender's and its epoch is near. -/
theorem recognizes_spec (hlawful : c.Lawful) (hd : d.Valid c) (hs : sender.Valid c)
    (hfree : d.CollisionFree c sender skew) :
    ∃ payload present, sender.payload c = some payload ∧ d.recognizes c payload skew =
    some present ∧
      ∀ k, k ∈ present ↔ k = sender.identity c ∧ k ∈ d.contacts ∧
        sender.epoch ∈ BeaconRecognizer.epochWindow d.epoch skew ∧
        ∃ j ∈ sender.contacts, ∃ secret, c.derive sender.agreementPrivate j = some secret ∧
          c.derive d.agreementPrivate k = some secret := by
  obtain ⟨cs, set, hplanned⟩ := hd.planned hlawful
  obtain ⟨sent, sentSet, hsent⟩ := hs.planned hlawful
  have hdecode : decodeEmissionSet (encodeEmissionSet sentSet) = some sentSet :=
    decode_encodeEmissionSet fun t ht => hsent.length_of_mem hlawful ht
  have hexpected (t k : Data) : (t, k) ∈ BeaconRecognizer.expected c.token cs d.epoch skew ↔
      ∃ e ∈ BeaconRecognizer.epochWindow d.epoch skew, ∃ x ∈ cs,
        c.token x.secret e x.identity = t ∧ x.identity = k := by
    simp only [BeaconRecognizer.expected, List.mem_flatMap, List.mem_map, Prod.mk.injEq]
  have hone : ∀ t k k', (t, k) ∈ BeaconRecognizer.expected c.token cs d.epoch skew →
      (t, k') ∈ BeaconRecognizer.expected c.token cs d.epoch skew → k' = k := by
    intro t k k' hk hk'
    obtain ⟨e, he, x, hx, htoken, rfl⟩ := (hexpected t k).mp hk
    obtain ⟨e', he', x', hx', htoken', rfl⟩ := (hexpected t k').mp hk'
    have heq := hfree.tokens _ (List.mem_append_right _ (hplanned.mem_predicted hx' he')) _
      (hplanned.mem_predicted hx he) (htoken'.trans htoken.symm)
    exact (Prod.mk.inj (Prod.mk.inj heq).2).2
  have hlabels : ∀ x ∈ cs, x.identity.length = ReconnectBeacon.labelLength := fun x hx =>
    (hd.keys _ (hplanned.identity_mem hx)).1
  obtain ⟨present, hrecognize, hmem⟩ := BeaconRecognizer.recognize_spec sentSet hlabels hone
  refine ⟨_, present, hsent.payload_eq, ?_, fun k => ?_⟩
  · rw [recognizes, hplanned.plan]
    show (decodeEmissionSet (encodeEmissionSet sentSet)).bind _ = _
    rw [hdecode]
    exact hrecognize
  · rw [hmem]
    constructor
    · rintro ⟨t, ht, hk⟩
      obtain ⟨e, he, x, hx, htoken, rfl⟩ := (hexpected t k).mp hk
      have hpredicted := hplanned.mem_predicted hx he
      rcases hsent.mem_set_iff.mp ht with ⟨y, hy, hytoken⟩ | ⟨i, hi, hdecoy⟩
      · have heq := hfree.tokens _ (List.mem_append_left _ (hsent.mem_emitted hy)) _ hpredicted
          (hytoken.trans htoken.symm)
        obtain ⟨hsecret, hrest⟩ := Prod.mk.inj heq
        obtain ⟨hepoch, hidentity⟩ := Prod.mk.inj hrest
        refine ⟨hidentity.symm, hplanned.identity_mem hx, hepoch ▸ he, y.identity,
          hsent.identity_mem hy, y.secret, hsent.secrets y hy, ?_⟩
        rw [hplanned.secrets x hx]
        exact congrArg some hsecret.symm
      · exact absurd (hdecoy.trans htoken.symm) (hfree.decoys i hi _ hpredicted)
    · rintro ⟨rfl, hk, hepoch, j, hj, secret, hsecret, hsame⟩
      refine ⟨c.token secret sender.epoch (sender.identity c), ?_, ?_⟩
      · exact hsent.mem_set_iff.mpr (.inl ⟨⟨j, secret⟩, hsent.exists_contact hj hsecret, rfl⟩)
      · have hcontact := hplanned.exists_contact hk hsame
        exact (hexpected _ _).mpr ⟨sender.epoch, hepoch, ⟨_, secret⟩, hcontact, rfl, rfl⟩

/-- A device finds a contact that has it in its list, and nobody else, in the contact's payload. -/
theorem recognizes_contact (hlawful : c.Lawful) (hd : d.Valid c) (hs : sender.Valid c)
    (hmine : sender.identity c ∈ d.contacts) (htheirs : d.identity c ∈ sender.contacts)
    (hlow : d.epoch ≤ sender.epoch + skew) (hhigh : sender.epoch ≤ d.epoch + skew)
    (hfree : d.CollisionFree c sender skew) :
    ∃ payload, sender.payload c = some payload ∧
      d.recognizes c payload skew = some {sender.identity c} := by
  obtain ⟨payload, present, hpayload, hrecognizes, hmem⟩ := recognizes_spec hlawful hd hs hfree
  refine ⟨payload, hpayload, ?_⟩
  rw [hrecognizes]
  congr 1
  ext k
  rw [hmem, Finset.mem_singleton]
  constructor
  · rintro ⟨hk, _⟩
    exact hk
  · rintro rfl
    have hwindow := BeaconRecognizer.mem_epochWindow hs.epoch hlow hhigh
    obtain ⟨shared, hshared⟩ := Option.isSome_iff_exists.mp (hs.keys _ htheirs).2
    -- both sides hash the same point
    have hsecret : c.derive sender.agreementPrivate (d.identity c) = some (c.hkdf shared) := by
      rw [BeaconCrypto.derive, hshared]
      rfl
    have hsame : c.derive d.agreementPrivate (sender.identity c) = some (c.hkdf shared) := by
      have hsymmetric := hlawful.symmetric d.agreementPrivate sender.agreementPrivate
      rw [BeaconCrypto.derive, identity, hsymmetric]
      exact hsecret
    exact ⟨rfl, hmine, hwindow, _, htheirs, _, hsecret, hsame⟩

/-- Two devices in each other's lists recognise each other and nobody else; and a device finds at
most itself in a set of its own, and nobody when it is not in its own list. -/
theorem contacts_recognize (hlawful : c.Lawful) :
    (∀ (d e : BeaconDevice) (skew : Nat), d.Valid c → e.Valid c → e.identity c ∈ d.contacts →
      d.identity c ∈ e.contacts → d.epoch ≤ e.epoch + skew → e.epoch ≤ d.epoch + skew →
      d.CollisionFree c e skew → e.CollisionFree c d skew →
      (∃ payload, e.payload c = some payload ∧ d.recognizes c payload skew = some {e.identity c}) ∧
        ∃ payload, d.payload c = some payload ∧ e.recognizes c payload skew = some {d.identity c}) ∧
    ∀ (d own : BeaconDevice) (skew : Nat), d.Valid c → own.Valid c →
      own.agreementPrivate = d.agreementPrivate → d.CollisionFree c own skew →
      ∃ payload present, own.payload c = some payload ∧ d.recognizes c payload skew = some present ∧
        (∀ k ∈ present, k = d.identity c) ∧ (d.identity c ∉ d.contacts → present = ∅) := by
  constructor
  · intro d e skew hd he hmine htheirs hlow hhigh hfree hfree'
    exact ⟨recognizes_contact hlawful hd he hmine htheirs hlow hhigh hfree,
      recognizes_contact hlawful he hd htheirs hmine hhigh hlow hfree'⟩
  · intro d own skew hd hown hkey hfree
    obtain ⟨payload, present, hpayload, hrecognizes, hmem⟩ := recognizes_spec hlawful hd hown hfree
    have hself : own.identity c = d.identity c := congrArg c.publicKey hkey
    refine ⟨payload, present, hpayload, hrecognizes, ?_, ?_⟩
    · intro k hk
      exact ((hmem k).mp hk).1.trans hself
    · intro hnot
      refine Finset.eq_empty_of_forall_notMem fun k hk => ?_
      obtain ⟨rfl, hin, _⟩ := (hmem k).mp hk
      exact hnot (hself ▸ hin)

/-! ### Three keys of the agreement -/

/-- A private key whose bytes are all the same. -/
def privateOf (n : Nat) : Data := List.replicate 32 (.ofNat n)

/-- The public keys of the first three of these. -/
def publicOf : Nat → Data
  | 1 => SHA256.bytes 32 0xa4e09292b651c278b9772c569f5fa9bb13d906b46ab68c9df9dc2b4409f8a209
  | 2 => SHA256.bytes 32 0xce8d3ad1ccb633ec7b70c17814a5c76ecd029685050d344745ba05870e587d59
  | 3 => SHA256.bytes 32 0x5dfedd3b6bd47f6fa28ee15d969d5bb0ea53774d488bdaf9df1c6e0124b3ef22
  | _ => List.replicate 32 0

/-- What two of them agree on, by the product of their numbers. -/
def sharedOf : Nat → Option Data
  | 1 => some (SHA256.bytes 32 0xf311d440a5f15fac9cbdc78fbb90b63a6c6880148e79159dd258f036bf2f792c)
  | 2 => some (SHA256.bytes 32 0x2ed76ab549b1e73c031eb49c9448f0798aea81b698279a0c3dc3e49fbfc4b953)
  | 3 => some (SHA256.bytes 32 0xb0190541a2abb8bc163b6eef0fae7ba0179004b444326f73809563164d47c521)
  | 4 => some (SHA256.bytes 32 0xacb1f256815afb1d7c1bc0db3aa6727aab4215ca4cd116e1f88be1a8a4b5507a)
  | 6 => some (SHA256.bytes 32 0x7c425a51f6a7f2e60012b0a34dd6511017807708b502ee66a2a247f171fda96c)
  | 9 => some (SHA256.bytes 32 0x072a93413650c6f912dbcc425a957c0be31d27778175c3bf293293a37c888c6c)
  | _ => none

def numberOf (agreementPrivate : Data) : Option Nat :=
  [1, 2, 3].find? fun n => privateOf n = agreementPrivate

def logOf (agreementPublic : Data) : Option Nat :=
  [1, 2, 3].find? fun n => publicOf n = agreementPublic

/-- X25519 on the three keys, and the hashes of CryptoKit. -/
def x25519 : BeaconCrypto where
  publicKey a := publicOf ((numberOf a).getD 0)
  agree a k := do
    let m ← numberOf a
    let n ← logOf k
    sharedOf (m * n)
  hkdf shared := SHA256.hkdf shared [] (utf8 "AeroNyra/discovery-secret/v1")
  hmac := SHA256.hmac

theorem lawful_x25519 : x25519.Lawful := by
  have hlog : ∀ n ∈ [1, 2, 3], logOf (publicOf n) = some n := by decide +kernel
  have hnone : logOf (publicOf 0) = none := by decide +kernel
  have hmem {a : Data} {n : Nat} (h : numberOf a = some n) : n ∈ [1, 2, 3] :=
    List.mem_of_find?_eq_some h
  constructor
  · intro a b
    simp only [x25519, Option.bind_eq_bind]
    cases ha : numberOf a with
    | none => cases hb : numberOf b <;> simp [hnone]
    | some m =>
      cases hb : numberOf b with
      | none => simp [hnone]
      | some n => simp [hlog m (hmem ha), hlog n (hmem hb), Nat.mul_comm]
  · intro a
    simp only [x25519, publicOf]
    split <;> simp only [SHA256.length_bytes, List.length_replicate]
  · exact SHA256.length_hmac

/-- A device whose decoys are zeros and which does not shuffle. -/
def plain (n : Nat) (contacts : List Nat) (epoch : Nat) : BeaconDevice :=
  ⟨privateOf n, contacts.map publicOf, epoch, fun _ _ => 0, id, Beacons.shuffled_id⟩

/-- The secrets of the pairs, by the product of their numbers. -/
def secretOf : Nat → Data
  | 2 => SHA256.bytes 32 0x9c9d54c953342cc513e45d246e0c746870b64bf5ececa7106b9155ba72d8308b
  | _ => SHA256.bytes 32 0x56d0db903f20d671b50a55810118d341905761f22d1aeaabc815d365e1272e73

theorem derive_x25519 : x25519.derive (privateOf 1) (publicOf 2) = some (secretOf 2) ∧
    x25519.derive (privateOf 2) (publicOf 1) = some (secretOf 2) ∧
    x25519.derive (privateOf 2) (publicOf 3) = some (secretOf 6) := by
  decide +kernel

/-- What the tokens of two of the devices are made of around their epochs. -/
def known : List (Data × Nat × Data) :=
  [(secretOf 2, 6, publicOf 2), (secretOf 2, 7, publicOf 2), (secretOf 2, 8, publicOf 2),
    (secretOf 6, 8, publicOf 2), (secretOf 2, 7, publicOf 1), (secretOf 2, 8, publicOf 1),
    (secretOf 2, 9, publicOf 1), (secretOf 6, 7, publicOf 3), (secretOf 6, 8, publicOf 3),
    (secretOf 6, 9, publicOf 3)]

theorem nodup_known :
    (List.replicate 16 0 :: known.map fun x => x25519.token x.1 x.2.1 x.2.2).Nodup := by
  decide +kernel

theorem collisionFree_known {n m : Nat} {contacts contacts' : List Nat} {epoch epoch' skew : Nat}
    (hemitted : (plain m contacts' epoch').emitted x25519 ⊆ known)
    (hpredicted : (plain n contacts epoch).predicted x25519 skew ⊆ known) :
    (plain n contacts epoch).CollisionFree x25519 (plain m contacts' epoch') skew := by
  obtain ⟨hzeros, hnodup⟩ := List.nodup_cons.mp nodup_known
  constructor
  · intro x hx y hy htoken
    have hx := (List.mem_append.mp hx).elim (fun h => hemitted h) fun h => hpredicted h
    exact List.inj_on_of_nodup_map hnodup hx (hpredicted hy) htoken
  · intro i _ y hy htoken
    have hdecoy : (plain m contacts' epoch').rng.decoy i = List.replicate 16 0 := rfl
    rw [hdecoy] at htoken
    exact hzeros (htoken ▸ List.mem_map_of_mem (hpredicted hy))

theorem contacts_recognize_pair :
    ∃ payload, (plain 2 [1, 3] 8).payload x25519 = some payload ∧
      (plain 1 [2] 7).recognizes x25519 payload 1 = some {publicOf 2} := by
  obtain ⟨hfirst, hsecond, hthird⟩ := derive_x25519
  have hmine : (plain 1 [2] 7).Valid x25519 := ⟨by decide, by decide +kernel, by decide⟩
  have htheirs : (plain 2 [1, 3] 8).Valid x25519 := ⟨by decide, by decide +kernel, by decide⟩
  have hidentity : (plain 1 [2] 7).identity x25519 = publicOf 1 := by decide +kernel
  have hidentity' : (plain 2 [1, 3] 8).identity x25519 = publicOf 2 := by decide +kernel
  have hwindow : BeaconRecognizer.epochWindow 7 1 = [6, 7, 8] := rfl
  have hwindow' : BeaconRecognizer.epochWindow 8 1 = [7, 8, 9] := rfl
  have hemitted : (plain 1 [2] 7).emitted x25519 = [(secretOf 2, 7, publicOf 1)] := by
    rw [emitted, hidentity]
    simp [plain, hfirst]
  have hemitted' : (plain 2 [1, 3] 8).emitted x25519 =
      [(secretOf 2, 8, publicOf 2), (secretOf 6, 8, publicOf 2)] := by
    rw [emitted, hidentity']
    simp [plain, hsecond, hthird]
  have hpredicted : (plain 1 [2] 7).predicted x25519 1 =
      [(secretOf 2, 6, publicOf 2), (secretOf 2, 7, publicOf 2), (secretOf 2, 8, publicOf 2)] := by
    simp [predicted, plain, hwindow, hfirst]
  have hpredicted' : (plain 2 [1, 3] 8).predicted x25519 1 =
      [(secretOf 2, 7, publicOf 1), (secretOf 6, 7, publicOf 3), (secretOf 2, 8, publicOf 1),
        (secretOf 6, 8, publicOf 3), (secretOf 2, 9, publicOf 1), (secretOf 6, 9, publicOf 3)] := by
    simp [predicted, plain, hwindow', hsecond, hthird]
  have hfree : (plain 1 [2] 7).CollisionFree x25519 (plain 2 [1, 3] 8) 1 := by
    apply collisionFree_known
    · simp [hemitted', known]
    · simp [hpredicted, known]
  have hfree' : (plain 2 [1, 3] 8).CollisionFree x25519 (plain 1 [2] 7) 1 := by
    apply collisionFree_known
    · simp [hemitted, known]
    · simp [hpredicted', known]
  obtain ⟨payload, hpayload, hrecognizes⟩ :=
    ((contacts_recognize lawful_x25519).1 _ _ 1 hmine htheirs
    (hidentity' ▸ List.mem_cons_self) (hidentity ▸ List.mem_cons_self) (by decide)
    (by decide) hfree hfree').1
  rw [hidentity'] at hrecognizes
  exact ⟨payload, hpayload, hrecognizes⟩

end BeaconDevice

end AeroNyra
