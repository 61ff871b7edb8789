import AeroNyra.Nostr.Wrapping

/-! The canonical serialization of an event, which determines the event, and what a valid event is:
its identifier is the hash of the serialization, and its signature is one of that hash. -/

namespace AeroNyra

namespace NostrEvent

open PrefixCode

/-! ### The serialization -/

/-- The form of a scalar in a string. -/
def escapeScalar (c : Char) : Text :=
  if c.toNat = 0x22 then "\\\"".toList
  else if c.toNat = 0x5C then "\\\\".toList
  else if c.toNat = 0x0A then "\\n".toList
  else if c.toNat = 0x0D then "\\r".toList
  else if c.toNat = 0x09 then "\\t".toList
  else if c.toNat = 0x08 then "\\b".toList
  else if c.toNat = 0x0C then "\\f".toList
  else [c]

theorem escape_eq (s : Text) : escape s = s.flatMap escapeScalar := rfl

theorem unescape_escapeScalar (c : Char) (rest : Text) :
    JSONEncoder.unescape (escapeScalar c ++ rest) = some (c, rest) := by
  have hchar {n : Nat} (h : c.toNat = n) : Char.ofNat n = c := by rw [← h, Char.ofNat_toNat]
  unfold escapeScalar
  split
  · rename_i h
    obtain rfl := hchar h
    rfl
  split
  · rename_i h
    obtain rfl := hchar h
    rfl
  split
  · rename_i h
    obtain rfl := hchar h
    rfl
  split
  · rename_i h
    obtain rfl := hchar h
    rfl
  split
  · rename_i h
    obtain rfl := hchar h
    rfl
  split
  · rename_i h
    obtain rfl := hchar h
    rfl
  split
  · rename_i h
    obtain rfl := hchar h
    rfl
  · rename_i hquote hslash _ _ _ _ _
    have hquote : c ≠ '"' := fun heq => hquote (congrArg Char.toNat heq)
    have hslash : c ≠ '\\' := fun heq => hslash (congrArg Char.toNat heq)
    simp only [List.singleton_append]
    rw [JSONEncoder.unescape.eq_def]
    split <;> simp_all

/-- A string between quotes. -/
def quoted (s : Text) : Text := '"' :: (s.flatMap escapeScalar ++ ['"'])

theorem readable_escaped : Readable fun s : Text => s.flatMap escapeScalar ++ ['"'] :=
  JSONEncoder.readable_quoted unescape_escapeScalar

theorem array_eq_intercalate {α : Type} (element : α → Text) (l : List α) :
    JSONEncoder.array element l = "[".toList ++ [','].intercalate (l.map element) ++
      "]".toList := by
  cases l with
  | nil => rfl
  | cons a l =>
    have hrest (a : α) : [','].intercalate ((a :: l).map element) =
        element a ++ l.flatMap fun b => ',' :: element b := by
      induction l generalizing a with
      | nil => simp [List.intercalate]
      | cons b l ih =>
        have hnext := ih b
        simp only [List.map_cons, List.intercalate] at hnext ⊢
        rw [List.intersperse_cons_cons, List.flatten_cons, List.flatten_cons, hnext,
          List.flatMap_cons]
        simp
    rw [hrest a]
    simp [JSONEncoder.array]

theorem serializeTags_eq (tags : List (List Text)) :
    serializeTags tags = JSONEncoder.array (JSONEncoder.array quoted) tags := by
  have hquoted : quoted = fun e => "\"".toList ++ escape e ++ "\"".toList := by
    funext e
    simp [quoted, escape_eq]
  have htag : JSONEncoder.array quoted = fun t =>
      "[".toList ++ [','].intercalate (t.map fun e => "\"".toList ++ escape e ++ "\"".toList) ++
        "]".toList := by
    funext t
    rw [array_eq_intercalate, hquoted]
  rw [array_eq_intercalate, htag]
  rfl

theorem readable_tags : Readable serializeTags := by
  have htags : Readable (JSONEncoder.array (JSONEncoder.array quoted)) := by
    refine JSONEncoder.readable_array (JSONEncoder.readable_array (readable_escaped.cons '"') ?_) ?_
    · intro s rest rest' h
      exact absurd (List.cons.inj h).1 (by decide)
    · intro l rest rest' h
      cases l with
      | nil => exact absurd (List.cons.inj h).1 (by decide)
      | cons a l => exact absurd (List.cons.inj h).1 (by decide)
  rw [show serializeTags = JSONEncoder.array
    (JSONEncoder.array quoted) from funext serializeTags_eq]
  exact htags

/-- Texts of lowercase hexadecimal digits. -/
def LowerHex (t : Text) : Prop := ∀ c ∈ t, c ∈ "0123456789abcdef".toList

theorem LowerHex.unquoted {t : Text} (h : LowerHex t) : '"' ∉ t :=
    fun hmem => absurd (h _ hmem) (by decide)

/-- What is serialized of the event. -/
def serialized (e : NostrEvent) :
    Text := serializeForID e.pubkey e.createdAt e.kind e.tags e.content

/-- Two events that say the same. -/
structure SameFields (e e' : NostrEvent) : Prop where
  pubkey : e.pubkey = e'.pubkey
  createdAt : e.createdAt = e'.createdAt
  kind : e.kind = e'.kind
  tags : e.tags = e'.tags
  content : e.content = e'.content

theorem pubkey_of_quote {t t' rest rest' : Text} (ht : '"' ∉ t) (ht' : '"' ∉ t')
    (h : t ++ ['"'] ++ rest = t' ++ ['"'] ++ rest') : t = t' ∧ rest = rest' := by
  have hreadable : Readable fun t : { t : Text // '"' ∉ t } => t.val ++ ['"'] :=
    readable_terminated Subtype.val_injective fun t => t.property
  obtain ⟨hsame, hrest⟩ := hreadable ⟨t, ht⟩ ⟨t', ht'⟩ rest rest' h
  exact ⟨congrArg Subtype.val hsame, hrest⟩

theorem serialized_eq (e : NostrEvent) :
    e.serialized = ['[', '0', ',', '"'] ++ (e.pubkey ++ ['"'] ++ ([','] ++
    (decimal e.createdAt ++ [','] ++
      (decimal e.kind ++ [','] ++ (serializeTags e.tags ++ ([',', '"'] ++
    (e.content.flatMap escapeScalar ++ ['"'] ++ [']']))))))) := by
  have hhead : "[0,\"".toList = ['[', '0', ',', '"'] := by decide
  have hkey : "\",".toList = ['"', ','] := by decide
  have hcomma : ",".toList = [','] := by decide
  have hcontent : ",\"".toList = [',', '"'] := by decide
  have htail : "\"]".toList = ['"', ']'] := by decide
  unfold serialized serializeForID
  rw [escape_eq, hhead, hkey, hcomma, hcontent, htail]
  simp only [List.append_assoc, List.cons_append, List.nil_append]

/-- The serialization determines the event. -/
theorem sameFields_of_serialized {e e' : NostrEvent} (he : LowerHex e.pubkey)
    (he' : LowerHex e'.pubkey) (h : e.serialized = e'.serialized) : SameFields e e' := by
  have hnumbers := readable_decimal (t := ',') (by decide) (by decide)
  rw [serialized_eq, serialized_eq] at h
  obtain ⟨hpubkey, h⟩ := pubkey_of_quote he.unquoted he'.unquoted (List.append_cancel_left h)
  obtain ⟨hcreated, h⟩ := hnumbers _ _ _ _ (List.append_cancel_left h)
  obtain ⟨hkind, h⟩ := hnumbers _ _ _ _ h
  obtain ⟨htags, h⟩ := readable_tags _ _ _ _ h
  obtain ⟨hcontent, _⟩ := readable_escaped _ _ _ _ (List.append_cancel_left h)
  exact ⟨hpubkey, hcreated, hkind, htags, hcontent⟩

/-! ### Valid events -/

theorem hexEncode_injective : Function.Injective hexEncode := by
  intro a b h
  have hread := congrArg hexDecode h
  rw [hexDecode_hexEncode, hexDecode_hexEncode] at hread
  exact Option.some.inj hread

section Valid

variable (l : NostrLibraries)

/-- What the identifier of the event is the lowercase form of. -/
def digest (e : NostrEvent) : Data := l.sha256 e.serialized

/-- The identifier is the hash of the fields, and the signature one of that hash under the public
key. -/
structure Authentic (e : NostrEvent) : Prop where
  id : e.id = hexEncode (e.digest l)
  signature : ∃ sig pub, hexDecode e.sig = some sig ∧ hexDecode e.pubkey = some pub ∧
    sig.length = 64 ∧ pub.length = 32 ∧ l.curve.verify sig (e.digest l) pub = true

/-- What the code relies on: the lengths of hashes and keys, that what is signed verifies, and that
the decoder reads what the encoder wrote. -/
structure Specified : Prop where
  hash (t : Text) : (l.sha256 t).length = 32
  key {secret pub : Data} : l.curve.xOnlyPublicKey secret = some pub → pub.length = 32
  signature {secret pub hash sig : Data} : l.curve.xOnlyPublicKey secret = some pub →
    hash.length = 32 →
    l.curve.sign hash secret = some sig → sig.length = 64 ∧ l.curve.verify sig hash pub = true
  reads {e : NostrEvent} : (-2 ^ 63 ≤ e.createdAt ∧ e.createdAt < 2 ^ 63) →
    (-2 ^ 63 ≤ e.kind ∧ e.kind < 2 ^ 63) → l.decodeEvent e.json = some e

variable {l}

theorem computeID_eq (mySecret : Data) (e : NostrEvent) :
    computeID (l.primitives mySecret) e.pubkey e.createdAt e.kind e.tags e.content = hexEncode
      (e.digest l) := rfl

/-- Exactly the authentic events are valid. -/
theorem isValid_iff (hspec : Specified l) (mySecret : Data) (e : NostrEvent) :
    e.isValid (l.primitives mySecret) = true ↔ Authentic l e := by
  have hhash : (e.digest l).length = 32 := hspec.hash _
  unfold isValid
  rw [computeID_eq]
  by_cases hid : e.id = hexEncode (e.digest l)
  · rw [if_neg (fun hne => hne hid.symm), hid, hexDecode_hexEncode]
    constructor
    · intro h
      split at h
      · rename_i idBytes sig pub hbytes hsig hpub
        obtain rfl := Option.some.inj hbytes
        by_cases hlengths : (e.digest l).length = 32 ∧ sig.length = 64 ∧ pub.length = 32
        · rw [if_pos hlengths] at h
          exact ⟨hid, sig, pub, hsig, hpub, hlengths.2.1, hlengths.2.2, h⟩
        · rw [if_neg hlengths] at h
          cases h
      · cases h
    · rintro ⟨_, sig, pub, hsig, hpub, hlong, hwide, hverify⟩
      rw [hsig, hpub]
      dsimp only
      rw [if_pos ⟨hhash, hlong, hwide⟩]
      exact hverify
  · rw [if_pos (fun heq => hid heq.symm)]
    constructor
    · nofun
    · intro h
      exact absurd h.id hid

/-- What is signed is authentic. -/
theorem authentic_of_signed (hspec : Specified l) {kind createdAt : Int} {content : Text}
    {tags : List (List Text)} {secret : Data} {e : NostrEvent}
    (h : signed l kind content tags createdAt secret = some e) :
    Authentic l e ∧ e.createdAt = createdAt ∧ e.kind = kind := by
  obtain ⟨pub, hpub, h⟩ := Option.bind_eq_some_iff.mp h
  obtain ⟨idBytes, hid, h⟩ := Option.bind_eq_some_iff.mp h
  obtain ⟨sig, hsig, h⟩ := Option.bind_eq_some_iff.mp h
  obtain rfl := Option.some.inj h
  obtain rfl := Option.some.inj ((hexDecode_hexEncode _).symm.trans hid)
  obtain ⟨hlong, hverify⟩ := hspec.signature hpub (hspec.hash _) hsig
  exact ⟨⟨rfl, sig, pub, hexDecode_hexEncode sig, hexDecode_hexEncode pub, hlong, hspec.key hpub,
    hverify⟩, rfl, rfl⟩

/-- Two events with one identifier say the same, or their serializations are a collision of the
hash. -/
theorem sameFields_of_id {e e' : NostrEvent} (he : LowerHex e.pubkey) (he' : LowerHex e'.pubkey)
    (h : hexEncode (e.digest l) = hexEncode (e'.digest l)) :
    SameFields e e' ∨
      (e.serialized ≠ e'.serialized ∧ l.sha256 e.serialized = l.sha256 e'.serialized) := by
  by_cases hsame : e.serialized = e'.serialized
  · exact .inl (sameFields_of_serialized he he' hsame)
  · exact .inr ⟨hsame, hexEncode_injective h⟩

end Valid

/-- The serialization of an event determines its fields, so that its identifier commits to them as
far as the hash does; a valid event has the hash of its own fields for its identifier, with a
signature of that hash; and what is signed is valid when it comes back from the wire. -/
theorem canonical {l : NostrLibraries} (hspec : Specified l) (mySecret : Data) :
    (∀ e e' : NostrEvent, LowerHex e.pubkey → LowerHex e'.pubkey →
      (e.serialized = e'.serialized → SameFields e e') ∧
      (computeID (l.primitives mySecret) e.pubkey e.createdAt e.kind e.tags e.content =
          computeID (l.primitives mySecret) e'.pubkey e'.createdAt e'.kind e'.tags e'.content →
        SameFields e e' ∨
          (e.serialized ≠ e'.serialized ∧ l.sha256 e.serialized = l.sha256 e'.serialized))) ∧
    (∀ e : NostrEvent, e.isValid (l.primitives mySecret) = true ↔ Authentic l e) ∧
    (∀ kind content tags createdAt secret e, (-2 ^ 63 ≤ createdAt ∧ createdAt < 2 ^ 63) →
      (-2 ^ 63 ≤ kind ∧ kind < 2 ^ 63) → signed l kind content tags createdAt secret = some e →
      ∃ e', l.decodeEvent e.json = some e' ∧ e'.isValid (l.primitives mySecret) = true) := by
  refine ⟨?commits, isValid_iff hspec mySecret, ?signs⟩
  case commits =>
    intro e e' he he'
    exact ⟨sameFields_of_serialized he he', sameFields_of_id he he'⟩
  case signs =>
    intro kind content tags createdAt secret e htime hkind h
    obtain ⟨hauthentic, rfl, rfl⟩ := authentic_of_signed hspec h
    exact ⟨e, hspec.reads htime hkind, (isValid_iff hspec mySecret e).mpr hauthentic⟩

/-- The serialization of a note. -/
def noteText : Text :=
  serializeForID (hexEncode (NostrGiftWrap.keyPairOf 1).publicKey) 1700000000 1
    [["p".toList, []]] "\"hi\"\n".toList

/-- Its hash. -/
def noteDigest : Data :=
  (NIP44.bytes32 0x328ec5c519ad2f72900bfba076f73af45eda442fefcbed635b3ea8b447c1bc66).toList

/-- A signature of the hash under the first secret. -/
def noteSignature : Data :=
  (NIP44.bytes32 0x81ddc2392656d664daecfbf5ec26d8135649b80478d0a1aaa53e6346dfa1dd5e).toList ++
    (NIP44.bytes32 0x54db15715352d1b562f1b1881efe2bb9f36e82094cf054144dd3c1b8bc65139f).toList

def noteHash (t : Text) : Data := if t = noteText then noteDigest else List.replicate 32 0

def noteSign (hash secret : Data) : Option Data :=
  if hash = noteDigest ∧ secret = (NostrGiftWrap.keyPairOf 1).secret
    then some noteSignature else none

def noteVerify (sig hash pub : Data) : Bool :=
  sig = noteSignature ∧ hash = noteDigest ∧ pub = (NostrGiftWrap.keyPairOf 1).publicKey

/-- The libraries as far as the note needs them. -/
noncomputable def noteLibraries : NostrLibraries where
  curve := ⟨NostrGiftWrap.knownCurve.xOnlyPublicKey, noteSign, noteVerify,
    NostrGiftWrap.knownCurve.ecdh⟩
  hmac := NIP44.knownHMAC
  sha256 := noteHash
  decodeEvent := Function.partialInv json

theorem noteSign_eq_some {hash secret sig : Data} : noteSign hash secret = some sig ↔
    (hash = noteDigest ∧ secret = (NostrGiftWrap.keyPairOf 1).secret) ∧ noteSignature = sig := by
  rw [noteSign, Option.ite_none_right_eq_some, Option.some.injEq]

theorem specified_note : Specified noteLibraries where
  hash t := by
    show (noteHash t).length = 32
    unfold noteHash
    split
    · exact Vector.length_toList
    · exact List.length_replicate
  key h := NostrGiftWrap.sound_known.size h
  signature {secret pub hash sig} hpub _ hsig := by
    obtain ⟨⟨rfl, rfl⟩, rfl⟩ := noteSign_eq_some.mp hsig
    obtain rfl := Option.some.inj (NostrGiftWrap.pub_known.1.symm.trans hpub)
    have hlong : noteSignature.length = 64 := by
      rw [noteSignature, List.length_append, Vector.length_toList, Vector.length_toList]
    have hverify : noteVerify noteSignature noteDigest (NostrGiftWrap.keyPairOf 1).publicKey =
      true := by
      rw [noteVerify]
      exact decide_eq_true ⟨rfl, rfl, rfl⟩
    exact ⟨hlong, hverify⟩
  reads _ _ := Function.partialInv_left json_injective _

/-- A note comes back from the wire as a valid event. -/
theorem canonical_note : ∃ e, signed noteLibraries 1 "\"hi\"\n".toList [["p".toList, []]] 1700000000
    (NostrGiftWrap.keyPairOf 1).secret = some e ∧
    ∃ e', noteLibraries.decodeEvent e.json = some e' ∧
      e'.isValid (noteLibraries.primitives []) = true := by
  have hsigned : signed noteLibraries 1 "\"hi\"\n".toList [["p".toList, []]] 1700000000
      (NostrGiftWrap.keyPairOf 1).secret = some ⟨hexEncode noteDigest,
        hexEncode (NostrGiftWrap.keyPairOf 1).publicKey, 1700000000, 1, [["p".toList, []]],
          "\"hi\"\n".toList,
        hexEncode noteSignature⟩ := by
    have hpub : noteLibraries.curve.xOnlyPublicKey (NostrGiftWrap.keyPairOf 1).secret =
        some (NostrGiftWrap.keyPairOf 1).publicKey := NostrGiftWrap.pub_known.1
    have hhash : noteLibraries.sha256 noteText = noteDigest := by
      show noteHash noteText = noteDigest
      rw [noteHash, if_pos rfl]
    have hid : computeID (noteLibraries.primitives (NostrGiftWrap.keyPairOf 1).secret)
        (hexEncode (NostrGiftWrap.keyPairOf 1).publicKey) 1700000000 1
        [["p".toList, []]] "\"hi\"\n".toList =
        hexEncode noteDigest := congrArg hexEncode hhash
    have hsign : noteLibraries.curve.sign noteDigest (NostrGiftWrap.keyPairOf 1).secret =
      some noteSignature :=
      noteSign_eq_some.mpr ⟨⟨rfl, rfl⟩, rfl⟩
    rw [signed, hpub]
    simp only [Option.bind_eq_bind, Option.bind_some, hid, hexDecode_hexEncode, hsign]
    rfl
  exact ⟨_, hsigned, (canonical specified_note []).2.2 _ _ _ _ _ _ (by decide) (by decide) hsigned⟩

end NostrEvent

end AeroNyra
