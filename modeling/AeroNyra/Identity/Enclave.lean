import AeroNyra.Lib.Keychain
import AeroNyra.Lib.PrefixCode
import AeroNyra.Media.Payload
import AeroNyra.PushToTalk.Capture

/-! The wrapper of secrets with a key of the Secure Enclave: each blob is sealed under a key that
is agreed between an ephemeral key and the Enclave's.  The Keychain holds the reference of the
Enclave's key; where it holds none, or one that the Enclave does not know, a new key takes its
place. -/

namespace AeroNyra

open Keychain

/-- The items of the Keychain by their service and account. -/
abbrev KeychainItems := String × String → Option Data

namespace ChaChaPoly

variable (c : ChaChaPoly)

/-- A box in its combined form: nonce, ciphertext and tag. -/
def combined (key nonce plaintext aad : Data) : Data :=
  nonce ++ (c.sealBox key nonce plaintext aad).1 ++ (c.sealBox key nonce plaintext aad).2

/-- A box is read from its combined form and opened; none where either throws. -/
def openCombined (key box aad : Data) : Option Data :=
  if 12 + 16 ≤ box.length then
    c.openBox key (box.take 12) ((box.drop 12).take (box.length - 12 - 16))
      (box.drop (box.length - 16)) aad
  else none

/-- An ideal cipher: a box opens to what was sealed, under its own key and with its own associated
data only. -/
structure Ideal : Prop where
  tag : ∀ key nonce plaintext aad, (c.sealBox key nonce plaintext aad).2.length = 16
  opens : ∀ key nonce plaintext aad, c.openBox key nonce (c.sealBox key nonce plaintext aad).1
    (c.sealBox key nonce plaintext aad).2 aad = some plaintext
  exclusive : ∀ key nonce plaintext aad key' aad' plaintext',
    c.openBox key' nonce (c.sealBox key nonce plaintext aad).1
      (c.sealBox key nonce plaintext aad).2 aad' = some plaintext' → key' = key ∧ aad' = aad

variable {c} {key nonce plaintext aad key' aad' plaintext' : Data}

theorem length_combined (h : c.Ideal) (hnonce : nonce.length = 12) :
    12 + 16 ≤ (c.combined key nonce plaintext aad).length := by
  have htag := h.tag key nonce plaintext aad
  simp only [combined, List.length_append]
  omega

/-- The parts of a combined box are what it was put together from. -/
theorem openCombined_combined (h : c.Ideal) (hnonce : nonce.length = 12) :
    c.openCombined key' (c.combined key nonce plaintext aad) aad' =
      c.openBox key' nonce (c.sealBox key nonce plaintext aad).1
        (c.sealBox key nonce plaintext aad).2 aad' := by
  have htag := h.tag key nonce plaintext aad
  have hlong : 12 + 16 ≤ (c.combined key nonce plaintext aad).length := length_combined h hnonce
  have hlength : (c.combined key nonce plaintext aad).length =
      12 + (c.sealBox key nonce plaintext aad).1.length + 16 := by
    rw [combined, List.length_append, List.length_append, hnonce, htag]
  rw [openCombined, if_pos hlong, hlength]
  congr 1
  · rw [combined, List.append_assoc, List.take_left' hnonce]
  · rw [combined, List.append_assoc, List.drop_left' hnonce]
    exact List.take_left' (by omega)
  · rw [combined]
    exact List.drop_left' (by rw [List.length_append, hnonce]; omega)

/-- A combined box opens exactly to what was sealed, under its key and with its associated data. -/
theorem openCombined_eq_some (h : c.Ideal) (hnonce : nonce.length = 12) :
    c.openCombined key' (c.combined key nonce plaintext aad) aad' = some plaintext' ↔
      key' = key ∧ aad' = aad ∧ plaintext' = plaintext := by
  rw [openCombined_combined h hnonce]
  constructor
  · intro hopen
    obtain ⟨rfl, rfl⟩ := h.exclusive _ _ _ _ _ _ _ hopen
    exact ⟨rfl, rfl, Option.some.inj (hopen.symm.trans (h.opens _ _ _ _))⟩
  · rintro ⟨rfl, rfl, rfl⟩
    exact h.opens _ _ _ _

end ChaChaPoly

/-- The key agreement between keys of the Enclave, which never leave it, and ephemeral keys. -/
structure CryptoKit where
  EnclaveKey : Type
  EphemeralKey : Type
  /-- The reference of a key of the Enclave, and the key that the Enclave knows under a
  reference. -/
  dataRepresentation : EnclaveKey → Data
  restore : Data → Option EnclaveKey
  /-- The public key of an ephemeral key. -/
  rawRepresentation : EphemeralKey → Data
  /-- The secret that an ephemeral key shares with the public key of the Enclave's, and the one
  that the Enclave computes from a public key. -/
  sharedSecret : EphemeralKey → EnclaveKey → Data
  sharedSecretInside : EnclaveKey → Data → Option Data
  hkdf : (secret salt sharedInfo : Data) → Data
  chaChaPoly : ChaChaPoly

namespace CryptoKit

/-- Both sides agree, and keys derived from different secrets or for different purposes differ. -/
structure Ideal (k : CryptoKit) : Prop where
  restore : ∀ key, k.restore (k.dataRepresentation key) = some key
  publicKey : ∀ ephemeral, (k.rawRepresentation ephemeral).length = 64
  agree : ∀ key ephemeral, k.sharedSecretInside key (k.rawRepresentation ephemeral) =
    some (k.sharedSecret ephemeral key)
  shared : ∀ ephemeral key key', k.sharedSecret ephemeral key = k.sharedSecret ephemeral key' →
    key = key'
  derived : ∀ secret secret' salt info info', k.hkdf secret salt info = k.hkdf secret' salt info' →
    secret = secret' ∧ info = info'
  cipher : k.chaChaPoly.Ideal

end CryptoKit

structure WrappedBlob where
  ephemeralPublicKey : Data
  /-- A combined box. -/
  sealed : Data

namespace WrappedBlob

def ephemeralKeyLength : Nat := 64

def minSealedLength : Nat := 28

def serialized (b : WrappedBlob) : Data := b.ephemeralPublicKey ++ b.sealed

/-- None where the source throws `malformedWrappedBlob`. -/
def ofSerialized? (data : Data) : Option WrappedBlob :=
  if ephemeralKeyLength + minSealedLength ≤ data.length then
    some ⟨data.take ephemeralKeyLength, data.drop ephemeralKeyLength⟩
  else none

theorem ofSerialized?_serialized {b : WrappedBlob}
    (hkey : b.ephemeralPublicKey.length = ephemeralKeyLength)
    (hsealed : minSealedLength ≤ b.sealed.length) : ofSerialized? b.serialized = some b := by
  rw [ofSerialized?, if_pos (by rw [serialized, List.length_append]; omega), serialized,
    List.take_left' hkey, List.drop_left' hkey]

end WrappedBlob

inductive SecureEnclaveError
  | unavailable
  | keyGenerationFailed
  | malformedWrappedBlob
  | cryptographicFailure
  | accessControlCreationFailed
  | keychain (status : OSStatus)

structure SecureEnclaveWrapper where
  service : String

namespace SecureEnclaveWrapper

def account : String := "se.identity.wrapKey.v1"

/-- What the environment answers to a call of the wrapper: the Keychain, the Enclave, and what is
drawn at random. -/
structure Reply (k : CryptoKit) where
  copies : Option Refusal := none
  /-- The Enclave takes the reference that it is given. -/
  restores : Bool := true
  deletes : Option Refusal := none
  makesAccessControl : Bool := true
  /-- The key that the Enclave generates; none when it fails. -/
  generated : Option k.EnclaveKey
  adds : Option Refusal := none
  updates : Option Refusal := none
  /-- The key agreement succeeds. -/
  agrees : Bool := true
  ephemeral : k.EphemeralKey
  nonce : Data
  nonce_length : nonce.length = 12

variable (k : CryptoKit) (w : SecureEnclaveWrapper) (items : KeychainItems) (reply : Reply k)

def item : String × String := (w.service, account)

def kdfSalt : Data := utf8 "beacon.se.salt.v1"

def deriveKey (shared ephemeralPublic context : Data) : Data :=
    k.hkdf shared kdfSalt (context ++ ephemeralPublic)

/-- A reference that is there already is overwritten. -/
def storeKeyReference (representation : Data) : KeychainItems × Except SecureEnclaveError Unit :=
  let added := add items w.item representation reply.adds
  if added.2 = errSecSuccess then (added.1, .ok ())
  else if added.2 = errSecDuplicateItem then
    let updated := update added.1 w.item representation reply.updates
    (updated.1, if updated.2 = errSecSuccess then .ok () else .error (.keychain updated.2))
  else (added.1, .error (.keychain added.2))

def generateAndStoreEnclaveKey : KeychainItems × Except SecureEnclaveError k.EnclaveKey :=
  if reply.makesAccessControl then
    match reply.generated with
    | none => (items, .error .keyGenerationFailed)
    | some key =>
      let stored := w.storeKeyReference k items reply (k.dataRepresentation key)
      (stored.1, stored.2.map fun _ => key)
  else (items, .error .accessControlCreationFailed)

/-- A reference that the Enclave does not take is deleted, as far as that succeeds, and a new key
made. -/
def loadOrCreateEnclaveKey : KeychainItems × Except SecureEnclaveError k.EnclaveKey :=
  match copyMatching items w.item reply.copies with
  | .ok representation =>
    match (k.restore representation).filter fun _ => reply.restores with
    | some key => (items, .ok key)
    | none => w.generateAndStoreEnclaveKey k (delete items w.item reply.deletes).1 reply
  | .error status =>
    if status = errSecItemNotFound then w.generateAndStoreEnclaveKey k items reply
    else (items, .error (.keychain status))

/-- The blob that a key of the Enclave wraps. -/
def wrapped (key : k.EnclaveKey) (ephemeral : k.EphemeralKey) (nonce blob context : Data) :
    WrappedBlob :=
  let ephemeralPublic := k.rawRepresentation ephemeral
  ⟨ephemeralPublic,
    k.chaChaPoly.combined
      (deriveKey k (k.sharedSecret ephemeral key) ephemeralPublic context) nonce blob []⟩

def wrap (blob context : Data) : KeychainItems × Except SecureEnclaveError WrappedBlob :=
  match w.loadOrCreateEnclaveKey k items reply with
  | (items, .error error) => (items, .error error)
  | (items, .ok key) =>
    (items, if reply.agrees then .ok (wrapped k key reply.ephemeral reply.nonce blob context)
      else .error .cryptographicFailure)

/-- What a key of the Enclave makes of a wrapped blob. -/
def unwrapped (key : k.EnclaveKey) (b : WrappedBlob) (context : Data) : Option Data :=
  (k.sharedSecretInside key b.ephemeralPublicKey).bind fun shared =>
    k.chaChaPoly.openCombined (deriveKey k shared b.ephemeralPublicKey context) b.sealed []

def unwrap (b : WrappedBlob) (context : Data) : KeychainItems × Except SecureEnclaveError Data :=
  match w.loadOrCreateEnclaveKey k items reply with
  | (items, .error error) => (items, .error error)
  | (items, .ok key) =>
    (items, match if reply.agrees then unwrapped k key b context else none with
      | some blob => .ok blob
      | none => .error .cryptographicFailure)

def deleteEnclaveKey (deletes : Option Refusal) : KeychainItems × Except SecureEnclaveError Unit :=
  let deleted := delete items w.item deletes
  (deleted.1, if deleted.2 = errSecSuccess ∨ deleted.2 = errSecItemNotFound then .ok ()
    else .error (.keychain deleted.2))

/-! ### What the operations do -/

variable {k w items reply}

/-- What is stored is there; a failure leaves the item as it was. -/
theorem storeKeyReference_cases (w : SecureEnclaveWrapper) (items : KeychainItems) (reply : Reply k)
    (representation : Data) :
    w.storeKeyReference k items reply representation =
      (Function.update items w.item (some representation), .ok ()) ∨
    ∃ error, w.storeKeyReference k items reply representation = (items, .error error) := by
  unfold storeKeyReference
  rcases add_cases items w.item representation reply.adds with ⟨hstatus, _, hitems⟩ |
    ⟨hstatus, hitems, _⟩
  · exact .inl (by simp only [if_pos hstatus, hitems])
  · simp only [if_neg hstatus, hitems]
    split
    · rcases update_cases items w.item representation reply.updates with ⟨hupdated, _, hafter⟩ |
        ⟨hupdated, hafter⟩
      · exact .inl (by simp only [if_pos hupdated, hafter])
      · exact .inr ⟨.keychain (update items w.item representation reply.updates).2,
          by simp only [if_neg hupdated, hafter]⟩
    · exact .inr ⟨_, rfl⟩

/-- A key comes out only once its reference is stored. -/
theorem generateAndStoreEnclaveKey_cases (w : SecureEnclaveWrapper) (items : KeychainItems)
    (reply : Reply k) :
    (∃ key, reply.generated = some key ∧ w.generateAndStoreEnclaveKey k items reply =
      (Function.update items w.item (some (k.dataRepresentation key)), .ok key)) ∨
    ∃ error, w.generateAndStoreEnclaveKey k items reply = (items, .error error) := by
  unfold generateAndStoreEnclaveKey
  split
  · cases hgenerated : reply.generated with
    | none => exact .inr ⟨_, rfl⟩
    | some key =>
      rcases storeKeyReference_cases w items reply (k.dataRepresentation key) with
        hstored | ⟨error, hfailed⟩
      · exact .inl ⟨key, rfl, by simp only [hstored]; rfl⟩
      · exact .inr ⟨error, by simp only [hfailed]; rfl⟩
  · exact .inr ⟨_, rfl⟩

/-- The key that the Keychain refers to and the Enclave knows, or a new one in its place. -/
theorem loadOrCreateEnclaveKey_cases (w : SecureEnclaveWrapper) (items : KeychainItems)
    (reply : Reply k) :
    (∃ key representation, items w.item = some representation ∧ k.restore representation =
      some key ∧ reply.restores ∧ w.loadOrCreateEnclaveKey k items reply = (items, .ok key)) ∨
    (∃ key, reply.generated = some key ∧ w.loadOrCreateEnclaveKey k items reply =
      (Function.update items w.item (some (k.dataRepresentation key)), .ok key)) ∨
    ∃ error, w.loadOrCreateEnclaveKey k items reply = (items, .error error) ∨
      w.loadOrCreateEnclaveKey k items reply =
        (Function.update items w.item none, .error error) := by
  unfold loadOrCreateEnclaveKey
  cases hcopied : copyMatching items w.item reply.copies with
  | ok representation =>
    have hitem := (copyMatching_eq_ok.mp hcopied).2
    dsimp only
    cases hrestored : (k.restore representation).filter fun _ => reply.restores with
    | some key =>
      obtain ⟨hkey, htaken⟩ := Option.filter_eq_some_iff.mp hrestored
      exact .inl ⟨key, representation, hitem, hkey, htaken, rfl⟩
    | none =>
      dsimp only
      have hdeleted : (delete items w.item reply.deletes).1 = items ∨
          (delete items w.item reply.deletes).1 = Function.update items w.item none :=
        (delete_cases items w.item reply.deletes).symm.imp (fun h => h.2.2) fun h => h.2
      rcases generateAndStoreEnclaveKey_cases w (delete items w.item reply.deletes).1 reply with
        ⟨key, hgenerated, hmade⟩ | ⟨error, hfailed⟩
      · refine .inr (.inl ⟨key, hgenerated, ?_⟩)
        rw [hmade]
        rcases hdeleted with hsame | hgone
        · rw [hsame]
        · rw [hgone, Function.update_idem]
      · rw [hfailed]
        refine .inr (.inr ⟨error, ?_⟩)
        rcases hdeleted with hsame | hgone
        · exact .inl (by rw [hsame])
        · exact .inr (by rw [hgone])
  | error status =>
    dsimp only
    split
    · rcases generateAndStoreEnclaveKey_cases w items reply with hmade | ⟨error, hfailed⟩
      · exact .inr (.inl hmade)
      · exact .inr (.inr ⟨error, .inl hfailed⟩)
    · exact .inr (.inr ⟨_, .inl rfl⟩)

/-- A key that the Keychain refers to and the Enclave knows is used as it is. -/
theorem loadOrCreateEnclaveKey_intact (h : k.Ideal) {key : k.EnclaveKey}
    (hcopies : reply.copies = none)
    (hrestores : reply.restores) (hitem : items w.item = some (k.dataRepresentation key)) :
    w.loadOrCreateEnclaveKey k items reply = (items, .ok key) := by
  have hcopied : copyMatching items w.item reply.copies = .ok (k.dataRepresentation key) :=
    copyMatching_eq_ok.mpr ⟨hcopies, hitem⟩
  simp only [loadOrCreateEnclaveKey, hcopied, h.restore, hrestores, Option.filter_some, if_true]

/-- The other items stay as they are. -/
theorem loadOrCreateEnclaveKey_other {other : String × String} (hother : other ≠ w.item) :
    (w.loadOrCreateEnclaveKey k items reply).1 other = items other := by
  rcases loadOrCreateEnclaveKey_cases w items reply with ⟨_, _, _, _, _, heq⟩ | ⟨_, _, heq⟩ |
    ⟨_, heq | heq⟩ <;>
    rw [heq] <;> simp [Function.update_of_ne hother]

/-- What the Keychain refers to is what it referred to, nothing, or a new key. -/
theorem loadOrCreateEnclaveKey_item :
    (w.loadOrCreateEnclaveKey k items reply).1 w.item = items w.item ∨
      (w.loadOrCreateEnclaveKey k items reply).1 w.item = none ∨
      ∃ key, reply.generated = some key ∧
        (w.loadOrCreateEnclaveKey k items reply).1 w.item = some (k.dataRepresentation key) := by
  rcases loadOrCreateEnclaveKey_cases w items reply with ⟨_, _, _, _, _, heq⟩ | ⟨key, hkey, heq⟩ |
    ⟨_, heq | heq⟩ <;>
    rw [heq]
  · exact .inl rfl
  · exact .inr (.inr ⟨key, hkey, Function.update_self ..⟩)
  · exact .inl rfl
  · exact .inr (.inl (Function.update_self ..))

/-- The key in use is the one that the Keychain refers to, if the Enclave takes the reference, or a
new one. -/
theorem item_of_loadOrCreateEnclaveKey {key : k.EnclaveKey}
    (h : (w.loadOrCreateEnclaveKey k items reply).2 = .ok key) :
    (∃ representation, items w.item = some representation ∧ k.restore representation = some key ∧
      reply.restores) ∨ reply.generated = some key := by
  rcases loadOrCreateEnclaveKey_cases w items reply with ⟨_, representation, hitem, hrestore,
    htaken, heq⟩ | ⟨_, hkey, heq⟩ | ⟨_, heq | heq⟩ <;> rw [heq] at h <;> cases h
  · exact .inl ⟨representation, hitem, hrestore, htaken⟩
  · exact .inr hkey

theorem wrap_items (blob context : Data) :
    (w.wrap k items reply blob context).1 = (w.loadOrCreateEnclaveKey k items reply).1 := by
  unfold wrap
  rcases w.loadOrCreateEnclaveKey k items reply with ⟨after, error | key⟩ <;> rfl

theorem unwrap_items (b : WrappedBlob) (context : Data) :
    (w.unwrap k items reply b context).1 = (w.loadOrCreateEnclaveKey k items reply).1 := by
  unfold unwrap
  rcases w.loadOrCreateEnclaveKey k items reply with ⟨after, error | key⟩ <;> rfl

/-- A blob that is wrapped is wrapped with the key in use. -/
theorem wrap_eq_ok {blob context : Data} {b : WrappedBlob}
    (h : (w.wrap k items reply blob context).2 = .ok b) :
    ∃ key, (w.loadOrCreateEnclaveKey k items reply).2 = .ok key ∧
      b = wrapped k key reply.ephemeral reply.nonce blob context := by
  revert h
  unfold wrap
  rcases w.loadOrCreateEnclaveKey k items reply with ⟨after, error | key⟩ <;> intro h
  · cases h
  · dsimp only at h
    split at h
    · exact ⟨key, rfl, (Except.ok.inj h).symm⟩
    · cases h

/-- A blob that is unwrapped is unwrapped with the key in use, where that agrees on a secret. -/
theorem unwrap_eq_ok {b : WrappedBlob} {context blob : Data} :
    (w.unwrap k items reply b context).2 = .ok blob ↔
      ∃ key, (w.loadOrCreateEnclaveKey k items reply).2 = .ok key ∧ reply.agrees ∧
        unwrapped k key b context = some blob := by
  unfold unwrap
  rcases w.loadOrCreateEnclaveKey k items reply with ⟨after, error | key⟩
  · simp
  · cases hagrees : reply.agrees <;> cases hblob : unwrapped k key b context <;> simp [hblob]

/-- A blob comes out of its wrapping with the key and for the purpose that it was wrapped with, and
with no others. -/
theorem unwrapped_wrapped (h : k.Ideal) {key key' : k.EnclaveKey} {ephemeral : k.EphemeralKey}
    {nonce blob context blob' context' : Data} (hnonce : nonce.length = 12) :
    unwrapped k key' (wrapped k key ephemeral nonce blob context) context' = some blob' ↔
      key' = key ∧ context' = context ∧ blob' = blob := by
  have hshared : k.sharedSecretInside key'
    (wrapped k key ephemeral nonce blob context).ephemeralPublicKey =
      some (k.sharedSecret ephemeral key') := h.agree key' ephemeral
  rw [unwrapped, hshared, Option.bind_some]
  show k.chaChaPoly.openCombined _ (k.chaChaPoly.combined _ nonce blob []) [] = some blob' ↔ _
  rw [ChaChaPoly.openCombined_eq_some h.cipher hnonce]
  constructor
  · rintro ⟨hderived, _, rfl⟩
    obtain ⟨hsecret, hinfo⟩ := h.derived _ _ _ _ _ hderived
    exact ⟨h.shared ephemeral key' key hsecret, List.append_cancel_right hinfo, rfl⟩
  · rintro ⟨rfl, rfl, rfl⟩
    exact ⟨rfl, rfl, rfl⟩

/-- What is read back from the storage form of a wrapped blob. -/
theorem ofSerialized?_wrapped (h : k.Ideal) {key : k.EnclaveKey} {ephemeral : k.EphemeralKey}
    {nonce blob context : Data} (hnonce : nonce.length = 12) :
    WrappedBlob.ofSerialized? (wrapped k key ephemeral nonce blob context).serialized =
      some (wrapped k key ephemeral nonce blob context) :=
  WrappedBlob.ofSerialized?_serialized (h.publicKey ephemeral)
    (ChaChaPoly.length_combined h.cipher hnonce)

/-- What is stored of a wrapped blob tells the blob and the key. -/
theorem wrapped_inj (h : k.Ideal) {key key' : k.EnclaveKey} {ephemeral ephemeral' : k.EphemeralKey}
    {nonce nonce' blob blob' context : Data} (hnonce : nonce.length = 12)
    (hnonce' : nonce'.length = 12)
    (heq : (wrapped k key ephemeral nonce blob context).serialized =
      (wrapped k key' ephemeral' nonce' blob' context).serialized) : key = key' ∧ blob = blob' := by
  have hread := congrArg WrappedBlob.ofSerialized? heq
  rw [ofSerialized?_wrapped h hnonce, ofSerialized?_wrapped h hnonce'] at hread
  have hopens : unwrapped k key (wrapped k key ephemeral nonce blob context) context = some blob :=
    (unwrapped_wrapped h hnonce).mpr ⟨rfl, rfl, rfl⟩
  rw [Option.some.inj hread, unwrapped_wrapped h hnonce'] at hopens
  exact ⟨hopens.1, hopens.2.2⟩

end SecureEnclaveWrapper

/-! ### A kit without secrets -/

/-- Bytes that can be told from what follows them. -/
def framed (data : Data) : Data := data.flatMap (fun b => [1, b]) ++ [0]

theorem readable_framed : PrefixCode.Readable framed := by
  have hbyte : PrefixCode.Readable fun b : UInt8 => [1, b] := by
    intro b c rest rest' h
    obtain ⟨_, htail⟩ := List.cons.inj h
    exact List.cons.inj htail
  exact hbyte.flatMap fun b rest rest' h => absurd (List.cons.inj h).1 (by decide)

namespace ChaChaPoly

/-- A box shows its key, what it authenticates and what it seals. -/
def transparent : ChaChaPoly where
  sealBox key _ plaintext aad := (framed key ++ framed aad ++ plaintext, List.replicate 16 0)
  openBox key _ ciphertext _ aad :=
    if framed key ++ framed aad <+: ciphertext then some
      (ciphertext.drop (framed key ++ framed aad).length) else none

theorem transparent_ideal : transparent.Ideal where
  tag _ _ _ _ := List.length_replicate
  opens key nonce plaintext aad := by
    simp only [transparent, if_pos (List.prefix_append (framed key ++ framed aad) plaintext),
      List.drop_left]
  exclusive key nonce plaintext aad key' aad' plaintext' h := by
    simp only [transparent] at h
    split at h
    · rename_i hshown
      obtain ⟨rest, hrest⟩ := hshown
      simp only [List.append_assoc] at hrest
      obtain ⟨rfl, htail⟩ := readable_framed _ _ _ _ hrest
      obtain ⟨rfl, _⟩ := readable_framed _ _ _ _ htail
      exact ⟨rfl, rfl⟩
    · cases h

end ChaChaPoly

namespace CryptoKit

/-- The nonce of zeros has the length of a nonce. -/
theorem length_zeros : (List.replicate 12 0 : Data).length = 12 := rfl

/-- Every key of the Enclave is its own reference, and the secret that it shares with anyone. -/
def transparent : CryptoKit where
  EnclaveKey := Data
  EphemeralKey := Unit
  dataRepresentation key := key
  restore representation := some representation
  rawRepresentation _ := List.replicate 64 0
  sharedSecret _ key := key
  sharedSecretInside key _ := some key
  hkdf secret _ sharedInfo := framed secret ++ sharedInfo
  chaChaPoly := .transparent

theorem transparent_ideal : transparent.Ideal where
  restore _ := rfl
  publicKey _ := List.length_replicate
  agree _ _ := rfl
  shared _ _ _ h := h
  derived _ _ _ _ _ h := readable_framed _ _ _ _ h
  cipher := ChaChaPoly.transparent_ideal

end CryptoKit

end AeroNyra
