import AeroNyra.Identity.Wrapping
import AeroNyra.Lib.Interleave

/-! The long-term identity in the Keychain.  Whoever calls the store, and whatever the Keychain and
the Enclave answer, an identity that was handed out or saved stays the only one until it is deleted
or overwritten; and one whose Enclave key is gone is not taken for a missing one. -/

namespace AeroNyra

open Keychain

/-- Both private keys, as their raw bytes. -/
structure IdentityKeypair where
  agreement : Data
  signing : Data
  agreement_length : agreement.length = 32
  signing_length : signing.length = 32
  deriving DecidableEq

namespace IdentityKeypair

def blobSize : Nat := 64

def serializedPrivateBlob (i : IdentityKeypair) : Data := i.agreement ++ i.signing

/-- None where the source throws `corruptedKeyData`; any 32 bytes are a private key. -/
def ofPrivateBlob? (blob : Data) : Option IdentityKeypair :=
  if h : blob.length = blobSize then
    some ⟨blob.take 32, blob.drop 32, by simp only [List.length_take, blobSize] at *; omega,
      by simp only [List.length_drop, blobSize] at *; omega⟩
  else none

theorem ofPrivateBlob?_serializedPrivateBlob (i : IdentityKeypair) :
    ofPrivateBlob? i.serializedPrivateBlob = some i := by
  have hlength : i.serializedPrivateBlob.length = blobSize := by
    rw [serializedPrivateBlob, List.length_append, i.agreement_length, i.signing_length, blobSize]
  have htake : i.serializedPrivateBlob.take 32 = i.agreement := List.take_left' i.agreement_length
  have hdrop : i.serializedPrivateBlob.drop 32 = i.signing := List.drop_left' i.agreement_length
  rw [ofPrivateBlob?, dif_pos hlength]
  cases i
  simp only [Option.some.injEq, mk.injEq]
  exact ⟨htake, hdrop⟩

/-- An identity of which every byte is the same. -/
def uniform (byte : UInt8) : IdentityKeypair :=
  ⟨List.replicate 32 byte, List.replicate 32 byte, List.length_replicate, List.length_replicate⟩

end IdentityKeypair

inductive IdentityError
  | notFound
  | alreadyExists
  | corruptedKeyData
  | identityUnwrapFailed
  | keychain (status : OSStatus)
  | accessControlCreationFailed

namespace IdentityStore

inductive Protection
  | devicePasscode
  | deviceUnlockOnly
  deriving DecidableEq

end IdentityStore

structure IdentityStore where
  service : String
  protection : IdentityStore.Protection
  /-- None where there is no Enclave. -/
  wrapper : Option SecureEnclaveWrapper

namespace IdentityStore

def account : String := "identity.v1"

def kdfContext : Data := utf8 "beacon.identity.wrap.v1"

/-- What the environment answers to a call of the store. -/
structure Reply (k : CryptoKit) where
  copies : Option Refusal := none
  enclave : SecureEnclaveWrapper.Reply k
  /-- The identity that is generated. -/
  generated : IdentityKeypair
  makesAccessControl : Bool := true
  adds : Option Refusal := none
  updates : Option Refusal := none

variable (k : CryptoKit) (st : IdentityStore) (items : KeychainItems) (reply : Reply k)

def item : String × String := (st.service, account)

/-- The blob that a stored item holds. -/
def unwrapStored (stored : Data) : KeychainItems × Except IdentityError Data :=
  match SecureEnclaveWrapper.unwrapFromStorage k st.wrapper items reply.enclave kdfContext
    stored with
  | (items, some blob) => (items, .ok blob)
  | (items, none) => (items, .error .identityUnwrapFailed)

def load : KeychainItems × Except IdentityError IdentityKeypair :=
  match copyMatching items st.item reply.copies with
  | .ok stored =>
    match st.unwrapStored k items reply stored with
    | (items, .error error) => (items, .error error)
    | (items, .ok blob) =>
      (items, match IdentityKeypair.ofPrivateBlob? blob with
        | some identity => .ok identity
        | none => .error .corruptedKeyData)
  | .error status =>
    (items, .error (if status = errSecItemNotFound then .notFound else .keychain status))

/-- What is to be stored for an identity. -/
def payload (identity : IdentityKeypair) : KeychainItems × Except IdentityError Data :=
  match SecureEnclaveWrapper.wrapForStorage k st.wrapper items reply.enclave
    identity.serializedPrivateBlob kdfContext with
  | (items, some payload) => (items, .ok payload)
  | (items, none) => (items, .error .corruptedKeyData)

def save (identity : IdentityKeypair) (overwrites : Bool) :
    KeychainItems × Except IdentityError Unit :=
  match st.payload k items reply identity with
  | (items, .error error) => (items, .error error)
  | (items, .ok payload) =>
    if st.protection = .devicePasscode ∧ ¬reply.makesAccessControl then
      (items, .error .accessControlCreationFailed)
    else
      let added := add items st.item payload reply.adds
      if added.2 = errSecSuccess then (added.1, .ok ())
      else if added.2 = errSecDuplicateItem then
        if overwrites then
          let updated := update added.1 st.item payload reply.updates
          (updated.1, if updated.2 = errSecSuccess then .ok () else .error (.keychain updated.2))
        else (added.1, .error .alreadyExists)
      else (added.1, .error (.keychain added.2))

/-- The identity on first launch is generated and saved; any other error is passed on. -/
def loadOrCreate : KeychainItems × Except IdentityError IdentityKeypair :=
  match st.load k items reply with
  | (items, .error .notFound) =>
    let saved := st.save k items reply reply.generated false
    (saved.1, saved.2.map fun _ => reply.generated)
  | result => result

def delete (deletes : Option Refusal) : KeychainItems × Except IdentityError Unit :=
  let deleted := Keychain.delete items st.item deletes
  (deleted.1, if deleted.2 = errSecSuccess ∨ deleted.2 = errSecItemNotFound then .ok ()
    else .error (.keychain deleted.2))

/-- A call of the store, with the environment's answers, or a change of another item, by
whomever. -/
inductive Event (k : CryptoKit)
  | load (reply : Reply k)
  | loadOrCreate (reply : Reply k)
  | save (identity : IdentityKeypair) (overwrites : Bool) (reply : Reply k)
  | delete (deletes : Option Refusal)
  | other (item : String × String) (value : Option Data)

def step : Event k → KeychainItems
  | .load reply => (st.load k items reply).1
  | .loadOrCreate reply => (st.loadOrCreate k items reply).1
  | .save identity overwrites reply => (st.save k items reply identity overwrites).1
  | .delete deletes => (st.delete items deletes).1
  | .other item value => if item = st.item then items else Function.update items item value

def run (items : KeychainItems) (events : List (Event k)) : KeychainItems :=
    events.foldl (st.step k) items

/-- The caller has the identity after the event. -/
def Yields (event : Event k) (identity : IdentityKeypair) : Prop :=
  match event with
  | .load reply => (st.load k items reply).2 = .ok identity
  | .loadOrCreate reply => (st.loadOrCreate k items reply).2 = .ok identity
  | .save saved overwrites reply => saved = identity ∧ (st.save k items reply saved overwrites).2 =
      .ok ()
  | _ => False

/-- The event deletes the identity or replaces it. -/
def Ends (event : Event k) : Prop :=
  match event with
  | .delete deletes => (st.delete items deletes).2 = .ok ()
  | .save identity true reply => (st.save k items reply identity true).2 = .ok ()
  | _ => False

/-- No event of the run deletes the identity or replaces it. -/
def Kept : KeychainItems → List (Event k) → Prop
  | _, [] => True
  | items, event :: events => ¬st.Ends k items event ∧ Kept (st.step k items event) events

/-- What is stored for an identity, with a key of the Enclave or with none. -/
def Holds (identity : IdentityKeypair) (key : Option k.EnclaveKey) (stored : Data) : Prop :=
  SecureEnclaveWrapper.Wraps k st.wrapper identity.serializedPrivateBlob kdfContext stored key

variable {k st items reply}

/-! ### Reading -/

theorem account_ne : account ≠ SecureEnclaveWrapper.account := by decide

theorem item_ne (w : SecureEnclaveWrapper) : w.item ≠ st.item :=
    fun h => account_ne (congrArg Prod.snd h).symm

theorem unwrapStored_items (st : IdentityStore) (items : KeychainItems) (reply : Reply k)
    (stored : Data) :
    (st.unwrapStored k items reply stored).1 =
      (SecureEnclaveWrapper.unwrapFromStorage k st.wrapper items reply.enclave kdfContext
        stored).1 := by
  unfold unwrapStored
  rcases SecureEnclaveWrapper.unwrapFromStorage k st.wrapper items reply.enclave kdfContext
    stored with ⟨after, _ | blob⟩ <;> rfl

/-- A stored item that does not unwrap is not reported missing. -/
theorem unwrapStored_ne (st : IdentityStore) (items : KeychainItems) (reply : Reply k)
    (stored : Data) :
    (st.unwrapStored k items reply stored).2 ≠ .error .notFound := by
  unfold unwrapStored
  rcases SecureEnclaveWrapper.unwrapFromStorage k st.wrapper items reply.enclave kdfContext
    stored with ⟨after, _ | blob⟩ <;> simp

theorem load_reaches (st : IdentityStore) (items : KeychainItems) (reply : Reply k) :
    SecureEnclaveWrapper.Reaches k st.wrapper items reply.enclave (st.load k items reply).1 := by
  unfold load
  cases copyMatching items st.item reply.copies with
  | error status => exact .inl rfl
  | ok stored =>
    have hreaches := SecureEnclaveWrapper.unwrapFromStorage_reaches st.wrapper items reply.enclave
      stored kdfContext
    rw [← unwrapStored_items] at hreaches
    dsimp only
    rcases hunwrapped : st.unwrapStored k items reply stored with ⟨after, error | blob⟩ <;>
      rw [hunwrapped] at hreaches <;> exact hreaches

/-- A load leaves the stored item as it was. -/
theorem load_item : (st.load k items reply).1 st.item = items st.item :=
    (load_reaches st items reply).other account_ne

/-- The identity is reported missing only where it is. -/
theorem load_eq_notFound (h : (st.load k items reply).2 = .error .notFound) :
    items st.item = none := by
  unfold load at h
  cases hcopied : copyMatching items st.item reply.copies with
  | error status =>
    rw [hcopied] at h
    dsimp only at h
    by_cases hmissing : status = errSecItemNotFound
    · rw [hmissing] at hcopied
      exact (copyMatching_eq_missing.mp hcopied).2
    · simp [if_neg hmissing] at h
  | ok stored =>
    rw [hcopied] at h
    dsimp only at h
    have hnot := unwrapStored_ne st items reply stored
    rcases hunwrapped : st.unwrapStored k items reply stored with ⟨after, error | blob⟩ <;>
      rw [hunwrapped] at h hnot <;> dsimp only at h
    · exact absurd (congrArg Except.error (Except.error.inj h)) hnot
    · cases hpair : IdentityKeypair.ofPrivateBlob? blob <;> simp [hpair] at h

/-- What a load of a stored identity answers. -/
theorem load_of_holds (h : k.Ideal) (reply : Reply k) {identity : IdentityKeypair}
    {key : Option k.EnclaveKey} {stored : Data} (hitem : items st.item = some stored)
    (hholds : st.Holds k identity key stored) :
    ((st.load k items reply).2 = .ok identity ∧
      SecureEnclaveWrapper.KeyInUse k st.wrapper items reply.enclave key) ∨
    ((st.load k items reply).2 = .error .identityUnwrapFailed ∧
      ¬SecureEnclaveWrapper.KeyInUse k st.wrapper items reply.enclave key) ∨
    ∃ refusal, (st.load k items reply).2 = .error (.keychain refusal.status) ∧
    reply.copies = some refusal := by
  unfold load
  cases hcopies : reply.copies with
  | some refusal =>
    refine .inr (.inr ⟨refusal, ?_, rfl⟩)
    simp [copyMatching, refusal.not_missing]
  | none =>
    simp only [copyMatching, hitem, unwrapStored]
    rcases SecureEnclaveWrapper.unwrapFromStorage_of_wraps h items reply.enclave hholds with
      ⟨hread, hused⟩ | ⟨hread, hused⟩ <;>
      rcases hresult : SecureEnclaveWrapper.unwrapFromStorage k st.wrapper items reply.enclave
        kdfContext stored with ⟨after, result⟩ <;>
      rw [hresult] at hread <;> obtain rfl : result = _ := hread
    · exact .inl ⟨by simp [IdentityKeypair.ofPrivateBlob?_serializedPrivateBlob], hused⟩
    · exact .inr (.inl ⟨rfl, hused⟩)

/-! ### Writing -/

/-- What is to be stored holds the identity. -/
theorem payload_holds {identity : IdentityKeypair} {stored : Data}
    (h : (st.payload k items reply identity).2 = .ok stored) :
    ∃ key, st.Holds k identity key stored := by
  revert h
  unfold payload
  have hwraps := @SecureEnclaveWrapper.wraps_of_wrapForStorage k st.wrapper items reply.enclave
    identity.serializedPrivateBlob kdfContext
  rcases hresult : SecureEnclaveWrapper.wrapForStorage k st.wrapper items reply.enclave
    identity.serializedPrivateBlob kdfContext with ⟨after, _ | payload⟩ <;>
      rw [hresult] at hwraps <;> intro h
  · cases h
  · obtain rfl : payload = stored := Except.ok.inj h
    exact hwraps rfl

theorem payload_reaches (st : IdentityStore) (items : KeychainItems) (reply : Reply k)
    (identity : IdentityKeypair) :
    SecureEnclaveWrapper.Reaches k st.wrapper items reply.enclave
      (st.payload k items reply identity).1 := by
  have hreaches := SecureEnclaveWrapper.wrapForStorage_reaches st.wrapper items reply.enclave
    identity.serializedPrivateBlob kdfContext
  unfold payload
  rcases hresult : SecureEnclaveWrapper.wrapForStorage k st.wrapper items reply.enclave
    identity.serializedPrivateBlob kdfContext with ⟨after, _ | payload⟩ <;>
      rw [hresult] at hreaches <;>
    exact hreaches

/-- What is saved is stored, over an older identity only on request; a failure leaves the item as
it was. -/
theorem save_cases (st : IdentityStore) (items : KeychainItems) (reply : Reply k)
    (identity : IdentityKeypair) (overwrites : Bool) :
    ((st.save k items reply identity overwrites).2 = .ok () ∧ (items st.item = none ∨ overwrites) ∧
      ∃ key stored, st.Holds k identity key stored ∧
        (st.save k items reply identity overwrites).1 st.item = some stored) ∨
    ((st.save k items reply identity overwrites).2 ≠ .ok () ∧
      (st.save k items reply identity overwrites).1 st.item = items st.item) := by
  have hitem : (st.payload k items reply identity).1 st.item = items st.item :=
    (payload_reaches st items reply identity).other account_ne
  have hholds := @payload_holds k st items reply identity
  unfold save
  rcases hpayload : st.payload k items reply identity with ⟨after, error | payload⟩ <;>
    rw [hpayload] at hitem hholds <;> dsimp only at hitem ⊢
  · exact .inr ⟨by simp, hitem⟩
  · obtain ⟨key, hkey⟩ := hholds rfl
    split
    · exact .inr ⟨by simp, hitem⟩
    · rcases add_cases after st.item payload reply.adds with ⟨hadded, hnone, hafter⟩ |
        ⟨hadded, hafter, _⟩
      · rw [if_pos hadded]
        exact .inl ⟨rfl, .inl (hitem ▸ hnone), key, payload, hkey, by simp [hafter]⟩
      · rw [if_neg hadded]
        split
        · cases overwrites with
          | false => exact .inr ⟨by simp, by simp [hafter, hitem]⟩
          | true =>
            rw [hafter]
            rcases update_cases after st.item payload reply.updates with ⟨hupdated, _, hlast⟩ |
              ⟨hupdated, hlast⟩
            · exact .inl ⟨by simp [hupdated], .inr rfl, key, payload, hkey, by simp [hlast]⟩
            · exact .inr ⟨by simp [hupdated], by simp [hlast, hitem]⟩
        · exact .inr ⟨by simp, by rw [hafter, hitem]⟩

/-- A call that creates an identity does so only where there is none. -/
theorem loadOrCreate_cases (st : IdentityStore) (items : KeychainItems) (reply : Reply k) :
    (st.loadOrCreate k items reply = st.load k items reply) ∨
    (items st.item = none ∧
      (((st.loadOrCreate k items reply).2 = .ok reply.generated ∧ ∃ key stored,
        st.Holds k reply.generated key stored ∧ (st.loadOrCreate k items reply).1 st.item =
          some stored) ∨
      ((∀ identity, (st.loadOrCreate k items reply).2 ≠ .ok identity) ∧
        (st.loadOrCreate k items reply).1 st.item = none))) := by
  have hmissing := @load_eq_notFound k st items reply
  have hitem := @load_item k st items reply
  unfold loadOrCreate
  rcases hload : st.load k items reply with ⟨after, error | identity⟩ <;>
    rw [hload] at hmissing hitem
  · cases error with
    | notFound =>
      have hnone := hmissing rfl
      refine .inr ⟨hnone, ?_⟩
      have hafter : after st.item = none := hitem.trans hnone
      rcases save_cases st after reply reply.generated false with ⟨hsaved, _, hstored⟩ |
        ⟨hfailed, hsame⟩
      · exact .inl ⟨by simp only [hsaved]; rfl, hstored⟩
      · refine .inr ⟨fun identity => ?_, hsame.trans hafter⟩
        cases hresult : (st.save k after reply reply.generated false).2 with
        | ok => exact absurd hresult hfailed
        | error error => simp [hresult, Except.map]
    | _ => exact .inl rfl
  · exact .inl rfl

/-! ### Runs -/

/-- What the step of an event does to the stored item: it ends it, leaves it as it was, or stores
an identity where there was none, which the caller then has. -/
theorem step_item (st : IdentityStore) (items : KeychainItems) (event : Event k) :
    st.Ends k items event ∨ st.step k items event st.item = items st.item ∨
    (items st.item = none ∧ ∃ identity key stored, st.Holds k identity key stored ∧
      st.step k items event st.item = some stored) := by
  cases event with
  | load reply => exact .inr (.inl load_item)
  | loadOrCreate reply =>
    right
    simp only [step]
    rcases loadOrCreate_cases st items reply with hload | ⟨hnone, ⟨_, hstored⟩ | ⟨_, hsame⟩⟩
    · exact .inl (by rw [hload, load_item])
    · exact .inr ⟨hnone, reply.generated, hstored⟩
    · exact .inl (hsame.trans hnone.symm)
  | save identity overwrites reply =>
    simp only [step]
    rcases save_cases st items reply identity overwrites with ⟨hsaved, hwhen, hstored⟩ | ⟨_, hsame⟩
    · cases overwrites with
      | true => exact .inl hsaved
      | false =>
        have hnone : items st.item = none := hwhen.resolve_right (by simp)
        exact .inr (.inr ⟨hnone, identity, hstored⟩)
    · exact .inr (.inl hsame)
  | delete deletes =>
    by_cases hended : st.Ends k items (.delete deletes)
    · exact .inl hended
    · refine .inr (.inl ?_)
      simp only [Ends, delete] at hended
      simp only [step, delete]
      rcases delete_cases items st.item deletes with ⟨hstatus, _⟩ | ⟨_, _, hsame⟩
      · exact absurd (by rw [if_pos hstatus]) hended
      · rw [hsame]
  | other item value =>
    refine .inr (.inl ?_)
    simp only [step]
    split
    · rfl
    · rename_i hother
      exact Function.update_of_ne (Ne.symm hother) _ _

/-- The item that an event ends holds nothing afterwards, or an identity. -/
theorem step_item_of_ends {event : Event k} (h : st.Ends k items event) :
    st.step k items event st.item = none ∨ ∃ identity key stored, st.Holds k identity key stored ∧
      st.step k items event st.item = some stored := by
  cases event with
  | save identity overwrites reply =>
    cases overwrites with
    | false => exact h.elim
    | true =>
      rcases save_cases st items reply identity true with ⟨_, _, hstored⟩ | ⟨hfailed, _⟩
      · exact .inr ⟨identity, hstored⟩
      · exact absurd h hfailed
  | delete deletes =>
    left
    simp only [Ends, delete] at h
    simp only [step, delete]
    rcases delete_cases items st.item deletes with ⟨_, hgone⟩ | ⟨hsuccess, hmissing, _⟩
    · rw [hgone, Function.update_self]
    · rw [if_neg (by tauto)] at h
      cases h
  | load reply => exact h.elim
  | loadOrCreate reply => exact h.elim
  | other item value => exact h.elim

/-- What is stored, if anything, is an identity. -/
def Sound (k : CryptoKit) (st : IdentityStore) (items : KeychainItems) : Prop :=
  ∀ stored, items st.item = some stored → ∃ identity key, st.Holds k identity key stored

theorem step_sound (h : Sound k st items) (event : Event k) :
    Sound k st (st.step k items event) := by
  intro stored hstored
  rcases step_item st items event with hends | hsame | ⟨_, identity, key, written, hholds, hafter⟩
  · rcases step_item_of_ends hends with hnone | ⟨identity, key, written, hholds, hafter⟩
    · rw [hnone] at hstored
      cases hstored
    · obtain rfl : written = stored := Option.some.inj (hafter.symm.trans hstored)
      exact ⟨identity, key, hholds⟩
  · exact h stored (hsame ▸ hstored)
  · obtain rfl : written = stored := Option.some.inj (hafter.symm.trans hstored)
    exact ⟨identity, key, hholds⟩

theorem run_sound (h : Sound k st items) (events : List (Event k)) :
    Sound k st (st.run k items events) := by
  induction events generalizing items with
  | nil => exact h
  | cons event events ih => exact ih (step_sound h event)

/-- The stored item stays as it is until an event ends it. -/
theorem run_item {stored : Data} (hitem : items st.item = some stored) {events : List (Event k)}
    (hkept : st.Kept k items events) : st.run k items events st.item = some stored := by
  induction events generalizing items with
  | nil => exact hitem
  | cons event events ih =>
    refine ih ?_ hkept.2
    rcases step_item st items event with hends | hsame | ⟨hnone, _⟩
    · exact absurd hends hkept.1
    · exact hsame.trans hitem
    · rw [hnone] at hitem
      cases hitem

/-- Only one identity is stored at a time. -/
theorem holds_unique (h : k.Ideal) {i j : IdentityKeypair} {key key' : Option k.EnclaveKey}
    {stored : Data} (hi : st.Holds k i key stored) (hj : st.Holds k j key' stored) : i = j := by
  have hpair := IdentityKeypair.ofPrivateBlob?_serializedPrivateBlob i
  rw [(SecureEnclaveWrapper.wraps_unique h hi hj).1,
    IdentityKeypair.ofPrivateBlob?_serializedPrivateBlob] at hpair
  exact (Option.some.inj hpair).symm

/-- Who has an identity after an event has the one that is stored. -/
theorem stored_of_yields (h : k.Ideal) (hsound : Sound k st items) {event : Event k}
    {identity : IdentityKeypair} (hyields : st.Yields k items event identity) :
    ∃ key stored, st.Holds k identity key stored ∧ st.step k items event st.item = some stored := by
  have hload : ∀ reply, (st.load k items reply).2 = .ok identity →
      ∃ key stored, st.Holds k identity key stored ∧ (st.load k items reply).1 st.item =
      some stored := by
    intro reply hload
    rw [load_item]
    cases hitem : items st.item with
    | none =>
      cases hcopies : reply.copies <;> simp [load, copyMatching, hitem, hcopies] at hload
    | some stored =>
      obtain ⟨held, key, hholds⟩ := hsound stored hitem
      rcases load_of_holds h reply hitem hholds with ⟨hheld, _⟩ | ⟨hfailed, _⟩ | ⟨_, hfailed, _⟩
      · obtain rfl : held = identity := Except.ok.inj (hheld.symm.trans hload)
        exact ⟨key, stored, hholds, rfl⟩
      · rw [hfailed] at hload
        cases hload
      · rw [hfailed] at hload
        cases hload
  cases event with
  | load reply => exact hload reply hyields
  | loadOrCreate reply =>
    simp only [Yields] at hyields
    simp only [step]
    rcases loadOrCreate_cases st items reply with hloaded | ⟨_, ⟨hcreated, hstored⟩ | ⟨hfailed, _⟩⟩
    · rw [hloaded] at hyields ⊢
      exact hload reply hyields
    · obtain rfl : reply.generated = identity := Except.ok.inj (hcreated.symm.trans hyields)
      exact hstored
    · exact absurd hyields (hfailed identity)
  | save saved overwrites reply =>
    obtain ⟨rfl, hsaved⟩ := hyields
    rcases save_cases st items reply saved overwrites with ⟨_, _, hstored⟩ | ⟨hfailed, _⟩
    · exact hstored
    · exact absurd hsaved hfailed
  | delete deletes => exact hyields.elim
  | other item value => exact hyields.elim

theorem kept_append {events later : List (Event k)} :
    st.Kept k items (events ++ later) ↔ st.Kept k items events ∧
      st.Kept k (st.run k items events) later := by
  induction events generalizing items with
  | nil => simp [Kept, run]
  | cons event events ih => simp only [List.cons_append, Kept, ih, run, List.foldl_cons, and_assoc]

/-- An identity that a caller has is the one that every later caller has, until it is deleted or
replaced; a read that does not give it tells of the Enclave or of the Keychain. -/
theorem identity_permanent (h : k.Ideal) (hnone : items st.item = none)
    {before between : List (Event k)} {t u : Event k} {identity : IdentityKeypair}
    (ht : st.Yields k (st.run k items before) t identity)
    (hkept : st.Kept k (st.run k items (before ++ [t])) (between ++ [u])) :
    (∀ other, st.Yields k (st.run k items (before ++ t :: between)) u other → other = identity) ∧
    ∀ reply, (st.load k (st.run k items (before ++ t :: between)) reply).2 = .ok identity ∨
      (st.load k (st.run k items (before ++ t :: between)) reply).2 = .error .identityUnwrapFailed ∨
      ∃ refusal, reply.copies = some refusal ∧
        (st.load k (st.run k items (before ++ t :: between)) reply).2 =
        .error (.keychain refusal.status) := by
  have hsound : Sound k st items := by
    intro stored hstored
    rw [hnone] at hstored
    cases hstored
  obtain ⟨key, stored, hholds, hstored⟩ := stored_of_yields h (run_sound hsound before) ht
  have hfirst : st.run k items (before ++ [t]) st.item = some stored := by
    rw [run, List.foldl_append]
    exact hstored
  obtain ⟨hbetween, hlast⟩ := kept_append.mp hkept
  have hsplit : st.run k items (before ++ t :: between) =
    st.run k (st.run k items (before ++ [t])) between := by
    simp [run]
  have hlater : st.run k items (before ++ t :: between) st.item = some stored := by
    rw [hsplit]
    exact run_item hfirst hbetween
  refine ⟨fun other hother => ?_, fun reply => ?_⟩
  · obtain ⟨key', stored', hholds', hstored'⟩ := stored_of_yields h (run_sound hsound _) hother
    have hsame : st.run k (st.run k items (before ++ t :: between)) [u] st.item = some stored :=
      run_item hlater (hsplit ▸ hlast)
    obtain rfl : stored' = stored := Option.some.inj (hstored'.symm.trans hsame)
    exact holds_unique h hholds' hholds
  · rcases load_of_holds h reply hlater hholds with ⟨hloaded, _⟩ | ⟨hfailed, _⟩ |
      ⟨refusal, hfailed, hcopies⟩
    · exact .inl hloaded
    · exact .inr (.inl hfailed)
    · exact .inr (.inr ⟨refusal, hcopies, hfailed⟩)

/-- The environment lets everything be done. -/
def Reply.granting (enclaveKey : Data) (identity : IdentityKeypair) : Reply .transparent where
  enclave :=
    { generated := some enclaveKey, ephemeral := (), nonce := List.replicate 12 0,
      nonce_length := CryptoKit.length_zeros }
  generated := identity

/-- A store on a device with an Enclave. -/
def onDevice : IdentityStore := ⟨"s", .deviceUnlockOnly, some ⟨"e"⟩⟩

set_option maxRecDepth 2000 in
/-- An identity is created, another one is refused, and the first is read again, as the only one. -/
theorem identity_permanent_created :
    let events : List (Event .transparent) :=
      [.loadOrCreate (.granting [7] (.uniform 1)), .save (.uniform 2) false
        (.granting [8] (.uniform 2))]
    let items := onDevice.run .transparent (fun _ => none) events
    let read : Event .transparent := .load (.granting [9] (.uniform 3))
    onDevice.Yields .transparent items read (.uniform 1) ∧
      ∀ other, onDevice.Yields .transparent items read other → other = .uniform 1 :=
  ⟨rfl, (@identity_permanent .transparent onDevice (fun _ => none) CryptoKit.transparent_ideal rfl
  []
    [.save (.uniform 2) false (.granting [8] (.uniform 2))]
    (.loadOrCreate (.granting [7] (.uniform 1)))
    (.load (.granting [9] (.uniform 3))) (.uniform 1) rfl ⟨id, id, trivial⟩).1⟩

/-! ### Losing the key of the Enclave -/

/-- The stored identity is wrapped with a key of the Enclave that the Keychain does not refer to. -/
structure Lost (k : CryptoKit) (st : IdentityStore) (w : SecureEnclaveWrapper) (key : k.EnclaveKey)
    (items : KeychainItems) : Prop where
  wrapped : ∃ identity stored, items st.item = some stored ∧ st.Holds k identity (some key) stored
  gone : SecureEnclaveWrapper.Gone k items w key

/-- The event brings a reference of the key into the Keychain: the Enclave generates the same key
again, or someone puts the reference back. -/
def Restores (w : SecureEnclaveWrapper) (key : k.EnclaveKey) : Event k → Prop
  | .load reply | .loadOrCreate reply | .save _ _ reply => reply.enclave.generated = some key
  | .delete _ => False
  | .other item value => item = w.item ∧ ∃ representation, value = some representation ∧
    k.restore representation = some key

variable {w : SecureEnclaveWrapper} {key : k.EnclaveKey}

/-- A save changes nothing else once the key of the Enclave is had. -/
theorem save_other (st : IdentityStore) (items : KeychainItems) (reply : Reply k)
    (identity : IdentityKeypair)
    (overwrites : Bool) {other : String × String} (hother : other ≠ st.item) :
    (st.save k items reply identity overwrites).1 other =
    (st.payload k items reply identity).1 other := by
  unfold save
  rcases st.payload k items reply identity with ⟨after, error | payload⟩
  · rfl
  · have hadd : (add after st.item payload reply.adds).1 other = after other :=
      (@other_untouched _ _ after st.item payload reply.adds _ other hother).1
    dsimp only
    split
    · rfl
    · split
      · exact hadd
      · split
        · split
          · rw [(other_untouched hother).2.1, hadd]
          · exact hadd
        · exact hadd

/-- The key does not come back by itself. -/
theorem step_gone (h : k.Ideal) (hw : st.wrapper = some w)
    (hgone : SecureEnclaveWrapper.Gone k items w key) {event : Event k}
    (hnot : ¬Restores w key event) : SecureEnclaveWrapper.Gone k (st.step k items event) w key := by
  have hne : w.item ≠ st.item := item_ne w
  have hsave : ∀ items reply identity overwrites, SecureEnclaveWrapper.Gone k items w key →
      reply.enclave.generated ≠ some key →
      SecureEnclaveWrapper.Gone k (st.save k items reply identity overwrites).1 w key := by
    intro items reply identity overwrites hgone hfresh representation
    rw [save_other st items reply identity overwrites hne]
    exact (hw ▸ payload_reaches st items reply identity).gone h hgone hfresh representation
  have hload : ∀ reply : Reply k, reply.enclave.generated ≠ some key →
      SecureEnclaveWrapper.Gone k (st.load k items reply).1 w key :=
    fun reply hfresh => (hw ▸ load_reaches st items reply).gone h hgone hfresh
  cases event with
  | load reply => exact hload reply hnot
  | loadOrCreate reply =>
    have hloaded := hload reply hnot
    simp only [step]
    unfold loadOrCreate
    rcases hresult : st.load k items reply with ⟨after, error | identity⟩ <;>
      rw [hresult] at hloaded
    · cases error with
      | notFound => exact hsave after reply reply.generated false hloaded hnot
      | _ => exact hloaded
    · exact hloaded
  | save identity overwrites reply => exact hsave items reply identity overwrites hgone hnot
  | delete deletes =>
    intro representation
    simp only [step, delete]
    rcases delete_cases items st.item deletes with ⟨_, hafter⟩ | ⟨_, _, hafter⟩
    · rw [hafter, Function.update_of_ne hne]
      exact hgone representation
    · rw [hafter]
      exact hgone representation
  | other item value =>
    intro representation
    simp only [step]
    split
    · exact hgone representation
    · by_cases hitem : item = w.item
      · rw [hitem, Function.update_self]
        intro hvalue hrestored
        exact hnot ⟨hitem, representation, hvalue, hrestored⟩
      · rw [Function.update_of_ne (Ne.symm hitem)]
        exact hgone representation

theorem run_lost (h : k.Ideal) (hw : st.wrapper = some w) (hlost : Lost k st w key items)
    {events : List (Event k)}
    (hkept : st.Kept k items events) (hnot : ∀ event ∈ events, ¬Restores w key event) :
    Lost k st w key (st.run k items events) := by
  obtain ⟨⟨identity, stored, hitem, hholds⟩, hgone⟩ := hlost
  refine ⟨⟨identity, stored, run_item hitem hkept, hholds⟩, ?_⟩
  clear hkept hitem
  induction events generalizing items with
  | nil => exact hgone
  | cons event events ih =>
    exact ih (fun later hlater => hnot later (List.mem_cons_of_mem _ hlater))
      (step_gone h hw hgone (hnot event List.mem_cons_self))

/-- Without the key that it was wrapped with, the identity is not read, and not taken for a missing
one. -/
theorem load_of_unused (h : k.Ideal) {identity : IdentityKeypair} {stored : Data}
    (hitem : items st.item = some stored) (hholds : st.Holds k identity (some key) stored)
    (hunused : ¬SecureEnclaveWrapper.KeyInUse k st.wrapper items reply.enclave (some key)) :
    (st.load k items reply).2 = .error .identityUnwrapFailed ∨
      ∃ refusal, reply.copies = some refusal ∧ (st.load k items reply).2 =
      .error (.keychain refusal.status) := by
  rcases load_of_holds h reply hitem hholds with ⟨_, hused⟩ | ⟨hfailed, _⟩ |
    ⟨refusal, hfailed, hcopies⟩
  · exact absurd hused hunused
  · exact .inl hfailed
  · exact .inr ⟨refusal, hcopies, hfailed⟩

/-- One read during which the Enclave does not take the reference of its key costs the identity,
where the Keychain lets the reference be deleted. -/
theorem lost_of_refused (h : k.Ideal) (hw : st.wrapper = some w) {identity : IdentityKeypair}
    {stored : Data}
    (hitem : items st.item = some stored) (hholds : st.Holds k identity (some key) stored)
    (hcopies : reply.copies = none) (hanswers : reply.enclave.copies = none)
    (hrefused : reply.enclave.restores = false) (hdeletes : reply.enclave.deletes = none)
    (hfresh : reply.enclave.generated ≠ some key) : Lost k st w key (st.load k items reply).1 := by
  refine ⟨⟨identity, stored, load_item.trans hitem, hholds⟩, ?_⟩
  have hafter : (st.load k items reply).1 = (w.loadOrCreateEnclaveKey k items reply.enclave).1 := by
    unfold Holds at hholds
    rw [hw] at hholds
    rw [← SecureEnclaveWrapper.unwrapFromStorage_items h hholds, ← hw, ← unwrapStored_items]
    simp only [load, hcopies, copyMatching, hitem]
    rcases st.unwrapStored k items reply stored with ⟨after, error | blob⟩ <;> rfl
  rw [hafter]
  exact SecureEnclaveWrapper.gone_of_refused h items hanswers hrefused hdeletes hfresh

end IdentityStore

end AeroNyra
