import AeroNyra.Identity.Wrapping

/-! The vault of message contents: a data key, stored wrapped in the Keychain and in memory only
while the vault is unlocked.  A record opens exactly while the vault is unlocked with the key that
it was sealed with, and never again once that key is destroyed. -/

namespace AeroNyra.AtRest

open Keychain SecureEnclaveWrapper

inductive VaultError
  | locked
  | notProvisioned
  | authenticationFailed
  | accessControlCreationFailed
  | wrapping
  | cryptographicFailure
  | keychain (status : OSStatus)

inductive Protection
  | userPresence
  | deviceUnlockOnly
  deriving DecidableEq

structure MessageVault where
  service : String
  protection : Protection
  /-- None where there is no Enclave. -/
  wrapper : Option SecureEnclaveWrapper

/-- The Keychain, and the data key that the vault has in memory. -/
structure Device where
  items : KeychainItems
  dek : Option Data

def errSecInteractionNotAllowed : OSStatus := -25308

def errSecUserCanceled : OSStatus := -128

def errSecAuthFailed : OSStatus := -25293

namespace MessageVault

def dekByteCount : Nat := 32

def kdfContext : Data := utf8 "beacon.vault.dek.v1"

def account : String := "vault.dek.v1"

/-- What the environment answers to a call of the vault. -/
structure Reply (k : CryptoKit) where
  finds : Option Refusal := none
  /-- An item that asks for the user is passed over when none is to be asked. -/
  skips : Bool := false
  /-- The bytes of a new key; none when the generator fails. -/
  random : Option Data := none
  makesAccessControl : Bool := true
  adds : Option Refusal := none
  copies : Option Refusal := none
  enclave : SecureEnclaveWrapper.Reply k

variable (k : CryptoKit) (v : MessageVault) (s : Device) (reply : Reply k)

def item : String × String := (v.service, account)

def isUnlocked : Bool := s.dek.isSome

/-- An item that may not be read without the user is there; the search may also pass it over. -/
def keychainItemExists : Except VaultError Bool :=
  match if v.protection = .userPresence ∧ reply.skips then .error errSecItemNotFound
    else copyMatching s.items v.item reply.finds with
  | .ok _ => .ok true
  | .error status =>
    if status = errSecInteractionNotAllowed then .ok true
    else if status = errSecItemNotFound then .ok false
    else .error (.keychain status)

def storeWrappedDEK (payload : Data) : KeychainItems × Except VaultError Unit :=
  if v.protection = .userPresence ∧ ¬reply.makesAccessControl
    then (s.items, .error .accessControlCreationFailed)
  else
    let added := add s.items v.item payload reply.adds
    (added.1, if added.2 = errSecSuccess then .ok () else .error (.keychain added.2))

/-- Whether a new key was made. -/
def provisionIfNeeded : Device × Except VaultError Bool :=
  match v.keychainItemExists k s reply with
  | .error error => (s, .error error)
  | .ok true => (s, .ok false)
  | .ok false =>
    match reply.random with
    | none => (s, .error .cryptographicFailure)
    | some raw =>
      match wrapForStorage k v.wrapper s.items reply.enclave raw kdfContext with
      | (items, none) => ({ s with items }, .error .wrapping)
      | (items, some payload) =>
        let stored := v.storeWrappedDEK k { s with items } reply payload
        ({ s with items := stored.1 }, stored.2.map fun _ => true)

/-- None where there is no item; the user may cancel or fail. -/
def readWrappedDEK : Except VaultError (Option Data) :=
  match copyMatching s.items v.item reply.copies with
  | .ok payload => .ok (some payload)
  | .error status =>
    if status = errSecItemNotFound then .ok none
    else if status = errSecUserCanceled ∨ status = errSecAuthFailed then .error
      .authenticationFailed
    else .error (.keychain status)

def unlock : Device × Except VaultError Unit :=
  match v.readWrappedDEK k s reply with
  | .error error => (s, .error error)
  | .ok none => (s, .error .notProvisioned)
  | .ok (some payload) =>
    match unwrapFromStorage k v.wrapper s.items reply.enclave kdfContext payload with
    | (items, none) => ({ s with items }, .error .wrapping)
    | (items, some rawData) => (⟨items, some rawData⟩, .ok ())

def lock : Device := { s with dek := none }

def encrypt (plaintext aad nonce : Data) : Except VaultError Data :=
  match s.dek with
  | none => .error .locked
  | some dek => .ok (k.chaChaPoly.combined dek nonce plaintext aad)

def decrypt (ciphertext aad : Data) : Except VaultError Data :=
  match s.dek with
  | none => .error .locked
  | some dek =>
    match k.chaChaPoly.openCombined dek ciphertext aad with
    | some plaintext => .ok plaintext
    | none => .error .cryptographicFailure

def deleteWrappedDEK (deletes : Option Refusal) : KeychainItems × Except VaultError Unit :=
  let deleted := delete s.items v.item deletes
  (deleted.1, if deleted.2 = errSecSuccess ∨ deleted.2 = errSecItemNotFound then .ok ()
    else .error (.keychain deleted.2))

/-- The key of the Enclave is deleted last, whatever became of the data key; only the latter is
reported. -/
def destroy (deletes enclaveDeletes : Option Refusal) : Device × Except VaultError Unit :=
  let s := lock s
  let deleted := v.deleteWrappedDEK s deletes
  ({ s with items := v.wrapper.elim deleted.1 fun w =>
    (w.deleteEnclaveKey deleted.1 enclaveDeletes).1 }, deleted.2)

/-- A call of the vault, with the environment's answers, a new process, or a change of another
item. -/
inductive Event (k : CryptoKit)
  | provisionIfNeeded (reply : Reply k)
  | unlock (reply : Reply k)
  | lock
  | destroy (deletes enclaveDeletes : Option Refusal)
  | relaunch
  | other (item : String × String) (value : Option Data)

def step : Event k → Device
  | .provisionIfNeeded reply => (v.provisionIfNeeded k s reply).1
  | .unlock reply => (v.unlock k s reply).1
  | .lock | .relaunch => lock s
  | .destroy deletes enclaveDeletes => (v.destroy s deletes enclaveDeletes).1
  | .other item value => if item = v.item then s
      else { s with items := Function.update s.items item value }

def run (s : Device) (events : List (Event k)) : Device := events.foldl (v.step k) s

/-- What is stored of a data key, with a key of the Enclave or with none. -/
def Holds (dek : Data) (key : Option k.EnclaveKey) (stored : Data) : Prop :=
  Wraps k v.wrapper dek kdfContext stored key

/-- The event destroys the stored data key. -/
def Destroys : Event k → Prop
  | .destroy deletes enclaveDeletes => (v.destroy s deletes enclaveDeletes).2 = .ok ()
  | _ => False

/-- No event of the run destroys the data key. -/
def Kept : Device → List (Event k) → Prop
  | _, [] => True
  | s, event :: events => ¬v.Destroys k s event ∧ Kept (v.step k s event) events

/-- The bytes that are drawn for a new data key. -/
def Event.draws : Event k → Option Data
  | .provisionIfNeeded reply => reply.random
  | _ => none

variable {k v s reply}

theorem account_ne : account ≠ SecureEnclaveWrapper.account := by decide

theorem item_ne (w : SecureEnclaveWrapper) : w.item ≠ v.item :=
    fun h => account_ne (congrArg Prod.snd h).symm

/-! ### What the calls do -/

/-- A key is provisioned only where there is none; a failure leaves the stored item as it was. -/
theorem provisionIfNeeded_cases (v : MessageVault) (s : Device) (reply : Reply k) :
    (v.provisionIfNeeded k s reply).1.dek = s.dek ∧
    ((v.provisionIfNeeded k s reply).1.items v.item = s.items v.item ∨
      (s.items v.item = none ∧ ∃ raw key stored, reply.random = some raw ∧
        v.Holds k raw key stored ∧
        (v.provisionIfNeeded k s reply).1.items v.item = some stored)) := by
  unfold provisionIfNeeded
  rcases v.keychainItemExists k s reply with error | _ | _
  · exact ⟨rfl, .inl rfl⟩
  · cases hrandom : reply.random with
    | none => exact ⟨rfl, .inl rfl⟩
    | some raw =>
      have hreaches := wrapForStorage_reaches v.wrapper s.items reply.enclave raw kdfContext
      have hwraps := @wraps_of_wrapForStorage k v.wrapper s.items reply.enclave raw kdfContext
      dsimp only
      rcases hresult : wrapForStorage k v.wrapper s.items reply.enclave raw kdfContext with ⟨after,
        _ | payload⟩ <;>
        rw [hresult] at hreaches hwraps <;>
        have hitem : after v.item = s.items v.item := hreaches.other account_ne
      · exact ⟨rfl, .inl hitem⟩
      · refine ⟨rfl, ?_⟩
        dsimp only [storeWrappedDEK]
        split
        · exact .inl hitem
        · rcases add_cases after v.item payload reply.adds with ⟨_, hnone, hafter⟩ | ⟨_, hafter, _⟩
          · obtain ⟨key, hkey⟩ := hwraps rfl
            exact .inr ⟨hitem ▸ hnone, raw, key, payload, rfl, hkey, by simp [hafter]⟩
          · exact .inl (by simp [hafter, hitem])
  · exact ⟨rfl, .inl rfl⟩

theorem item_of_readWrappedDEK {payload : Data}
    (h : v.readWrappedDEK k s reply = .ok (some payload)) :
    s.items v.item = some payload := by
  unfold readWrappedDEK at h
  cases hcopied : copyMatching s.items v.item reply.copies with
  | ok found =>
    rw [hcopied] at h
    cases h
    exact (copyMatching_eq_ok.mp hcopied).2
  | error status =>
    rw [hcopied] at h
    dsimp only at h
    split at h
    · cases h
    · split at h <;> cases h

/-- The key in memory after an unlock is the one that is stored, or what was there before. -/
theorem unlock_cases (h : k.Ideal) (v : MessageVault) (s : Device) (reply : Reply k) :
    (v.unlock k s reply).1.items v.item = s.items v.item ∧
    ((v.unlock k s reply).1.dek = s.dek ∨ ∃ stored, s.items v.item = some stored ∧
      ∀ dek key, v.Holds k dek key stored →
        (v.unlock k s reply).1.dek = some dek ∧
        KeyInUse k v.wrapper s.items reply.enclave key) := by
  unfold unlock
  rcases hread : v.readWrappedDEK k s reply with error | _ | payload
  · exact ⟨rfl, .inl rfl⟩
  · exact ⟨rfl, .inl rfl⟩
  · have hreaches := unwrapFromStorage_reaches v.wrapper s.items reply.enclave payload kdfContext
    have hholds := fun dek key =>
      @unwrapFromStorage_of_wraps k v.wrapper dek kdfContext payload key h s.items reply.enclave
    dsimp only
    rcases hresult : unwrapFromStorage k v.wrapper s.items reply.enclave kdfContext payload with
      ⟨after, _ | rawData⟩ <;> rw [hresult] at hreaches hholds <;>
      have hsame : after v.item = s.items v.item := hreaches.other account_ne
    · exact ⟨hsame, .inl rfl⟩
    · refine ⟨hsame, .inr ⟨payload, item_of_readWrappedDEK hread, fun dek key hdek => ?_⟩⟩
      rcases hholds dek key hdek with ⟨hopened, hused⟩ | ⟨hopened, _⟩
      · exact ⟨hopened, hused⟩
      · cases hopened

/-- After the vault is destroyed nothing is in memory, and the item is gone if that is reported. -/
theorem destroy_cases (v : MessageVault) (s : Device) (deletes enclaveDeletes : Option Refusal) :
    (v.destroy s deletes enclaveDeletes).1.dek = none ∧
    (((v.destroy s deletes enclaveDeletes).2 = .ok () ∧
      (v.destroy s deletes enclaveDeletes).1.items v.item = none) ∨
      ((v.destroy s deletes enclaveDeletes).2 ≠ .ok () ∧
        (v.destroy s deletes enclaveDeletes).1.items v.item = s.items v.item)) := by
  refine ⟨rfl, ?_⟩
  have hother : ∀ after : KeychainItems,
    (v.wrapper.elim after fun w => (w.deleteEnclaveKey after enclaveDeletes).1)
      v.item = after v.item := by
    intro after
    cases v.wrapper with
    | none => rfl
    | some w => exact (@other_untouched _ _ after w.item [] enclaveDeletes _ v.item
        (item_ne w).symm).2.2
  dsimp only [destroy]
  rw [hother]
  dsimp only [deleteWrappedDEK, lock]
  rcases delete_cases s.items v.item deletes with ⟨hstatus, hafter⟩ | ⟨hsuccess, hmissing, hafter⟩
  · exact .inl ⟨by rw [if_pos hstatus], by rw [hafter, Function.update_self]⟩
  · exact .inr ⟨by rw [if_neg (by tauto)]; simp, by rw [hafter]⟩

/-- What an event does to the data key: it leaves it or locks it, or brings the stored one into
memory, or makes one where there is none, or destroys it. -/
inductive Effect (k : CryptoKit) (v : MessageVault) (s : Device) (event : Event k)
    (s' : Device) : Prop
  | rests (item : s'.items v.item = s.items v.item) (memory : s'.dek = s.dek ∨ s'.dek = none)
  | unlocks (reply : Reply k) (calls : event = .unlock reply)
      (item : s'.items v.item = s.items v.item)
    (stored : Data) (reads : s.items v.item = some stored)
    (opens : ∀ dek key, v.Holds k dek key stored → s'.dek = some dek ∧
      KeyInUse k v.wrapper s.items reply.enclave key)
  | provisions (raw : Data) (draws : event.draws = some raw) (missing : s.items v.item = none)
    (key : Option k.EnclaveKey) (stored : Data) (holds : v.Holds k raw key stored)
    (item : s'.items v.item = some stored) (memory : s'.dek = s.dek)
  | destroys (destroyed : v.Destroys k s event) (item : s'.items v.item = none)
      (memory : s'.dek = none)

theorem step_effect (h : k.Ideal) (v : MessageVault) (s : Device) (event : Event k) :
    Effect k v s event (v.step k s event) := by
  cases event with
  | provisionIfNeeded reply =>
    obtain ⟨hdek, hsame | ⟨hnone, raw, key, stored, hdraws, hholds, hitem⟩⟩ :=
      provisionIfNeeded_cases v s reply
    · exact .rests hsame (.inl hdek)
    · exact .provisions raw hdraws hnone key stored hholds hitem hdek
  | unlock reply =>
    obtain ⟨hsame, hkept | ⟨stored, hitem, hopens⟩⟩ := unlock_cases h v s reply
    · exact .rests hsame (.inl hkept)
    · exact .unlocks reply rfl hsame stored hitem hopens
  | lock => exact .rests rfl (.inr rfl)
  | relaunch => exact .rests rfl (.inr rfl)
  | destroy deletes enclaveDeletes =>
    obtain ⟨hdek, ⟨hdestroyed, hitem⟩ | ⟨_, hitem⟩⟩ := destroy_cases v s deletes enclaveDeletes
    · exact .destroys hdestroyed hitem hdek
    · exact .rests hitem (.inr hdek)
  | other item value =>
    refine .rests ?_ ?_ <;> simp only [step] <;> split
    · rfl
    · rename_i hother
      exact Function.update_of_ne (Ne.symm hother) _ _
    · exact .inl rfl
    · exact .inl rfl

/-! ### Runs -/

/-- What is stored is a data key, and what is in memory is what is stored. -/
structure Consistent (k : CryptoKit) (v : MessageVault) (s : Device) : Prop where
  sound : ∀ stored, s.items v.item = some stored → ∃ dek key, v.Holds k dek key stored
  memory : ∀ dek, s.dek = some dek → ∃ key stored, s.items v.item = some stored ∧
    v.Holds k dek key stored

theorem Effect.consistent {event : Event k} {s' : Device} (heffect : Effect k v s event s')
    (hcons : Consistent k v s) : Consistent k v s' := by
  cases heffect with
  | rests hitem hmemory =>
    refine ⟨fun stored hstored => hcons.sound stored (hitem ▸ hstored), fun dek hdek => ?_⟩
    rw [hitem]
    rcases hmemory with hkept | hnone
    · exact hcons.memory dek (hkept ▸ hdek)
    · rw [hnone] at hdek
      cases hdek
  | unlocks reply _ hitem stored hreads hopens =>
    refine ⟨fun other hother => hcons.sound other (hitem ▸ hother), fun dek hdek => ?_⟩
    obtain ⟨held, key, hholds⟩ := hcons.sound stored hreads
    obtain rfl : held = dek := Option.some.inj ((hopens held key hholds).1.symm.trans hdek)
    exact ⟨key, stored, hitem.trans hreads, hholds⟩
  | provisions raw _ hmissing key stored hholds hitem hmemory =>
    refine ⟨fun other hother => ?_, fun dek hdek => ?_⟩
    · obtain rfl : stored = other := Option.some.inj (hitem.symm.trans hother)
      exact ⟨raw, key, hholds⟩
    · obtain ⟨_, _, hthere, _⟩ := hcons.memory dek (hmemory ▸ hdek)
      rw [hmissing] at hthere
      cases hthere
  | destroys _ hitem hmemory =>
    exact ⟨fun stored hstored => absurd (hitem.symm.trans hstored) (by simp),
      fun dek hdek => absurd (hmemory.symm.trans hdek) (by simp)⟩

theorem run_consistent (h : k.Ideal) (hcons : Consistent k v s) (events : List (Event k)) :
    Consistent k v (v.run k s events) := by
  induction events generalizing s with
  | nil => exact hcons
  | cons event events ih => exact ih ((step_effect h v s event).consistent hcons)

/-- The data key is neither in memory nor stored. -/
structure Forgotten (k : CryptoKit) (v : MessageVault) (dek : Data) (s : Device) : Prop where
  memory : s.dek ≠ some dek
  stored : ∀ stored key, s.items v.item = some stored → ¬v.Holds k dek key stored

/-- A key that is forgotten does not come back but by chance. -/
theorem Effect.forgotten (h : k.Ideal) {event : Event k} {s' : Device} {dek : Data}
    (heffect : Effect k v s event s') (hcons : Consistent k v s) (hforgotten : Forgotten k v dek s)
    (hfresh : event.draws ≠ some dek) : Forgotten k v dek s' := by
  cases heffect with
  | rests hitem hmemory =>
    refine ⟨?_, hitem ▸ hforgotten.stored⟩
    rcases hmemory with hkept | hnone
    · exact hkept ▸ hforgotten.memory
    · simp [hnone]
  | unlocks reply _ hitem stored hreads hopens =>
    refine ⟨fun hdek => ?_, hitem ▸ hforgotten.stored⟩
    obtain ⟨held, key, hholds⟩ := hcons.sound stored hreads
    obtain rfl : held = dek := Option.some.inj ((hopens held key hholds).1.symm.trans hdek)
    exact hforgotten.stored stored key hreads hholds
  | provisions raw hdraws _ key stored hholds hitem hmemory =>
    refine ⟨hmemory ▸ hforgotten.memory, fun other key' hother hheld => ?_⟩
    obtain rfl : stored = other := Option.some.inj (hitem.symm.trans hother)
    exact hfresh (hdraws.trans (congrArg some (wraps_unique h hholds hheld).1))
  | destroys _ hitem hmemory =>
    exact ⟨by simp [hmemory], fun stored key hstored => absurd (hitem.symm.trans hstored) (by simp)⟩

theorem run_forgotten (h : k.Ideal) {dek : Data} (hcons : Consistent k v s)
    (hforgotten : Forgotten k v dek s)
    {events : List (Event k)} (hfresh : ∀ event ∈ events, event.draws ≠ some dek) :
    Forgotten k v dek (v.run k s events) := by
  induction events generalizing s with
  | nil => exact hforgotten
  | cons event events ih =>
    have heffect := step_effect h v s event
    exact ih (heffect.consistent hcons)
      (heffect.forgotten h hcons hforgotten (hfresh event List.mem_cons_self))
      fun later hlater => hfresh later (List.mem_cons_of_mem _ hlater)

theorem forgotten_of_destroys {dek : Data} {event : Event k} (h : v.Destroys k s event) :
    Forgotten k v dek (v.step k s event) := by
  cases event with
  | destroy deletes enclaveDeletes =>
    obtain ⟨hdek, ⟨_, hitem⟩ | ⟨hfailed, _⟩⟩ := destroy_cases v s deletes enclaveDeletes
    · exact ⟨by simp [step, hdek], fun stored key hstored =>
        absurd (hitem.symm.trans hstored) (by simp)⟩
    · exact absurd h hfailed
  | _ => exact h.elim

/-- A stored key stays, or it is destroyed and forgotten. -/
theorem run_stored (h : k.Ideal) {dek stored : Data} (hcons : Consistent k v s)
    (hitem : s.items v.item = some stored) {events : List (Event k)}
    (hfresh : ∀ event ∈ events, event.draws ≠ some dek) :
    (v.Kept k s events ∧ (v.run k s events).items v.item = some stored) ∨
      (¬v.Kept k s events ∧ Forgotten k v dek (v.run k s events)) := by
  induction events generalizing s with
  | nil => exact .inl ⟨trivial, hitem⟩
  | cons event events ih =>
    have hlater : ∀ later ∈ events, later.draws ≠ some dek :=
      fun later hmem => hfresh later (List.mem_cons_of_mem _ hmem)
    have heffect := step_effect h v s event
    have hnext := heffect.consistent hcons
    by_cases hdestroyed : v.Destroys k s event
    · exact .inr ⟨fun hkept => hkept.1 hdestroyed, run_forgotten h hnext
        (forgotten_of_destroys hdestroyed) hlater⟩
    · have hstays : (v.step k s event).items v.item = some stored := by
        cases heffect with
        | rests hsame _ => exact hsame.trans hitem
        | unlocks _ _ hsame _ _ _ => exact hsame.trans hitem
        | provisions _ _ hmissing _ _ _ _ _ => exact absurd (hmissing.symm.trans hitem) (by simp)
        | destroys hgone _ _ => exact absurd hgone hdestroyed
      exact (ih hnext hstays hlater).imp (fun hkept => ⟨⟨hdestroyed, hkept.1⟩, hkept.2⟩)
        fun hlost => ⟨fun hkept => hlost.1 hkept.2, hlost.2⟩

theorem encrypt_eq_ok {plaintext aad nonce record : Data} :
    encrypt k s plaintext aad nonce = .ok record ↔
    ∃ dek, s.dek = some dek ∧ record = k.chaChaPoly.combined dek nonce plaintext aad := by
  unfold encrypt
  cases s.dek with
  | none => simp
  | some dek => simp [eq_comm]

/-- A record opens under the key that it was sealed with. -/
theorem decrypt_combined (h : k.Ideal) {dek plaintext aad nonce aad' plaintext' : Data}
    (hnonce : nonce.length = 12) :
    decrypt k s (k.chaChaPoly.combined dek nonce plaintext aad) aad' = .ok plaintext' ↔
      s.dek = some dek ∧ aad' = aad ∧ plaintext' = plaintext := by
  unfold decrypt
  cases s.dek with
  | none => simp
  | some held =>
    have hopens :=
      @ChaChaPoly.openCombined_eq_some _ dek nonce plaintext aad held aad' plaintext' h.cipher
        hnonce
    cases hopened : k.chaChaPoly.openCombined held
      (k.chaChaPoly.combined dek nonce plaintext aad) aad' with
    | none => simp_all
    | some opened => simp_all

/-- A vault that was never provisioned, in a new process. -/
def Unprovisioned (v : MessageVault) (s : Device) : Prop := s.items v.item = none ∧ s.dek = none

theorem consistent_of_unprovisioned (h : v.Unprovisioned s) : Consistent k v s :=
  ⟨fun stored hstored => absurd (h.1.symm.trans hstored) (by simp),
    fun dek hdek => absurd (h.2.symm.trans hdek) (by simp)⟩

/-- Whatever the Keychain, the Enclave and the user answer over any number of processes, a record
that was sealed opens exactly while the vault is unlocked, in its own place, to its own content, if
the data key was not destroyed since. -/
theorem record_opens_iff (h : k.Ideal) (hstart : v.Unprovisioned s)
    {before between : List (Event k)}
    {plaintext aad nonce record : Data} (hnonce : nonce.length = 12)
    (hsealed : encrypt k (v.run k s before) plaintext aad nonce = .ok record)
    (hfresh : ∀ event ∈ between, event.draws ≠ (v.run k s before).dek) {aad' plaintext' : Data} :
    decrypt k (v.run k s (before ++ between)) record aad' = .ok plaintext' ↔
      isUnlocked (v.run k s (before ++ between)) ∧ v.Kept k (v.run k s before) between ∧
        aad' = aad ∧ plaintext' = plaintext := by
  obtain ⟨dek, hdek, rfl⟩ := encrypt_eq_ok.mp hsealed
  have hcons := run_consistent h (consistent_of_unprovisioned hstart) before
  obtain ⟨key, stored, hitem, hholds⟩ := hcons.memory dek hdek
  have hlater : v.run k s (before ++ between) = v.run k (v.run k s before) between := by
    rw [run, List.foldl_append]
    rfl
  rw [decrypt_combined h hnonce, hlater]
  rcases run_stored h hcons hitem (hdek ▸ hfresh) with ⟨hkept, hstays⟩ | ⟨hlost, hforgotten⟩
  · have hmemory : (v.run k (v.run k s before) between).dek = some dek ↔
        isUnlocked (v.run k (v.run k s before) between) = true := by
      constructor
      · intro hheld
        rw [isUnlocked, hheld]
        rfl
      · intro hunlocked
        obtain ⟨held, hheld⟩ := Option.isSome_iff_exists.mp hunlocked
        obtain ⟨key', stored', hitem', hholds'⟩ :=
          (run_consistent h hcons between).memory held hheld
        obtain rfl : stored' = stored := Option.some.inj (hitem'.symm.trans hstays)
        rw [hheld, (wraps_unique h hholds' hholds).1]
    simp only [hmemory, hkept, true_and]
  · exact iff_of_false (fun hopened => hforgotten.memory hopened.1) fun hopened => hlost hopened.2.1

/-- The environment lets everything be done. -/
def Reply.granting (dek enclaveKey : Data) : Reply .transparent where
  random := some dek
  enclave :=
    { generated := some enclaveKey, ephemeral := (), nonce := List.replicate 12 0,
      nonce_length := CryptoKit.length_zeros }

/-- A vault on a device without an Enclave, and a record. -/
def onSimulator : MessageVault := ⟨"s", .deviceUnlockOnly, none⟩

def sealedRecord : Data :=
  ChaChaPoly.transparent.combined (List.replicate 32 1) (List.replicate 12 0) [4, 5] [6]

/-- A record that is sealed in one process is opened in the next one. -/
theorem record_opens_relaunched :
    let before : List (Event .transparent) :=
      [.provisionIfNeeded (.granting (List.replicate 32 1) [7]), .unlock (.granting [] [8])]
    let between : List (Event .transparent) := [.relaunch, .unlock (.granting [] [9])]
    decrypt .transparent (onSimulator.run .transparent ⟨fun _ => none, none⟩ (before ++ between))
      sealedRecord [6] = .ok [4, 5] := by
  intro before between
  have hsealed : encrypt .transparent (onSimulator.run .transparent ⟨fun _ => none, none⟩ before)
    [4, 5] [6]
      (List.replicate 12 0) = .ok sealedRecord := rfl
  refine (record_opens_iff CryptoKit.transparent_ideal ⟨rfl, rfl⟩ rfl hsealed fun event hevent =>
    ?_).mpr ⟨rfl, ⟨id, id, trivial⟩, rfl, rfl⟩
  rcases List.mem_cons.mp hevent with rfl | hevent
  · rintro ⟨⟩
  · obtain rfl := List.mem_singleton.mp hevent
    rintro ⟨⟩

/-! ### Erasing -/

/-- The event brings a reference of the key into the Keychain: the Enclave generates the same key
again, or someone puts the reference back. -/
def Restores (w : SecureEnclaveWrapper) (key : k.EnclaveKey) : Event k → Prop
  | .provisionIfNeeded reply | .unlock reply => reply.enclave.generated = some key
  | .other item value => item = w.item ∧ ∃ representation, value = some representation ∧
    k.restore representation = some key
  | .lock | .relaunch | .destroy _ _ => False

variable {w : SecureEnclaveWrapper} {key : k.EnclaveKey}

/-- Deleting the key of the Enclave leaves it gone, whatever the Keychain answers. -/
theorem gone_deleteEnclaveKey {items : KeychainItems} (hgone : Gone k items w key)
    (deletes : Option Refusal) :
    Gone k (w.deleteEnclaveKey items deletes).1 w key := by
  intro representation
  simp only [deleteEnclaveKey]
  rcases delete_cases items w.item deletes with ⟨_, hafter⟩ | ⟨_, _, hafter⟩
  · rw [hafter, Function.update_self]
    rintro ⟨⟩
  · rw [hafter]
    exact hgone representation

theorem step_gone (h : k.Ideal) (hw : v.wrapper = some w) (hgone : Gone k s.items w key)
    {event : Event k} (hnot : ¬Restores w key event) : Gone k (v.step k s event).items w key := by
  have hcongr : ∀ {before after : KeychainItems}, after w.item = before w.item →
    Gone k before w key →
      Gone k after w key := fun hsame hgone representation hrepresentation =>
    hgone representation (hsame ▸ hrepresentation)
  cases event with
  | provisionIfNeeded reply =>
    simp only [step]
    unfold provisionIfNeeded
    rcases v.keychainItemExists k s reply with error | _ | _
    · exact hgone
    · cases hrandom : reply.random with
      | none => exact hgone
      | some raw =>
        have hreached :=
          (hw ▸ wrapForStorage_reaches v.wrapper s.items reply.enclave raw kdfContext).gone h
            hgone hnot
        dsimp only
        rw [← hw] at hreached
        rcases hresult : wrapForStorage k v.wrapper s.items reply.enclave raw kdfContext with
          ⟨after, _ | payload⟩ <;>
          rw [hresult] at hreached
        · exact hreached
        · dsimp only [storeWrappedDEK]
          split
          · exact hreached
          · exact hcongr
              (@other_untouched _ _ after v.item payload reply.adds _ w.item (item_ne w)).1 hreached
    · exact hgone
  | unlock reply =>
    simp only [step]
    unfold unlock
    rcases v.readWrappedDEK k s reply with error | _ | payload
    · exact hgone
    · exact hgone
    · have hreached :=
        (hw ▸ unwrapFromStorage_reaches v.wrapper s.items reply.enclave payload kdfContext).gone h
          hgone hnot
      dsimp only
      rw [← hw] at hreached
      rcases hresult : unwrapFromStorage k v.wrapper s.items reply.enclave kdfContext payload with
        ⟨after, _ | rawData⟩ <;> rw [hresult] at hreached <;> exact hreached
  | lock => exact hgone
  | relaunch => exact hgone
  | destroy deletes enclaveDeletes =>
    simp only [step, destroy, deleteWrappedDEK, hw, Option.elim_some, lock]
    refine gone_deleteEnclaveKey (hcongr ?_ hgone) enclaveDeletes
    exact (@other_untouched _ _ s.items v.item [] deletes _ w.item (item_ne w)).2.2
  | other item value =>
    simp only [step]
    split
    · exact hgone
    · intro representation
      by_cases hitem : item = w.item
      · simp only [hitem, Function.update_self]
        exact fun hvalue hrestored => hnot ⟨hitem, representation, hvalue, hrestored⟩
      · simp only [Function.update_of_ne (Ne.symm hitem)]
        exact hgone representation

/-- The data key is stored, wrapped with a key of the Enclave that is gone. -/
structure Stranded (v : MessageVault) (w : SecureEnclaveWrapper) (key : k.EnclaveKey) (dek : Data)
    (s : Device) :
    Prop where
  memory : s.dek ≠ some dek
  stored : ∃ stored, s.items v.item = some stored ∧ v.Holds k dek (some key) stored
  gone : Gone k s.items w key

theorem step_stranded (h : k.Ideal) (hw : v.wrapper = some w) {dek : Data}
    (hstranded : Stranded v w key dek s) {event : Event k} (hnot : ¬Restores w key event) :
    Stranded v w key dek (v.step k s event) ∨ Forgotten k v dek (v.step k s event) := by
  obtain ⟨hmemory, ⟨stored, hitem, hholds⟩, hgone⟩ := hstranded
  have hnext := step_gone h hw hgone hnot
  cases step_effect h v s event with
  | rests hsame hdek =>
    refine .inl ⟨?_, ⟨stored, hsame.trans hitem, hholds⟩, hnext⟩
    rcases hdek with hkept | hnone
    · exact hkept ▸ hmemory
    · simp [hnone]
  | unlocks reply hevent _ read hreads hopens =>
    obtain rfl : read = stored := Option.some.inj (hreads.symm.trans hitem)
    rcases keyInUse_cases (hw ▸ (hopens dek (some key) hholds).2) with ⟨hthere, _⟩ | hmade
    · exact absurd hgone hthere
    · exact absurd (by rw [hevent]; exact hmade) hnot
  | provisions _ _ hmissing _ _ _ _ _ => exact absurd (hmissing.symm.trans hitem) (by simp)
  | destroys hdestroyed _ _ => exact .inr (forgotten_of_destroys hdestroyed)

theorem run_erased (h : k.Ideal) (hw : v.wrapper = some w) {dek : Data} (hcons : Consistent k v s)
    (herased : Stranded v w key dek s ∨ Forgotten k v dek s) {events : List (Event k)}
    (hfresh : ∀ event ∈ events, event.draws ≠ some dek)
    (hnot : ∀ event ∈ events, ¬Restores w key event) :
    Stranded v w key dek (v.run k s events) ∨ Forgotten k v dek (v.run k s events) := by
  induction events generalizing s with
  | nil => exact herased
  | cons event events ih =>
    have heffect := step_effect h v s event
    refine ih (heffect.consistent hcons) ?_
      (fun later hlater => hfresh later (List.mem_cons_of_mem _ hlater))
      fun later hlater => hnot later (List.mem_cons_of_mem _ hlater)
    rcases herased with hstranded | hforgotten
    · exact step_stranded h hw hstranded (hnot event List.mem_cons_self)
    · exact .inr (heffect.forgotten h hcons hforgotten (hfresh event List.mem_cons_self))

/-- The stored data key is wrapped with the key of the Enclave. -/
def WrappedWith (v : MessageVault) (s : Device) (w : SecureEnclaveWrapper)
    (key : k.EnclaveKey) : Prop :=
  v.wrapper = some w ∧ ∃ dek stored, s.items v.item = some stored ∧ v.Holds k dek (some key) stored

/-- What a destroy of which one half goes through leaves of the data key. -/
theorem destroy_erases {dek stored : Data} {held : Option k.EnclaveKey}
    (hitem : s.items v.item = some stored)
    (hholds : v.Holds k dek held stored) {deletes enclaveDeletes : Option Refusal}
    (hhalf : deletes = none ∨ v.wrapper.isSome ∧ enclaveDeletes = none) :
    Forgotten k v dek (v.destroy s deletes enclaveDeletes).1 ∨
      ∃ w, ∃ key : k.EnclaveKey, WrappedWith v s w key ∧
      Stranded v w key dek (v.destroy s deletes enclaveDeletes).1 := by
  obtain ⟨hdek, ⟨hdestroyed, hgone⟩ | ⟨hfailed, hsame⟩⟩ := destroy_cases v s deletes enclaveDeletes
  · exact .inl
      ⟨by simp [hdek], fun stored key hstored => absurd (hgone.symm.trans hstored) (by simp)⟩
  · right
    have hrefused : deletes ≠ none := by
      rintro rfl
      refine hfailed ?_
      dsimp only [destroy, deleteWrappedDEK, lock]
      rw [if_pos (delete_granted s.items v.item).1]
    obtain ⟨hsome, rfl⟩ := hhalf.resolve_left hrefused
    obtain ⟨w, hw⟩ := Option.isSome_iff_exists.mp hsome
    cases held with
    | none =>
      unfold Holds at hholds
      rw [hw] at hholds
      exact hholds.elim
    | some key =>
      refine ⟨w, key, ⟨hw, dek, stored, hitem, hholds⟩,
        by simp [hdek], ⟨stored, hsame.trans hitem, hholds⟩, ?_⟩
      intro representation
      simp only [destroy, hw, Option.elim_some, deleteEnclaveKey, (delete_granted _ w.item).2,
        Function.update_self]
      rintro ⟨⟩

/-- Once a destroy gets one half through, the deletion of the stored data key or that of the key of
the Enclave, no record that was sealed before it opens again, however often the vault was locked,
unlocked or relaunched in between, and whatever is provisioned later. -/
theorem erased_for_good (h : k.Ideal) (hstart : v.Unprovisioned s)
    {before between later : List (Event k)}
    {plaintext aad nonce record : Data} (hnonce : nonce.length = 12)
    (hsealed : encrypt k (v.run k s before) plaintext aad nonce = .ok record)
    {deletes enclaveDeletes : Option Refusal}
    (hhalf : deletes = none ∨ v.wrapper.isSome ∧ enclaveDeletes = none)
    (hfresh : ∀ event ∈ between ++ later, event.draws ≠ (v.run k s before).dek)
    (hnot : ∀ w (key : k.EnclaveKey), WrappedWith v (v.run k s before) w key →
      ∀ event ∈ later, ¬Restores w key event) {aad' plaintext' : Data} :
    decrypt k (v.run k s (before ++ between ++ .destroy deletes enclaveDeletes :: later))
      record aad' ≠ .ok plaintext' := by
  obtain ⟨dek, hdek, rfl⟩ := encrypt_eq_ok.mp hsealed
  have hcons := run_consistent h (consistent_of_unprovisioned hstart) before
  obtain ⟨held, stored, hitem, hholds⟩ := hcons.memory dek hdek
  have hbetween : ∀ event ∈ between, event.draws ≠ some dek :=
    fun event hevent => hdek ▸ hfresh event (List.mem_append_left _ hevent)
  have hlater : ∀ event ∈ later, event.draws ≠ some dek :=
    fun event hevent => hdek ▸ hfresh event (List.mem_append_right _ hevent)
  have hruns : v.run k s (before ++ between ++ .destroy deletes enclaveDeletes :: later) =
      v.run k (v.step k (v.run k (v.run k s before) between) (.destroy deletes enclaveDeletes))
        later := by
    simp only [run, List.foldl_append, List.foldl_cons]
  have hmiddle := run_consistent h hcons between
  have heffect := step_effect h v (v.run k (v.run k s before) between)
    (.destroy deletes enclaveDeletes)
  have hnext := heffect.consistent hmiddle
  rw [hruns, Ne, decrypt_combined h hnonce]
  rintro ⟨hmemory, _⟩
  have hforgets : Forgotten k v dek
    (v.step k (v.run k (v.run k s before) between) (.destroy deletes enclaveDeletes)) →
      False := fun hforgotten => (run_forgotten h hnext hforgotten hlater).memory hmemory
  rcases run_stored h hcons hitem hbetween with ⟨_, hstays⟩ | ⟨_, hlost⟩
  · rcases destroy_erases hstays hholds hhalf with hforgotten | ⟨w, key, hwrapped, hstranded⟩
    · exact hforgets hforgotten
    · have hfirst : WrappedWith v (v.run k s before) w key := by
        obtain ⟨hw, dek', stored', hthere, hheld⟩ := hwrapped
        exact ⟨hw, dek', stored', hitem.trans (hstays.symm.trans hthere), hheld⟩
      rcases run_erased h hfirst.1 hnext (.inl hstranded) hlater
        (hnot w key hfirst) with hstays | hforgotten
      · exact hstays.memory hmemory
      · exact hforgotten.memory hmemory
  · exact hforgets (heffect.forgotten h hmiddle hlost (by rintro ⟨⟩))

/-- A vault on a device with an Enclave. -/
def onDevice : MessageVault := ⟨"s", .userPresence, some ⟨"e"⟩⟩

set_option maxRecDepth 4000 in
/-- The vault is locked when it is destroyed, and the Keychain refuses to delete the data key, but
not the key of the Enclave. -/
theorem erased_for_good_halfway :
    let before : List (Event .transparent) :=
      [.provisionIfNeeded (.granting (List.replicate 32 1) [7]), .unlock (.granting [] [8])]
    let refusal : Refusal := ⟨-25291, by decide, by decide, by decide⟩
    decrypt .transparent (onDevice.run .transparent ⟨fun _ => none, none⟩
      (before ++ ([.lock, .relaunch] : List (Event .transparent)) ++
        (.destroy (some refusal) none :: [.unlock (.granting [] [9])] :
          List (Event .transparent)))) sealedRecord [6] ≠ .ok [4, 5] := by
  intro before refusal
  have hsealed : encrypt .transparent (onDevice.run .transparent ⟨fun _ => none, none⟩ before)
    [4, 5] [6]
      (List.replicate 12 0) = .ok sealedRecord := rfl
  refine erased_for_good CryptoKit.transparent_ideal ⟨rfl, rfl⟩ rfl hsealed (.inr ⟨rfl, rfl⟩)
    (fun event hevent => ?_)
    fun w key hwrapped event hevent => ?_
  · simp only [List.cons_append, List.nil_append, List.mem_cons, List.not_mem_nil,
      or_false] at hevent
    rcases hevent with rfl | rfl | rfl <;> rintro ⟨⟩
  · obtain rfl := List.mem_singleton.mp hevent
    obtain ⟨_, dek', stored, hitem, hholds⟩ := hwrapped
    have hfirst : onDevice.Holds .transparent (List.replicate 32 1) (some [7]) stored := by
      obtain rfl := Option.some.inj hitem
      exact ⟨(), List.replicate 12 0, rfl, rfl⟩
    obtain rfl := Option.some.inj (wraps_unique CryptoKit.transparent_ideal hfirst hholds).2
    have hnew : (some [9] : Option Data) ≠ some [7] := by decide
    exact hnew

end MessageVault

end AeroNyra.AtRest
