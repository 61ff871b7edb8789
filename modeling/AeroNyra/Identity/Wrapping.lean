import AeroNyra.Identity.Enclave

/-! Secrets at rest: a blob is stored wrapped with the key of the Enclave, or as it is where there
is none.  It is read back as long as the Keychain refers to the key that it was wrapped with, and
never as another blob. -/

namespace AeroNyra

open Keychain

namespace SecureEnclaveWrapper

variable (k : CryptoKit) (wrapper : Option SecureEnclaveWrapper) (items : KeychainItems)
    (reply : Reply k)
variable (blob context stored : Data) (key : Option k.EnclaveKey)

/-- What is to be stored of a blob; none where the wrapper throws. -/
def wrapForStorage : KeychainItems × Option Data :=
  match wrapper with
  | none => (items, some blob)
  | some w =>
    match w.wrap k items reply blob context with
    | (items, .ok b) => (items, some b.serialized)
    | (items, .error _) => (items, none)

/-- The blob that is stored; none where the wrapper throws. -/
def unwrapFromStorage : KeychainItems × Option Data :=
  match wrapper with
  | none => (items, some stored)
  | some w =>
    match WrappedBlob.ofSerialized? stored with
    | none => (items, none)
    | some b =>
      match w.unwrap k items reply b context with
      | (items, .ok blob) => (items, some blob)
      | (items, .error _) => (items, none)

/-- What is stored of a blob with a key of the Enclave, or with none. -/
def Wraps : Prop :=
  match wrapper, key with
  | none, none => stored = blob
  | some _, some key =>
    ∃ ephemeral nonce, nonce.length = 12 ∧
    stored = (wrapped k key ephemeral nonce blob context).serialized
  | _, _ => False

/-- The key of the Enclave that a call agrees on a secret with; none where there is no Enclave. -/
def KeyInUse : Prop :=
  match wrapper, key with
  | none, none => True
  | some w, some key => (w.loadOrCreateEnclaveKey k items reply).2 = .ok key ∧ reply.agrees
  | _, _ => False

/-- What wrapping and unwrapping may do to the Keychain: nothing, or what getting at the key
does. -/
def Reaches (after : KeychainItems) : Prop :=
  after = items ∨ ∃ w, wrapper = some w ∧ after = (w.loadOrCreateEnclaveKey k items reply).1

/-- The Keychain does not refer to the key of the Enclave. -/
def Gone (w : SecureEnclaveWrapper) (key : k.EnclaveKey) : Prop :=
  ∀ representation, items w.item = some representation → k.restore representation ≠ some key

variable {k wrapper items reply blob context stored key} {after : KeychainItems}
    {w : SecureEnclaveWrapper}

theorem Reaches.other (h : Reaches k wrapper items reply after) {other : String × String}
    (hother : other.2 ≠ account) : after other = items other := by
  rcases h with rfl | ⟨w, _, rfl⟩
  · rfl
  · exact loadOrCreateEnclaveKey_other fun heq => hother (congrArg Prod.snd heq)

theorem wrapForStorage_reaches (wrapper : Option SecureEnclaveWrapper) (items : KeychainItems)
    (reply : Reply k) (blob context : Data) :
    Reaches k wrapper items reply (wrapForStorage k wrapper items reply blob context).1 := by
  unfold wrapForStorage
  cases wrapper with
  | none => exact .inl rfl
  | some w =>
    refine .inr ⟨w, rfl, ?_⟩
    rw [← wrap_items blob context]
    dsimp only
    rcases w.wrap k items reply blob context with ⟨after, error | b⟩ <;> rfl

theorem unwrapFromStorage_reaches (wrapper : Option SecureEnclaveWrapper) (items : KeychainItems)
    (reply : Reply k) (stored context : Data) :
    Reaches k wrapper items reply (unwrapFromStorage k wrapper items reply context stored).1 := by
  unfold unwrapFromStorage
  cases wrapper with
  | none => exact .inl rfl
  | some w =>
    cases WrappedBlob.ofSerialized? stored with
    | none => exact .inl rfl
    | some b =>
      refine .inr ⟨w, rfl, ?_⟩
      rw [← unwrap_items b context]
      dsimp only
      rcases w.unwrap k items reply b context with ⟨after, error | blob⟩ <;> rfl

theorem wraps_of_wrapForStorage
    (h : (wrapForStorage k wrapper items reply blob context).2 = some stored) :
    ∃ key, Wraps k wrapper blob context stored key := by
  revert h
  unfold wrapForStorage Wraps
  cases wrapper with
  | none =>
    intro h
    exact ⟨none, (Option.some.inj h).symm⟩
  | some w =>
    dsimp only
    have hwrap := @wrap_eq_ok k w items reply blob context
    rcases hresult : w.wrap k items reply blob context with ⟨after, error | b⟩ <;>
      rw [hresult] at hwrap <;> intro h
    · cases h
    · obtain ⟨key, -, rfl⟩ := hwrap rfl
      exact ⟨some key, _, _, reply.nonce_length, (Option.some.inj h).symm⟩

/-- What is stored of a blob is read back with the key that it was wrapped with, and with no
other. -/
theorem unwrapFromStorage_of_wraps (h : k.Ideal) (items : KeychainItems) (reply : Reply k)
    (hwraps : Wraps k wrapper blob context stored key) :
    ((unwrapFromStorage k wrapper items reply context stored).2 = some blob ∧
      KeyInUse k wrapper items reply key) ∨
    ((unwrapFromStorage k wrapper items reply context stored).2 = none ∧
      ¬KeyInUse k wrapper items reply key) := by
  unfold unwrapFromStorage KeyInUse
  unfold Wraps at hwraps
  cases wrapper with
  | none =>
    cases key with
    | none => exact .inl ⟨by rw [hwraps], trivial⟩
    | some key => exact hwraps.elim
  | some w =>
    cases key with
    | none => exact hwraps.elim
    | some key =>
      obtain ⟨ephemeral, nonce, hnonce, rfl⟩ := hwraps
      simp only [ofSerialized?_wrapped h hnonce]
      have hopens : ∀ other,
        (w.unwrap k items reply (wrapped k key ephemeral nonce blob context) context).2 =
          .ok other ↔ ((w.loadOrCreateEnclaveKey k items reply).2 = .ok key ∧ reply.agrees) ∧
            other = blob := by
        intro other
        simp only [unwrap_eq_ok, unwrapped_wrapped h hnonce]
        constructor
        · rintro ⟨_, hused, hagrees, rfl, _, rfl⟩
          exact ⟨⟨hused, hagrees⟩, rfl⟩
        · rintro ⟨⟨hused, hagrees⟩, rfl⟩
          exact ⟨key, hused, hagrees, rfl, trivial, rfl⟩
      rcases hunwrap : w.unwrap k items reply (wrapped k key ephemeral nonce blob context)
        context with ⟨after, error | other⟩ <;> rw [hunwrap] at hopens
      · exact .inr ⟨rfl, fun hused => absurd ((hopens _).mpr ⟨hused, rfl⟩) (by simp)⟩
      · obtain ⟨hused, rfl⟩ := (hopens other).mp rfl
        exact .inl ⟨rfl, hused⟩

/-- A wrapped blob is unwrapped with whatever key there is. -/
theorem unwrapFromStorage_items (h : k.Ideal) {key : k.EnclaveKey}
    (hwraps : Wraps k (some w) blob context stored (some key)) :
    (unwrapFromStorage k (some w) items reply context stored).1 =
    (w.loadOrCreateEnclaveKey k items reply).1 := by
  obtain ⟨ephemeral, nonce, hnonce, rfl⟩ := hwraps
  rw [← unwrap_items (wrapped k key ephemeral nonce blob context) context]
  simp only [unwrapFromStorage, ofSerialized?_wrapped h hnonce]
  rcases w.unwrap k items reply (wrapped k key ephemeral nonce blob context)
    context with ⟨after, error | other⟩ <;>
    rfl

/-- Only one blob is stored. -/
theorem wraps_unique (h : k.Ideal) {blob' : Data} {key' : Option k.EnclaveKey}
    (hwraps : Wraps k wrapper blob context stored key)
    (hwraps' : Wraps k wrapper blob' context stored key') :
    blob = blob' ∧ key = key' := by
  unfold Wraps at hwraps hwraps'
  cases wrapper with
  | none =>
    cases key with
    | some key => exact hwraps.elim
    | none =>
      cases key' with
      | some key' => exact hwraps'.elim
      | none => exact ⟨hwraps.symm.trans hwraps', rfl⟩
  | some w =>
    cases key with
    | none => exact hwraps.elim
    | some key =>
      cases key' with
      | none => exact hwraps'.elim
      | some key' =>
        obtain ⟨ephemeral, nonce, hnonce, rfl⟩ := hwraps
        obtain ⟨ephemeral', nonce', hnonce', heq⟩ := hwraps'
        obtain ⟨rfl, rfl⟩ := wrapped_inj h hnonce hnonce' heq
        exact ⟨rfl, rfl⟩

/-! ### Losing the key -/

variable {key : k.EnclaveKey}

/-- A key is in use that the Keychain refers to, if the Enclave takes the reference, or one that
was made. -/
theorem keyInUse_cases (hused : KeyInUse k (some w) items reply (some key)) :
    (¬Gone k items w key ∧ reply.restores) ∨ reply.generated = some key := by
  rcases item_of_loadOrCreateEnclaveKey hused.1 with ⟨representation, hitem, hkey, htaken⟩ | hmade
  · exact .inl ⟨fun hgone => hgone representation hitem hkey, htaken⟩
  · exact .inr hmade

/-- A key that is gone does not come back but by chance. -/
theorem Reaches.gone (h : k.Ideal) (hreaches : Reaches k (some w) items reply after)
    (hgone : Gone k items w key) (hfresh : reply.generated ≠ some key) : Gone k after w key := by
  rcases hreaches with rfl | ⟨w', hw', rfl⟩
  · exact hgone
  · obtain rfl := Option.some.inj hw'
    intro representation hrepresentation
    rcases @loadOrCreateEnclaveKey_item k w items reply with hsame | hnone | ⟨made, hmade, hitem⟩
    · exact hgone representation (hsame ▸ hrepresentation)
    · rw [hnone] at hrepresentation
      cases hrepresentation
    · obtain rfl : k.dataRepresentation made = representation :=
        Option.some.inj (hitem.symm.trans hrepresentation)
      rw [h.restore]
      rintro ⟨⟩
      exact hfresh hmade

/-- A reference that the Enclave does not take goes, where the Keychain lets it. -/
theorem gone_of_refused (h : k.Ideal) (items : KeychainItems) {reply : Reply k}
    (hcopies : reply.copies = none) (hrefused : reply.restores = false)
    (hdeletes : reply.deletes = none) (hfresh : reply.generated ≠ some key) :
    Gone k (w.loadOrCreateEnclaveKey k items reply).1 w key := by
  have hgenerate : ∀ after : KeychainItems, after w.item = none →
      Gone k (w.generateAndStoreEnclaveKey k after reply).1 w key := by
    intro after hnone representation hrepresentation
    rcases generateAndStoreEnclaveKey_cases w after reply with ⟨made, hmade, heq⟩ | ⟨_, heq⟩ <;>
      rw [heq] at hrepresentation <;> dsimp only at hrepresentation
    · rw [Function.update_self] at hrepresentation
      obtain rfl : k.dataRepresentation made = representation := Option.some.inj hrepresentation
      rw [h.restore]
      rintro ⟨⟩
      exact hfresh hmade
    · rw [hnone] at hrepresentation
      cases hrepresentation
  unfold loadOrCreateEnclaveKey
  cases hitem : items w.item with
  | none =>
    simp only [hcopies, copyMatching, hitem, if_true]
    exact hgenerate items hitem
  | some representation =>
    have hdeleted : (Keychain.delete items w.item none).1 w.item = none := by
      simp [Keychain.delete, hitem]
    have hnot : ((k.restore representation).filter fun _ => false) = none := by
      cases k.restore representation <;> rfl
    simp only [hcopies, copyMatching, hitem, hrefused, hdeletes, hnot]
    exact hgenerate _ hdeleted

end SecureEnclaveWrapper

end AeroNyra
