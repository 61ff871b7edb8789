import AeroNyra.Enrollment.Invite
import AeroNyra.Identity.Enclave
import AeroNyra.Lib.Interleave
import AeroNyra.Nostr.Wrapping

/-! The identity of the internet transport, over launches, wipes and losses of its Keychain item.
Its secret is a scalar of the curve, and the app notices that it has changed by the public key that
it noted last. -/

namespace AeroNyra

open Keychain Interleave

/-! ### Scalars -/

theorem foldl_number (bytes : Data) (n : Nat) :
    bytes.foldl (fun n b => n * 256 + b.toNat) n = n * 256 ^ bytes.length + number bytes := by
  induction bytes generalizing n with
  | nil => simp [number]
  | cons b bytes ih =>
    have hfirst : number (b :: bytes) = b.toNat * 256 ^ bytes.length + number bytes := by
      rw [number, List.foldl_cons, Nat.zero_mul, Nat.zero_add, ih]
    rw [List.foldl_cons, ih, hfirst, List.length_cons, Nat.pow_succ', Nat.add_mul, Nat.mul_assoc,
      Nat.add_assoc]

theorem number_cons (b : UInt8) (bytes : Data) :
    number (b :: bytes) = b.toNat * 256 ^ bytes.length + number bytes := by
  rw [number, List.foldl_cons, Nat.zero_mul, Nat.zero_add, foldl_number]

/-- A number with a smaller first byte is smaller. -/
theorem number_cons_lt {b o : UInt8} {bytes order : Data} (hlength : bytes.length = order.length)
    (h : b < o) :
    number (b :: bytes) < number (o :: order) := by
  have hfirst : (b.toNat + 1) * 256 ^ bytes.length ≤ o.toNat * 256 ^ bytes.length :=
    Nat.mul_le_mul_right _ (UInt8.lt_iff_toNat_lt.mp h)
  calc number (b :: bytes) = b.toNat * 256 ^ bytes.length + number bytes := number_cons b bytes
    _ < b.toNat * 256 ^ bytes.length + 256 ^ bytes.length := Nat.add_lt_add_left (number_lt bytes) _
    _ = (b.toNat + 1) * 256 ^ bytes.length := by rw [Nat.add_mul, Nat.one_mul]
    _ ≤ o.toNat * 256 ^ order.length := hlength ▸ hfirst
    _ ≤ number (o :: order) := by rw [number_cons]; exact Nat.le_add_right _ _

theorem number_eq_zero (bytes : Data) : number bytes = 0 ↔ bytes.all (· == 0) = true := by
  induction bytes with
  | nil => simp [number]
  | cons b bytes ih =>
    have hpow : 256 ^ bytes.length ≠ 0 := (Nat.pow_pos (by decide)).ne'
    rw [number_cons, List.all_cons, Bool.and_eq_true, ← ih, Nat.add_eq_zero_iff, Nat.mul_eq_zero]
    simp only [hpow, or_false, beq_iff_eq, ← UInt8.toNat_inj, UInt8.toNat_zero]

namespace NostrIdentity

/-- The order of the curve, as it is usually written. -/
def order : Nat := 0xFFFFFFFFFFFFFFFFFFFFFFFFFFFFFFFEBAAEDCE6AF48A03BBFD25E8CD0364141

theorem number_curveOrder : number curveOrder = order := by decide

/-- The comparison byte by byte is that of the numbers. -/
theorem below_iff {bytes order : Data} (h : bytes.length = order.length) :
    below bytes order = true ↔ number bytes < number order := by
  induction bytes generalizing order with
  | nil =>
    cases order with
    | nil => simp [below]
    | cons o order => cases h
  | cons b bytes ih =>
    cases order with
    | nil => cases h
    | cons o order =>
      have hlength : bytes.length = order.length := Nat.succ.inj h
      rw [below]
      split
      · rename_i hlt
        exact iff_of_true rfl (number_cons_lt hlength hlt)
      · split
        · rename_i hgt
          exact iff_of_false Bool.false_ne_true (Nat.lt_asymm (number_cons_lt hlength.symm hgt))
        · rename_i hle hge
          have heq : b = o := UInt8.le_antisymm (UInt8.not_lt.mp hge) (UInt8.not_lt.mp hle)
          rw [ih hlength, number_cons, number_cons, heq, hlength, Nat.add_lt_add_iff_left]

/-- A private key of the curve. -/
structure IsScalar (bytes : Data) : Prop where
  length : bytes.length = 32
  pos : 0 < number bytes
  below : number bytes < order

theorem isValidScalar_iff (bytes : Data) : isValidScalar bytes = true ↔ IsScalar bytes := by
  unfold isValidScalar
  split
  · rename_i hlength
    exact iff_of_false Bool.false_ne_true fun h => hlength h.length
  · rename_i hlength
    have hlength : bytes.length = 32 := not_not.mp hlength
    split
    · rename_i hzero
      exact iff_of_false Bool.false_ne_true fun h => absurd
        ((number_eq_zero bytes).mpr hzero) h.pos.ne'
    · rename_i hzero
      rw [below_iff hlength, number_curveOrder]
      exact ⟨fun h =>
        ⟨hlength, Nat.pos_of_ne_zero fun h0 => hzero ((number_eq_zero bytes).mp h0), h⟩,
        fun h => h.below⟩

/-- What is drawn is a scalar. -/
theorem isScalar_of_drawn {draws : List (Option (Vector UInt8 32))} {secret : Data}
    (h : firstScalar draws = some secret) : IsScalar secret := by
  induction draws with
  | nil => cases h
  | cons draw draws ih =>
    cases draw with
    | none => cases h
    | some raw =>
      rw [firstScalar] at h
      split at h
      · rename_i hvalid
        obtain rfl := Option.some.inj h
        exact (isValidScalar_iff _).mp hvalid
      · exact ih h

end NostrIdentity

/-! ### The secret in the Keychain -/

namespace NostrSecretStore

def account : String := "nostr.secret.v1"

def byteCount : Nat := 32

def item (service : String) : String × String := (service, account)

variable (items : KeychainItems) (service : String)

/-- The error is the status of the Keychain, in each of these. -/
def load (copies : Option Refusal) : Except OSStatus (Option Data) :=
  match copyMatching items (item service) copies with
  | .ok data => .ok (some data)
  | .error status => if status = errSecItemNotFound then .ok none else .error status

/-- None where the precondition fails. -/
def save (secret : Data) (adds : Option Refusal) : Option (KeychainItems × Except OSStatus Unit) :=
  if secret.length = byteCount then
    let added := add items (item service) secret adds
    some (added.1, if added.2 = errSecSuccess then .ok () else .error added.2)
  else none

def destroy (deletes : Option Refusal) : KeychainItems × Except OSStatus Unit :=
  let deleted := delete items (item service) deletes
  (deleted.1, if deleted.2 = errSecSuccess ∨ deleted.2 = errSecItemNotFound then .ok ()
    else .error deleted.2)

variable {secret : Data}

/-- What is saved is there, and nothing was before; a failure changes nothing. -/
theorem save_cases (hlength : secret.length = 32) (adds : Option Refusal) :
    (items (item service) = none ∧
      save items service secret adds =
        some (Function.update items (item service) (some secret), .ok ())) ∨
    ∃ status, save items service secret adds = some (items, .error status) := by
  unfold save
  rw [if_pos (show secret.length = byteCount from hlength)]
  rcases add_cases items (item service) secret adds with ⟨hadded, hnone, hafter⟩ |
    ⟨hadded, hafter, _⟩
  · exact .inl ⟨hnone, by simp only [if_pos hadded, hafter]⟩
  · exact .inr ⟨(add items (item service) secret adds).2, by simp only [if_neg hadded, hafter]⟩

/-- The secret is gone when that is reported, and as it was otherwise. -/
theorem destroy_cases (deletes : Option Refusal) :
    destroy items service deletes = (Function.update items (item service) none, .ok ()) ∨
    ∃ status, destroy items service deletes = (items, .error status) := by
  unfold destroy
  rcases delete_cases items (item service) deletes with ⟨hstatus, hafter⟩ |
    ⟨hsuccess, hmissing, hafter⟩
  · exact .inl (by simp only [if_pos hstatus, hafter])
  · exact .inr ⟨(delete items (item service) deletes).2, by
      simp only [if_neg (not_or.mpr ⟨hsuccess, hmissing⟩), hafter]⟩

end NostrSecretStore

namespace NostrIdentity

inductive LoadError
  | keychain (status : OSStatus)
  | randomGenerationFailed

/-- What the Keychain and the generator answer when an identity is loaded or created. -/
structure Reply where
  copies : Option Refusal
  scalars : Vector (Option (Vector UInt8 32)) 8
  adds : Option Refusal

variable (items : KeychainItems) (service : String) (reply : Reply)

/-- The secret of the identity; none where a precondition fails. -/
def loadOrCreate : Option (KeychainItems × Except LoadError Data) :=
  match NostrSecretStore.load items service reply.copies with
  | .error status => some (items, .error (.keychain status))
  | .ok (some bytes) => if bytes.length = 32 then some (items, .ok bytes) else none
  | .ok none =>
    match firstScalar reply.scalars.toList with
    | none => some (items, .error .randomGenerationFailed)
    | some secret =>
      (NostrSecretStore.save items service secret reply.adds).map fun saved =>
        (saved.1, match saved.2 with
          | .ok () => .ok secret
          | .error status => .error (.keychain status))

/-- The secret is the one that is there, or one that was drawn where there was none; a failure
changes nothing. -/
theorem loadOrCreate_cases
    (hstored : ∀ secret, items (NostrSecretStore.item service) = some secret → IsScalar secret) :
    (∃ secret, items (NostrSecretStore.item service) = some secret ∧
      loadOrCreate items service reply = some (items, .ok secret)) ∨
    (∃ secret, items (NostrSecretStore.item service) = none ∧ IsScalar secret ∧
      loadOrCreate items service reply =
        some (Function.update items (NostrSecretStore.item service) (some secret), .ok secret)) ∨
    ∃ error, loadOrCreate items service reply = some (items, .error error) := by
  unfold loadOrCreate NostrSecretStore.load
  cases hcopied : copyMatching items (NostrSecretStore.item service) reply.copies with
  | ok secret =>
    have hitem := (copyMatching_eq_ok.mp hcopied).2
    exact .inl ⟨secret, hitem, if_pos (hstored secret hitem).length⟩
  | error status =>
    dsimp only
    by_cases hmissing : status = errSecItemNotFound
    · rw [if_pos hmissing]
      cases hdrawn : firstScalar reply.scalars.toList with
      | none => exact .inr (.inr ⟨_, rfl⟩)
      | some secret =>
        have hscalar := isScalar_of_drawn hdrawn
        dsimp only
        rcases NostrSecretStore.save_cases items service hscalar.length reply.adds with
          ⟨hnone, hsaved⟩ | ⟨status, hsaved⟩
        · exact .inr (.inl ⟨secret, hnone, hscalar, by rw [hsaved]; rfl⟩)
        · exact .inr (.inr ⟨.keychain status, by rw [hsaved]; rfl⟩)
    · rw [if_neg hmissing]
      exact .inr (.inr ⟨_, rfl⟩)

end NostrIdentity

/-! ### The identity over launches -/

/-- What the app holds of the identity of the internet transport: the Keychain, the public key
noted in the defaults, the identity of the session stack, and whether a change of it is still to be
announced. -/
structure NostrInstall where
  items : KeychainItems
  lastLocalNostrPubkey : Option Data
  nostrIdentity : Option Data
  nostrIdentityChanged : Bool

namespace NostrInstall

inductive Event
  | makeSessionStack (reply : NostrIdentity.Reply)
  /-- The ready view takes the change over. -/
  | announce
  /-- The step of a wipe that deletes the secret. -/
  | wipeIdentity (deletes : Option Refusal)
  /-- The step of a wipe that clears the defaults. -/
  | wipeResidue
  /-- The item is lost. -/
  | lost
  /-- The process starts again. -/
  | relaunch

variable (curve : Secp256k1) (service : String) (d : NostrInstall)

/-- The public key is compared with the one that was noted, and noted. -/
def noteKey (pub : Data) : NostrInstall :=
  let stored := d.lastLocalNostrPubkey
  let d := if stored ≠ none ∧ stored ≠ some pub then { d with nostrIdentityChanged := true } else d
  if stored ≠ some pub then { d with lastLocalNostrPubkey := some pub } else d

/-- The part of `makeSessionStack` that is about the identity; none where a precondition fails. -/
def makeSessionStack (reply : NostrIdentity.Reply) : Option NostrInstall :=
  (NostrIdentity.loadOrCreate d.items service reply).map fun
    | (items, .error _) => { d with items }
    | (items, .ok secret) =>
      let d := { d with items, nostrIdentity := some secret }
      match curve.xOnlyPublicKey secret with
      | none => d
      | some pub => d.noteKey pub

def step (d : NostrInstall) : Event → Option NostrInstall
  | .makeSessionStack reply => d.makeSessionStack curve service reply
  | .announce => some { d with nostrIdentityChanged := false }
  | .wipeIdentity deletes =>
      some { d with items := (NostrSecretStore.destroy d.items service deletes).1 }
  | .wipeResidue => some { d with lastLocalNostrPubkey := none }
  | .lost => some { d with items := Function.update d.items (NostrSecretStore.item service) none }
  | .relaunch => some { d with nostrIdentity := none, nostrIdentityChanged := false }

def installed (items : KeychainItems) : NostrInstall := ⟨items, none, none, false⟩

/-- The session stack gets the identity with this secret. -/
def Yields (reply : NostrIdentity.Reply) (secret : Data) : Prop :=
  ∃ items, NostrIdentity.loadOrCreate d.items service reply = some (items, .ok secret)

/-- What a run has shown: the secret of the last stack that got one, unless it was deleted or lost
since, and the public key of the last one that had one, unless the defaults were cleared since. -/
structure Shown where
  secret : Option Data
  pub : Option Data

def note (r : Shown) (d : NostrInstall) (e : Event) (_ : NostrInstall) : Shown :=
  match e with
  | .makeSessionStack reply =>
    match NostrIdentity.loadOrCreate d.items service reply with
    | some (_, .ok secret) => ⟨some secret, (curve.xOnlyPublicKey secret).or r.pub⟩
    | _ => r
  | .wipeIdentity deletes =>
    match (NostrSecretStore.destroy d.items service deletes).2 with
    | .ok () => { r with secret := none }
    | .error _ => r
  | .lost => { r with secret := none }
  | .wipeResidue => { r with pub := none }
  | .announce | .relaunch => r

/-- What holds between the state and what the run has shown. -/
structure Consistent (d : NostrInstall) (r : Shown) : Prop where
  stored : ∀ secret, d.items (NostrSecretStore.item service) = some secret →
    NostrIdentity.IsScalar secret
  noted : d.lastLocalNostrPubkey = r.pub
  kept : ∀ secret, r.secret = some secret → d.items (NostrSecretStore.item service) = some secret
  agrees : ∀ secret pub known, r.secret = some secret → curve.xOnlyPublicKey secret = some pub →
    r.pub = some known → pub = known

variable {curve service} {d : NostrInstall} {r : Shown}

/-- The key is noted, and a change from another one that was noted is kept in mind. -/
theorem noteKey_spec (d : NostrInstall) (pub : Data) :
    (d.noteKey pub).items = d.items ∧ (d.noteKey pub).lastLocalNostrPubkey = some pub ∧
      ((d.noteKey pub).nostrIdentityChanged = true ↔
        d.nostrIdentityChanged = true ∨ ∃ known, d.lastLocalNostrPubkey = some known ∧
          pub ≠ known) := by
  unfold noteKey
  cases hstored : d.lastLocalNostrPubkey with
  | none => simp
  | some known =>
    by_cases hsame : known = pub
    · simp [hsame, hstored]
    · have hother : pub ≠ known := fun h => hsame h.symm
      simp [hsame, hother]

theorem note_loaded {d' : NostrInstall} {reply : NostrIdentity.Reply} {items : KeychainItems}
    {secret : Data}
    (h : NostrIdentity.loadOrCreate d.items service reply = some (items, .ok secret)) :
    note curve service r d (.makeSessionStack reply) d' =
      ⟨some secret, (curve.xOnlyPublicKey secret).or r.pub⟩ := by
  simp only [note, h]

/-- The stack that gets an identity notes its key. -/
theorem stack_loaded {reply : NostrIdentity.Reply} {items : KeychainItems} {secret : Data}
    (h : NostrIdentity.loadOrCreate d.items service reply = some (items, .ok secret)) :
    d.makeSessionStack curve service reply = some (match curve.xOnlyPublicKey secret with
      | none => { d with items, nostrIdentity := some secret }
      | some pub => noteKey { d with items, nostrIdentity := some secret } pub) := by
  rw [makeSessionStack, h]
  rfl

theorem stack_failed {reply : NostrIdentity.Reply} {error : NostrIdentity.LoadError}
    (h : NostrIdentity.loadOrCreate d.items service reply = some (d.items, .error error)) :
    d.makeSessionStack curve service reply = some d := by
  rw [makeSessionStack, h]
  rfl

/-- A stack gets the secret that is there, or a new one where there was none. -/
theorem loaded_cases (hcons : Consistent curve service d r) (reply : NostrIdentity.Reply) :
    (∃ secret items, NostrIdentity.loadOrCreate d.items service reply = some (items, .ok secret) ∧
      NostrIdentity.IsScalar secret ∧ items (NostrSecretStore.item service) = some secret ∧
      ∀ earlier, r.secret = some earlier → secret = earlier) ∨
    ∃ error, NostrIdentity.loadOrCreate d.items service reply = some (d.items, .error error) := by
  rcases NostrIdentity.loadOrCreate_cases d.items service reply hcons.stored with
    ⟨secret, hitem, hloaded⟩ | ⟨secret, hnone, hscalar, hloaded⟩ | hfailed
  · refine .inl ⟨secret, _, hloaded, hcons.stored secret hitem, hitem, fun earlier hearlier => ?_⟩
    exact Option.some.inj (hitem.symm.trans (hcons.kept earlier hearlier))
  · refine .inl ⟨secret, _, hloaded, hscalar, Function.update_self .., fun earlier hearlier => ?_⟩
    cases hnone.symm.trans (hcons.kept earlier hearlier)
  · exact .inr hfailed

/-- A stack is built, and what it shows is noted. -/
theorem consistent_stack (hcons : Consistent curve service d r) (reply : NostrIdentity.Reply) :
    ∃ d', d.makeSessionStack curve service reply = some d' ∧
      Consistent curve service d' (note curve service r d (.makeSessionStack reply) d') := by
  rcases loaded_cases hcons reply with ⟨secret, items, hloaded, hscalar, hitem, _⟩ |
    ⟨error, hloaded⟩
  · refine ⟨_, stack_loaded hloaded, ?_⟩
    rw [note_loaded hloaded]
    have hstored : ∀ secret', items (NostrSecretStore.item service) = some secret' →
      NostrIdentity.IsScalar secret' :=
      fun secret' hsecret' => Option.some.inj (hitem.symm.trans hsecret') ▸ hscalar
    have hkept : ∀ secret', some secret = some secret' → items (NostrSecretStore.item service) =
      some secret' :=
      fun secret' hsame => hitem.trans hsame
    cases hpub : curve.xOnlyPublicKey secret with
    | none =>
      refine ⟨hstored, hcons.noted, hkept, fun secret' pub _ hsame hpub' => ?_⟩
      obtain rfl := Option.some.inj hsame
      cases hpub.symm.trans hpub'
    | some pub =>
      obtain ⟨hitems, hnoted, _⟩ := noteKey_spec { d with items, nostrIdentity := some secret } pub
      refine ⟨fun secret' => ?_, hnoted, fun secret' => ?_,
        fun secret' pub' known hsame hpub' hknown => ?_⟩
      · rw [hitems]
        exact hstored secret'
      · rw [hitems]
        exact hkept secret'
      · obtain rfl := Option.some.inj hsame
        exact Option.some.inj (hpub'.symm.trans (hpub.trans hknown))
  · refine ⟨d, stack_failed hloaded, ?_⟩
    simp only [note, hloaded]
    exact hcons

/-- No step traps, and each keeps the state consistent with what was shown. -/
theorem consistent_step (hcons : Consistent curve service d r) (e : Event) :
    ∃ d', step curve service d e = some d' ∧ Consistent curve service d'
    (note curve service r d e d') := by
  have hgone : Consistent curve service
    { d with items := Function.update d.items (NostrSecretStore.item service) none }
      { r with secret := none } := by
    refine ⟨fun secret hsecret => ?_, hcons.noted, ?_, ?_⟩
    · cases (Function.update_self ..).symm.trans hsecret
    · rintro _ ⟨⟩
    · rintro _ _ _ ⟨⟩
  cases e with
  | makeSessionStack reply => exact consistent_stack hcons reply
  | announce => exact ⟨_, rfl, hcons.stored, hcons.noted, hcons.kept, hcons.agrees⟩
  | wipeIdentity deletes =>
    refine ⟨_, rfl, ?_⟩
    rcases NostrSecretStore.destroy_cases d.items service deletes with hdone | ⟨status, hrefused⟩
    · simp only [note, hdone]
      exact hgone
    · simp only [note, hrefused]
      exact hcons
  | wipeResidue =>
    refine ⟨_, rfl, hcons.stored, rfl, hcons.kept, ?_⟩
    rintro _ _ _ _ _ ⟨⟩
  | lost => exact ⟨_, rfl, hgone⟩
  | relaunch => exact ⟨_, rfl, hcons.stored, hcons.noted, hcons.kept, hcons.agrees⟩

/-- Every run goes through, and is consistent with what it has shown. -/
theorem run_consistent (events : List Event) {p : NostrInstall × Shown}
    (hcons : Consistent curve service p.1 p.2) :
    ∃ q, run (recorded (step curve service) (note curve service)) p events = some q ∧
      Consistent curve service q.1 q.2 := by
  induction events generalizing p with
  | nil => exact ⟨p, rfl, hcons⟩
  | cons e events ih =>
    obtain ⟨d', hstep, hnext⟩ := consistent_step hcons e
    obtain ⟨q, hrun, hend⟩ := ih (p := (d', note curve service p.2 p.1 e d')) hnext
    exact ⟨q, run_cons.mpr ⟨_, by rw [recorded, hstep]; rfl, hrun⟩, hend⟩

end NostrInstall

end AeroNyra
