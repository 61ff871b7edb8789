import AeroNyra.AtRest.StoredJSON
import AeroNyra.Enrollment.Tables
import AeroNyra.Identity.Enclave
import AeroNyra.Lib.Interleave
import AeroNyra.Wipe.EmergencyWipe

/-! The sealed files of the session layer, over launches, wipes and stores that outlive a wipe.
Each is a register: what is read is what was saved last, by a store of the same key, and after a
wipe nothing that was saved before it.  Every destroyed key ends an epoch, and a store belongs to
the epoch in which it was made. -/

namespace AeroNyra.AtRest

open Keychain Interleave

/-! ### The key of a store -/

namespace SessionStoreKey

inductive SessionStoreKeyError
  | keychain (status : OSStatus)
  | generationFailed

def account : String := "session.dek.v1"

/-- What the environment answers when a key is loaded or created. -/
structure Reply where
  copies : Option Refusal := none
  /-- The bytes of a new key; none when the generator fails. -/
  random : Option Data := none
  adds : Option Refusal := none

variable (items : KeychainItems) (service : String) (reply : Reply)

def item : String × String := (service, account)

def load : Except SessionStoreKeyError (Option Data) :=
  match copyMatching items (item service) reply.copies with
  | .ok data => .ok (some data)
  | .error status => if status = errSecItemNotFound then .ok none else .error (.keychain status)

def create : KeychainItems × Except SessionStoreKeyError Data :=
  match reply.random with
  | none => (items, .error .generationFailed)
  | some raw =>
    let added := add items (item service) raw reply.adds
    (added.1, if added.2 = errSecSuccess then .ok raw else .error (.keychain added.2))

def loadOrCreate : KeychainItems × Except SessionStoreKeyError Data :=
  match load items service reply with
  | .error error => (items, .error error)
  | .ok (some existing) => (items, .ok existing)
  | .ok none => create items service reply

def destroy (deletes : Option Refusal) : KeychainItems × Except SessionStoreKeyError Unit :=
  let deleted := delete items (item service) deletes
  (deleted.1, if deleted.2 = errSecSuccess ∨ deleted.2 = errSecItemNotFound then .ok ()
    else .error (.keychain deleted.2))

variable {items service reply}

/-- The key is the one that is there, or one that was drawn where there was none; a failure changes
nothing. -/
theorem loadOrCreate_cases (items : KeychainItems) (service : String) (reply : Reply) :
    (∃ dek, items (item service) = some dek ∧ loadOrCreate items service reply = (items, .ok dek)) ∨
    (∃ raw, items (item service) = none ∧ reply.random = some raw ∧
      loadOrCreate items service reply =
        (Function.update items (item service) (some raw), .ok raw)) ∨
    ∃ error, loadOrCreate items service reply = (items, .error error) := by
  unfold loadOrCreate load
  cases hcopied : copyMatching items (item service) reply.copies with
  | ok dek => exact .inl ⟨dek, (copyMatching_eq_ok.mp hcopied).2, rfl⟩
  | error status =>
    dsimp only
    split
    · rename_i hthrown
      exact .inr (.inr ⟨_, rfl⟩)
    · rename_i hthere
      split at hthere <;> cases hthere
    · dsimp only [create]
      cases hrandom : reply.random with
      | none => exact .inr (.inr ⟨_, rfl⟩)
      | some raw =>
        dsimp only
        rcases add_cases items (item service) raw reply.adds with ⟨hadded, hnone, hafter⟩ |
          ⟨hadded, hafter, _⟩
        · exact .inr (.inl ⟨raw, hnone, rfl, by rw [if_pos hadded, hafter]⟩)
        · exact .inr (.inr ⟨_, by rw [if_neg hadded, hafter]⟩)

/-- The key is gone when that is reported, and as it was otherwise. -/
theorem destroy_cases (items : KeychainItems) (service : String) (deletes : Option Refusal) :
    (destroy items service deletes = (Function.update items (item service) none, .ok ())) ∨
    ∃ error, destroy items service deletes = (items, .error error) := by
  unfold destroy
  rcases delete_cases items (item service) deletes with ⟨hstatus, hafter⟩ |
    ⟨hsuccess, hmissing, hafter⟩
  · exact .inl (by simp only [if_pos hstatus, hafter])
  · exact .inr ⟨.keychain (delete items (item service) deletes).2, by
      simp only [hafter, if_neg (not_or.mpr ⟨hsuccess, hmissing⟩)]⟩

end SessionStoreKey

/-! ### The stores -/

/-- How the values of a store are written; none where the source throws. -/
structure Codec (α : Type) where
  encode : α → Option Data
  decode : Data → Option α

/-- What is written of a value is read as one that is the same to the app. -/
def Codec.Faithful {α : Type} (codec : Codec α) (Valid : α → Prop) (Same : α → α → Prop) : Prop :=
  ∀ value bytes, Valid value → codec.encode value = some bytes →
    ∃ value', codec.decode bytes = some value' ∧ Same value' value

structure SealedFile (α : Type) where
  store : SealedStore
  aad : Data
  codec : Codec α
  /-- What a file that is missing reads as. -/
  empty : α

abbrev Nonce := {nonce : Data // nonce.length = 12}

/-- The Keychain and the files of the device, and the data keys of the stores that the process
made. -/
structure StoreState where
  items : KeychainItems
  files : FileURL → Option Data
  handles : List Data

namespace SealedFile

variable {α : Type} (c : ChaChaPoly) (file : SealedFile α) (s : StoreState)

/-- None where the source throws: the file that is there cannot be read, opened or decoded. -/
def load (dek : Data) (readable : Bool) : Option α :=
  match s.files file.store.fileURL with
  | none => some file.empty
  | some bytes =>
    if readable then (c.openCombined dek bytes file.aad).bind file.codec.decode else none

/-- Whether the value was written, in place of what was there; otherwise the source throws. -/
def save (dek : Data) (value : α) (nonce : Data) (writes : Bool) : StoreState × Bool :=
  match file.codec.encode value with
  | none => (s, false)
  | some plaintext =>
    let bytes := c.combined dek nonce plaintext file.aad
    if writes then ({ s with files := Function.update s.files file.store.fileURL (some bytes) },
      true)
    else (s, false)

/-- The file goes first; where it cannot be removed the key stays. -/
def wipe (removes : Bool) (deletes : Option Refusal) : StoreState × Bool :=
  let destroyed (s : StoreState) :=
    match SessionStoreKey.destroy s.items file.store.keychainService deletes with
    | (items, .ok ()) => ({ s with items }, true)
    | (items, .error _) => ({ s with items }, false)
  if (s.files file.store.fileURL).isSome then
    if removes then destroyed { s with files := Function.update s.files file.store.fileURL none }
      else (s, false)
  else destroyed s

inductive Event (α : Type)
  /-- A store is made with the key that is loaded or created, if its directory can be made. -/
  | makeStore (reply : SessionStoreKey.Reply) (createsDirectory : Bool)
  | save (handle : Nat) (value : α) (nonce : Nonce) (writes : Bool)
  | wipe (removes : Bool) (deletes : Option Refusal)
  /-- The process ends, and its stores with it. -/
  | relaunch
  /-- Another item of the Keychain is changed, or another file. -/
  | otherItem (item : String × String) (value : Option Data)
  | otherFile (url : FileURL) (content : Option Data)

def makeStore (reply : SessionStoreKey.Reply) (createsDirectory : Bool) : StoreState × Bool :=
  match SessionStoreKey.loadOrCreate s.items file.store.keychainService reply with
  | (items, .error _) => ({ s with items }, false)
  | (items, .ok dek) =>
    if createsDirectory then ({ s with items, handles := s.handles ++ [dek] }, true)
      else ({ s with items }, false)

def step : Event α → Option StoreState
  | .makeStore reply createsDirectory => some (file.makeStore s reply createsDirectory).1
  | .save handle value nonce writes =>
    s.handles[handle]?.map fun dek => (file.save c s dek value nonce.1 writes).1
  | .wipe removes deletes => some (file.wipe s removes deletes).1
  | .relaunch => some { s with handles := [] }
  | .otherItem item value =>
    if item = SessionStoreKey.item file.store.keychainService then none
    else some { s with items := Function.update s.items item value }
  | .otherFile url content =>
    if url = file.store.fileURL then none
      else some { s with files := Function.update s.files url content }

/-- The bytes that are drawn for a new key. -/
def Event.draws : Event α → Option Data
  | .makeStore reply _ => reply.random
  | _ => none

end SealedFile

/-! ### The register -/

/-- What becomes of a register: a store is made, saves a value, or loses what was saved; the key is
destroyed, or the process ends. -/
inductive Outcome (α : Type)
  | made
  | saved (handle : Nat) (value : α)
  | removed
  | keyDestroyed
  | ended

/-- A register: the value that was saved last and the epoch of the store that saved it, the epochs
of the stores of the process, and the number of keys that were destroyed so far. -/
structure Register (α : Type) where
  written : Option (α × Nat)
  handles : List Nat
  epoch : Nat

namespace Register

variable {α : Type}

def new : Register α := ⟨none, [], 0⟩

def step (r : Register α) : Outcome α → Register α
  | .made => { r with handles := r.handles ++ [r.epoch] }
  | .saved handle value =>
      { r with written := (r.handles[handle]?.map fun epoch => (value, epoch)).or r.written }
  | .removed => { r with written := none }
  | .keyDestroyed => { r with epoch := r.epoch + 1 }
  | .ended => { r with handles := [] }

/-- Only the first epoch has begun. -/
structure First (r : Register α) : Prop where
  epoch : r.epoch = 0
  handles : ∀ epoch ∈ r.handles, epoch = 0
  written : ∀ value epoch, r.written = some (value, epoch) → epoch = 0

theorem first_new : (new : Register α).First := ⟨rfl, by simp [new], by simp [new]⟩

theorem First.step {r : Register α} (h : r.First) {outcome : Outcome α}
    (hnot : outcome ≠ .keyDestroyed) :
    (r.step outcome).First := by
  cases outcome with
  | made =>
    refine { h with handles := fun epoch hmem => ?_ }
    rcases List.mem_append.mp hmem with hold | hnew
    · exact h.handles epoch hold
    · exact (List.mem_singleton.mp hnew).trans h.epoch
  | saved handle value =>
    refine { h with written := fun value' epoch hwritten => ?_ }
    cases hhandle : r.handles[handle]? with
    | none => exact h.written value' epoch (by simpa [Register.step, hhandle] using hwritten)
    | some writer =>
      have hsame : writer = epoch := by
        simp only [Register.step, hhandle, Option.map_some, Option.some_or,
          Option.some.injEq, Prod.mk.injEq] at hwritten
        exact hwritten.2
      exact hsame ▸ h.handles writer (List.mem_of_getElem? hhandle)
  | removed => exact { h with written := fun _ _ hwritten => by cases hwritten }
  | keyDestroyed => exact absurd rfl hnot
  | ended => exact { h with handles := by simp [Register.step] }

theorem first_foldl {r : Register α} (h : r.First) {outcomes : List (Outcome α)}
    (hnot : .keyDestroyed ∉ outcomes) :
    (outcomes.foldl Register.step r).First := by
  induction outcomes generalizing r with
  | nil => exact h
  | cons outcome outcomes ih =>
    rw [List.mem_cons, not_or] at hnot
    exact ih (h.step (Ne.symm hnot.1)) hnot.2

end Register

namespace SealedFile

variable {α : Type} (c : ChaChaPoly) (file : SealedFile α) (s : StoreState)

/-- What an event comes to. -/
def outcomes : Event α → List (Outcome α)
  | .makeStore reply createsDirectory => if (file.makeStore s reply createsDirectory).2
      then [.made] else []
  | .save handle value nonce writes =>
    if (s.handles[handle]?.map fun dek => (file.save c s dek value nonce.1 writes).2) =
      some true then
      [.saved handle value]
    else []
  | .wipe removes deletes =>
    (if (s.files file.store.fileURL).isSome ∧ removes then [.removed] else []) ++
      if (file.wipe s removes deletes).2 then [.keyDestroyed] else []
  | .relaunch => [.ended]
  | .otherItem _ _ | .otherFile _ _ => []

/-- The register that a run of the store comes to. -/
def note (r : Register α) (s : StoreState) (event : Event α) (_ : StoreState) : Register α :=
  (file.outcomes c s event).foldl Register.step r

/-- The state of a store implements a register, with the keys of the epochs: each key is that of
one epoch. -/
structure Implements (Valid : α → Prop) (drawn : List Data) (keyOf : Nat → Option Data)
    (s : StoreState) (r : Register α) : Prop where
  handles : s.handles.map some = r.handles.map keyOf
  key : s.items (SessionStoreKey.item file.store.keychainService) = keyOf r.epoch
  later : ∀ epoch, r.epoch < epoch → keyOf epoch = none
  unique : ∀ epoch epoch' dek, keyOf epoch = some dek → keyOf epoch' = some dek → epoch = epoch'
  drawn : ∀ epoch dek, keyOf epoch = some dek → dek ∈ drawn
  missing : r.written = none → s.files file.store.fileURL = none
  written : ∀ value epoch, r.written = some (value, epoch) → Valid value ∧
    ∃ dek nonce plaintext, keyOf epoch = some dek ∧ nonce.length = 12 ∧
    file.codec.encode value = some plaintext ∧
      s.files file.store.fileURL = some (c.combined dek nonce plaintext file.aad)

variable {c file s} {s' : StoreState} {r : Register α} {Valid : α → Prop} {drawn : List Data}
  {keyOf : Nat → Option Data}

theorem Implements.mono {drawn' : List Data} (h : file.Implements c Valid drawn keyOf s r)
    (hsub : drawn ⊆ drawn') :
    file.Implements c Valid drawn' keyOf s r :=
  { h with drawn := fun epoch dek hdek => hsub (h.drawn epoch dek hdek) }

/-- A store that is made has the key of the present epoch. -/
theorem Implements.made {dek : Data} (h : file.Implements c Valid drawn keyOf s r)
    (hitem : s.items (SessionStoreKey.item file.store.keychainService) = some dek) :
    file.Implements c Valid drawn keyOf { s with handles := s.handles ++ [dek] } (r.step .made) :=
  { h with handles := by simp [Register.step, h.handles, ← h.key, hitem] }

/-- A key that was never drawn before becomes that of the present epoch. -/
theorem Implements.created {raw : Data} (h : file.Implements c Valid drawn keyOf s r)
    (hnone : s.items (SessionStoreKey.item file.store.keychainService) = none)
    (hfresh : raw ∉ drawn) :
    file.Implements c Valid (raw :: drawn) (Function.update keyOf r.epoch (some raw))
      { s with items :=
          Function.update s.items (SessionStoreKey.item file.store.keychainService) (some raw) }
      r := by
  have hkey : keyOf r.epoch = none := h.key.symm.trans hnone
  have hother : ∀ epoch dek, keyOf epoch = some dek → Function.update keyOf r.epoch
    (some raw) epoch = some dek := by
    intro epoch dek hdek
    rw [Function.update_of_ne (by rintro rfl; simp [hkey] at hdek), hdek]
  have hback : ∀ epoch dek, Function.update keyOf r.epoch (some raw) epoch = some dek →
      (epoch = r.epoch ∧ dek = raw) ∨ keyOf epoch = some dek := by
    intro epoch dek hdek
    by_cases hepoch : epoch = r.epoch
    · rw [hepoch, Function.update_self] at hdek
      exact .inl ⟨hepoch, (Option.some.inj hdek).symm⟩
    · rw [Function.update_of_ne hepoch] at hdek
      exact .inr hdek
  refine ⟨?_, by simp, fun epoch hlater => ?_, fun epoch epoch' dek hdek hdek' => ?_,
    fun epoch dek hdek => ?_, h.missing, fun value epoch hwritten => ?_⟩
  · rw [h.handles]
    refine List.map_congr_left fun epoch hepoch => ?_
    have hsome : keyOf epoch ∈ s.handles.map some := h.handles ▸ List.mem_map_of_mem hepoch
    obtain ⟨dek, _, hdek⟩ := List.mem_map.mp hsome
    rw [hother epoch dek hdek.symm, hdek]
  · rw [Function.update_of_ne (by omega)]
    exact h.later epoch hlater
  · rcases hback epoch dek hdek with ⟨rfl, rfl⟩ | hold <;>
      rcases hback epoch' dek hdek' with ⟨rfl, hraw⟩ | hold'
    · rfl
    · exact absurd (h.drawn _ _ hold') hfresh
    · exact absurd (hraw ▸ h.drawn _ _ hold) hfresh
    · exact h.unique _ _ dek hold hold'
  · rcases hback epoch dek hdek with ⟨_, rfl⟩ | hold
    · exact List.mem_cons_self
    · exact List.mem_cons_of_mem _ (h.drawn _ _ hold)
  · obtain ⟨hvalid, dek, nonce, plaintext, hdek, hrest⟩ := h.written value epoch hwritten
    exact ⟨hvalid, dek, nonce, plaintext, hother epoch dek hdek, hrest⟩

/-- A value that is saved is what is written now, in the epoch of its store. -/
theorem Implements.saved {handle : Nat} {dek nonce plaintext : Data} {value : α}
    (h : file.Implements c Valid drawn keyOf s r) (hhandle : s.handles[handle]? = some dek)
    (hvalid : Valid value) (hnonce : nonce.length = 12)
    (hencode : file.codec.encode value = some plaintext) :
    file.Implements c Valid drawn keyOf
      { s with files := Function.update s.files file.store.fileURL (some
        (c.combined dek nonce plaintext file.aad)) }
      (r.step (.saved handle value)) := by
  have hmap := congrArg (·[handle]?) h.handles
  simp only [List.getElem?_map, hhandle, Option.map_some] at hmap
  obtain ⟨epoch, hepoch, hdek⟩ := Option.map_eq_some_iff.mp hmap.symm
  have hwritten : (r.step (.saved handle value)).written = some (value, epoch) := by
    simp [Register.step, hepoch]
  refine { h with
    missing := fun hnone => absurd (hwritten.symm.trans hnone) (by simp)
    written := fun value' epoch' hnow => ?_ }
  obtain ⟨rfl, rfl⟩ := Prod.mk.inj (Option.some.inj (hwritten.symm.trans hnow))
  exact ⟨hvalid, dek, nonce, plaintext, hdek, hnonce, hencode, Function.update_self ..⟩

theorem Implements.removed (h : file.Implements c Valid drawn keyOf s r) :
    file.Implements c Valid drawn keyOf
      { s with files := Function.update s.files file.store.fileURL none }
      (r.step .removed) :=
  { h with
    missing := fun _ => Function.update_self ..
    written := fun _ _ hwritten => by cases hwritten }

/-- With the key its epoch ends. -/
theorem Implements.destroyed (h : file.Implements c Valid drawn keyOf s r) :
    file.Implements c Valid drawn keyOf
      { s with items :=
          Function.update s.items (SessionStoreKey.item file.store.keychainService) none }
      (r.step .keyDestroyed) :=
  { h with
    key := (Function.update_self ..).trans (h.later _ (Nat.lt_succ_self _)).symm
    later := fun epoch hlater => h.later epoch (Nat.lt_of_succ_lt hlater) }

/-- What is left of a wipe once the file is gone: the key is destroyed, or its epoch goes on. -/
theorem Implements.wiped (h : file.Implements c Valid drawn keyOf s r)
    (hgone : s.files file.store.fileURL = none) (removes : Bool) (deletes : Option Refusal) :
    file.Implements c Valid drawn keyOf (file.wipe s removes deletes).1
      ((if (file.wipe s removes deletes).2 then [.keyDestroyed]
        else []).foldl Register.step r) := by
  unfold wipe
  simp only [hgone, Option.isSome_none, Bool.false_eq_true, if_false]
  rcases SessionStoreKey.destroy_cases s.items file.store.keychainService deletes with
    hdone | ⟨error, hfailed⟩
  · simp only [hdone, if_true, List.foldl_cons, List.foldl_nil]
    exact h.destroyed
  · simp only [hfailed, Bool.false_eq_true, if_false, List.foldl_nil]
    exact h

/-- A wipe of a file that is there and can be removed goes on as one that finds none. -/
theorem wipe_of_removed (hthere : (s.files file.store.fileURL).isSome) (deletes : Option Refusal) :
    file.wipe s true deletes =
      file.wipe { s with files := Function.update s.files file.store.fileURL none }
        true deletes := by
  unfold wipe
  simp [hthere]

theorem step_implements (h : file.Implements c Valid drawn keyOf s r) {event : Event α}
    (hstep : file.step c s event = some s')
    (hvalid : ∀ handle value nonce writes, event = .save handle value nonce writes → Valid value)
    (hfresh : ∀ raw, event.draws = some raw → raw ∉ drawn) :
    ∃ keyOf', file.Implements c Valid (event.draws.toList ++ drawn) keyOf' s'
    (file.note c r s event s') := by
  cases event with
  | makeStore reply createsDirectory =>
    cases hstep
    simp only [note, outcomes]
    unfold makeStore
    rcases SessionStoreKey.loadOrCreate_cases s.items file.store.keychainService reply with
      ⟨dek, hitem, hloaded⟩ | ⟨raw, hnone, hrandom, hcreated⟩ | ⟨error, hfailed⟩
    · refine ⟨keyOf, Implements.mono ?_ (List.subset_append_right _ _)⟩
      rw [hloaded]
      cases createsDirectory with
      | false => exact h
      | true => exact h.made hitem
    · have hnew := h.created hnone (hfresh raw hrandom)
      have hsub : raw :: drawn ⊆
        (Event.draws (α := α) (.makeStore reply createsDirectory)).toList ++ drawn := by
        simp [Event.draws, hrandom]
      refine ⟨Function.update keyOf r.epoch (some raw), Implements.mono ?_ hsub⟩
      rw [hcreated]
      cases createsDirectory with
      | false => exact hnew
      | true => exact hnew.made (Function.update_self ..)
    · refine ⟨keyOf, Implements.mono ?_ (List.subset_append_right _ _)⟩
      rw [hfailed]
      exact h
  | save handle value nonce writes =>
    refine ⟨keyOf, ?_⟩
    simp only [step, Option.map_eq_some_iff] at hstep
    obtain ⟨dek, hhandle, rfl⟩ := hstep
    simp only [note, outcomes, hhandle, Option.map_some, Option.some.injEq, Event.draws,
      Option.toList, List.nil_append]
    unfold save
    cases hencode : file.codec.encode value with
    | none => exact h
    | some plaintext =>
      cases writes with
      | false => exact h
      | true => exact h.saved hhandle (hvalid handle value nonce true rfl) nonce.2 hencode
  | wipe removes deletes =>
    cases hstep
    refine ⟨keyOf, ?_⟩
    simp only [note, outcomes, Event.draws, Option.toList, List.nil_append, List.foldl_append]
    cases hthere : s.files file.store.fileURL with
    | none =>
      simp only [Option.isSome_none, Bool.false_eq_true, false_and, if_false, List.foldl_nil]
      exact h.wiped hthere removes deletes
    | some bytes =>
      have hsome : (s.files file.store.fileURL).isSome := by simp [hthere]
      cases removes with
      | false =>
        have hkept : file.wipe s false deletes = (s, false) := by
          unfold wipe
          simp [hthere]
        simp only [hkept, Option.isSome_some, Bool.false_eq_true, and_false, if_false,
          List.foldl_nil]
        exact h
      | true =>
        simp only [Option.isSome_some, and_self, if_true, List.foldl_cons, List.foldl_nil,
          wipe_of_removed hsome deletes]
        exact h.removed.wiped (Function.update_self ..) true deletes
  | relaunch =>
    cases hstep
    exact ⟨keyOf, { h with handles := rfl }⟩
  | otherItem item value =>
    simp only [step] at hstep
    split at hstep <;> cases hstep
    rename_i hother
    exact ⟨keyOf, { h with key := (Function.update_of_ne (Ne.symm hother) _ _).trans h.key }⟩
  | otherFile url content =>
    simp only [step] at hstep
    split at hstep <;> cases hstep
    rename_i hother
    have hsame : Function.update s.files url content file.store.fileURL =
      s.files file.store.fileURL :=
      Function.update_of_ne (Ne.symm hother) _ _
    exact ⟨keyOf, { h with
      missing := fun hnone => hsame.trans (h.missing hnone)
      written := fun value epoch hwritten => by
        obtain ⟨hvalid, dek, nonce, plaintext, hdek, hnonce, hencode, hfile⟩ :=
          h.written value epoch hwritten
        exact ⟨hvalid, dek, nonce, plaintext, hdek, hnonce, hencode, hsame.trans hfile⟩ }⟩

theorem run_implements {events : List (Event α)} {r' : Register α}
    (h : file.Implements c Valid drawn keyOf s r)
    (hrun : run (recorded (file.step c) (file.note c)) (s, r) events = some (s', r'))
    (hvalid : ∀ handle value nonce writes, .save handle value nonce writes ∈ events → Valid value)
    (hfresh : (events.filterMap Event.draws).Nodup)
    (hnew : ∀ raw ∈ events.filterMap Event.draws, raw ∉ drawn) :
    ∃ drawn' keyOf', file.Implements c Valid drawn' keyOf' s' r' := by
  induction events generalizing s r drawn keyOf with
  | nil =>
    obtain ⟨rfl, rfl⟩ := Prod.mk.inj (Option.some.inj hrun)
    exact ⟨drawn, keyOf, h⟩
  | cons event events ih =>
    obtain ⟨⟨next, r₁⟩, hstep, hrest⟩ := run_cons.mp hrun
    obtain ⟨hnext, hnote⟩ := step_of_recorded hstep
    simp only at hnext hnote
    have hhead : ∀ raw, event.draws = some raw → raw ∉ drawn := fun raw hraw =>
      hnew raw (List.mem_filterMap.mpr ⟨event, List.mem_cons_self, hraw⟩)
    obtain ⟨keyOf', himplements⟩ := step_implements h hnext
      (fun handle value nonce writes hevent => hvalid handle value nonce writes
        (hevent ▸ List.mem_cons_self)) hhead
    rw [← hnote] at himplements
    have htail : (events.filterMap Event.draws).Nodup :=
      hfresh.sublist ((List.sublist_cons_self event events).filterMap Event.draws)
    refine ih himplements hrest
      (fun handle value nonce writes hmem => hvalid handle value nonce writes
        (List.mem_cons_of_mem _ hmem)) htail
      fun raw hraw hmem => ?_
    rcases List.mem_append.mp hmem with hdrawn | hold
    · have hdraws : event.draws = some raw := Option.mem_toList.mp hdrawn
      rw [List.filterMap_cons_some hdraws] at hfresh
      exact (List.nodup_cons.mp hfresh).1 hraw
    · refine hnew raw ?_ hold
      obtain ⟨later, hlater, hdraws⟩ := List.mem_filterMap.mp hraw
      exact List.mem_filterMap.mpr ⟨later, List.mem_cons_of_mem _ hlater, hdraws⟩

/-- A store without a file and a key. -/
def Unused (file : SealedFile α) (s : StoreState) : Prop :=
  s.items (SessionStoreKey.item file.store.keychainService) = none ∧ s.files file.store.fileURL =
    none ∧ s.handles = []

theorem implements_of_unused (h : file.Unused s) : file.Implements c Valid []
    (fun _ => none) s .new where
  handles := by simp [h.2.2, Register.new]
  key := h.1
  later _ _ := rfl
  unique _ _ _ hdek := by cases hdek
  drawn _ _ hdek := by cases hdek
  missing _ := h.2.1
  written _ _ hwritten := by cases hwritten

/-- What a store reads is what the register says: nothing where nothing is written, the value that
was saved last if that was by a store of its own epoch, and no value otherwise. -/
theorem load_implements (hc : c.Ideal) {Same : α → α → Prop}
    (hcodec : file.codec.Faithful Valid Same)
    (h : file.Implements c Valid drawn keyOf s r) {handle : Nat} {dek : Data}
    (hhandle : s.handles[handle]? = some dek) :
    ∃ epoch, r.handles[handle]? = some epoch ∧
      (r.written = none → ∀ readable, file.load c s dek readable = some file.empty) ∧
      ∀ value writer, r.written = some (value, writer) →
        file.load c s dek false = none ∧
        (epoch = writer → ∃ value', file.load c s dek true = some value' ∧ Same value' value) ∧
        (epoch ≠ writer → file.load c s dek true = none) := by
  have hmap := congrArg (·[handle]?) h.handles
  simp only [List.getElem?_map, hhandle, Option.map_some] at hmap
  obtain ⟨epoch, hepoch, hdek⟩ := Option.map_eq_some_iff.mp hmap.symm
  refine ⟨epoch, hepoch, fun hnone readable => ?_, fun value writer hwritten => ?_⟩
  · unfold load
    rw [h.missing hnone]
  · obtain ⟨hvalid, key, nonce, plaintext, hkey, hnonce, hencode, hfile⟩ :=
      h.written value writer hwritten
    have hopens : ∀ opened, c.openCombined dek (c.combined key nonce plaintext file.aad) file.aad =
      some opened ↔
        dek = key ∧ opened = plaintext := by
      intro opened
      rw [ChaChaPoly.openCombined_eq_some hc hnonce]
      simp
    refine ⟨by simp [load, hfile], fun hsame => ?_, fun hother => ?_⟩
    · obtain rfl : dek = key :=
        Option.some.inj ((hdek.symm.trans (congrArg keyOf hsame)).trans hkey)
      obtain ⟨value', hdecode, hvalue⟩ := hcodec value plaintext hvalid hencode
      refine ⟨value', ?_, hvalue⟩
      simp only [load, hfile, if_true, (hopens plaintext).mpr ⟨rfl, rfl⟩, Option.bind_some, hdecode]
    · have hclosed : c.openCombined dek (c.combined key nonce plaintext file.aad) file.aad =
        none := by
        refine Option.eq_none_iff_forall_ne_some.mpr fun opened hopened => hother ?_
        obtain ⟨rfl, _⟩ := (hopens opened).mp hopened
        exact h.unique epoch writer dek hdek hkey
      simp only [load, hfile, if_true, hclosed, Option.bind_none]

/-- Over any launches, saves and wipes, whatever fails in them, the sealed file is a register: a
store reads the empty value where nothing is written, the value that was saved last if that was by
a store of its own epoch, and no value otherwise; and as long as no key is destroyed there is only
one epoch. -/
def IsRegister (c : ChaChaPoly) (file : SealedFile α) (Valid : α → Prop)
    (Same : α → α → Prop) : Prop :=
  ∀ (s s' : StoreState) (r : Register α) (events : List (Event α)), file.Unused s →
    run (recorded (file.step c) (file.note c)) (s, .new) events = some (s', r) →
    (∀ handle value nonce writes, .save handle value nonce writes ∈ events → Valid value) →
    (events.filterMap Event.draws).Nodup →
    (∀ (handle : Nat) (dek : Data), s'.handles[handle]? = some dek → ∃ epoch, r.handles[handle]? =
      some epoch ∧ (r.written = none → ∀ readable, file.load c s' dek readable = some file.empty) ∧
      ∀ value writer, r.written = some (value, writer) →
        file.load c s' dek false = none ∧
        (epoch = writer → ∃ value', file.load c s' dek true = some value' ∧ Same value' value) ∧
        (epoch ≠ writer → file.load c s' dek true = none)) ∧
    ((∀ t ∈ trace (recorded (file.step c) (file.note c)) (s, .new) events,
      .keyDestroyed ∉ file.outcomes c t.pre.1 t.event) → r.First)

theorem isRegister (hc : c.Ideal) {Same : α → α → Prop} (hcodec : file.codec.Faithful Valid Same) :
    file.IsRegister c Valid Same := by
  intro s s' r events hstart hrun hvalid hfresh
  obtain ⟨_, _, himplements⟩ :=
    run_implements (implements_of_unused hstart) hrun hvalid hfresh fun _ _ => List.not_mem_nil
  refine ⟨fun handle dek hhandle => load_implements hc hcodec himplements hhandle, fun hkept => ?_⟩
  refine run_invariant (fun p : StoreState × Register α => p.2.First) _
    (fun t hstep hnot hpre => ?_) Register.first_new hkept hrun
  rw [(step_of_recorded hstep).2]
  exact Register.first_foldl hpre hnot

end SealedFile

/-! ### The four stores -/

/-- What is written of a table is read back. -/
theorem reads_back {φ ν β : Type} {f : Fields φ ν} {d : Dict Data ν} {key : β → Data}
    {entry : β → Option ν} {l : List β} {bytes : Data}
    (hl : l.map (fun b => (key b, entry b)) = (sortedPairs d).map fun r => (r.1, some r.2))
    (hvalid : ∀ id v, d.lookup id = some v → f.Valid v) (h : f.encode key entry l = .ok bytes) :
    ∃ m, f.decode bytes = .ok m ∧ ∀ id, m.lookup id = d.lookup id := by
  have hlengths : ∀ (l : List β) out, f.writeRecords key entry l = .ok out →
    ∀ b ∈ l, (key b).length = f.idSize := by
    intro l
    induction l with
    | nil => simp
    | cons b l ih =>
      intro out hout
      simp only [Fields.writeRecords, Access.bind_ok, Access.ensure_ok] at hout
      obtain ⟨_, hlength, _, _, rest, hrest, _⟩ := hout
      exact List.forall_mem_cons.mpr ⟨hlength, ih rest hrest⟩
  obtain ⟨_, hcount, out, hout, _⟩ : ∃ u : Unit, l.length ≤ 0xFFFF ∧
    ∃ out, f.writeRecords key entry l = .ok out ∧
      Fields.header l.length ++ out = bytes := by
    simpa only [Fields.encode, Access.bind_ok, Access.ensure_ok, pure, Except.pure,
      Except.ok.injEq] using h
  have hall : ∀ r ∈ sortedPairs d, f.Standard r := by
    rintro ⟨id, v⟩ hr
    have hmem : (id, some v) ∈ l.map fun b => (key b, entry b) := hl ▸ List.mem_map_of_mem hr
    obtain ⟨b, hb, heq⟩ := List.mem_map.mp hmem
    exact ⟨(congrArg (List.length ∘ Prod.fst) heq).symm.trans (hlengths l out hout b hb),
      hvalid id v (mem_sortedPairs.mp hr)⟩
  have hlength : l.length = (sortedPairs d).length := by simpa using congrArg List.length hl
  obtain ⟨bytes', hencode, htable⟩ := Fields.encode_ok hl (hlength ▸ hcount) hall
    (nodup_sortedPairs d)
  obtain rfl : bytes' = bytes := Except.ok.inj (hencode.symm.trans h)
  refine ⟨_, Fields.decode_ok.mpr ⟨_, htable, rfl⟩, fun id => Option.ext fun v => ?_⟩
  rw [htable.lookup, mem_sortedPairs]

end AeroNyra.AtRest

namespace AeroNyra

open AtRest

/-- The times of the pairings are `Int64`s. -/
def ContactAllowlist.InRange (a : ContactAllowlist) : Prop :=
  ∀ id entry, a.entries.lookup id = some entry → InInt64 entry.pairedAt

def ContactAllowlistStore.file (directory keychainService : String) :
    SealedFile ContactAllowlist where
  store := ContactAllowlistStore directory keychainService
  aad := utf8 "aeronyra.contact-allowlist.v1"
  codec := ⟨fun allowlist => (ContactAllowlistCodec.encode allowlist).toOption,
    fun bytes => (ContactAllowlistCodec.decode bytes).toOption⟩
  empty := .empty

def PendingInvitesStore.file (directory keychainService : String) : SealedFile PendingInvites where
  store := PendingInvitesStore directory keychainService
  aad := utf8 "aeronyra.pending-invites.v1"
  codec := ⟨fun ledger => (PendingInvitesCodec.encode ledger).toOption,
    fun bytes => (PendingInvitesCodec.decodeIndexed bytes).toOption⟩
  empty := .empty

/-- The JSON coder is that of the platform. -/
def BlockedContactsStore.file (json : Codec (List BlockedContact))
    (directory keychainService : String) :
    SealedFile (List BlockedContact) where
  store := BlockedContactsStore directory keychainService
  aad := utf8 "aeronyra.blocked-contacts.v1"
  codec := json
  empty := []

def ProcessedEventLedgerStore.file (json : Codec (EventLedger.Stored String))
    (directory keychainService : String) :
    SealedFile (EventLedger String) where
  store := ProcessedEventLedgerStore directory keychainService
  aad := utf8 "aeronyra.nostr-event-ledger.v1"
  codec := ⟨fun ledger => json.encode ledger.encode, fun bytes =>
    (json.decode bytes).map EventLedger.decode⟩
  empty := .new EventLedger.defaultCapacity

/-- `toOption` of what a codec returns. -/
theorem toOption_eq_some {ε α : Type} {x : Except ε α} {a : α} :
    x.toOption = some a ↔ x = .ok a := by
  cases x <;> simp [Except.toOption]

theorem faithful_allowlist (directory keychainService : String) :
    (ContactAllowlistStore.file directory keychainService).codec.Faithful ContactAllowlist.InRange
      fun a a' => ∀ id, a.entries.lookup id = a'.entries.lookup id := by
  intro a bytes hvalid hencode
  have hl : (sortedBy (fun id => id) a.identities).map (fun id => (id, a.entries.lookup id)) =
      (sortedPairs a.entries).map fun r => (r.1, some r.2) := by
    rw [ContactAllowlist.identities, sortedBy_keys, List.map_map]
    exact List.map_congr_left fun r hr => congrArg (Prod.mk r.1) (mem_sortedPairs.mp hr)
  obtain ⟨m, hdecode, hsame⟩ := reads_back (f := ContactAllowlistCodec.fields) hl hvalid
    (toOption_eq_some.mp hencode)
  refine ⟨⟨m⟩, toOption_eq_some.mpr ?_, hsame⟩
  rw [ContactAllowlistCodec.decode, hdecode]
  rfl

theorem faithful_invites (directory keychainService : String) :
    (PendingInvitesStore.file directory keychainService).codec.Faithful PendingInvites.InRange
      fun p p' => ∀ id, p.pending.lookup id = p'.pending.lookup id := by
  intro p bytes hvalid hencode
  obtain ⟨m, hdecode, hsame⟩ := reads_back (f := PendingInvitesCodec.fields)
    (d := p.pending) rfl hvalid (toOption_eq_some.mp hencode)
  refine ⟨⟨m⟩, toOption_eq_some.mpr ?_, hsame⟩
  rw [PendingInvitesCodec.decodeIndexed, hdecode]
  rfl

theorem faithful_ledger {json : Codec (EventLedger.Stored String)}
    (hjson : json.Faithful (fun _ => True) Eq) (directory keychainService : String) :
    (ProcessedEventLedgerStore.file json directory keychainService).codec.Faithful
      EventLedger.Built Eq := by
  intro ledger bytes hbuilt hencode
  obtain ⟨stored, hdecode, rfl⟩ := hjson ledger.encode bytes trivial hencode
  refine ⟨ledger, ?_, rfl⟩
  simp only [ProcessedEventLedgerStore.file, hdecode, Option.map_some,
    EventLedger.decode_encode hbuilt]

/-- The four sealed stores of the session layer are registers. -/
theorem sealed_stores_are_registers {c : ChaChaPoly} (hc : c.Ideal)
    {blocked : Codec (List BlockedContact)}
    (hblocked : blocked.Faithful (fun _ => True) Eq) {ledger : Codec (EventLedger.Stored String)}
    (hledger : ledger.Faithful (fun _ => True) Eq) (directory : String) :
    (ContactAllowlistStore.file directory ContactAllowlistStore.defaultKeychainService).IsRegister c
        ContactAllowlist.InRange (fun a a' => ∀ id, a.entries.lookup id = a'.entries.lookup id) ∧
      (PendingInvitesStore.file directory PendingInvitesStore.defaultKeychainService).IsRegister c
        PendingInvites.InRange (fun p p' => ∀ id, p.pending.lookup id = p'.pending.lookup id) ∧
      (BlockedContactsStore.file blocked directory
        BlockedContactsStore.defaultKeychainService).IsRegister c (fun _ => True) Eq ∧
      (ProcessedEventLedgerStore.file ledger directory
        ProcessedEventLedgerStore.defaultKeychainService).IsRegister c EventLedger.Built Eq :=
  ⟨SealedFile.isRegister hc (faithful_allowlist directory _),
  SealedFile.isRegister hc (faithful_invites directory _),
    SealedFile.isRegister hc hblocked, SealedFile.isRegister hc
      (faithful_ledger hledger directory _)⟩

/-- Values as the UTF-8 bytes of a text that determines them. -/
noncomputable def AtRest.Codec.ofText {α : Type} (text : α → Text) : Codec α where
  encode value := some (text value).bytes
  decode := Function.partialInv fun value => (text value).bytes

theorem AtRest.Codec.faithful_ofText {α : Type} {text : α → Text} (h : Function.Injective text) :
    (ofText text).Faithful (fun _ => True) Eq := by
  intro value bytes _ hencode
  obtain rfl := Option.some.inj hencode
  exact ⟨value, Function.partialInv_left (fun _ _ heq => h (Text.bytes_injective heq)) value, rfl⟩

/-- A denylist is saved in one process and read in the next one. -/
theorem sealed_stores_are_registers_denylist :
    let file := BlockedContactsStore.file (.ofText BlockedContactsStore.json) "d"
      BlockedContactsStore.defaultKeychainService
    let denylist : List BlockedContact :=
      [⟨List.replicate 32 7, 1700000000000, some "Mallory", true⟩]
    let s : StoreState := ⟨fun _ => none, fun _ => none, []⟩
    let events : List (SealedFile.Event (List BlockedContact)) :=
      [.makeStore { random := some [1] } true, .save 0 denylist ⟨List.replicate 12 0, rfl⟩ true,
        .relaunch, .makeStore {} true]
    ∃ s' r, Interleave.run (Interleave.recorded (file.step .transparent) (file.note .transparent))
    (s, .new) events =
        some (s', r) ∧ r.written = some (denylist, 0) ∧ file.load .transparent s' [1] true =
          some denylist := by
  intro file denylist s events
  have hregister := (sealed_stores_are_registers ChaChaPoly.transparent_ideal
    (Codec.faithful_ofText BlockedContactsStore.json_injective)
    (Codec.faithful_ofText ProcessedEventLedgerStore.json_injective) "d").2.2.1
  obtain ⟨hread, _⟩ := hregister s _ _ events ⟨rfl, rfl, rfl⟩ rfl
    (fun _ _ _ _ _ => trivial) (by decide)
  obtain ⟨epoch, hepoch, _, hload⟩ := hread 0 [1] rfl
  obtain ⟨_, hsame, _⟩ := hload denylist 0 rfl
  obtain ⟨value, hvalue, rfl⟩ := hsame (Option.some.inj hepoch).symm
  exact ⟨_, _, rfl, rfl, hvalue⟩

end AeroNyra
