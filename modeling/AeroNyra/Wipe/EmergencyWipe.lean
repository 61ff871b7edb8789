import Mathlib.Data.List.Basic
import Mathlib.Tactic.Common

/-! The emergency wipe: a sequence of steps, each of which is a sequence of primitive erases that
may fail.  Every step is attempted whatever the earlier ones did, but the wipe of a sealed store
stops at its first failure, so a file that cannot be removed keeps its data key. -/

namespace AeroNyra

structure FileURL where
  directory : String
  name : String
  deriving DecidableEq

/-- What a primitive operation erases.  The items of the Keychain have distinct accounts and are
told apart by their services. -/
inductive Item
  | file (url : FileURL)
  /-- A `SessionStoreKey`, the data key of a sealed file. -/
  | dataKey (service : String)
  | nostrSecret (service : String)
  | identity (service : String)
  | enclaveKey (service : String)
  | wrappedDEK (service : String)
  | default (key : String)
  | notifications
  deriving DecidableEq

namespace Item

def isFile : Item → Bool
  | .file _ => true
  | _ => false

/-- Removing a default and clearing the notifications does not fail. -/
def isResidue : Item → Bool
  | .default _ | .notifications => true
  | _ => false

end Item

/-- The primitive operations that fail. -/
structure Failures where
  fails : Item → Bool
  residue : ∀ i, i.isResidue → fails i = false

/-- What is on the device, and the primitive operations that were attempted so far. -/
structure Storage where
  present : Item → Bool
  attempted : List Item

section Wipe

variable (f : Failures) (d : Storage)

/-- One primitive operation: it fails and changes nothing, or the item is gone.  An item that is
absent is erased as well.  An error is the item that could not be erased. -/
def Storage.erase (i : Item) : Storage × Option Item :=
  if f.fails i then ({ d with attempted := d.attempted ++ [i] }, some i)
  else (⟨fun j => d.present j && j != i, d.attempted ++ [i]⟩, none)

/-- A sealed file and the Keychain service of its data key. -/
structure SealedStore where
  fileURL : FileURL
  keychainService : String
  deriving DecidableEq

/-- The `wipe` of each sealed store that is a `Wipeable`. -/
def SealedStore.wipe (s : SealedStore) : Storage × Option Item :=
  if d.present (.file s.fileURL) then
    match d.erase f (.file s.fileURL) with
    | (d, some error) => (d, some error)
    | (d, none) => d.erase f (.dataKey s.keychainService)
  else d.erase f (.dataKey s.keychainService)

def ContactAllowlistStore.defaultKeychainService : String := "com.aeronyra.contactallowlist.v1"

def PendingInvitesStore.defaultKeychainService : String := "com.aeronyra.pendinginvites.v1"

def BlockedContactsStore.defaultKeychainService : String := "com.aeronyra.blockedcontacts.v1"

def ProcessedEventLedgerStore.defaultKeychainService : String := "com.aeronyra.nostreventledger.v1"

def ContactAllowlistStore (directory keychainService : String) : SealedStore :=
  ⟨⟨directory, "contact-allowlist.v1.seal"⟩, keychainService⟩

def PendingInvitesStore (directory keychainService : String) : SealedStore :=
  ⟨⟨directory, "pending-invites.v1.seal"⟩, keychainService⟩

def BlockedContactsStore (directory keychainService : String) : SealedStore :=
  ⟨⟨directory, "blocked-contacts.v1.seal"⟩, keychainService⟩

def ProcessedEventLedgerStore (directory keychainService : String) : SealedStore :=
  ⟨⟨directory, "nostr-event-ledger.v1.seal"⟩, keychainService⟩

/-- The session store, which is no `Wipeable`. -/
def PersistentBeaconStore.sealed (directory keychainService : String) : SealedStore :=
  ⟨⟨directory, "signalstore.dat"⟩, keychainService⟩

namespace SwiftDataStoreWipe

def storeFileNames : List String := ["default.store", "default.store-wal", "default.store-shm"]

/-- Each file that exists is removed, whatever fails; the first error is thrown at the end. -/
def wipe (directory : String) : Storage × Option Item :=
  storeFileNames.foldl (fun p name =>
    if p.1.present (.file ⟨directory, name⟩) then
      let q := p.1.erase f (.file ⟨directory, name⟩)
      (q.1, p.2.or q.2)
    else p) (d, none)

end SwiftDataStoreWipe

namespace DeviceResidueWipe

def keys : List String :=
  ["aeronyra.displayName", "aeronyra.selfPhoto", "nostr.lastKnownLocalPubkey.v1",
    "aeronyra.contentFilter.enabled.v1", "aeronyra.contentFilter.words.v1",
    "aeronyra.reportedMessages.v1"]

def items : List Item := keys.map .default ++ [.notifications]

def wipe : Storage × Option Item := (items.foldl (fun d i => (d.erase f i).1) d, none)

end DeviceResidueWipe

structure MessageVault where
  service : String
  /-- The service of its Enclave wrapper. -/
  wrapper : Option String

/-- The wrapped data key is deleted, and then in a `defer` the Enclave key, whose error is
dropped. -/
def MessageVault.destroy (v : MessageVault) : Storage × Option Item :=
  let p := d.erase f (.wrappedDEK v.service)
  match v.wrapper with
  | some service => ((p.1.erase f (.enclaveKey service)).1, p.2)
  | none => p

/-- `deleteAllSessions`, over a persistent store with its file or over one in memory; the error of
the removal is dropped. -/
def deleteAllSessions (persistent : Option SealedStore) : Storage × Option Item :=
  match persistent with
  | some store => ((d.erase f (.file store.fileURL)).1, none)
  | none => (d, none)

/-- The kinds of additional steps. -/
inductive Wipeable
  | sealedStore (store : SealedStore)
  | sessionKey (service : String)
  | nostrIdentity (service : String)
  | swiftDataStore (directory : String)
  | deviceResidue
  deriving DecidableEq

def Wipeable.wipe : Wipeable → Storage × Option Item
  | .sealedStore store => store.wipe f d
  | .sessionKey service => d.erase f (.dataKey service)
  | .nostrIdentity service => d.erase f (.nostrSecret service)
  | .swiftDataStore directory => SwiftDataStoreWipe.wipe f d directory
  | .deviceResidue => DeviceResidueWipe.wipe f d

structure EmergencyWipe where
  /-- The service of the identity item. -/
  identityStore : String
  vault : Option MessageVault := none
  /-- The session store, with its sealed file if it is persistent. -/
  sessionStore : Option (Option SealedStore) := none
  sharedEnclaveWrapper : Option String := none
  additionalSteps : List Wipeable := []

namespace EmergencyWipe

inductive Step
  | vault (v : MessageVault)
  | sessions (persistent : Option SealedStore)
  | identity (service : String)
  | enclave (service : String)
  | additional (step : Wipeable)

def Step.run : Step → Storage × Option Item
  | .vault v => v.destroy f d
  | .sessions persistent => deleteAllSessions f d persistent
  | .identity service => d.erase f (.identity service)
  | .enclave service => d.erase f (.enclaveKey service)
  | .additional step => step.wipe f d

/-- The steps in their order. -/
def steps (e : EmergencyWipe) : List Step :=
  (e.vault.toList.map .vault : List Step) ++ (e.sessionStore.toList.map .sessions : List Step) ++
    ([.identity e.identityStore] : List Step) ++
    (e.sharedEnclaveWrapper.toList.map .enclave : List Step) ++
    (e.additionalSteps.map .additional : List Step)

/-- Runs the steps, and collects their errors. -/
def runAll : List Step → Storage → Storage × List Item
  | [], d => (d, [])
  | step :: rest, d =>
    let p := step.run f d
    let q := runAll rest p.1
    (q.1, p.2.toList ++ q.2)

def perform (e : EmergencyWipe) : Storage × List Item := runAll f e.steps d

/-- Throws the errors, if there are any. -/
def performStrict (e : EmergencyWipe) : Storage × Except (List Item) Unit :=
  let p := e.perform f d
  (p.1, if p.2.isEmpty then .ok () else .error p.2)

/-- The wipe that the composition root assembles. -/
def assembled (directory applicationSupport : String) : EmergencyWipe where
  identityStore := "com.aeronyra.identity.v1"
  sessionStore := some (some (PersistentBeaconStore.sealed directory "com.aeronyra.sessionkey.v1"))
  sharedEnclaveWrapper := some "com.aeronyra.enclave.v1"
  additionalSteps :=
    [.sessionKey "com.aeronyra.sessionkey.v1",
      .nostrIdentity "com.aeronyra.nostr.v1",
      .sealedStore (ContactAllowlistStore directory ContactAllowlistStore.defaultKeychainService),
      .sealedStore (PendingInvitesStore directory PendingInvitesStore.defaultKeychainService),
      .sealedStore (BlockedContactsStore directory BlockedContactsStore.defaultKeychainService),
      .sealedStore
        (ProcessedEventLedgerStore directory ProcessedEventLedgerStore.defaultKeychainService),
      .swiftDataStore applicationSupport,
      .deviceResidue]

/-! ### What the wipe is to do -/

/-- The primitive operations of a step. -/
def Step.primitives : Step → List Item
  | .vault v => .wrappedDEK v.service :: v.wrapper.toList.map .enclaveKey
  | .sessions persistent => persistent.toList.map (.file ·.fileURL)
  | .identity service => [.identity service]
  | .enclave service => [.enclaveKey service]
  | .additional (.sealedStore store) => [.file store.fileURL, .dataKey store.keychainService]
  | .additional (.sessionKey service) => [.dataKey service]
  | .additional (.nostrIdentity service) => [.nostrSecret service]
  | .additional (.swiftDataStore directory) =>
    SwiftDataStoreWipe.storeFileNames.map (.file ⟨directory, ·⟩)
  | .additional .deviceResidue => DeviceResidueWipe.items

/-- The sealed stores that are registered. -/
def sealedStores (e : EmergencyWipe) : List SealedStore :=
  e.sessionStore.join.toList ++ e.additionalSteps.filterMap fun
    | .sealedStore store => some store
    | _ => none

variable (present : Item → Bool)

/-- The wipe attempts each primitive operation of each step, but for the removal of files that do
not exist. -/
def AttemptsAll (e : EmergencyWipe) : Prop :=
  ∀ step ∈ e.steps, ∀ i ∈ step.primitives, (i.isFile → present i) →
    i ∈ (e.perform f ⟨present, []⟩).1.attempted

/-- A wipe without errors leaves no sealed file together with its data key, and no file of a message
store. -/
structure Honest (e : EmergencyWipe) : Prop where
  sealed : (e.perform f ⟨present, []⟩).2 = [] → ∀ store ∈ e.sealedStores,
    ¬((e.perform f ⟨present, []⟩).1.present (.file store.fileURL) ∧
      (e.perform f ⟨present, []⟩).1.present (.dataKey store.keychainService))
  messages : (e.perform f ⟨present, []⟩).2 = [] → ∀ directory,
    .swiftDataStore directory ∈ e.additionalSteps → ∀ name ∈ SwiftDataStoreWipe.storeFileNames,
      ¬(e.perform f ⟨present, []⟩).1.present (.file ⟨directory, name⟩)

/-! ### When it does -/

/-- The file of the store exists and cannot be removed. -/
def Stuck (store : SealedStore) : Prop :=
  present (.file store.fileURL) ∧ f.fails (.file store.fileURL)

instance (store : SealedStore) : Decidable (Stuck f present store) :=
  inferInstanceAs (Decidable (_ ∧ _))

/-- The step goes on to the data key with this service. -/
def DeletesKey (service : String) : Wipeable → Prop
  | .sealedStore store => store.keychainService = service ∧ ¬Stuck f present store
  | .sessionKey service' => service' = service
  | .nostrIdentity _ | .swiftDataStore _ | .deviceResidue => False

/-- The step reports an error. -/
def Step.Fails : Step → Prop
  | .vault v => f.fails (.wrappedDEK v.service)
  | .sessions _ => False
  | .identity service => f.fails (.identity service)
  | .enclave service => f.fails (.enclaveKey service)
  | .additional (.sealedStore store) =>
    Stuck f present store ∨ f.fails (.dataKey store.keychainService)
  | .additional (.sessionKey service) => f.fails (.dataKey service)
  | .additional (.nostrIdentity service) => f.fails (.nostrSecret service)
  | .additional (.swiftDataStore directory) => ∃ name ∈ SwiftDataStoreWipe.storeFileNames,
    present (.file ⟨directory, name⟩) ∧ f.fails (.file ⟨directory, name⟩)
  | .additional .deviceResidue => False

/-- Where the file of a sealed store cannot be removed, another step deletes the data key; for the
session store, whose own wipe has no key to delete, it is enough that the key does not exist or that
another step fails. -/
structure KeysGo (e : EmergencyWipe) : Prop where
  wipeable : ∀ store, .sealedStore store ∈ e.additionalSteps → Stuck f present store →
    ∃ step ∈ e.additionalSteps, DeletesKey f present store.keychainService step
  session : ∀ store, e.sessionStore = some (some store) → Stuck f present store →
    present (.dataKey store.keychainService) →
    (∃ step ∈ e.additionalSteps, DeletesKey f present store.keychainService step) ∨
      ∃ step ∈ e.steps, step.Fails f present

/-! ### What a step attempts -/

/-- The primitive operations that a step attempts. -/
def Step.tries : Step → List Item
  | .additional (.sealedStore store) =>
    if Stuck f present store then [.file store.fileURL]
    else [.file store.fileURL].filter present ++ [.dataKey store.keychainService]
  | .additional (.swiftDataStore directory) =>
    (SwiftDataStoreWipe.storeFileNames.map (.file ⟨directory, ·⟩)).filter present
  | step => step.primitives

variable {f present} {d d' d'' : Storage} {items items' : List Item}

/-- From `d` to `d'` the operations on `items` were attempted, and those that do not fail
succeeded. -/
structure Swept (f : Failures) (d d' : Storage) (items : List Item) : Prop where
  attempted : d'.attempted = d.attempted ++ items
  present : ∀ i, d'.present i ↔ d.present i ∧ (i ∈ items → f.fails i)

theorem Swept.refl : Swept f d d [] := ⟨by simp, by simp⟩

theorem Swept.trans (h : Swept f d d' items) (h' : Swept f d' d'' items') :
    Swept f d d'' (items ++ items') := by
  refine ⟨by rw [h'.attempted, h.attempted, List.append_assoc], fun i => ?_⟩
  rw [h'.present, h.present, and_assoc]
  simp only [List.mem_append]
  exact and_congr_right fun _ => ⟨fun h hi => hi.elim h.1 h.2, fun h => ⟨fun hi => h (.inl hi),
    fun hi => h (.inr hi)⟩⟩

theorem swept_erase (i : Item) : Swept f d (d.erase f i).1 [i] := by
  unfold Storage.erase
  split
  · rename_i hfails
    refine ⟨rfl, fun j => ⟨fun hj => ⟨hj, fun hi => ?_⟩, And.left⟩⟩
    exact List.mem_singleton.mp hi ▸ hfails
  · rename_i hfails
    refine ⟨rfl, fun j => ?_⟩
    simp only [Bool.and_eq_true, bne_iff_ne, List.mem_singleton]
    refine and_congr_right fun _ => ⟨fun hj hi => absurd hi hj, fun h hj => ?_⟩
    exact hfails (hj ▸ h hj)

theorem erase_error (i : Item) : (d.erase f i).2 = if f.fails i then some i else none := by
  unfold Storage.erase
  split <;> rfl

theorem swept_sealedStore (store : SealedStore) : Swept f d (store.wipe f d).1
    ((Step.additional (.sealedStore store)).tries f d.present) := by
  have hkey (d' : Storage) := swept_erase (f := f) (d := d') (.dataKey store.keychainService)
  unfold SealedStore.wipe
  by_cases hfile : d.present (.file store.fileURL)
  · rw [if_pos hfile]
    have hswept := swept_erase (f := f) (d := d) (.file store.fileURL)
    have herror := erase_error (f := f) (d := d) (.file store.fileURL)
    generalize d.erase f (.file store.fileURL) = p at hswept herror
    obtain ⟨d', error⟩ := p
    by_cases hfails : f.fails (.file store.fileURL)
    · have hstuck : Stuck f d.present store := ⟨hfile, hfails⟩
      obtain rfl : error = some (.file store.fileURL) := by simpa [hfails] using herror
      simpa [Step.tries, hstuck] using hswept
    · have hstuck : ¬Stuck f d.present store := fun h => hfails h.2
      obtain rfl : error = none := by simpa [hfails] using herror
      simpa [Step.tries, hstuck, hfile] using hswept.trans (hkey d')
  · rw [if_neg hfile]
    have hstuck : ¬Stuck f d.present store := fun h => hfile h.1
    simpa [Step.tries, hstuck, hfile] using hkey d

theorem sealedStore_error (store : SealedStore) : (store.wipe f d).2.isSome ↔
    Stuck f d.present store ∨ f.fails (.dataKey store.keychainService) := by
  have hkey (d' : Storage) : (d'.erase f (.dataKey store.keychainService)).2.isSome ↔
      f.fails (.dataKey store.keychainService) := by
    rw [erase_error]
    split <;> simp_all
  unfold SealedStore.wipe
  by_cases hfile : d.present (.file store.fileURL)
  · rw [if_pos hfile]
    have herror := erase_error (f := f) (d := d) (.file store.fileURL)
    generalize d.erase f (.file store.fileURL) = p at herror
    obtain ⟨d', error⟩ := p
    by_cases hfails : f.fails (.file store.fileURL)
    · obtain rfl : error = some (.file store.fileURL) := by simpa [hfails] using herror
      exact iff_of_true rfl (.inl ⟨hfile, hfails⟩)
    · obtain rfl : error = none := by simpa [hfails] using herror
      rw [or_iff_right fun h => hfails h.2]
      exact hkey d'
  · rw [if_neg hfile, or_iff_right fun h => hfile h.1]
    exact hkey d

/-- A loop over files of one directory that removes those that exist. -/
theorem swept_files (directory : String) {names : List String} (hnames : names.Nodup)
    (error : Option Item) :
    let p := names.foldl (fun p name =>
      if p.1.present (.file ⟨directory, name⟩) then
        let q := p.1.erase f (.file ⟨directory, name⟩)
        (q.1, p.2.or q.2)
      else p) (d, error)
    Swept f d p.1 ((names.map (.file ⟨directory, ·⟩)).filter d.present) ∧
      (p.2.isSome ↔ error.isSome ∨ ∃ name ∈ names,
        d.present (.file ⟨directory, name⟩) ∧ f.fails (.file ⟨directory, name⟩)) := by
  induction names generalizing d error with
  | nil => exact ⟨.refl, by simp⟩
  | cons name names ih =>
    obtain ⟨hname, hrest⟩ := List.nodup_cons.mp hnames
    simp only [List.foldl_cons, List.map_cons, List.filter_cons]
    by_cases hfile : d.present (.file ⟨directory, name⟩)
    · -- The removal leaves the files that are still to come as they are.
      have hswept := swept_erase (f := f) (d := d) (.file ⟨directory, name⟩)
      have herror := erase_error (f := f) (d := d) (.file ⟨directory, name⟩)
      generalize d.erase f (.file ⟨directory, name⟩) = q at hswept herror
      obtain ⟨d', error'⟩ := q
      have hsame (other : String) (hother : other ∈ names) :
          d'.present (.file ⟨directory, other⟩) = d.present (.file ⟨directory, other⟩) := by
        have hne : other ≠ name := fun h => hname (h ▸ hother)
        rw [Bool.eq_iff_iff, hswept.present]
        simp [hne]
      have hfilter : (names.map fun n => Item.file ⟨directory, n⟩).filter d'.present =
          (names.map fun n => Item.file ⟨directory, n⟩).filter d.present := by
        refine List.filter_congr fun i hi => ?_
        obtain ⟨other, hother, rfl⟩ := List.mem_map.mp hi
        exact hsame other hother
      obtain ⟨hlater, herrors⟩ := ih (d := d') hrest (error.or error')
      rw [hfilter] at hlater
      simp only [hfile, ↓reduceIte]
      refine ⟨hswept.trans hlater, herrors.trans ?_⟩
      have hexists : (∃ n ∈ names, d'.present (.file ⟨directory, n⟩) ∧
        f.fails (.file ⟨directory, n⟩)) ↔
          ∃ n ∈ names, d.present (.file ⟨directory, n⟩) ∧ f.fails (.file ⟨directory, n⟩) := by
        refine exists_congr fun n => and_congr_right fun hn => ?_
        rw [hsame n hn]
      rw [hexists, List.exists_mem_cons_iff]
      dsimp only at herror
      subst herror
      by_cases hfails : f.fails (.file ⟨directory, name⟩)
      · simp [hfails, hfile]
      · simp [hfails]
    · obtain ⟨hlater, herrors⟩ := ih (d := d) hrest error
      simp only [hfile, Bool.false_eq_true, ↓reduceIte]
      refine ⟨hlater, herrors.trans ?_⟩
      rw [List.exists_mem_cons_iff]
      simp [hfile]

theorem swept_items (items : List Item) :
    Swept f d (items.foldl (fun d i => (d.erase f i).1) d) items := by
  induction items generalizing d with
  | nil => exact .refl
  | cons i items ih => exact (swept_erase i).trans ih

theorem step_swept (step : Step) : Swept f d (step.run f d).1 (step.tries f d.present) := by
  cases step with
  | vault v =>
    show Swept f d (v.destroy f d).1 (.wrappedDEK v.service :: v.wrapper.toList.map .enclaveKey)
    unfold MessageVault.destroy
    cases v.wrapper with
    | none => exact swept_erase _
    | some service => exact (swept_erase (.wrappedDEK v.service)).trans (swept_erase
        (.enclaveKey service))
  | sessions persistent =>
    cases persistent with
    | none => exact .refl
    | some store => exact swept_erase _
  | identity service => exact swept_erase _
  | enclave service => exact swept_erase _
  | additional step =>
    cases step with
    | sealedStore store => exact swept_sealedStore store
    | sessionKey service => exact swept_erase _
    | nostrIdentity service => exact swept_erase _
    | swiftDataStore directory => exact (swept_files directory (by decide) none).1
    | deviceResidue => exact swept_items _

theorem step_error (step : Step) : (step.run f d).2.isSome ↔ step.Fails f d.present := by
  have herase (i : Item) : (d.erase f i).2.isSome ↔ f.fails i := by
    rw [erase_error]
    split <;> simp_all
  cases step with
  | vault v =>
    show (v.destroy f d).2.isSome ↔ _
    unfold MessageVault.destroy
    cases v.wrapper <;> exact herase _
  | sessions persistent => cases persistent <;> simp [Step.run, deleteAllSessions, Step.Fails]
  | identity service => exact herase _
  | enclave service => exact herase _
  | additional step =>
    cases step with
    | sealedStore store => exact sealedStore_error store
    | sessionKey service => exact herase _
    | nostrIdentity service => exact herase _
    | swiftDataStore directory =>
      refine (swept_files directory (by decide) none).2.trans ?_
      rw [or_iff_right (by simp)]
      rfl
    | deviceResidue => simp [Step.run, Wipeable.wipe, DeviceResidueWipe.wipe, Step.Fails]

/-! ### What the steps do together -/

/-- What is left of `present` in `d`: everything that was not attempted, or could not be erased. -/
def Left (f : Failures) (present : Item → Bool) (d : Storage) : Prop :=
  ∀ i, d.present i ↔ present i ∧ (i ∈ d.attempted → f.fails i)

theorem Left.swept (h : Left f present d) (hswept : Swept f d d' items) : Left f present d' := by
  intro i
  rw [hswept.present, h, hswept.attempted, and_assoc]
  simp only [List.mem_append]
  exact and_congr_right fun _ => ⟨fun h hi => hi.elim h.1 h.2, fun h => ⟨fun hi => h (.inl hi),
    fun hi => h (.inr hi)⟩⟩

theorem Left.stuck_iff (h : Left f present d) (store : SealedStore) :
    Stuck f d.present store ↔ Stuck f present store := by
  unfold Stuck
  rw [h, and_assoc]
  exact and_congr_right fun _ => ⟨And.right, fun hfails => ⟨fun _ => hfails, hfails⟩⟩

/-- A step attempts what it would have attempted at the start, but for files that are gone
already. -/
theorem Left.tries_iff (h : Left f present d) (step : Step) (i : Item) :
    i ∈ d.attempted ∨ i ∈ step.tries f d.present ↔ i ∈ d.attempted ∨ i ∈ step.tries f present := by
  -- A file that exists no more was attempted.
  have hfile (j : Item) : i ∈ d.attempted ∨ (i = j ∧ d.present i) ↔
      i ∈ d.attempted ∨ (i = j ∧ present i) := by
    constructor
    · rintro (hi | ⟨rfl, hj⟩)
      · exact .inl hi
      · exact .inr ⟨rfl, ((h i).mp hj).1⟩
    · rintro (hi | ⟨rfl, hj⟩)
      · exact .inl hi
      · by_cases hi : i ∈ d.attempted
        · exact .inl hi
        · exact .inr ⟨rfl, (h i).mpr ⟨hj, fun hi' => absurd hi' hi⟩⟩
  cases step with
  | additional step =>
    cases step with
    | sealedStore store =>
      have hsame := hfile (.file store.fileURL)
      dsimp only [Step.tries]
      by_cases hstuck : Stuck f present store
      · rw [if_pos hstuck, if_pos ((h.stuck_iff store).mpr hstuck)]
      · rw [if_neg hstuck, if_neg fun hd => hstuck ((h.stuck_iff store).mp hd)]
        simp only [List.mem_append, List.mem_filter, List.mem_singleton, ← or_assoc]
        exact or_congr_left hsame
    | swiftDataStore directory =>
      simp only [Step.tries, List.mem_filter]
      by_cases hi : i ∈ d.attempted
      · simp [hi]
      · have hsame := hfile i
        simp only [hi, true_and, false_or] at hsame ⊢
        exact and_congr_right fun _ => hsame
    | sessionKey | nostrIdentity | deviceResidue => rfl
  | vault | sessions | identity | enclave => rfl

theorem Left.fails_iff (h : Left f present d) (step : Step) :
    step.Fails f d.present ↔ step.Fails f present := by
  cases step with
  | additional step =>
    cases step with
    | sealedStore store => exact or_congr_left (h.stuck_iff store)
    | swiftDataStore directory =>
      refine exists_congr fun name => and_congr_right fun _ => ?_
      rw [h, and_assoc]
      exact and_congr_right fun _ => ⟨And.right, fun hfails => ⟨fun _ => hfails, hfails⟩⟩
    | sessionKey | nostrIdentity | deviceResidue => rfl
  | vault | sessions | identity | enclave => rfl

/-- What the steps attempt, whether they report an error, and what they leave. -/
theorem runAll_spec (steps : List Step) (h : Left f present d) :
    (∀ i, i ∈ (runAll f steps d).1.attempted ↔
      i ∈ d.attempted ∨ ∃ step ∈ steps, i ∈ step.tries f present) ∧
    ((runAll f steps d).2 = [] ↔ ∀ step ∈ steps, ¬step.Fails f present) ∧
    Left f present (runAll f steps d).1 := by
  induction steps generalizing d with
  | nil => exact ⟨by simp [runAll], by simp [runAll], h⟩
  | cons step rest ih =>
    have hswept := step_swept (f := f) (d := d) step
    obtain ⟨hattempted, herrors, hleft⟩ := ih (h.swept hswept)
    refine ⟨fun i => ?_, ?_, hleft⟩
    · have hstep := h.tries_iff step i
      show i ∈ (runAll f rest (step.run f d).1).1.attempted ↔ _
      rw [hattempted, hswept.attempted, List.mem_append, List.exists_mem_cons_iff,
        ← or_assoc, hstep]
    · have herror := (step_error (f := f) (d := d) step).trans (h.fails_iff step)
      show (step.run f d).2.toList ++ (runAll f rest (step.run f d).1).2 = [] ↔ _
      rw [List.append_eq_nil_iff, herrors, List.forall_mem_cons, ← herror]
      refine and_congr_left fun _ => ?_
      cases (step.run f d).2 <;> simp

theorem perform_spec (e : EmergencyWipe) :
    (∀ i, i ∈ (e.perform f ⟨present, []⟩).1.attempted ↔
      ∃ step ∈ e.steps, i ∈ step.tries f present) ∧
    ((e.perform f ⟨present, []⟩).2 = [] ↔ ∀ step ∈ e.steps, ¬step.Fails f present) ∧
    Left f present (e.perform f ⟨present, []⟩).1 := by
  have hleft : Left f present ⟨present, []⟩ := fun i => by simp
  have hspec := runAll_spec e.steps hleft
  simpa [perform] using hspec

theorem dataKey_mem_tries {service : String} {step : Step} :
    .dataKey service ∈ step.tries f present ↔
      ∃ w, step = .additional w ∧ DeletesKey f present service w := by
  cases step with
  | additional step =>
    cases step with
    | sealedStore store =>
      by_cases hstuck : Stuck f present store
      · simp [Step.tries, hstuck, DeletesKey]
      · simp only [Step.tries, hstuck, ↓reduceIte, List.mem_append, List.mem_filter,
          List.mem_singleton,
          reduceCtorEq, false_and, false_or, Item.dataKey.injEq, Step.additional.injEq,
          exists_eq_left', DeletesKey, not_false_eq_true, and_true]
        exact eq_comm
    | sessionKey service' =>
      simp only [Step.tries, Step.primitives, List.mem_singleton, Item.dataKey.injEq,
        Step.additional.injEq, exists_eq_left', DeletesKey]
      exact eq_comm
    | nostrIdentity | swiftDataStore => simp [Step.tries, Step.primitives, DeletesKey]
    | deviceResidue => simp [Step.tries, Step.primitives, DeviceResidueWipe.items, DeletesKey]
  | vault | sessions | identity | enclave => simp [Step.tries, Step.primitives]

theorem additional_mem_steps {e : EmergencyWipe} {w : Wipeable} :
    .additional w ∈ e.steps ↔ w ∈ e.additionalSteps := by
  simp [steps]

theorem dataKey_mem_attempted (e : EmergencyWipe) (service : String) :
    .dataKey service ∈ (e.perform f ⟨present, []⟩).1.attempted ↔
      ∃ w ∈ e.additionalSteps, DeletesKey f present service w := by
  rw [perform_spec e |>.1]
  constructor
  · rintro ⟨step, hstep, hi⟩
    obtain ⟨w, rfl, hw⟩ := dataKey_mem_tries.mp hi
    exact ⟨w, additional_mem_steps.mp hstep, hw⟩
  · rintro ⟨w, hw, hdeletes⟩
    exact ⟨.additional w, additional_mem_steps.mpr hw, dataKey_mem_tries.mpr ⟨w, rfl, hdeletes⟩⟩

/-- What a step has to do and does not attempt is the data key of a store whose file is stuck. -/
theorem tries_of_primitive {step : Step} {i : Item} (hi : i ∈ step.primitives)
    (hfile : i.isFile → present i) (htries : i ∉ step.tries f present) :
    ∃ store, step = .additional (.sealedStore store) ∧ Stuck f present store ∧
      i = .dataKey store.keychainService := by
  cases step with
  | additional w =>
    cases w with
    | sealedStore store =>
      by_cases hstuck : Stuck f present store
      · simp only [Step.tries, hstuck, ↓reduceIte, List.mem_singleton] at htries
        simp only [Step.primitives, List.mem_cons, List.not_mem_nil, or_false] at hi
        exact ⟨store, rfl, hstuck, hi.resolve_left htries⟩
      · refine absurd ?_ htries
        simp only [Step.primitives, List.mem_cons, List.not_mem_nil, or_false] at hi
        rcases hi with rfl | rfl
        · simp [Step.tries, hstuck, hfile rfl]
        · simp [Step.tries, hstuck]
    | swiftDataStore directory =>
      refine absurd (List.mem_filter.mpr ⟨hi, ?_⟩) htries
      obtain ⟨name, _, rfl⟩ := List.mem_map.mp hi
      exact hfile rfl
    | sessionKey | nostrIdentity | deviceResidue => exact absurd hi htries
  | vault | sessions | identity | enclave => exact absurd hi htries

theorem attemptsAll_iff (e : EmergencyWipe) : AttemptsAll f present e ↔
    ∀ store, .sealedStore store ∈ e.additionalSteps → Stuck f present store →
      ∃ w ∈ e.additionalSteps, DeletesKey f present store.keychainService w := by
  constructor
  · intro hall store hstore hstuck
    rw [← dataKey_mem_attempted]
    refine hall (.additional (.sealedStore store)) (additional_mem_steps.mpr hstore) _ ?_ nofun
    simp [Step.primitives]
  · intro hkeys step hstep i hi hfile
    by_cases htries : i ∈ step.tries f present
    · exact (perform_spec e |>.1 i).mpr ⟨step, hstep, htries⟩
    · obtain ⟨store, rfl, hstuck, rfl⟩ := tries_of_primitive hi hfile htries
      rw [dataKey_mem_attempted]
      exact hkeys store (additional_mem_steps.mp hstep) hstuck

/-- A sealed store that is left with its data key by a wipe without errors is the session store. -/
theorem left_of_no_errors {e : EmergencyWipe} (hnone : (e.perform f ⟨present, []⟩).2 = [])
    {store : SealedStore} (hstore : store ∈ e.sealedStores)
    (hfile : (e.perform f ⟨present, []⟩).1.present (.file store.fileURL)) :
    e.sessionStore = some (some store) := by
  obtain ⟨hattempted, herrors, hleft⟩ := @perform_spec f present e
  obtain ⟨hexists, hfails⟩ := (hleft _).mp hfile
  rcases List.mem_append.mp hstore with hsession | hadditional
  · exact Option.join_eq_some_iff.mp (Option.mem_toList.mp hsession)
  · obtain ⟨w, hw, hsome⟩ := List.mem_filterMap.mp hadditional
    cases w with
    | sealedStore store' =>
      obtain rfl := Option.some.inj hsome
      have hstep := additional_mem_steps.mpr hw
      have hnot := herrors.mp hnone _ hstep
      have hstuck : ¬Stuck f present store' := fun h => hnot (.inl h)
      refine absurd ⟨hexists, hfails ((hattempted _).mpr ⟨_, hstep, ?_⟩)⟩ hstuck
      simp [Step.tries, hstuck, hexists]
    | sessionKey | nostrIdentity | swiftDataStore | deviceResidue => cases hsome

theorem session_mem_steps {e : EmergencyWipe} {persistent : Option SealedStore}
    (h : e.sessionStore = some persistent) : .sessions persistent ∈ e.steps := by
  simp [steps, h]

/-- The deletion of a data key that fails is reported. -/
theorem fails_of_deletesKey {service : String} {w : Wipeable} (h : DeletesKey f present service w)
    (hfails : f.fails (.dataKey service)) : (Step.additional w).Fails f present := by
  cases w with
  | sealedStore store => exact .inr (h.1 ▸ hfails)
  | sessionKey service' =>
    obtain rfl : service' = service := h
    exact hfails
  | nostrIdentity | swiftDataStore | deviceResidue => exact h.elim

theorem honest_iff (e : EmergencyWipe) : Honest f present e ↔
    ∀ store, e.sessionStore = some (some store) → Stuck f present store →
      present (.dataKey store.keychainService) →
      (∃ w ∈ e.additionalSteps, DeletesKey f present store.keychainService w) ∨
        ∃ step ∈ e.steps, step.Fails f present := by
  obtain ⟨hattempted, herrors, hleft⟩ := @perform_spec f present e
  constructor
  · intro honest store hsession hstuck hkey
    by_contra hneither
    rw [not_or] at hneither
    obtain ⟨hkept, hnone⟩ := hneither
    have hclean := herrors.mpr fun step hstep hfails => hnone ⟨step, hstep, hfails⟩
    refine honest.sealed hclean store (by simp [sealedStores, hsession]) ⟨?_, ?_⟩
    · exact (hleft _).mpr ⟨hstuck.1, fun _ => hstuck.2⟩
    · refine (hleft _).mpr ⟨hkey, fun hi => absurd ?_ hkept⟩
      exact (dataKey_mem_attempted e store.keychainService).mp hi
  · intro hkeys
    constructor
    · rintro hclean store hstore ⟨hfile, hkey⟩
      have hnot := herrors.mp hclean
      have hsession := left_of_no_errors hclean hstore hfile
      obtain ⟨hexists, hfails⟩ := (hleft _).mp hfile
      obtain ⟨hheld, hkeyFails⟩ := (hleft _).mp hkey
      have htried : .file store.fileURL ∈ (e.perform f ⟨present, []⟩).1.attempted :=
        (hattempted _).mpr ⟨_, session_mem_steps hsession, by simp [Step.tries, Step.primitives]⟩
      rcases hkeys store hsession ⟨hexists, hfails htried⟩ hheld with ⟨w, hw, hdeletes⟩ |
        ⟨step, hstep, h⟩
      · refine hnot _ (additional_mem_steps.mpr hw) (fails_of_deletesKey hdeletes (hkeyFails ?_))
        exact (dataKey_mem_attempted e store.keychainService).mpr ⟨w, hw, hdeletes⟩
      · exact hnot step hstep h
    · intro hclean directory hdirectory name hname hfile
      have hstep := additional_mem_steps.mpr hdirectory
      obtain ⟨hexists, hfails⟩ := (hleft _).mp hfile
      refine herrors.mp hclean _ hstep
        ⟨name, hname, hexists, hfails ((hattempted _).mpr ⟨_, hstep, ?_⟩)⟩
      exact List.mem_filter.mpr ⟨List.mem_map_of_mem hname, hexists⟩

/-- For every wipe, whatever is on the device and whichever primitive operations fail, the wipe
attempts every primitive operation of every step and reports honestly, if and only if each data key
goes whose file cannot be removed. -/
theorem wipe_iff (f : Failures) (present : Item → Bool) (e : EmergencyWipe) :
    AttemptsAll f present e ∧ Honest f present e ↔ KeysGo f present e := by
  rw [attemptsAll_iff, honest_iff]
  exact ⟨fun h => ⟨h.1, h.2⟩, fun h => ⟨h.wipeable, h.session⟩⟩

/-- Only the removal of the contact allowlist fails. -/
def allowlistStuck : Failures where
  fails i := i == .file (ContactAllowlistStore "store" "").fileURL
  residue i hi := by cases i <;> first | rfl | cases hi

/-- The wipe of the composition root does not attempt to destroy the data key of the contact
allowlist when the file cannot be removed. -/
theorem wipe_stops : ¬AttemptsAll allowlistStuck (fun _ => true) (assembled "store" "support") := by
  intro hall
  have hkey := hall (.additional (.sealedStore
    (ContactAllowlistStore "store" ContactAllowlistStore.defaultKeychainService))) (by
      rw [additional_mem_steps]; simp [assembled])
    (.dataKey ContactAllowlistStore.defaultKeychainService) (by
      simp [Step.primitives, ContactAllowlistStore]) (fun _ => rfl)
  exact absurd hkey (by decide)

end EmergencyWipe

end Wipe

end AeroNyra
