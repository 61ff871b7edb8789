import AeroNyra.Lib.Dict
import AeroNyra.Core.Message

/-! The persistent store of the session layer: records in memory, and one sealed file that every
mutation writes whole.  Records are their serialized bytes. -/

namespace AeroNyra

structure ProtocolAddress where
  name : String
  deviceId : UInt32
  deriving DecidableEq

/-- What a record is filed under; each kind is a map of its own in the source. -/
inductive SignalKey
  | identity (address : ProtocolAddress)
  | preKey (id : UInt32)
  | signedPreKey (id : UInt32)
  | kyberPreKey (id : UInt32)
  | session (address : ProtocolAddress)
  | senderKey (sender : ProtocolAddress) (distributionId : UUID)
  deriving DecidableEq

/-- The content of the file, and of the memory. -/
structure Snapshot where
  registrationId : UInt32
  nextOneTimePreKeyId : UInt32
  records : Dict SignalKey Data
  kyberUsed : List UInt32
  /-- The base keys seen for each pair of a Kyber prekey and a signed prekey. -/
  baseKeysSeen : Dict UInt64 (List Data)

namespace Snapshot

/-- The snapshot with every record that does not parse left out. -/
def readable (parses : SignalKey → Data → Bool) (parsesKey : Data → Bool) (s : Snapshot) :
    Snapshot :=
  { s with
    records := s.records.filterEntries parses
    baseKeysSeen := ⟨s.baseKeysSeen.entries.map fun e => ⟨e.1, e.2.filter parsesKey⟩, by
      simpa [List.NodupKeys, List.keys, List.map_map, Function.comp_def]
        using s.baseKeysSeen.nodupKeys⟩ }

def fresh (registrationId : UInt32) : Snapshot := ⟨registrationId, 1, ∅, [], ∅⟩

end Snapshot

structure PersistentBeaconStore where
  live : Snapshot
  file : Option Snapshot

namespace PersistentBeaconStore

variable (s : PersistentBeaconStore)

/-- `init`: what was read, or a fresh store that is written at once; none when that write fails. -/
def load (parses : SignalKey → Data → Bool) (parsesKey : Data → Bool) (file : Option Snapshot)
    (read : Bool) (registrationId : UInt32) (saved : Bool) : Option PersistentBeaconStore :=
  match if read then file else none with
  | some snapshot => some ⟨snapshot.readable parses parsesKey, file⟩
  | none =>
    if saved then some ⟨.fresh registrationId, some (.fresh registrationId)⟩ else none

/-- Writes what is in memory; a write that fails leaves the file, and the change in memory. -/
def persist (saved : Bool) : PersistentBeaconStore :=
  if saved then { s with file := some s.live } else s

def mutate (f : Snapshot → Snapshot) : PersistentBeaconStore := { s with live := f s.live }

/-- Files a record. -/
def store (key : SignalKey) (record : Data) (saved : Bool) : PersistentBeaconStore :=
  (s.mutate fun live => { live with records := AList.insert key record live.records }).persist saved

def remove (key : SignalKey) (saved : Bool) : PersistentBeaconStore :=
  (s.mutate fun live => { live with records := AList.erase key live.records }).persist saved

/-- The mutations.  A record is what a live object serializes to. -/
inductive Mutation
  | saveIdentity (address : ProtocolAddress) (identity : Data)
  | storePreKey (id : UInt32) (record : Data)
  | removePreKey (id : UInt32)
  | storeSignedPreKey (id : UInt32) (record : Data)
  | storeKyberPreKey (id : UInt32) (record : Data)
  | markKyberPreKeyUsed (id signedPreKeyId : UInt32) (baseKey : Data)
  | storeSession (address : ProtocolAddress) (record : Data)
  | storeSenderKey (sender : ProtocolAddress) (distributionId : UUID) (record : Data)
  | removeSession (address : ProtocolAddress)
  | allocateOneTimePreKeyId

/-- The record that a mutation files. -/
def Mutation.stores : Mutation → Option (SignalKey × Data)
  | .saveIdentity address identity => some (.identity address, identity)
  | .storePreKey id record => some (.preKey id, record)
  | .storeSignedPreKey id record => some (.signedPreKey id, record)
  | .storeKyberPreKey id record => some (.kyberPreKey id, record)
  | .storeSession address record => some (.session address, record)
  | .storeSenderKey sender distributionId record => some (.senderKey sender distributionId, record)
  | .removePreKey _ | .markKyberPreKeyUsed .. | .removeSession _ | .allocateOneTimePreKeyId => none

/-- The record that a mutation removes. -/
def Mutation.removes : Mutation → Option SignalKey
  | .removePreKey id => some (.preKey id)
  | .removeSession address => some (.session address)
  | _ => none

/-- Refuses a base key that was seen before. -/
def markKyberPreKeyUsed (id signedPreKeyId : UInt32) (baseKey : Data) (saved : Bool) :
    PersistentBeaconStore :=
  let bothKeyIds := (id.toUInt64 <<< 32) ||| signedPreKeyId.toUInt64
  let seen := (s.live.baseKeysSeen.lookup bothKeyIds).getD []
  if baseKey ∈ seen then s
  else
    (s.mutate fun live =>
      { live with
        baseKeysSeen := AList.insert bothKeyIds (seen ++ [baseKey]) live.baseKeysSeen
        kyberUsed := live.kyberUsed.insert id }).persist saved

def allocateOneTimePreKeyId (saved : Bool) : PersistentBeaconStore :=
  (s.mutate fun live =>
    { live with nextOneTimePreKeyId := live.nextOneTimePreKeyId + 1 }).persist saved

def apply (saved : Bool) : Mutation → PersistentBeaconStore
  | .saveIdentity address identity => s.store (.identity address) identity saved
  | .storePreKey id record => s.store (.preKey id) record saved
  | .removePreKey id => s.remove (.preKey id) saved
  | .storeSignedPreKey id record => s.store (.signedPreKey id) record saved
  | .storeKyberPreKey id record => s.store (.kyberPreKey id) record saved
  | .markKyberPreKeyUsed id signedPreKeyId baseKey =>
    s.markKyberPreKeyUsed id signedPreKeyId baseKey saved
  | .storeSession address record => s.store (.session address) record saved
  | .storeSenderKey sender distributionId record =>
    s.store (.senderKey sender distributionId) record saved
  | .removeSession address => s.remove (.session address) saved
  | .allocateOneTimePreKeyId => s.allocateOneTimePreKeyId saved

/-- The file holds a record under the key. -/
def Holds (key : SignalKey) : Prop := ∃ snapshot ∈ s.file, (snapshot.records.lookup key).isSome

/-- A mutation in memory, and then its write: what is in memory afterwards, and what the file is. -/
theorem apply_eq (saved : Bool) (op : Mutation) :
    (s.apply saved op).live.records =
      (match op.stores with
        | some (key, record) => AList.insert key record s.live.records
        | none =>
          match op.removes with
          | some key => AList.erase key s.live.records
          | none => s.live.records) ∧
    ((s.apply saved op).file = s.file ∨ (s.apply saved op).file =
      some (s.apply saved op).live) := by
  cases op with
  | markKyberPreKeyUsed id signedPreKeyId baseKey =>
    simp only [apply, markKyberPreKeyUsed]
    split
    · exact ⟨rfl, .inl rfl⟩
    · cases saved
      · exact ⟨rfl, .inl rfl⟩
      · exact ⟨rfl, .inr rfl⟩
  | saveIdentity | storePreKey | removePreKey | storeSignedPreKey | storeKyberPreKey | storeSession
  | storeSenderKey | removeSession | allocateOneTimePreKeyId =>
    cases saved
    · exact ⟨rfl, .inl rfl⟩
    · exact ⟨rfl, .inr rfl⟩

variable {s} {key : SignalKey} {saved : Bool} {op : Mutation}

/-- A mutation takes out of the memory only the record that it removes. -/
theorem keeps_apply (h : (s.live.records.lookup key).isSome) :
    ((s.apply saved op).live.records.lookup key).isSome ∨ op.removes = some key := by
  rw [(apply_eq s saved op).1]
  cases hstores : op.stores with
  | some entry =>
    by_cases hkey : key = entry.1 <;> simp [hkey, h]
  | none =>
    cases hremoves : op.removes with
    | none => exact .inl h
    | some removed =>
      by_cases hkey : key = removed
      · exact .inr (by rw [hkey])
      · simp [hkey, h]

/-- Every record in memory parses, if those that are filed do. -/
theorem parses_apply {parses : SignalKey → Data → Bool} (saved : Bool) (op : Mutation)
    (hlive : ∀ k record, s.live.records.lookup k = some record → parses k record)
    (hop : ∀ entry ∈ op.stores, parses entry.1 entry.2) :
    ∀ k record, (s.apply saved op).live.records.lookup k = some record → parses k record := by
  intro k record
  rw [(apply_eq s saved op).1]
  cases hstores : op.stores with
  | some entry =>
    simp only [Dict.lookup_insert]
    split
    · rename_i hk
      rintro ⟨rfl⟩
      exact hk ▸ hop entry hstores
    · exact hlive k record
  | none =>
    cases hremoves : op.removes with
    | none => exact hlive k record
    | some removed =>
      simp only [Dict.lookup_erase]
      split
      · intro h
        cases h
      · exact hlive k record

theorem lookup_readable {parses : SignalKey → Data → Bool} {parsesKey : Data → Bool}
    {snapshot : Snapshot}
    (h : ∀ k record, snapshot.records.lookup k = some record → parses k record) :
    (snapshot.readable parses parsesKey).records.lookup key = snapshot.records.lookup key := by
  simp only [Snapshot.readable, Dict.lookup_filterEntries]
  cases hrecord : snapshot.records.lookup key with
  | none => rfl
  | some record => simp [h key record hrecord]

/-- A launch takes over what it read, or replaces the file. -/
theorem load_cases {parses : SignalKey → Data → Bool} {parsesKey : Data → Bool}
    {file : Option Snapshot} {read : Bool} {registrationId : UInt32}
    (h : load parses parsesKey file read registrationId saved = some s) :
    (∃ snapshot, read ∧ file = some snapshot ∧
      s = ⟨snapshot.readable parses parsesKey, some snapshot⟩) ∨
    (read → file = none) ∧ s = ⟨.fresh registrationId, some (.fresh registrationId)⟩ := by
  unfold load at h
  split at h
  · rename_i snapshot hread
    split at hread
    · rename_i hyes
      exact .inl ⟨snapshot, hyes, hread, by rw [← Option.some.inj h, hread]⟩
    · cases hread
  · rename_i hnone
    split at h
    · refine .inr ⟨fun hyes => ?_, (Option.some.inj h).symm⟩
      rwa [if_pos hyes] at hnone
    · cases h

theorem not_holds_fresh (registrationId : UInt32) :
    ¬Holds ⟨.fresh registrationId, some (.fresh registrationId)⟩ key := by
  rintro ⟨snapshot, hfile, hkey⟩
  obtain rfl := Option.some.inj hfile
  simp [Snapshot.fresh] at hkey

end PersistentBeaconStore

end AeroNyra
