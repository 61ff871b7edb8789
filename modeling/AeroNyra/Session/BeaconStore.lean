import AeroNyra.Session.SignalStore

/-! The store of the session layer map by map: the records of libsignal in memory, the snapshot
that every mutation builds of them and writes, and the memory that a launch rebuilds from it. -/

namespace AeroNyra.ProtocolStore

/-- How values of a type are serialized, and read back. -/
structure Format (α : Type) where
  serialize : α → Data
  parse : Data → Option α
  parse_serialize : ∀ a, parse (serialize a) = some a

/-- The types of libsignal that the store keeps, and what is called on them. -/
structure LibSignal where
  IdentityKey : Type
  PrivateKey : Type
  PublicKey : Type
  KEMKeyPair : Type
  KEMPublicKey : Type
  PreKeyRecord : Type
  SignedPreKeyRecord : Type
  KyberPreKeyRecord : Type
  SessionRecord : Type
  SenderKeyRecord : Type
  [decidableIdentityKey : DecidableEq IdentityKey]
  [decidablePublicKey : DecidableEq PublicKey]
  identityKeys : Format IdentityKey
  publicKeys : Format PublicKey
  preKeys : Format PreKeyRecord
  signedPreKeys : Format SignedPreKeyRecord
  kyberPreKeys : Format KyberPreKeyRecord
  sessions : Format SessionRecord
  senderKeys : Format SenderKeyRecord
  serializeKEM : KEMPublicKey → Data
  /-- The address with a name and a device, unless libsignal refuses them. -/
  address : String → UInt32 → Option ProtocolAddress
  address_self : ∀ a : ProtocolAddress, address a.name a.deviceId = some a
  publicKey : PrivateKey → PublicKey
  kemPublicKey : KEMKeyPair → KEMPublicKey
  generateSignature : PrivateKey → Data → Data
  preKeyRecord (id : UInt32) (privateKey : PrivateKey) : PreKeyRecord
  signedPreKeyRecord (id : UInt32) (timestamp : UInt64) (privateKey : PrivateKey)
    (signature : Data) :
    SignedPreKeyRecord
  kyberPreKeyRecord (id : UInt32) (timestamp : UInt64) (keyPair : KEMKeyPair) (signature : Data) :
    KyberPreKeyRecord
  signedPublicKey : SignedPreKeyRecord → Option PublicKey
  signedSignature : SignedPreKeyRecord → Data
  kyberPublicKey : KyberPreKeyRecord → Option KEMPublicKey
  kyberSignature : KyberPreKeyRecord → Data
  signedPublicKey_record : ∀ id timestamp privateKey signature,
    signedPublicKey (signedPreKeyRecord id timestamp privateKey signature) =
      some (publicKey privateKey)
  kyberPublicKey_record : ∀ id timestamp keyPair signature,
    kyberPublicKey (kyberPreKeyRecord id timestamp keyPair signature) = some (kemPublicKey keyPair)

variable {L : LibSignal}

instance : DecidableEq L.IdentityKey := L.decidableIdentityKey

instance : DecidableEq L.PublicKey := L.decidablePublicKey

structure IdentityKeyPair (L : LibSignal) where
  identityKey : L.IdentityKey
  privateKey : L.PrivateKey

structure SenderKeyName where
  sender : ProtocolAddress
  distributionId : UUID
  deriving DecidableEq

/-- What the store has in memory. -/
structure Memory (L : LibSignal) where
  registrationId : UInt32
  nextOneTimePreKeyId : UInt32
  publicKeys : Dict ProtocolAddress L.IdentityKey := ∅
  prekeyMap : Dict UInt32 L.PreKeyRecord := ∅
  signedPrekeyMap : Dict UInt32 L.SignedPreKeyRecord := ∅
  kyberPrekeyMap : Dict UInt32 L.KyberPreKeyRecord := ∅
  kyberPrekeysUsed : List UInt32 := []
  baseKeysSeen : Dict UInt64 (List L.PublicKey) := ∅
  sessionMap : Dict ProtocolAddress L.SessionRecord := ∅
  senderKeyMap : Dict SenderKeyName L.SenderKeyRecord := ∅

/-! ### The snapshot -/

structure AddrRecord where
  name : String
  deviceId : UInt32
  bytes : Data

structure IdRecord where
  id : UInt32
  bytes : Data

structure BaseKeysEntry where
  combined : UInt64
  keys : List Data

structure SenderRecord where
  name : String
  deviceId : UInt32
  distributionId : UUID
  bytes : Data

/-- The content of the sealed file. -/
structure Snapshot where
  registrationId : UInt32
  nextOneTimePreKeyId : UInt32
  identities : List AddrRecord
  preKeys : List IdRecord
  signedPreKeys : List IdRecord
  kyberPreKeys : List IdRecord
  kyberUsed : List UInt32
  baseKeysSeen : List BaseKeysEntry
  sessions : List AddrRecord
  senderKeys : List SenderRecord

/-- The records of a map that is keyed by numbers. -/
def idRecords {α : Type} (f : Format α) (d : Dict UInt32 α) : List IdRecord :=
  d.pairs.map fun p => ⟨p.1, f.serialize p.2⟩

/-- The records of a map that is keyed by addresses. -/
def addrRecords {α : Type} (f : Format α) (d : Dict ProtocolAddress α) : List AddrRecord :=
  d.pairs.map fun p => ⟨p.1.name, p.1.deviceId, f.serialize p.2⟩

def makeSnapshot (m : Memory L) : Snapshot where
  registrationId := m.registrationId
  nextOneTimePreKeyId := m.nextOneTimePreKeyId
  identities := addrRecords L.identityKeys m.publicKeys
  preKeys := idRecords L.preKeys m.prekeyMap
  signedPreKeys := idRecords L.signedPreKeys m.signedPrekeyMap
  kyberPreKeys := idRecords L.kyberPreKeys m.kyberPrekeyMap
  kyberUsed := m.kyberPrekeysUsed
  baseKeysSeen := m.baseKeysSeen.pairs.map fun p => ⟨p.1, p.2.map L.publicKeys.serialize⟩
  sessions := addrRecords L.sessions m.sessionMap
  senderKeys := m.senderKeyMap.pairs.map fun p =>
    ⟨p.1.sender.name, p.1.sender.deviceId, p.1.distributionId, L.senderKeys.serialize p.2⟩

/-- The map of the records that are readable. -/
def readIds {α : Type} (f : Format α) (records : List IdRecord) : Dict UInt32 α :=
  (∅ : Dict UInt32 α).insertAll
    (records.filterMap fun r => (f.parse r.bytes).map fun record => (r.id, record))

def readAddrs {α : Type} (L : LibSignal) (f : Format α) (records : List AddrRecord) :
    Dict ProtocolAddress α :=
  (∅ : Dict ProtocolAddress α).insertAll (records.filterMap fun r =>
    (L.address r.name r.deviceId).bind fun address =>
      (f.parse r.bytes).map fun record => (address, record))

/-- What a launch makes of the snapshot; a record that is not readable is skipped. -/
def apply (L : LibSignal) (s : Snapshot) : Memory L where
  registrationId := s.registrationId
  nextOneTimePreKeyId := s.nextOneTimePreKeyId
  kyberPrekeysUsed := s.kyberUsed
  publicKeys := readAddrs L L.identityKeys s.identities
  prekeyMap := readIds L.preKeys s.preKeys
  signedPrekeyMap := readIds L.signedPreKeys s.signedPreKeys
  kyberPrekeyMap := readIds L.kyberPreKeys s.kyberPreKeys
  baseKeysSeen := (∅ : Dict UInt64 (List L.PublicKey)).insertAll
    (s.baseKeysSeen.map fun e => (e.combined, e.keys.filterMap L.publicKeys.parse))
  sessionMap := readAddrs L L.sessions s.sessions
  senderKeyMap := (∅ : Dict SenderKeyName L.SenderKeyRecord).insertAll
    (s.senderKeys.filterMap fun r =>
    (L.address r.name r.deviceId).bind fun sender =>
      (L.senderKeys.parse r.bytes).map fun record => (⟨sender, r.distributionId⟩, record))

/-! ### The queries -/

inductive StoreError
  | writeFailed
  | invalidKeyIdentifier (text : String)
  | invalidMessage (text : String)
  | sessionNotFound (address : ProtocolAddress)
  deriving DecidableEq

namespace Memory

variable (m : Memory L)

def isTrustedIdentity (identity : L.IdentityKey) (address : ProtocolAddress) : Bool :=
  match m.publicKeys.lookup address with
  | some known => known = identity
  | none => true

/-- A record that must be there. -/
def load {κ α : Type} [DecidableEq κ] (d : Dict κ α) (id : κ) (missing : StoreError) :
    Except StoreError α :=
  match d.lookup id with
  | some record => .ok record
  | none => .error missing

def loadPreKey (id : UInt32) : Except StoreError L.PreKeyRecord :=
  load m.prekeyMap id (.invalidKeyIdentifier "no prekey with this identifier")

def loadSignedPreKey (id : UInt32) : Except StoreError L.SignedPreKeyRecord :=
  load m.signedPrekeyMap id (.invalidKeyIdentifier "no signed prekey with this identifier")

def loadKyberPreKey (id : UInt32) : Except StoreError L.KyberPreKeyRecord :=
  load m.kyberPrekeyMap id (.invalidKeyIdentifier "no kyber prekey with this identifier")

def loadExistingSessions (addresses : List ProtocolAddress) :
    Except StoreError (List L.SessionRecord) :=
  addresses.mapM fun address => load m.sessionMap address (.sessionNotFound address)

end Memory

/-- What can be asked of the store. -/
inductive Query (L : LibSignal)
  | localRegistrationId
  | isTrustedIdentity (identity : L.IdentityKey) (address : ProtocolAddress)
  | identity (address : ProtocolAddress)
  | loadPreKey (id : UInt32)
  | loadSignedPreKey (id : UInt32)
  | loadKyberPreKey (id : UInt32)
  | loadSession (address : ProtocolAddress)
  | loadExistingSessions (addresses : List ProtocolAddress)
  | loadSenderKey (sender : ProtocolAddress) (distributionId : UUID)

inductive Answer (L : LibSignal)
  | registrationId (id : UInt32)
  | trusted (isTrusted : Bool)
  | identity (identity : Option L.IdentityKey)
  | preKey (record : Except StoreError L.PreKeyRecord)
  | signedPreKey (record : Except StoreError L.SignedPreKeyRecord)
  | kyberPreKey (record : Except StoreError L.KyberPreKeyRecord)
  | session (record : Option L.SessionRecord)
  | sessions (records : Except StoreError (List L.SessionRecord))
  | senderKey (record : Option L.SenderKeyRecord)

def Memory.answer (m : Memory L) : Query L → Answer L
  | .localRegistrationId => .registrationId m.registrationId
  | .isTrustedIdentity identity address => .trusted (m.isTrustedIdentity identity address)
  | .identity address => .identity (m.publicKeys.lookup address)
  | .loadPreKey id => .preKey (m.loadPreKey id)
  | .loadSignedPreKey id => .signedPreKey (m.loadSignedPreKey id)
  | .loadKyberPreKey id => .kyberPreKey (m.loadKyberPreKey id)
  | .loadSession address => .session (m.sessionMap.lookup address)
  | .loadExistingSessions addresses => .sessions (m.loadExistingSessions addresses)
  | .loadSenderKey sender distributionId =>
      .senderKey (m.senderKeyMap.lookup ⟨sender, distributionId⟩)

/-! ### The store -/

structure PersistentBeaconStore (L : LibSignal) where
  localIdentity : IdentityKeyPair L
  live : Memory L
  file : Option Snapshot

inductive IdentityChange
  | newOrUnchanged
  | replacedExisting
  deriving DecidableEq

namespace PersistentBeaconStore

variable (s : PersistentBeaconStore L)

/-- `init`: the memory that the file gives, or a fresh store that is written at once. -/
def launch (localIdentity : IdentityKeyPair L) (file : Option Snapshot) (registrationId : UInt32)
    (saved : Bool) : Except StoreError (PersistentBeaconStore L) :=
  match file with
  | some snapshot => .ok ⟨localIdentity, apply L snapshot, file⟩
  | none =>
    let fresh : Memory L := { registrationId, nextOneTimePreKeyId := 1 }
    if saved then .ok ⟨localIdentity, fresh, some (makeSnapshot fresh)⟩ else .error .writeFailed

/-- A mutation: the memory is changed and then written; a write that fails throws. -/
def commit {α : Type} (f : Memory L → Memory L) (result : α) (saved : Bool) :
    PersistentBeaconStore L × Except StoreError α :=
  if saved then ({ s with live := f s.live, file := some (makeSnapshot (f s.live)) }, .ok result)
  else ({ s with live := f s.live }, .error .writeFailed)

def allocateOneTimePreKeyId (saved : Bool) : PersistentBeaconStore L × Except StoreError UInt32 :=
  s.commit (fun m => { m with nextOneTimePreKeyId := m.nextOneTimePreKeyId + 1 })
    s.live.nextOneTimePreKeyId saved

def saveIdentity (identity : L.IdentityKey) (address : ProtocolAddress) (saved : Bool) :
    PersistentBeaconStore L × Except StoreError IdentityChange :=
  let old := s.live.publicKeys.lookup address
  s.commit (fun m => { m with publicKeys := AList.insert address identity m.publicKeys })
    (if old = none ∨ old = some identity then .newOrUnchanged else .replacedExisting) saved

def storePreKey (record : L.PreKeyRecord) (id : UInt32) (saved : Bool) :
    PersistentBeaconStore L × Except StoreError Unit :=
  s.commit (fun m => { m with prekeyMap := AList.insert id record m.prekeyMap }) () saved

def removePreKey (id : UInt32) (saved : Bool) : PersistentBeaconStore L × Except StoreError Unit :=
  s.commit (fun m => { m with prekeyMap := AList.erase id m.prekeyMap }) () saved

def storeSignedPreKey (record : L.SignedPreKeyRecord) (id : UInt32) (saved : Bool) :
    PersistentBeaconStore L × Except StoreError Unit :=
  s.commit (fun m => { m with signedPrekeyMap := AList.insert id record m.signedPrekeyMap })
    () saved

def storeKyberPreKey (record : L.KyberPreKeyRecord) (id : UInt32) (saved : Bool) :
    PersistentBeaconStore L × Except StoreError Unit :=
  s.commit (fun m => { m with kyberPrekeyMap := AList.insert id record m.kyberPrekeyMap }) () saved

/-- The key of the base keys that were seen for a Kyber prekey and a signed prekey. -/
def bothKeyIds (id signedPreKeyId : UInt32) : UInt64 :=
    (id.toUInt64 <<< 32) ||| signedPreKeyId.toUInt64

/-- The base keys that were seen for a Kyber prekey and a signed prekey. -/
def seen (m : Memory L) (id signedPreKeyId : UInt32) : List L.PublicKey :=
  (m.baseKeysSeen.lookup (bothKeyIds id signedPreKeyId)).getD []

def markKyberPreKeyUsed (id signedPreKeyId : UInt32) (baseKey : L.PublicKey) (saved : Bool) :
    PersistentBeaconStore L × Except StoreError Unit :=
  if baseKey ∈ seen s.live id signedPreKeyId then (s, .error (.invalidMessage "reused base key"))
  else
    s.commit (fun m =>
      { m with
        baseKeysSeen := AList.insert (bothKeyIds id signedPreKeyId)
          (seen m id signedPreKeyId ++ [baseKey]) m.baseKeysSeen
        kyberPrekeysUsed := m.kyberPrekeysUsed.insert id }) () saved

def storeSession (record : L.SessionRecord) (address : ProtocolAddress) (saved : Bool) :
    PersistentBeaconStore L × Except StoreError Unit :=
  s.commit (fun m => { m with sessionMap := AList.insert address record m.sessionMap }) () saved

def storeSenderKey (sender : ProtocolAddress) (distributionId : UUID) (record : L.SenderKeyRecord)
    (saved : Bool) : PersistentBeaconStore L × Except StoreError Unit :=
  s.commit (fun m =>
    { m with senderKeyMap := AList.insert ⟨sender, distributionId⟩ record m.senderKeyMap }) () saved

def removeSession (address : ProtocolAddress) (saved : Bool) :
    PersistentBeaconStore L × Except StoreError Unit :=
  s.commit (fun m => { m with sessionMap := AList.erase address m.sessionMap }) () saved

end PersistentBeaconStore

/-- The mutators, with their arguments. -/
inductive Mutation (L : LibSignal)
  | allocateOneTimePreKeyId
  | saveIdentity (identity : L.IdentityKey) (address : ProtocolAddress)
  | storePreKey (record : L.PreKeyRecord) (id : UInt32)
  | removePreKey (id : UInt32)
  | storeSignedPreKey (record : L.SignedPreKeyRecord) (id : UInt32)
  | storeKyberPreKey (record : L.KyberPreKeyRecord) (id : UInt32)
  | markKyberPreKeyUsed (id signedPreKeyId : UInt32) (baseKey : L.PublicKey)
  | storeSession (record : L.SessionRecord) (address : ProtocolAddress)
  | storeSenderKey (sender : ProtocolAddress) (distributionId : UUID) (record : L.SenderKeyRecord)
  | removeSession (address : ProtocolAddress)

namespace PersistentBeaconStore

/-- The store after a mutator, without what it returns. -/
def discard {α : Type} (p : PersistentBeaconStore L × Except StoreError α) :
    PersistentBeaconStore L × Except StoreError Unit := (p.1, p.2.map fun _ => ())

def perform (s : PersistentBeaconStore L) (saved : Bool) :
    Mutation L → PersistentBeaconStore L × Except StoreError Unit
  | .allocateOneTimePreKeyId => discard (s.allocateOneTimePreKeyId saved)
  | .saveIdentity identity address => discard (s.saveIdentity identity address saved)
  | .storePreKey record id => s.storePreKey record id saved
  | .removePreKey id => s.removePreKey id saved
  | .storeSignedPreKey record id => s.storeSignedPreKey record id saved
  | .storeKyberPreKey record id => s.storeKyberPreKey record id saved
  | .markKyberPreKeyUsed id signedPreKeyId baseKey =>
      s.markKyberPreKeyUsed id signedPreKeyId baseKey saved
  | .storeSession record address => s.storeSession record address saved
  | .storeSenderKey sender distributionId record =>
    s.storeSenderKey sender distributionId record saved
  | .removeSession address => s.removeSession address saved

end PersistentBeaconStore

/-! ### Bundles -/

structure BundleMaterial (L : LibSignal) where
  registrationId : UInt32
  deviceId : UInt32
  preKeyId : UInt32
  preKeyPublic : L.PublicKey
  signedPreKeyId : UInt32
  signedPreKeyPublic : L.PublicKey
  signedPreKeySignature : Data
  identityKey : L.IdentityKey
  kyberPreKeyId : UInt32
  kyberPreKeyPublic : L.KEMPublicKey
  kyberPreKeySignature : Data

/-- What a drawing takes from outside: the clock, the keys that would be generated, and which of
its writes succeed. -/
structure Drawing (L : LibSignal) where
  nowMs : UInt64
  preKey : L.PrivateKey
  signedPreKey : L.PrivateKey
  kyberPreKey : L.KEMKeyPair
  savedId : Bool := true
  savedPreKey : Bool := true
  savedSigned : Bool := true
  savedKyber : Bool := true

namespace PersistentBeaconStore

/-- The next statement, unless the one before threw. -/
def andThen {α β : Type} (p : PersistentBeaconStore L × Except StoreError α)
    (f : PersistentBeaconStore L → α → PersistentBeaconStore L × Except StoreError β) :
    PersistentBeaconStore L × Except StoreError β :=
  match p.2 with
  | .ok a => f p.1 a
  | .error e => (p.1, .error e)

variable (s : PersistentBeaconStore L)

def signedPreKeyId : UInt32 := 1

def kyberPreKeyId : UInt32 := 1

/-- The long-lived prekey with the fixed id, if it is there with its public key; else a new one is
stored. -/
def sharedMaterial {ρ π : Type} (existing : Option ρ) (publicKey : ρ → Option π)
    (signature : ρ → Data)
    (generated : π × Data) (store : PersistentBeaconStore L × Except StoreError Unit) :
    PersistentBeaconStore L × Except StoreError (π × Data) :=
  match existing.bind fun record => (publicKey record).map fun pub => (pub, signature record) with
  | some existing => (s, .ok existing)
  | none => andThen store fun s _ => (s, .ok generated)

def signedMaterial (d : Drawing L) :
    PersistentBeaconStore L × Except StoreError (L.PublicKey × Data) :=
  let signedPub := L.publicKey d.signedPreKey
  let signedSig := L.generateSignature s.localIdentity.privateKey (L.publicKeys.serialize signedPub)
  s.sharedMaterial (s.live.signedPrekeyMap.lookup signedPreKeyId) L.signedPublicKey
    L.signedSignature (signedPub, signedSig)
    (s.storeSignedPreKey (L.signedPreKeyRecord signedPreKeyId d.nowMs d.signedPreKey signedSig)
      signedPreKeyId d.savedSigned)

def kyberMaterial (d : Drawing L) :
    PersistentBeaconStore L × Except StoreError (L.KEMPublicKey × Data) :=
  let kyberPub := L.kemPublicKey d.kyberPreKey
  let kyberSig := L.generateSignature s.localIdentity.privateKey (L.serializeKEM kyberPub)
  s.sharedMaterial (s.live.kyberPrekeyMap.lookup kyberPreKeyId) L.kyberPublicKey L.kyberSignature
    (kyberPub, kyberSig)
    (s.storeKyberPreKey (L.kyberPreKeyRecord kyberPreKeyId d.nowMs d.kyberPreKey kyberSig)
      kyberPreKeyId d.savedKyber)

def freshBundleMaterial (deviceId : UInt32) (d : Drawing L) :
    PersistentBeaconStore L × Except StoreError (BundleMaterial L) :=
  andThen (s.allocateOneTimePreKeyId d.savedId) fun s preKeyId =>
  andThen (s.storePreKey (L.preKeyRecord preKeyId d.preKey) preKeyId d.savedPreKey) fun s _ =>
  andThen (s.signedMaterial d) fun s signed =>
  andThen (s.kyberMaterial d) fun s kyber =>
    (s, .ok
      { registrationId := s.live.registrationId
        deviceId
        preKeyId
        preKeyPublic := L.publicKey d.preKey
        signedPreKeyId
        signedPreKeyPublic := signed.1
        signedPreKeySignature := signed.2
        identityKey := s.localIdentity.identityKey
        kyberPreKeyId
        kyberPreKeyPublic := kyber.1
        kyberPreKeySignature := kyber.2 })

end PersistentBeaconStore

/-! ### What a mutation does -/

/-- What a mutation makes of the memory. -/
def Mutation.change (m : Memory L) : Mutation L → Memory L
  | .allocateOneTimePreKeyId => { m with nextOneTimePreKeyId := m.nextOneTimePreKeyId + 1 }
  | .saveIdentity identity address =>
      { m with publicKeys := AList.insert address identity m.publicKeys }
  | .storePreKey record id => { m with prekeyMap := AList.insert id record m.prekeyMap }
  | .removePreKey id => { m with prekeyMap := AList.erase id m.prekeyMap }
  | .storeSignedPreKey record id =>
      { m with signedPrekeyMap := AList.insert id record m.signedPrekeyMap }
  | .storeKyberPreKey record id =>
      { m with kyberPrekeyMap := AList.insert id record m.kyberPrekeyMap }
  | .markKyberPreKeyUsed id signedPreKeyId baseKey =>
    { m with
      baseKeysSeen := AList.insert (PersistentBeaconStore.bothKeyIds id signedPreKeyId)
        (PersistentBeaconStore.seen m id signedPreKeyId ++ [baseKey]) m.baseKeysSeen
      kyberPrekeysUsed := m.kyberPrekeysUsed.insert id }
  | .storeSession record address =>
      { m with sessionMap := AList.insert address record m.sessionMap }
  | .storeSenderKey sender distributionId record =>
    { m with senderKeyMap := AList.insert ⟨sender, distributionId⟩ record m.senderKeyMap }
  | .removeSession address => { m with sessionMap := AList.erase address m.sessionMap }

/-- The base key was seen before, so the mutation is refused. -/
def Mutation.Refused (m : Memory L) : Mutation L → Prop
  | .markKyberPreKeyUsed id signedPreKeyId baseKey => baseKey ∈
      PersistentBeaconStore.seen m id signedPreKeyId
  | _ => False

namespace PersistentBeaconStore

variable {s : PersistentBeaconStore L}

/-- A mutation that is written. -/
def put (s : PersistentBeaconStore L) (f : Memory L → Memory L) : PersistentBeaconStore L :=
  { s with live := f s.live, file := some (makeSnapshot (f s.live)) }

theorem commit_true {α : Type} (f : Memory L → Memory L) (result : α) :
    s.commit f result true = (s.put f, .ok result) := rfl

theorem perform_refused {op : Mutation L} {saved : Bool} (h : op.Refused s.live) :
    s.perform saved op = (s, .error (.invalidMessage "reused base key")) := by
  cases op with
  | markKyberPreKeyUsed id signedPreKeyId baseKey => exact if_pos h
  | _ => cases h

theorem perform_saved {op : Mutation L} (h : ¬op.Refused s.live) :
    s.perform true op = (s.put op.change, .ok ()) := by
  cases op with
  | markKyberPreKeyUsed id signedPreKeyId baseKey => exact if_neg h
  | _ => rfl

theorem perform_failed {op : Mutation L} (h : ¬op.Refused s.live) :
    s.perform false op = ({ s with live := op.change s.live }, .error .writeFailed) := by
  cases op with
  | markKyberPreKeyUsed id signedPreKeyId baseKey => exact if_neg h
  | _ => rfl

end PersistentBeaconStore

/-- The mutation stores or removes the prekey. -/
def Mutation.touchesPreKey (id : UInt32) : Mutation L → Bool
  | .storePreKey _ other | .removePreKey other => other = id
  | _ => false

/-- The mutation replaces the signed prekey. -/
def Mutation.storesSigned (id : UInt32) : Mutation L → Bool
  | .storeSignedPreKey _ other => other = id
  | _ => false

/-- The mutation replaces the Kyber prekey. -/
def Mutation.storesKyber (id : UInt32) : Mutation L → Bool
  | .storeKyberPreKey _ other => other = id
  | _ => false

/-- The mutation is the allocation of an id. -/
def Mutation.allocates : Mutation L → Bool
  | .allocateOneTimePreKeyId => true
  | _ => false

section Change

variable (m : Memory L) (op : Mutation L)

theorem change_next :
    (op.change m).nextOneTimePreKeyId = m.nextOneTimePreKeyId + if op.allocates then 1 else 0 := by
  cases op <;> simp [Mutation.change, Mutation.allocates]

theorem change_preKey {id : UInt32} (h : ¬op.touchesPreKey id) :
    (op.change m).prekeyMap.lookup id = m.prekeyMap.lookup id := by
  cases op with
  | storePreKey record other =>
    have hne : id ≠ other := fun heq => h (by simp [Mutation.touchesPreKey, heq])
    simp [Mutation.change, hne]
  | removePreKey other =>
    have hne : id ≠ other := fun heq => h (by simp [Mutation.touchesPreKey, heq])
    simp [Mutation.change, hne]
  | _ => rfl

theorem change_signed {id : UInt32} (h : ¬op.storesSigned id) :
    (op.change m).signedPrekeyMap.lookup id = m.signedPrekeyMap.lookup id := by
  cases op with
  | storeSignedPreKey record other =>
    have hne : id ≠ other := fun heq => h (by simp [Mutation.storesSigned, heq])
    simp [Mutation.change, hne]
  | _ => rfl

theorem change_kyber {id : UInt32} (h : ¬op.storesKyber id) :
    (op.change m).kyberPrekeyMap.lookup id = m.kyberPrekeyMap.lookup id := by
  cases op with
  | storeKyberPreKey record other =>
    have hne : id ≠ other := fun heq => h (by simp [Mutation.storesKyber, heq])
    simp [Mutation.change, hne]
  | _ => rfl

/-- A base key that was seen stays so. -/
theorem change_seen {id signedPreKeyId : UInt32} {baseKey : L.PublicKey}
    (h : baseKey ∈ PersistentBeaconStore.seen m id signedPreKeyId) :
    baseKey ∈ PersistentBeaconStore.seen (op.change m) id signedPreKeyId := by
  cases op with
  | markKyberPreKeyUsed id' signedPreKeyId' baseKey' =>
    simp only [Mutation.change, PersistentBeaconStore.seen, Dict.lookup_insert]
    split
    · rename_i heq
      rw [PersistentBeaconStore.seen, heq] at h
      exact List.mem_append_left _ h
    · exact h
  | _ => exact h

end Change

end AeroNyra.ProtocolStore
