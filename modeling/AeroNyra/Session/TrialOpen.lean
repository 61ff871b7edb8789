import AeroNyra.Media.Completion
import AeroNyra.Session.Relaunch

/-! The sessions that an inbound message is tried against.  They are thin handles in memory, each
bound to the address that its session is stored under, and filled in from several places: a launch,
from the allowlist that it loaded, an established session, from the device that its bundle names,
and any use of a session.  An enrollment fills in nothing. -/

namespace AeroNyra

open Interleave PersistentBeaconStore

/-- A handle of the session with a peer, by its raw key. -/
structure SignalSession where
  peer : Data
  peerAddress : ProtocolAddress
  deriving DecidableEq

/-- The session store, on the device that it is on. -/
structure SignalSessionStore where
  device : Device
  sessions : Dict String SignalSession

namespace SignalSessionStore

/-- The one device of an identity. -/
def deviceId : UInt32 := 1

/-- The hexadecimal form of the serialized key, which is the raw key behind a type byte. -/
def userIDHex (rawKey : Data) : String := hex (5 :: rawKey)

/-- What libsignal does to the store in one call: its mutations, with whether each was written. -/
abbrev Writes := List (Mutation × Bool)

inductive Event
  | pairing (e : Interleave.Event Pairing.Call Pairing.Reply)
  | relaunch (loaded : TrustFile → Bool) (now : Int) (registrationId : UInt32)
  /-- The identity and the device that a bundle names, if it decodes, and whether
  `processPreKeyBundle` returns. -/
  | establishSession (bundle : Option (Data × UInt32)) (writes : Writes) (processed : Bool)
  /-- `openInbound` of a message that names its sender. -/
  | openPreKey (sender : Data) (writes : Writes)
  /-- `openInbound` of a message that does not, with the order of the handles that it is tried
  against. -/
  | openWhisper (payload : Data) (order : List SignalSession) (saved : Bool)
  | sealTo (peer : Data) (writes : Writes)

section

variable (decrypt : Data → Data → Option (Data × Data)) (parses : SignalKey → Data → Bool)
  (parsesKey : Data → Bool) (localIdentity : Data) (s : SignalSessionStore)

/-- The session record under an address. -/
def loadSession (address : ProtocolAddress) : Option Data :=
  s.device.signal.live.records.lookup (.session address)

def mutate (writes : Writes) : SignalSessionStore :=
  { s with device := { s.device with
      signal := writes.foldl (fun store w => store.apply w.2 w.1) s.device.signal } }

/-- libsignal stores a session under the address that it was called for, and removes none. -/
def writesFor (address : ProtocolAddress) : Mutation → Bool
  | .storeSession a _ => a = address
  | .removeSession _ => false
  | _ => true

/-- The mutation stores a session. -/
def storesSession : Mutation → Bool
  | .storeSession .. => true
  | _ => false

def sessionWith (rawKey : Data) : SignalSessionStore × SignalSession :=
  match s.sessions.lookup (userIDHex rawKey) with
  | some existing => (s, existing)
  | none =>
    let session := ⟨rawKey, ⟨userIDHex rawKey, deviceId⟩⟩
    ({ s with sessions := AList.insert (userIDHex rawKey) session s.sessions }, session)

def establishSession (rawKey : Data) (device : UInt32) (writes : Writes) (processed : Bool) :
    SignalSessionStore :=
  let s := s.mutate writes
  if processed then
    { s with sessions :=
        AList.insert (userIDHex rawKey) ⟨rawKey, ⟨userIDHex rawKey, device⟩⟩ s.sessions }
  else s

def hasSession (rawKey : Data) : Bool := (s.loadSession ⟨userIDHex rawKey, deviceId⟩).isSome

def deleteSession (rawKey : Data) (saved : Bool) : SignalSessionStore :=
  mutate { s with sessions := AList.erase (userIDHex rawKey) s.sessions }
    [(.removeSession ⟨userIDHex rawKey, deviceId⟩, saved)]

def warmInboundSessions (rawIdentities : List Data) : SignalSessionStore :=
  rawIdentities.foldl (fun s raw => if raw.length = 32 then (s.sessionWith raw).1 else s) s

/-- `SignalSession.open` of a message that names no sender: the new session record is stored. -/
def openSession (session : SignalSession) (payload : Data) (saved : Bool) :
    SignalSessionStore × Option Data :=
  match (s.loadSession session.peerAddress).bind fun record => decrypt record payload with
  | none => (s, none)
  | some (record, plaintext) =>
    (s.mutate [(.storeSession session.peerAddress record, saved)],
      if saved then some plaintext else none)

/-- The first handle that opens the payload names its sender. -/
def openWhisper (payload : Data) (saved : Bool) :
    SignalSessionStore → List SignalSession → SignalSessionStore × Option (Data × Data)
  | s, [] => (s, none)
  | s, session :: rest =>
    match s.openSession decrypt session payload saved with
    | (s, some plaintext) => (s, some (session.peer, plaintext))
    | (s, none) => openWhisper payload saved s rest

/-- A use of a session: of the one that there is, or of a new handle. -/
def useSession (rawKey : Data) (writes : Writes) : Option SignalSessionStore :=
  let p := s.sessionWith rawKey
  if writes.all fun w => writesFor p.2.peerAddress w.1 then some (p.1.mutate writes) else none

/-- The handles. -/
def handles : List SignalSession := s.sessions.pairs.map (·.2)

def step : Event → Option SignalSessionStore
  | .pairing e =>
    (Device.step parses parsesKey localIdentity s.device (.pairing e)).map fun device =>
      { s with device }
  | .relaunch loaded now registrationId =>
    (Device.step parses parsesKey localIdentity s.device (.relaunch loaded now registrationId)).map
      fun device => warmInboundSessions ⟨device, ∅⟩ device.pairing.shared.allowlist.identities
  | .establishSession none _ _ => some s
  | .establishSession (some (rawKey, device)) writes processed =>
    if writes.all fun w => writesFor ⟨userIDHex rawKey, device⟩ w.1 then
      some (s.establishSession rawKey device writes processed)
    else none
  | .openPreKey sender writes => s.useSession sender writes
  | .openWhisper payload order saved =>
    if order.Perm s.handles then some (openWhisper decrypt payload saved s order).1 else none
  | .sealTo peer writes => s.useSession peer writes

/-- The first launch. -/
def install (registrationId : UInt32) : SignalSessionStore :=
  ⟨Device.install localIdentity registrationId, ∅⟩

end

/-- The allowlist that is in force has the identity. -/
def Enrolled (s : SignalSessionStore) (k : Data) : Prop :=
  s.device.pairing.shared.allowlist.contains k = true

/-- There is a session with the identity, under whatever device. -/
def Stored (s : SignalSessionStore) (k : Data) : Prop :=
  ∃ device, (s.loadSession ⟨userIDHex k, device⟩).isSome

/-- There is a handle of the session with the identity. -/
def Cached (s : SignalSessionStore) (k : Data) : Prop := (s.sessions.lookup (userIDHex k)).isSome

instance (s : SignalSessionStore) (k : Data) : Decidable (s.Enrolled k) :=
  inferInstanceAs (Decidable (_ = true))

instance (s : SignalSessionStore) (k : Data) : Decidable (s.Cached k) :=
  inferInstanceAs (Decidable (_ = true))

/-- The address of a session key. -/
def sessionAddress : SignalKey → Option ProtocolAddress
  | .session a => some a
  | _ => none

instance (s : SignalSessionStore) (k : Data) : Decidable (s.Stored k) :=
  decidable_of_iff (∃ key ∈ s.device.signal.live.records.keys,
      ∃ a ∈ sessionAddress key, a.name = userIDHex k) <| by
    constructor
    · rintro ⟨key, hkey, a, ha, hname⟩
      cases key with
      | session b =>
        obtain rfl : b = a := Option.some.inj ha
        refine ⟨b.deviceId, ?_⟩
        rw [← hname]
        exact AList.lookup_isSome.mpr (AList.mem_keys.mpr hkey)
      | _ => cases ha
    · rintro ⟨device, hdevice⟩
      exact ⟨_, AList.mem_keys.mp (AList.lookup_isSome.mp hdevice), _, rfl, rfl⟩

/-- Whom an action enrolls, if it saves. -/
def enrolls : Pairing.Action → Option Data
  | .enroll k _ => some k
  | _ => none

theorem enrolls_iff {P : Data → Prop} (acts : Option (Pairing.Action × Pairing.Reply)) :
    (∃ p ∈ acts, ∃ k ∈ enrolls p.1, k.length = 32 ∧ p.2.saved ∧ P k) ↔
    ∃ k v reply, acts = some (.enroll k v, reply) ∧ k.length = 32 ∧ reply.saved ∧ P k := by
  constructor
  · rintro ⟨⟨a, reply⟩, hacts, k, hk, h⟩
    cases a with
    | enroll j v =>
      obtain rfl := Option.some.inj hk
      exact ⟨j, v, reply, hacts, h⟩
    | _ => cases hk
  · rintro ⟨k, v, reply, hacts, h⟩
    exact ⟨(.enroll k v, reply), hacts, k, rfl, h⟩

/-- The step cuts an identity off from its session: a bundle names another device than the one that
the other ways to a session use, or its session is stored and then fails while there is no handle,
or an enrollment admits an identity that has a session and no handle. -/
def CutsOff (t : Transition SignalSessionStore Event) : Prop :=
  match t.event with
  | .establishSession (some (k, device)) writes processed =>
    device ≠ deviceId ∨
      processed = false ∧ (∃ w ∈ writes, storesSession w.1) ∧ t.pre.Enrolled k ∧ ¬t.pre.Cached k
  | .pairing e => ∃ k v reply, t.pre.device.pairing.acts e = some (.enroll k v, reply) ∧
      k.length = 32 ∧ reply.saved ∧ t.pre.Stored k ∧ ¬t.pre.Cached k
  | _ => False

instance (t : Transition SignalSessionStore Event) : Decidable (CutsOff t) := by
  unfold CutsOff
  split
  · infer_instance
  · rename_i e _
    exact decidable_of_iff (∃ p ∈ t.pre.device.pairing.acts e,
      ∃ k ∈ enrolls p.1, k.length = 32 ∧ p.2.saved ∧ t.pre.Stored k ∧ ¬t.pre.Cached k)
      (enrolls_iff (t.pre.device.pairing.acts e))
  · infer_instance

/-- The handle of the identity is bound to the address of its session, so that what is sealed under
that session opens, and it is the session that is asked for and deleted. -/
structure Opens (decrypt : Data → Data → Option (Data × Data)) (s : SignalSessionStore) (k : Data)
    (address : ProtocolAddress) (record : Data) : Prop where
  bound : s.sessions.lookup (userIDHex k) = some ⟨k, address⟩
  opens : ∀ payload record' plaintext order, decrypt record payload = some (record', plaintext) →
    -- no other session opens what this one sealed
    (∀ other r, other ≠ address → s.loadSession other = some r → decrypt r payload = none) →
    order.Perm s.handles → (openWhisper decrypt payload true s order).2 = some (k, plaintext)
  has : s.hasSession k = true
  deletes : ∀ saved, (s.deleteSession k saved).loadSession address = none

variable {decrypt : Data → Data → Option (Data × Data)} {parses : SignalKey → Data → Bool}
  {parsesKey : Data → Bool} {localIdentity : Data} {s s' : SignalSessionStore}

/-! ### What libsignal writes -/

/-- Every session of the memory and of the file is under the one device. -/
def OneDevice (store : PersistentBeaconStore) : Prop :=
  ∀ snapshot, snapshot = store.live ∨ store.file = some snapshot →
    ∀ a, (snapshot.records.lookup (.session a)).isSome → a.deviceId = deviceId

section Writes

variable {store : PersistentBeaconStore} {address a : ProtocolAddress} {op : Mutation}
    {saved : Bool}

theorem lookup_apply (hop : writesFor address op)
    (hother : a ≠ address ∨ storesSession op = false) :
    (store.apply saved op).live.records.lookup (.session a) =
      store.live.records.lookup (.session a) := by
  rw [(apply_eq store saved op).1]
  cases op with
  | storeSession b record =>
    rcases hother with hne | hno
    · have hb : b = address := of_decide_eq_true hop
      have hkey : SignalKey.session a ≠ .session b := by
        rw [hb]
        exact fun h => hne (SignalKey.session.inj h)
      simp [Mutation.stores, hkey]
    · cases hno
  | removeSession b => cases hop
  | saveIdentity | storePreKey | removePreKey | storeSignedPreKey | storeKyberPreKey
  | markKyberPreKeyUsed | storeSenderKey | allocateOneTimePreKeyId =>
    simp [Mutation.stores, Mutation.removes]

theorem oneDevice_apply (hop : writesFor address op) (hdevice : address.deviceId = deviceId)
    (h : OneDevice store) : OneDevice (store.apply saved op) := by
  have hlive : ∀ a, ((store.apply saved op).live.records.lookup (.session a)).isSome →
      a.deviceId = deviceId := by
    intro a ha
    by_cases hsame : a = address
    · rw [hsame, hdevice]
    · rw [lookup_apply hop (.inl hsame)] at ha
      exact h _ (.inl rfl) a ha
  rintro snapshot (rfl | hfile)
  · exact hlive
  · rcases (apply_eq store saved op).2 with hold | hnew
    · rw [hold] at hfile
      exact h snapshot (.inr hfile)
    · rw [hnew] at hfile
      obtain rfl := Option.some.inj hfile
      exact hlive

/-- What a call of libsignal leaves of the sessions. -/
structure Wrote (address : ProtocolAddress) (writes : Writes) (s s' : SignalSessionStore) :
    Prop where
  pairing : s'.device.pairing = s.device.pairing
  sessions : s'.sessions = s.sessions
  other : ∀ a, a ≠ address ∨ (∀ w ∈ writes, storesSession w.1 = false) →
    s'.loadSession a = s.loadSession a
  oneDevice : address.deviceId = deviceId → OneDevice s.device.signal → OneDevice s'.device.signal

theorem wrote_mutate {writes : Writes} (h : writes.all fun w => writesFor address w.1) :
    Wrote address writes s (s.mutate writes) := by
  induction writes generalizing s with
  | nil => exact ⟨rfl, rfl, fun _ _ => rfl, fun _ h => h⟩
  | cons w writes ih =>
    simp only [List.all_cons, Bool.and_eq_true] at h
    obtain ⟨hw, hrest⟩ := h
    have hnext := ih (s := s.mutate [w]) hrest
    refine ⟨hnext.pairing, hnext.sessions, fun a ha => ?_, fun hdevice hone => ?_⟩
    · refine (hnext.other a
        (ha.imp_right fun hno u hu => hno u (List.mem_cons_of_mem _ hu))).trans ?_
      exact lookup_apply hw (ha.imp_right fun hno => hno w List.mem_cons_self)
    · exact hnext.oneDevice hdevice (oneDevice_apply hw hdevice hone)

end Writes

/-! ### Handles -/

/-- The handle of the session with an identity under the one device. -/
def handle (k : Data) : SignalSession := ⟨k, ⟨userIDHex k, deviceId⟩⟩

theorem userIDHex_injective : Function.Injective userIDHex :=
    fun _ _ h => (List.cons.inj (hex_injective h)).2

/-- Every handle is that of the identity that it is kept for. -/
def Handles (s : SignalSessionStore) : Prop :=
  ∀ key session, s.sessions.lookup key = some session → ∃ k, key = userIDHex k ∧ session = handle k

theorem Handles.lookup (h : Handles s) {k : Data} (hk : s.Cached k) :
    s.sessions.lookup (userIDHex k) = some (handle k) := by
  obtain ⟨session, hsession⟩ := Option.isSome_iff_exists.mp hk
  obtain ⟨j, hj, rfl⟩ := h _ _ hsession
  rw [hsession, userIDHex_injective hj]

theorem Handles.insert (h : Handles s) (k : Data) :
    Handles { s with sessions := AList.insert (userIDHex k) (handle k) s.sessions } := by
  intro key session hsession
  rw [Dict.lookup_insert] at hsession
  split at hsession
  · rename_i hkey
    exact ⟨k, hkey, (Option.some.inj hsession).symm⟩
  · exact h key session hsession

/-- What a use of a session leaves, with the handle that it uses. -/
structure Used (k : Data) (s : SignalSessionStore) (p : SignalSessionStore × SignalSession) :
    Prop where
  device : p.1.device = s.device
  handles : Handles p.1
  session : p.2 = handle k
  cached : ∀ j, p.1.Cached j ↔ j = k ∨ s.Cached j

theorem used_sessionWith (h : Handles s) (k : Data) : Used k s (s.sessionWith k) := by
  unfold sessionWith
  split
  · rename_i existing hexisting
    have hk : s.Cached k := by rw [Cached, hexisting]; rfl
    refine ⟨rfl, h, ?_, fun j => (or_iff_right_of_imp ?_).symm⟩
    · exact Option.some.inj (hexisting.symm.trans (h.lookup hk))
    · rintro rfl
      exact hk
  · refine ⟨rfl, h.insert k, rfl, fun j => ?_⟩
    show (AList.lookup _ (AList.insert _ _ _)).isSome = true ↔ _
    rw [Dict.lookup_insert]
    by_cases hj : j = k
    · simp [hj]
    · have hne : userIDHex j ≠ userIDHex k := fun heq => hj (userIDHex_injective heq)
      rw [if_neg hne]
      exact (or_iff_right hj).symm

theorem warmInboundSessions_cons (raw : Data) (identities : List Data) :
    s.warmInboundSessions (raw :: identities) =
      (if raw.length = 32 then (s.sessionWith raw).1 else s).warmInboundSessions identities := rfl

theorem used_warm (h : Handles s) (identities : List Data) :
    Handles (s.warmInboundSessions identities) ∧
      (s.warmInboundSessions identities).device = s.device ∧
      ∀ k ∈ identities, k.length = 32 → (s.warmInboundSessions identities).Cached k := by
  have general : ∀ (identities : List Data) (s : SignalSessionStore), Handles s →
      Handles (s.warmInboundSessions identities) ∧
      (s.warmInboundSessions identities).device = s.device ∧
      ∀ k, (k ∈ identities ∧ k.length = 32) ∨ s.Cached k →
        (s.warmInboundSessions identities).Cached k := by
    intro identities
    induction identities with
    | nil =>
      intro s h
      exact ⟨h, rfl, fun k hk => hk.resolve_left fun hmem => absurd hmem.1 List.not_mem_nil⟩
    | cons raw identities ih =>
      intro s h
      rw [warmInboundSessions_cons]
      by_cases hraw : raw.length = 32
      · rw [if_pos hraw]
        have hused := used_sessionWith h raw
        obtain ⟨hhandles, hdevice, hcached⟩ := ih _ hused.handles
        refine ⟨hhandles, hdevice.trans hused.device, fun k hk => hcached k ?_⟩
        rcases hk with ⟨hmem, hsize⟩ | hold
        · rcases List.mem_cons.mp hmem with rfl | hmem
          · exact .inr ((hused.cached k).mpr (.inl rfl))
          · exact .inl ⟨hmem, hsize⟩
        · exact .inr ((hused.cached k).mpr (.inr hold))
      · rw [if_neg hraw]
        obtain ⟨hhandles, hdevice, hcached⟩ := ih s h
        refine ⟨hhandles, hdevice, fun k hk => hcached k (hk.imp_left ?_)⟩
        rintro ⟨hmem, hsize⟩
        rcases List.mem_cons.mp hmem with rfl | hmem
        · exact absurd hsize hraw
        · exact ⟨hmem, hsize⟩
  obtain ⟨hhandles, hdevice, hcached⟩ := general identities s h
  exact ⟨hhandles, hdevice, fun k hmem hsize => hcached k (.inl ⟨hmem, hsize⟩)⟩

/-! ### Messages that name no sender -/

/-- What trying a payload leaves: a session that there was is another one. -/
structure Tried (s s' : SignalSessionStore) : Prop where
  pairing : s'.device.pairing = s.device.pairing
  sessions : s'.sessions = s.sessions
  stored : ∀ a, (s'.loadSession a).isSome = (s.loadSession a).isSome
  oneDevice : OneDevice s.device.signal → OneDevice s'.device.signal

theorem Tried.refl (s : SignalSessionStore) : Tried s s := ⟨rfl, rfl, fun _ => rfl, id⟩

theorem Tried.trans {s'' : SignalSessionStore} (h : Tried s s') (h' : Tried s' s'') : Tried s s'' :=
  ⟨h'.pairing.trans h.pairing, h'.sessions.trans h.sessions, fun a => (h'.stored a).trans
  (h.stored a),
    fun hone => h'.oneDevice (h.oneDevice hone)⟩

theorem tried_openSession {session : SignalSession} {payload : Data} {saved : Bool}
    (hdevice : session.peerAddress.deviceId = deviceId) :
    Tried s (s.openSession decrypt session payload saved).1 := by
  unfold openSession
  split
  · exact .refl s
  · rename_i record plaintext hopens
    obtain ⟨old, hold, _⟩ := Option.bind_eq_some_iff.mp hopens
    have hwrote : Wrote session.peerAddress _ s
        (s.mutate [(.storeSession session.peerAddress record, saved)]) :=
      wrote_mutate (by simp [writesFor])
    refine ⟨hwrote.pairing, hwrote.sessions, fun a => ?_, hwrote.oneDevice hdevice⟩
    by_cases ha : a = session.peerAddress
    · have hnew : (s.mutate [(.storeSession session.peerAddress record, saved)]).loadSession
          session.peerAddress = some record := by
        have hrecords :=
          (apply_eq s.device.signal saved (.storeSession session.peerAddress record)).1
        show (s.device.signal.apply saved
          (.storeSession session.peerAddress record)).live.records.lookup
          (.session session.peerAddress) = some record
        rw [hrecords]
        simp [Mutation.stores]
      rw [ha, hnew, hold]
      rfl
    · rw [hwrote.other a (.inl ha)]

theorem tried_openWhisper {payload : Data} {saved : Bool} {order : List SignalSession}
    (hdevice : ∀ session ∈ order, session.peerAddress.deviceId = deviceId) :
    Tried s (openWhisper decrypt payload saved s order).1 := by
  induction order generalizing s with
  | nil => exact .refl s
  | cons session rest ih =>
    have hfirst : Tried s (s.openSession decrypt session payload saved).1 :=
      tried_openSession (hdevice session List.mem_cons_self)
    unfold openWhisper
    split
    · rename_i hopen
      rw [hopen] at hfirst
      exact hfirst
    · rename_i hopen
      rw [hopen] at hfirst
      exact hfirst.trans (ih fun u hu => hdevice u (List.mem_cons_of_mem _ hu))

/-- The one handle whose session opens a payload names the sender. -/
theorem openWhisper_of_unique {payload plaintext record record' : Data} {session : SignalSession}
    {order : List SignalSession} (hmem : session ∈ order)
    (hrecord : s.loadSession session.peerAddress = some record)
    (hopens : decrypt record payload = some (record', plaintext))
    (hothers : ∀ u ∈ order, u ≠ session → ∀ r, s.loadSession u.peerAddress = some r →
      decrypt r payload = none) :
    (openWhisper decrypt payload true s order).2 = some (session.peer, plaintext) := by
  induction order with
  | nil => cases hmem
  | cons u rest ih =>
    by_cases hu : u = session
    · subst hu
      simp [openWhisper, openSession, hrecord, hopens]
    · have hnone : s.openSession decrypt u payload true = (s, none) := by
        have hbind : (s.loadSession u.peerAddress).bind (fun record => decrypt record payload) =
          none := by
          cases hload : s.loadSession u.peerAddress with
          | none => rfl
          | some r => exact hothers u List.mem_cons_self hu r hload
        simp [openSession, hbind]
      simp only [openWhisper, hnone]
      exact ih ((List.mem_cons.mp hmem).resolve_left (Ne.symm hu))
        fun v hv => hothers v (List.mem_cons_of_mem _ hv)

/-! ### What holds over the launches -/

/-- The invariant of the runs in which no step cuts an identity off. -/
structure Reached (s : SignalSessionStore) : Prop where
  handles : Handles s
  oneDevice : OneDevice s.device.signal
  wide : ∀ k, s.Enrolled k ∨ s.device.pairing.shared.allowlistFile.contains k → k.length = 32
  cached : ∀ k, s.Enrolled k → s.Stored k → s.Cached k

theorem reached_install (registrationId : UInt32) :
    Reached (install localIdentity registrationId) where
  handles key session h := by
    simp [install] at h
  oneDevice := by
    rintro snapshot (rfl | hfile) a ha
    · simp [install, Device.install, Snapshot.fresh] at ha
    · obtain rfl := Option.some.inj hfile
      simp [Snapshot.fresh] at ha
  wide k hk := by
    simp [Enrolled, install, Device.install, Pairing.launch, ContactAllowlist.contains,
      ContactAllowlist.empty] at hk
  cached k hk := by
    simp [Enrolled, install, Device.install, Pairing.launch, ContactAllowlist.contains,
      ContactAllowlist.empty] at hk

/-- Who is admitted by an action of the services. -/
theorem enrolled_effect {p p' : Pairing} {reply : Pairing.Reply} {a : Pairing.Action}
    {x : Exit Pairing.Action} (h : Pairing.Effect p reply a p' x) (k : Data) :
    (p'.allowlist.contains k → p.allowlist.contains k ∨
      ∃ v, a = .enroll k v ∧ k.length = 32 ∧ reply.saved) ∧
    (p'.allowlistFile.contains k → p.allowlistFile.contains k ∨ p.allowlist.contains k ∨
      ∃ v, a = .enroll k v ∧ k.length = 32 ∧ reply.saved) := by
  cases h with
  | quiet gate file live gates adds =>
    rw [file, live]
    exact ⟨.inl, .inl⟩
  | enroll j v hsize hsaved =>
    have hnew : (p.allowlist.enroll j reply.now v).contains k →
        p.allowlist.contains k ∨ ∃ v', Pairing.Action.enroll j v = .enroll k v' ∧ k.length = 32 ∧
          reply.saved := by
      intro hk
      rw [ContactAllowlist.contains_enroll] at hk
      by_cases hj : k = j
      · subst hj
        exact .inr ⟨v, rfl, hsize, hsaved⟩
      · exact .inl (by simpa [hj] using hk)
    exact ⟨hnew, fun hk => .inr (hnew hk)⟩
  | verify j henrolled =>
    show ((p.allowlist.markVerified j).contains k → _) ∧
      ((p.allowlist.markVerified j).contains k → _)
    rw [ContactAllowlist.contains_markVerified]
    exact ⟨.inl, fun hk => .inr (.inl hk)⟩
  | revoke j hby hsaved =>
    have hold : (p.allowlist.revoke j).contains k → p.allowlist.contains k := by
      intro hk
      rw [ContactAllowlist.contains_revoke] at hk
      simp at hk
      exact hk.2
    exact ⟨fun hk => .inl (hold hk), fun hk => .inr (.inl (hold hk))⟩
  | addReconnect | removeReconnect | addVerified | removeVerified => exact ⟨.inl, .inl⟩

section Steps

variable {k : Data} {address : ProtocolAddress} {writes : Writes}

/-- A session with an identity is under the one device. -/
theorem stored_iff (h : OneDevice s.device.signal) :
    s.Stored k ↔ (s.loadSession (handle k).peerAddress).isSome := by
  constructor
  · rintro ⟨device, hstored⟩
    have hdevice : device = deviceId := h _ (.inl rfl) _ hstored
    rw [hdevice] at hstored
    exact hstored
  · exact fun hstored => ⟨deviceId, hstored⟩

theorem Enrolled.of_pairing (h : s'.device.pairing = s.device.pairing) (hk : s'.Enrolled k) :
    s.Enrolled k := by
  rw [Enrolled, h] at hk
  exact hk

theorem wide_of_pairing (h : s'.device.pairing = s.device.pairing) (hinv : Reached s) (k : Data)
    (hk : s'.Enrolled k ∨ s'.device.pairing.shared.allowlistFile.contains k) : k.length = 32 := by
  rw [Enrolled, h] at hk
  exact hinv.wide k hk

theorem peerAddress_ne {j : Data} (h : j ≠ k) : (handle j).peerAddress ≠ (handle k).peerAddress :=
  fun heq => h (userIDHex_injective (ProtocolAddress.mk.inj heq).1)

theorem reached_useSession (hinv : Reached s) (h : s.useSession k writes = some s') :
    Reached s' := by
  have hused := used_sessionWith hinv.handles k
  unfold useSession at h
  dsimp only at h
  split at h
  · rename_i hwrites
    obtain rfl := Option.some.inj h
    rw [hused.session] at hwrites
    have hwrote : Wrote (handle k).peerAddress writes (s.sessionWith k).1
        ((s.sessionWith k).1.mutate writes) := wrote_mutate hwrites
    have hpairing := hwrote.pairing.trans (congrArg Device.pairing hused.device)
    have hone : OneDevice (s.sessionWith k).1.device.signal := by
      rw [hused.device]
      exact hinv.oneDevice
    have hcached (j : Data) : ((s.sessionWith k).1.mutate writes).Cached j ↔ j = k ∨
      s.Cached j := by
      rw [Cached, hwrote.sessions]
      exact hused.cached j
    refine ⟨fun key session hsession => ?_, hwrote.oneDevice rfl hone,
      wide_of_pairing hpairing hinv,
      fun j hj hstored => (hcached j).mpr ?_⟩
    · rw [hwrote.sessions] at hsession
      exact hused.handles key session hsession
    · by_cases hjk : j = k
      · exact .inl hjk
      · rw [stored_iff (hwrote.oneDevice rfl hone), hwrote.other _ (.inl (peerAddress_ne hjk)),
          loadSession, hused.device] at hstored
        exact .inr (hinv.cached j (hj.of_pairing hpairing)
          ((stored_iff hinv.oneDevice).mpr hstored))
  · cases h

theorem reached_openWhisper {payload : Data} {order : List SignalSession} {saved : Bool}
    (hinv : Reached s) (horder : order.Perm s.handles) :
    Reached (openWhisper decrypt payload saved s order).1 := by
  have hdevice : ∀ session ∈ order, session.peerAddress.deviceId = deviceId := by
    intro session hsession
    obtain ⟨⟨key, session⟩, hpair, rfl⟩ := List.mem_map.mp (horder.mem_iff.mp hsession)
    obtain ⟨k, _, rfl⟩ := hinv.handles key session (Dict.mem_pairs.mp hpair)
    rfl
  have htried : Tried s (openWhisper decrypt payload saved s order).1 := tried_openWhisper hdevice
  refine ⟨fun key session hsession => ?_, htried.oneDevice hinv.oneDevice,
    wide_of_pairing htried.pairing hinv, fun k hk hstored => ?_⟩
  · rw [htried.sessions] at hsession
    exact hinv.handles key session hsession
  · rw [stored_iff (htried.oneDevice hinv.oneDevice), htried.stored] at hstored
    have hcached := hinv.cached k (hk.of_pairing htried.pairing)
      ((stored_iff hinv.oneDevice).mpr hstored)
    rw [Cached, htried.sessions]
    exact hcached

theorem reached_establishSession {processed : Bool} (hinv : Reached s)
    (hwrites : writes.all fun w => writesFor (handle k).peerAddress w.1)
    (hfails : processed = false → (∃ w ∈ writes, storesSession w.1) → s.Enrolled k → s.Cached k) :
    Reached (s.establishSession k deviceId writes processed) := by
  have hwrote : Wrote (handle k).peerAddress writes s (s.mutate writes) := wrote_mutate hwrites
  have hhandles : Handles (s.mutate writes) := by
    intro key session hsession
    rw [hwrote.sessions] at hsession
    exact hinv.handles key session hsession
  have hone := hwrote.oneDevice rfl hinv.oneDevice
  have hwide := wide_of_pairing hwrote.pairing hinv
  have hold (j : Data) (hj : (s.mutate writes).Enrolled j) (hstored : (s.mutate writes).Stored j)
      (hsame : j ≠ k ∨ ∀ w ∈ writes, storesSession w.1 = false) : (s.mutate writes).Cached j := by
    rw [stored_iff hone, hwrote.other _ (hsame.imp_left peerAddress_ne)] at hstored
    have hcached := hinv.cached j (hj.of_pairing hwrote.pairing)
      ((stored_iff hinv.oneDevice).mpr hstored)
    rw [Cached, hwrote.sessions]
    exact hcached
  cases processed with
  | true =>
    refine ⟨hhandles.insert k, hone, hwide, fun j hj hstored => ?_⟩
    show (AList.lookup _ (AList.insert _ _ _)).isSome = true
    rw [Dict.lookup_insert]
    split
    · rfl
    · rename_i hne
      exact hold j hj hstored (.inl fun heq => hne (congrArg userIDHex heq))
  | false =>
    refine ⟨hhandles, hone, hwide, fun j hj hstored => ?_⟩
    by_cases hjk : j = k
    · subst hjk
      by_cases hstores : ∃ w ∈ writes, storesSession w.1
      · have hcached := hfails rfl hstores (hj.of_pairing hwrote.pairing)
        show ((s.mutate writes).sessions.lookup _).isSome
        rw [hwrote.sessions]
        exact hcached
      · refine hold j hj hstored (.inr fun w hw => ?_)
        exact Bool.eq_false_iff.mpr fun hstore => hstores ⟨w, hw, hstore⟩
    · exact hold j hj hstored (.inl hjk)

end Steps

theorem oneDevice_load {store : PersistentBeaconStore} {file : Option Snapshot} {read saved : Bool}
    {registrationId : UInt32}
    (h : load parses parsesKey file read registrationId saved = some store)
    (hfile : ∀ snapshot, file = some snapshot →
      ∀ a, (snapshot.records.lookup (.session a)).isSome → a.deviceId = deviceId) :
      OneDevice store := by
  rcases load_cases h with ⟨snapshot, _, hsnapshot, rfl⟩ | ⟨_, rfl⟩
  · rintro other (rfl | hother) a ha
    · refine hfile snapshot hsnapshot a ?_
      simp only [Snapshot.readable, Dict.lookup_filterEntries] at ha
      obtain ⟨record, hrecord⟩ := Option.isSome_iff_exists.mp ha
      rw [(Option.filter_eq_some_iff.mp hrecord).1]
      rfl
    · obtain rfl := Option.some.inj hother
      exact hfile snapshot hsnapshot a ha
  · rintro other (rfl | hother) a ha
    · simp [Snapshot.fresh] at ha
    · obtain rfl := Option.some.inj hother
      simp [Snapshot.fresh] at ha

theorem reached_relaunch {loaded : TrustFile → Bool} {now : Int} {registrationId : UInt32}
    (hinv : Reached s)
    (h : step decrypt parses parsesKey localIdentity s (.relaunch loaded now registrationId) =
      some s') :
    Reached s' := by
  obtain ⟨device, hdevice, rfl⟩ := Option.map_eq_some_iff.mp h
  obtain ⟨signal, hload, rfl⟩ := Option.map_eq_some_iff.mp hdevice
  have hone : OneDevice signal := oneDevice_load hload fun snapshot hfile a ha =>
    hinv.oneDevice snapshot (.inr hfile) a ha
  have hempty : Handles
    ⟨⟨signal, ⟨Device.boot localIdentity s.device.pairing.shared loaded now, []⟩,
      loaded⟩, ∅⟩ := by
    intro key session hsession
    simp at hsession
  obtain ⟨hhandles, hsame, hwarm⟩ := used_warm hempty
    (Device.boot localIdentity s.device.pairing.shared loaded now).allowlist.identities
  have hwide (k : Data)
    (hk : (Device.boot localIdentity s.device.pairing.shared loaded now).allowlist.contains
      k) : k.length = 32 := by
    refine hinv.wide k (.inr ?_)
    have hk : (if loaded .allowlist then s.device.pairing.shared.allowlistFile
      else .empty).contains k := hk
    split at hk
    · exact hk
    · simp [ContactAllowlist.contains, ContactAllowlist.empty] at hk
  refine ⟨hhandles, ?_, fun k hk => ?_, fun k hk _ => ?_⟩
  · rw [hsame]
    exact hone
  · rw [Enrolled, hsame] at hk
    rcases hk with hk | hk
    · exact hwide k hk
    · exact hinv.wide k (.inr hk)
  · rw [Enrolled, hsame] at hk
    exact hwarm k ((ContactAllowlist.mem_identities k).mpr hk) (hwide k hk)

theorem reached_pairing {e : Interleave.Event Pairing.Call Pairing.Reply} (hinv : Reached s)
    (h : step decrypt parses parsesKey localIdentity s (.pairing e) = some s')
    (hcut : ¬CutsOff ⟨s, .pairing e, s'⟩) : Reached s' := by
  obtain ⟨device, hdevice, rfl⟩ := Option.map_eq_some_iff.mp h
  obtain ⟨pairing, hpairing, rfl⟩ := Option.map_eq_some_iff.mp hdevice
  have hadmits (k : Data) : (pairing.shared.allowlist.contains k → s.Enrolled k ∨
      k.length = 32 ∧ (s.Stored k → s.Cached k)) ∧
      (pairing.shared.allowlistFile.contains k →
        s.device.pairing.shared.allowlistFile.contains k ∨ s.Enrolled k ∨ k.length = 32) := by
    rcases Machine.step_cases hpairing with ⟨call, _, rfl⟩ |
      ⟨i, reply, a, rest, handler, p, x, rfl, hi, hexec, hacts, rfl⟩
    · exact ⟨.inl, .inl⟩
    · obtain ⟨hlive, hfile⟩ := enrolled_effect (Pairing.exec_effect hexec) k
      constructor
      · intro hk
        rcases hlive hk with hold | ⟨v, rfl, hsize, hsaved⟩
        · exact .inl hold
        · refine .inr ⟨hsize, fun hstored => ?_⟩
          by_contra hnone
          exact hcut ⟨k, v, reply, hacts, hsize, hsaved, hstored, hnone⟩
      · intro hk
        rcases hfile hk with hold | hold | ⟨v, rfl, hsize, hsaved⟩
        · exact .inl hold
        · exact .inr (.inl hold)
        · exact .inr (.inr hsize)
  refine ⟨hinv.handles, hinv.oneDevice, fun k hk => ?_, fun k hk hstored => ?_⟩
  · rcases hk with hk | hk
    · rcases (hadmits k).1 hk with hold | hnew
      · exact hinv.wide k (.inl hold)
      · exact hnew.1
    · rcases (hadmits k).2 hk with hold | hold | hnew
      · exact hinv.wide k (.inr hold)
      · exact hinv.wide k (.inl hold)
      · exact hnew
  · rcases (hadmits k).1 hk with hold | hnew
    · exact hinv.cached k hold hstored
    · exact hnew.2 hstored

theorem reached_step {t : Transition SignalSessionStore Event}
    (ht : step decrypt parses parsesKey localIdentity t.pre t.event = some t.post)
    (hcut : ¬CutsOff t) (hinv : Reached t.pre) : Reached t.post := by
  obtain ⟨s, event, s'⟩ := t
  cases event with
  | pairing e => exact reached_pairing hinv ht hcut
  | relaunch loaded now registrationId => exact reached_relaunch hinv ht
  | openPreKey sender writes => exact reached_useSession hinv ht
  | sealTo peer writes => exact reached_useSession hinv ht
  | openWhisper payload order saved =>
    obtain ⟨horder, hpost⟩ := Option.ite_none_right_eq_some.mp ht
    have hpost : (openWhisper decrypt payload saved s order).1 = s' := Option.some.inj hpost
    exact hpost ▸ reached_openWhisper hinv horder
  | establishSession bundle writes processed =>
    cases bundle with
    | none =>
      have hpost : s = s' := Option.some.inj ht
      exact hpost ▸ hinv
    | some named =>
      obtain ⟨k, device⟩ := named
      obtain ⟨hwrites, hpost⟩ := Option.ite_none_right_eq_some.mp ht
      have hpost : s.establishSession k device writes processed = s' := Option.some.inj hpost
      have hdevice : device = deviceId := by
        by_contra hne
        exact hcut (.inl hne)
      subst hdevice
      refine hpost ▸ reached_establishSession hinv hwrites fun hfails hstores henrolled => ?_
      by_contra hnone
      exact hcut (.inr ⟨hfails, hstores, henrolled, hnone⟩)

/-- Deleting the session with an identity deletes the one under the one device. -/
theorem loadSession_deleteSession (k : Data) (saved : Bool) :
    (s.deleteSession k saved).loadSession (handle k).peerAddress = none := by
  have hrecords := (apply_eq s.device.signal saved (.removeSession (handle k).peerAddress)).1
  show (s.device.signal.apply saved (.removeSession (handle k).peerAddress)).live.records.lookup
    (.session (handle k).peerAddress) = none
  rw [hrecords]
  simp [Mutation.stores, Mutation.removes]

/-- In a state that is reached, the session with an enrolled identity opens. -/
theorem Reached.opens (h : Reached s) {k : Data} (hk : s.Enrolled k) {address : ProtocolAddress}
    (haddress : address.name = userIDHex k) {record : Data}
    (hrecord : s.loadSession address = some record) :
    Opens decrypt s k address record := by
  have hdevice : address.deviceId = deviceId := by
    refine h.oneDevice _ (.inl rfl) address ?_
    rw [← loadSession, hrecord]
    rfl
  obtain rfl : address = (handle k).peerAddress := by
    obtain ⟨name, device⟩ := address
    exact congr (congrArg ProtocolAddress.mk haddress) hdevice
  have hstored : (s.loadSession (handle k).peerAddress).isSome := by
    rw [hrecord]
    rfl
  have hlookup := h.handles.lookup (h.cached k hk ⟨deviceId, hstored⟩)
  refine ⟨hlookup, fun payload record' plaintext order hopens honly horder => ?_, hstored,
    loadSession_deleteSession k⟩
  have hmem : handle k ∈ order :=
    horder.mem_iff.mpr (List.mem_map.mpr ⟨_, Dict.mem_pairs.mpr hlookup, rfl⟩)
  refine openWhisper_of_unique hmem hrecord hopens fun u hu hne r hr => honly _ _ ?_ hr
  obtain ⟨⟨key, session⟩, hpair, rfl⟩ := List.mem_map.mp (horder.mem_iff.mp hu)
  obtain ⟨j, _, rfl⟩ := h.handles key session (Dict.mem_pairs.mp hpair)
  exact peerAddress_ne fun hjk => hne (congrArg handle hjk)

/-- Over every launch in which no step cuts an identity off: the session of an enrolled identity,
whatever address it is stored under, opens what was sealed under it. -/
theorem admitted_open (decrypt : Data → Data → Option (Data × Data))
    (parses : SignalKey → Data → Bool)
    (parsesKey : Data → Bool) (localIdentity : Data) (registrationId : UInt32) (events : List Event)
    (s : SignalSessionStore)
    (hrun : run (step decrypt parses parsesKey localIdentity) (install localIdentity registrationId)
      events = some s)
    (hcut : ∀ t ∈ trace (step decrypt parses parsesKey localIdentity)
      (install localIdentity registrationId) events, ¬CutsOff t)
    (k : Data) (hk : s.Enrolled k) (address : ProtocolAddress)
    (haddress : address.name = userIDHex k)
    (record : Data) (hrecord : s.loadSession address = some record) :
    Opens decrypt s k address record := by
  have hreached : Reached s := run_invariant Reached (fun t => ¬CutsOff t)
    (fun t ht hcut hinv => reached_step ht hcut hinv) (reached_install registrationId) hcut hrun
  exact hreached.opens hk haddress hrecord

/-- A contact is paired over a bundle that names the one device. -/
def paired (k record : Data) : List Event :=
  [.pairing (.start (.enroll k true)), .pairing (.step 0 {}), .pairing (.step 0 {}),
    .pairing (.step 0 {}),
    .establishSession (some (k, deviceId))
      [(.storeSession (handle k).peerAddress record, true)] true]

theorem admitted_open_relaunched :
    let k : Data := .replicate 32 1
    let decrypt (record payload : Data) : Option (Data × Data) :=
      if payload = 2 :: record then some (record, [7]) else none
    let events := paired k [3] ++ [.relaunch (fun _ => true) 5 6]
    ∃ s, run (step decrypt (fun _ _ => true) (fun _ => true) (.replicate 32 9))
        (install (.replicate 32 9) 4) events = some s ∧
      Opens decrypt s k (handle k).peerAddress [3] := by
  intro k decrypt events
  have hstate : (run (step decrypt (fun _ _ => true) (fun _ => true) (.replicate 32 9))
      (install (.replicate 32 9) 4) events).any
      (fun s => decide (s.Enrolled k ∧ s.loadSession (handle k).peerAddress = some [3])) =
      true := by
    decide +kernel
  obtain ⟨s, hrun, hs⟩ := (Option.any_eq_true _ _).mp hstate
  obtain ⟨henrolled, hrecord⟩ := of_decide_eq_true hs
  exact ⟨s, hrun, admitted_open decrypt (fun _ _ => true) (fun _ => true)
    (.replicate 32 9) 4 events s hrun
    (by decide +kernel) k henrolled (handle k).peerAddress rfl [3] hrecord⟩

/-- A contact that is blocked over a launch and then unblocked is enrolled, and nothing opens what
it seals. -/
theorem unblocked_unopened :
    let k : Data := .replicate 32 1
    let decrypt (record payload : Data) : Option (Data × Data) :=
      if payload = 2 :: record then some (record, [7]) else none
    let events := paired k [3] ++ ([.pairing (.start (.block k none)), .pairing (.step 1 {}),
      .pairing (.step 1 {}), .pairing (.step 1 {}), .pairing (.step 1 {}), .pairing (.step 1 {}),
      .relaunch (fun _ => true) 5 6, .pairing (.start (.unblock k)), .pairing (.step 0 {}),
      .pairing (.step 0 {}), .pairing (.step 0 {}), .pairing (.step 0 {}), .pairing (.step 0 {}),
      .pairing (.step 0 {})] : List Event)
    ∃ s, run (step decrypt (fun _ _ => true) (fun _ => true) (.replicate 32 9))
        (install (.replicate 32 9) 4) events = some s ∧
      s.Enrolled k ∧ s.loadSession (handle k).peerAddress = some [3] ∧
      decrypt [3] [2, 3] = some ([3], [7]) ∧
      (∀ order, order.Perm s.handles → (openWhisper decrypt [2, 3] true s order).2 = none) := by
  intro k decrypt events
  have hstate : (run (step decrypt (fun _ _ => true) (fun _ => true) (.replicate 32 9))
      (install (.replicate 32 9) 4) events).any (fun s => decide (s.Enrolled k ∧
        s.loadSession (handle k).peerAddress = some [3] ∧ s.handles = [])) = true := by
    decide +kernel
  obtain ⟨s, hrun, hs⟩ := (Option.any_eq_true _ _).mp hstate
  obtain ⟨henrolled, hrecord, hnone⟩ := of_decide_eq_true hs
  refine ⟨s, hrun, henrolled, hrecord, by decide, fun order horder => ?_⟩
  rw [hnone] at horder
  rw [List.perm_nil.mp horder]
  rfl

end SignalSessionStore

end AeroNyra
