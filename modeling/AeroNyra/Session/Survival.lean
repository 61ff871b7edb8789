import AeroNyra.Session.BeaconStore

/-! The store over relaunches: the last snapshot gives back a memory that answers as the one that
was written, so what a run of mutations, drawings and launches has marked, handed out and generated
stays so. -/

namespace AeroNyra.ProtocolStore

variable {L : LibSignal}

/-- The same content, map by map. -/
structure Same (m m' : Memory L) : Prop where
  registrationId : m.registrationId = m'.registrationId
  nextOneTimePreKeyId : m.nextOneTimePreKeyId = m'.nextOneTimePreKeyId
  publicKeys : ∀ address, m.publicKeys.lookup address = m'.publicKeys.lookup address
  prekeyMap : ∀ id, m.prekeyMap.lookup id = m'.prekeyMap.lookup id
  signedPrekeyMap : ∀ id, m.signedPrekeyMap.lookup id = m'.signedPrekeyMap.lookup id
  kyberPrekeyMap : ∀ id, m.kyberPrekeyMap.lookup id = m'.kyberPrekeyMap.lookup id
  kyberPrekeysUsed : ∀ id, id ∈ m.kyberPrekeysUsed ↔ id ∈ m'.kyberPrekeysUsed
  baseKeysSeen : ∀ combined, m.baseKeysSeen.lookup combined = m'.baseKeysSeen.lookup combined
  sessionMap : ∀ address, m.sessionMap.lookup address = m'.sessionMap.lookup address
  senderKeyMap : ∀ name, m.senderKeyMap.lookup name = m'.senderKeyMap.lookup name

variable {m m' : Memory L}

theorem Same.refl (m : Memory L) : Same m m where
  registrationId := rfl
  nextOneTimePreKeyId := rfl
  publicKeys _ := rfl
  prekeyMap _ := rfl
  signedPrekeyMap _ := rfl
  kyberPrekeyMap _ := rfl
  kyberPrekeysUsed _ := Iff.rfl
  baseKeysSeen _ := rfl
  sessionMap _ := rfl
  senderKeyMap _ := rfl

/-- What is the same answers alike. -/
theorem Same.answer_eq (h : Same m m') (q : Query L) : m.answer q = m'.answer q := by
  cases q with
  | localRegistrationId => simp only [Memory.answer, h.registrationId]
  | isTrustedIdentity => simp only [Memory.answer, Memory.isTrustedIdentity, h.publicKeys]
  | identity => simp only [Memory.answer, h.publicKeys]
  | loadPreKey => simp only [Memory.answer, Memory.loadPreKey, Memory.load, h.prekeyMap]
  | loadSignedPreKey =>
      simp only [Memory.answer, Memory.loadSignedPreKey, Memory.load, h.signedPrekeyMap]
  | loadKyberPreKey =>
      simp only [Memory.answer, Memory.loadKyberPreKey, Memory.load, h.kyberPrekeyMap]
  | loadSession => simp only [Memory.answer, h.sessionMap]
  | loadExistingSessions =>
      simp only [Memory.answer, Memory.loadExistingSessions, Memory.load, h.sessionMap]
  | loadSenderKey => simp only [Memory.answer, h.senderKeyMap]

theorem Same.seen_eq (h : Same m m') (id signedPreKeyId : UInt32) :
    PersistentBeaconStore.seen m id signedPreKeyId =
      PersistentBeaconStore.seen m' id signedPreKeyId := by
  simp only [PersistentBeaconStore.seen, h.baseKeysSeen]

/-! ### The snapshot read back -/

/-- Entries that are read back one by one are the pairs that were written. -/
theorem filterMap_map_self {α β : Type} {enc : α → β} {dec : β → Option α}
    (h : ∀ a, dec (enc a) = some a) (l : List α) : (l.map enc).filterMap dec = l := by
  rw [List.filterMap_map, show dec ∘ enc = some from funext h, List.filterMap_some]

theorem lookup_readIds {α : Type} (f : Format α) (d : Dict UInt32 α) (id : UInt32) :
    (readIds f (idRecords f d)).lookup id = d.lookup id := by
  unfold readIds idRecords
  rw [filterMap_map_self fun p => by simp [f.parse_serialize]]
  exact Dict.lookup_insertAll_pairs d id

theorem lookup_readAddrs {α : Type} (f : Format α) (d : Dict ProtocolAddress α)
    (address : ProtocolAddress) :
    (readAddrs L f (addrRecords f d)).lookup address = d.lookup address := by
  unfold readAddrs addrRecords
  rw [filterMap_map_self fun p => by simp [L.address_self, f.parse_serialize]]
  exact Dict.lookup_insertAll_pairs d address

/-- A launch rebuilds the memory that was written. -/
theorem apply_makeSnapshot (m : Memory L) : Same (apply L (makeSnapshot m)) m where
  registrationId := rfl
  nextOneTimePreKeyId := rfl
  publicKeys := lookup_readAddrs L.identityKeys m.publicKeys
  prekeyMap := lookup_readIds L.preKeys m.prekeyMap
  signedPrekeyMap := lookup_readIds L.signedPreKeys m.signedPrekeyMap
  kyberPrekeyMap := lookup_readIds L.kyberPreKeys m.kyberPrekeyMap
  kyberPrekeysUsed _ := Iff.rfl
  baseKeysSeen combined := by
    have hkeys (keys : List L.PublicKey) :
      (keys.map L.publicKeys.serialize).filterMap L.publicKeys.parse = keys :=
      filterMap_map_self L.publicKeys.parse_serialize keys
    simp only [apply, makeSnapshot, List.map_map, Function.comp_def, hkeys, List.map_id']
    exact Dict.lookup_insertAll_pairs m.baseKeysSeen combined
  sessionMap := lookup_readAddrs L.sessions m.sessionMap
  senderKeyMap name := by
    simp only [apply, makeSnapshot]
    rw [filterMap_map_self fun p => by simp [L.address_self, L.senderKeys.parse_serialize]]
    exact Dict.lookup_insertAll_pairs m.senderKeyMap name

/-! ### Runs -/

/-- The same drawing, with writes that succeed. -/
def Drawing.saving (d : Drawing L) : Drawing L :=
  { d with savedId := true, savedPreKey := true, savedSigned := true, savedKyber := true }

/-- What happens to a store; every write succeeds. -/
inductive Event (L : LibSignal)
  | mutate (op : Mutation L)
  | draw (deviceId : UInt32) (drawing : Drawing L)
  /-- The app stops, and starts again over the file. -/
  | relaunch (registrationId : UInt32)

namespace PersistentBeaconStore

/-- The first launch, before which there is no file. -/
def install (localIdentity : IdentityKeyPair L) (registrationId : UInt32) :
    PersistentBeaconStore L :=
  let fresh : Memory L := { registrationId, nextOneTimePreKeyId := 1 }
  ⟨localIdentity, fresh, some (makeSnapshot fresh)⟩

theorem launch_none (localIdentity : IdentityKeyPair L) (registrationId : UInt32) :
    launch localIdentity none registrationId true = .ok (install localIdentity registrationId) :=
      rfl

def handle (s : PersistentBeaconStore L) : Event L → PersistentBeaconStore L
  | .mutate op => (s.perform true op).1
  | .draw deviceId drawing => (s.freshBundleMaterial deviceId drawing.saving).1
  | .relaunch registrationId =>
      ((launch s.localIdentity s.file registrationId true).toOption).getD s

/-- The store after events. -/
def after (s : PersistentBeaconStore L) (events : List (Event L)) : PersistentBeaconStore L :=
  events.foldl handle s

/-- What the events of a run give out, in order. -/
def collect {β : Type} (f : PersistentBeaconStore L → Event L → Option β) :
    PersistentBeaconStore L → List (Event L) → List β
  | _, [] => []
  | s, e :: events => (f s e).toList ++ collect f (s.handle e) events

/-- The triple that an event has accepted. -/
def accepts (s : PersistentBeaconStore L) : Event L → Option (UInt32 × UInt32 × L.PublicKey)
  | .mutate (.markKyberPreKeyUsed id signedPreKeyId baseKey) =>
    (s.markKyberPreKeyUsed id signedPreKeyId baseKey true).2.toOption.map fun _ =>
      (id, signedPreKeyId, baseKey)
  | _ => none

/-- The one-time prekey id that an event hands out. -/
def hands (s : PersistentBeaconStore L) : Event L → Option UInt32
  | .mutate .allocateOneTimePreKeyId => (s.allocateOneTimePreKeyId true).2.toOption
  | .draw deviceId drawing => (s.freshBundleMaterial deviceId drawing.saving).2.toOption.map
      (·.preKeyId)
  | _ => none

/-- The file gives back the memory. -/
def Faithful (s : PersistentBeaconStore L) : Prop := ∃ snapshot, s.file = some snapshot ∧
    Same (apply L snapshot) s.live

variable {s : PersistentBeaconStore L} {d : Drawing L}

theorem faithful_put (f : Memory L → Memory L) : (s.put f).Faithful :=
  ⟨_, rfl, apply_makeSnapshot (f s.live)⟩

/-- The record with the fixed id is there with its public key, and it is the one that was there if
that had its public key. -/
structure Shared {ρ π : Type} (publicKey : ρ → Option π) (before after : Option ρ) : Prop where
  there : ∃ record, after = some record ∧ (publicKey record).isSome
  kept : ∀ record, before = some record → (publicKey record).isSome → after = some record

theorem Shared.of_there {ρ π : Type} {publicKey : ρ → Option π} {before : Option ρ} {record : ρ}
    (h : before = some record) (hpub : (publicKey record).isSome) :
    Shared publicKey before before :=
  ⟨⟨record, h, hpub⟩, fun _ h _ => h⟩

theorem Shared.of_new {ρ π : Type} {publicKey : ρ → Option π} {before : Option ρ} {record : ρ}
    (hnone : ∀ record, before = some record → ¬(publicKey record).isSome)
    (hpub : (publicKey record).isSome) :
    Shared publicKey before (some record) :=
  ⟨⟨record, rfl, hpub⟩, fun other h hother => absurd hother (hnone other h)⟩

/-- What a drawing leaves as it was, and what it adds. -/
structure Drawn (s : PersistentBeaconStore L) (d : Drawing L) (s' : PersistentBeaconStore L) :
    Prop where
  faithful : s'.Faithful
  next : s'.live.nextOneTimePreKeyId = s.live.nextOneTimePreKeyId + 1
  preKey : ∀ id, s'.live.prekeyMap.lookup id =
    if id = s.live.nextOneTimePreKeyId
      then some (L.preKeyRecord s.live.nextOneTimePreKeyId d.preKey)
    else s.live.prekeyMap.lookup id
  baseKeysSeen : s'.live.baseKeysSeen = s.live.baseKeysSeen
  signed : Shared L.signedPublicKey (s.live.signedPrekeyMap.lookup signedPreKeyId)
    (s'.live.signedPrekeyMap.lookup signedPreKeyId)
  kyber : Shared L.kyberPublicKey (s.live.kyberPrekeyMap.lookup kyberPreKeyId)
    (s'.live.kyberPrekeyMap.lookup kyberPreKeyId)

/-- The long-lived prekey after a drawing: the one that was there, if its public key is readable. -/
theorem sharedMaterial_put {ρ π : Type} (existing : Option ρ) (publicKey : ρ → Option π)
    (signature : ρ → Data) (generated : π × Data) (f : Memory L → Memory L) :
    ∃ s' material, s.sharedMaterial existing publicKey signature generated (s.put f, .ok ()) =
        (s', .ok material) ∧
      ((∃ record, existing = some record ∧ (publicKey record).isSome ∧ s' = s) ∨
        (∀ record, existing = some record → ¬(publicKey record).isSome) ∧ s' = s.put f) := by
  unfold sharedMaterial
  split
  · rename_i found hfound
    obtain ⟨record, hrecord, hmap⟩ := Option.bind_eq_some_iff.mp hfound
    obtain ⟨pub, hpub, rfl⟩ := Option.map_eq_some_iff.mp hmap
    exact ⟨_, _, rfl, .inl ⟨record, hrecord, Option.isSome_iff_exists.mpr ⟨pub, hpub⟩, rfl⟩⟩
  · rename_i hnone
    refine ⟨_, _, rfl, .inr ⟨fun record hrecord hpub => ?_, rfl⟩⟩
    obtain ⟨pub, hpub⟩ := Option.isSome_iff_exists.mp hpub
    simp [hrecord, hpub] at hnone

/-- What storing a long-lived prekey leaves as it was. -/
structure Extends (s s' : PersistentBeaconStore L) : Prop where
  next : s'.live.nextOneTimePreKeyId = s.live.nextOneTimePreKeyId
  prekeyMap : s'.live.prekeyMap = s.live.prekeyMap
  baseKeysSeen : s'.live.baseKeysSeen = s.live.baseKeysSeen
  faithful : s.Faithful → s'.Faithful

theorem signedMaterial_saving (s : PersistentBeaconStore L) (d : Drawing L) :
    ∃ s' material, s.signedMaterial d.saving = (s', .ok material) ∧ Extends s s' ∧
      s'.live.kyberPrekeyMap = s.live.kyberPrekeyMap ∧
      Shared L.signedPublicKey (s.live.signedPrekeyMap.lookup signedPreKeyId)
        (s'.live.signedPrekeyMap.lookup signedPreKeyId) := by
  let signedPub := L.publicKey d.signedPreKey
  let signedSig := L.generateSignature s.localIdentity.privateKey (L.publicKeys.serialize signedPub)
  let record := L.signedPreKeyRecord signedPreKeyId d.nowMs d.signedPreKey signedSig
  have hpub : (L.signedPublicKey record).isSome := by simp [record, L.signedPublicKey_record]
  obtain ⟨s', material, heq, hcases⟩ := @sharedMaterial_put L s _ _
    (s.live.signedPrekeyMap.lookup signedPreKeyId) L.signedPublicKey L.signedSignature
    (signedPub, signedSig)
    fun m => { m with signedPrekeyMap := AList.insert signedPreKeyId record m.signedPrekeyMap }
  refine ⟨s', material, heq, ?_⟩
  rcases hcases with ⟨there, hthere, hreadable, rfl⟩ | ⟨hnone, rfl⟩
  · exact ⟨⟨rfl, rfl, rfl, id⟩, rfl, .of_there hthere hreadable⟩
  · refine ⟨⟨rfl, rfl, rfl, fun _ => faithful_put _⟩, rfl, ?_⟩
    simpa [put] using Shared.of_new hnone hpub

theorem kyberMaterial_saving (s : PersistentBeaconStore L) (d : Drawing L) :
    ∃ s' material, s.kyberMaterial d.saving = (s', .ok material) ∧ Extends s s' ∧
      s'.live.signedPrekeyMap = s.live.signedPrekeyMap ∧
      Shared L.kyberPublicKey (s.live.kyberPrekeyMap.lookup kyberPreKeyId)
        (s'.live.kyberPrekeyMap.lookup kyberPreKeyId) := by
  let kyberPub := L.kemPublicKey d.kyberPreKey
  let kyberSig := L.generateSignature s.localIdentity.privateKey (L.serializeKEM kyberPub)
  let record := L.kyberPreKeyRecord kyberPreKeyId d.nowMs d.kyberPreKey kyberSig
  have hpub : (L.kyberPublicKey record).isSome := by simp [record, L.kyberPublicKey_record]
  obtain ⟨s', material, heq, hcases⟩ := @sharedMaterial_put L s _ _
    (s.live.kyberPrekeyMap.lookup kyberPreKeyId) L.kyberPublicKey L.kyberSignature
    (kyberPub, kyberSig)
    fun m => { m with kyberPrekeyMap := AList.insert kyberPreKeyId record m.kyberPrekeyMap }
  refine ⟨s', material, heq, ?_⟩
  rcases hcases with ⟨there, hthere, hreadable, rfl⟩ | ⟨hnone, rfl⟩
  · exact ⟨⟨rfl, rfl, rfl, id⟩, rfl, .of_there hthere hreadable⟩
  · refine ⟨⟨rfl, rfl, rfl, fun _ => faithful_put _⟩, rfl, ?_⟩
    simpa [put] using Shared.of_new hnone hpub

/-- A drawing whose writes succeed. -/
theorem freshBundleMaterial_saving (s : PersistentBeaconStore L)
    (deviceId : UInt32) (d : Drawing L) :
    ∃ s' bundle, s.freshBundleMaterial deviceId d.saving = (s', .ok bundle) ∧
      bundle.preKeyId = s.live.nextOneTimePreKeyId ∧ Drawn s d s' := by
  let id := s.live.nextOneTimePreKeyId
  let s₁ := s.put fun m => { m with nextOneTimePreKeyId := m.nextOneTimePreKeyId + 1 }
  let s₂ := s₁.put fun m =>
    { m with prekeyMap := AList.insert id (L.preKeyRecord id d.preKey) m.prekeyMap }
  obtain ⟨s₃, signed, hsigned, hext₃, hkyber₃, hshared₃⟩ := signedMaterial_saving s₂ d
  obtain ⟨s₄, kyber, hkyber, hext₄, hsigned₄, hshared₄⟩ := kyberMaterial_saving s₃ d
  have hopen : s.freshBundleMaterial deviceId d.saving =
      andThen (s₂.signedMaterial d.saving) fun s signed =>
      andThen (s.kyberMaterial d.saving) fun s kyber =>
        (s, .ok ⟨s.live.registrationId, deviceId, id, L.publicKey d.preKey, signedPreKeyId,
          signed.1, signed.2, s.localIdentity.identityKey, kyberPreKeyId, kyber.1, kyber.2⟩) := rfl
  rw [hopen, hsigned]
  dsimp only [andThen]
  rw [hkyber]
  refine ⟨s₄, _, rfl, rfl, hext₄.faithful (hext₃.faithful (faithful_put _)), ?_, fun key =>
    ?_, ?_, ?_, ?_⟩
  · exact hext₄.next.trans hext₃.next
  · rw [hext₄.prekeyMap, hext₃.prekeyMap]
    exact Dict.lookup_insert _ _ _ _
  · exact hext₄.baseKeysSeen.trans hext₃.baseKeysSeen
  · rw [hsigned₄]
    exact hshared₃
  · rw [hkyber₃] at hshared₄
    exact hshared₄

end PersistentBeaconStore

/-! ### What stays over a run -/

/-- An event that stores or removes a one-time prekey by hand. -/
def Event.touchesPreKey (id : UInt32) : Event L → Bool
  | .mutate op => op.touchesPreKey id
  | _ => false

/-- An event that stores a signed prekey by hand. -/
def Event.storesSigned (id : UInt32) : Event L → Bool
  | .mutate op => op.storesSigned id
  | _ => false

/-- An event that stores a Kyber prekey by hand. -/
def Event.storesKyber (id : UInt32) : Event L → Bool
  | .mutate op => op.storesKyber id
  | _ => false

namespace PersistentBeaconStore

variable {s : PersistentBeaconStore L}

theorem faithful_install (localIdentity : IdentityKeyPair L) (registrationId : UInt32) :
    (install localIdentity registrationId).Faithful := ⟨_, rfl, apply_makeSnapshot _⟩

/-- A launch gives a memory with the same content. -/
theorem handle_relaunch (h : s.Faithful) (registrationId : UInt32) :
    (s.handle (.relaunch registrationId)).Faithful ∧ Same
    (s.handle (.relaunch registrationId)).live s.live := by
  obtain ⟨snapshot, hfile, hsame⟩ := h
  have hload : s.handle (.relaunch registrationId) =
    ⟨s.localIdentity, apply L snapshot, s.file⟩ := by
    simp [handle, launch, hfile, Except.toOption]
  rw [hload]
  exact ⟨⟨snapshot, hfile, .refl _⟩, hsame⟩

/-- What a mutation in a run does: nothing if it is refused, and else its change. -/
theorem handle_mutate (op : Mutation L) :
    op.Refused s.live ∧ s.handle (.mutate op) = s ∨
      ¬op.Refused s.live ∧ s.handle (.mutate op) = s.put op.change := by
  by_cases h : op.Refused s.live
  · exact .inl ⟨h, by rw [handle, perform_refused h]⟩
  · exact .inr ⟨h, by rw [handle, perform_saved h]⟩

theorem handle_draw (deviceId : UInt32) (d : Drawing L) :
    Drawn s d (s.handle (.draw deviceId d)) := by
  obtain ⟨s', bundle, heq, _, hdrawn⟩ := freshBundleMaterial_saving s deviceId d
  rw [handle, heq]
  exact hdrawn

theorem hands_draw (deviceId : UInt32) (d : Drawing L) :
    s.hands (.draw deviceId d) = some s.live.nextOneTimePreKeyId := by
  obtain ⟨s', bundle, heq, hid, _⟩ := freshBundleMaterial_saving s deviceId d
  simp [hands, heq, hid, Except.toOption]

theorem hands_mutate (op : Mutation L) :
    s.hands (.mutate op) = if op.allocates then some s.live.nextOneTimePreKeyId else none := by
  cases op <;> rfl

theorem hands_eq {e : Event L} {id : UInt32} (h : s.hands e = some id) :
    id = s.live.nextOneTimePreKeyId := by
  cases e with
  | draw deviceId d =>
    rw [hands_draw] at h
    exact (Option.some.inj h).symm
  | mutate op =>
    rw [hands_mutate] at h
    split at h
    · exact (Option.some.inj h).symm
    · cases h
  | relaunch => cases h

theorem not_refused_of_allocates {op : Mutation L} (h : op.allocates) : ¬op.Refused s.live := by
  cases op <;> simp_all [Mutation.allocates, Mutation.Refused]

theorem handle_next (hs : s.Faithful) (e : Event L) :
    (s.handle e).live.nextOneTimePreKeyId =
      s.live.nextOneTimePreKeyId + if (s.hands e).isSome then 1 else 0 := by
  cases e with
  | draw deviceId d =>
    rw [(handle_draw deviceId d).next, hands_draw]
    rfl
  | relaunch registrationId =>
    rw [(handle_relaunch hs registrationId).2.nextOneTimePreKeyId]
    exact (UInt32.add_zero _).symm
  | mutate op =>
    rw [hands_mutate]
    rcases handle_mutate op with ⟨hrefused, heq⟩ | ⟨_, heq⟩
    · have hallocates : ¬op.allocates := fun h => not_refused_of_allocates h hrefused
      rw [heq, if_neg hallocates]
      exact (UInt32.add_zero _).symm
    · rw [heq]
      show (op.change s.live).nextOneTimePreKeyId = _
      rw [change_next]
      split <;> rfl

theorem handle_faithful (hs : s.Faithful) (e : Event L) : (s.handle e).Faithful := by
  cases e with
  | draw deviceId d => exact (handle_draw deviceId d).faithful
  | relaunch registrationId => exact (handle_relaunch hs registrationId).1
  | mutate op =>
    rcases handle_mutate op with ⟨_, heq⟩ | ⟨_, heq⟩
    · rwa [heq]
    · rw [heq]
      exact faithful_put _

theorem after_faithful (hs : s.Faithful) (events : List (Event L)) : (s.after events).Faithful := by
  induction events generalizing s with
  | nil => exact hs
  | cons e events ih => exact ih (handle_faithful hs e)

theorem handle_seen (hs : s.Faithful) (e : Event L) {id signedPreKeyId : UInt32}
    {baseKey : L.PublicKey} (h : baseKey ∈ seen s.live id signedPreKeyId) :
    baseKey ∈ seen (s.handle e).live id signedPreKeyId := by
  cases e with
  | draw deviceId d =>
    rw [seen, (handle_draw deviceId d).baseKeysSeen]
    exact h
  | relaunch registrationId =>
    rw [(handle_relaunch hs registrationId).2.seen_eq]
    exact h
  | mutate op =>
    rcases handle_mutate op with ⟨_, heq⟩ | ⟨_, heq⟩
    · rwa [heq]
    · rw [heq]
      exact change_seen s.live op h

/-- What is accepted was not seen before, and is afterwards. -/
theorem accepts_spec {e : Event L} {id signedPreKeyId : UInt32} {baseKey : L.PublicKey}
    (h : s.accepts e = some (id, signedPreKeyId, baseKey)) :
    baseKey ∉ seen s.live id signedPreKeyId ∧ baseKey ∈ seen
      (s.handle e).live id signedPreKeyId := by
  cases e with
  | draw => cases h
  | relaunch => cases h
  | mutate op =>
    cases op with
    | markKyberPreKeyUsed id' signedPreKeyId' baseKey' =>
      obtain ⟨u, hok, heq⟩ := Option.map_eq_some_iff.mp h
      cases heq
      rcases handle_mutate (s := s) (.markKyberPreKeyUsed id signedPreKeyId baseKey) with ⟨hrefused,
        _⟩ | ⟨hnew, hput⟩
      · have hseen : baseKey ∈ seen s.live id signedPreKeyId := hrefused
        rw [markKyberPreKeyUsed, if_pos hseen] at hok
        cases hok
      · refine ⟨hnew, ?_⟩
        rw [hput]
        simp [put, Mutation.change, seen]
    | _ => cases h

/-- The triples that a run accepts are distinct, and none was seen before it. -/
theorem accepted_spec (hs : s.Faithful) (events : List (Event L)) :
    (collect accepts s events).Nodup ∧
      ∀ triple ∈ collect accepts s events, triple.2.2 ∉ seen s.live triple.1 triple.2.1 := by
  induction events generalizing s with
  | nil => exact ⟨List.nodup_nil, nofun⟩
  | cons e events ih =>
    obtain ⟨hnodup, hnew⟩ := ih (handle_faithful hs e)
    have hlater (triple) (h : triple ∈ collect accepts (s.handle e) events) :
        triple.2.2 ∉ seen s.live triple.1 triple.2.1 :=
          fun hseen => hnew triple h (handle_seen hs e hseen)
    unfold collect
    cases haccepts : s.accepts e with
    | none => exact ⟨hnodup, hlater⟩
    | some triple =>
      obtain ⟨hfirst, hafter⟩ := accepts_spec haccepts
      refine ⟨List.nodup_cons.mpr ⟨fun h => hnew triple h hafter, hnodup⟩, fun other hother => ?_⟩
      rcases List.mem_cons.mp hother with rfl | hother
      · exact hfirst
      · exact hlater other hother

/-- The ids that a run hands out count up from the next one. -/
theorem handed_eq (hs : s.Faithful) (events : List (Event L)) :
    collect hands s events = (List.range (collect hands s events).length).map fun k =>
      s.live.nextOneTimePreKeyId + UInt32.ofNat k := by
  induction events generalizing s with
  | nil => rfl
  | cons e events ih =>
    have hrest := ih (handle_faithful hs e)
    have hnext := handle_next hs e
    unfold collect
    cases hhands : s.hands e with
    | none =>
      rw [hhands] at hnext
      rw [show (s.handle e).live.nextOneTimePreKeyId = s.live.nextOneTimePreKeyId by
        rw [hnext]; exact UInt32.add_zero _] at hrest
      exact hrest
    | some id =>
      obtain rfl := hands_eq hhands
      rw [hhands] at hnext
      have hsucc (k : Nat) : (s.handle e).live.nextOneTimePreKeyId + UInt32.ofNat k =
          s.live.nextOneTimePreKeyId + UInt32.ofNat (k + 1) := by
        rw [hnext]
        simp [UInt32.ofNat_add, UInt32.add_assoc, UInt32.add_comm]
      simp only [Option.toList_some, List.singleton_append, List.length_cons,
        List.range_succ_eq_map, List.map_cons, List.map_map]
      congr 1
      · exact (UInt32.add_zero _).symm
      · rw [hrest]
        simp only [List.length_map, List.length_range, hsucc, Function.comp_def]

theorem handed_nodup (hs : s.Faithful) {events : List (Event L)}
    (hfew : (collect hands s events).length < 2 ^ 32) : (collect hands s events).Nodup := by
  rw [handed_eq hs events]
  refine List.Nodup.map_on (fun a ha b hb heq => ?_) List.nodup_range
  have hoffset : UInt32.ofNat a = UInt32.ofNat b := (UInt32.add_right_inj _).mp heq
  have ha' := List.mem_range.mp ha
  have hb' := List.mem_range.mp hb
  have hnat := congrArg UInt32.toNat hoffset
  have hsize : UInt32.size = 2 ^ 32 := rfl
  rwa [UInt32.toNat_ofNat_of_lt' (by omega), UInt32.toNat_ofNat_of_lt' (by omega)] at hnat

theorem collect_append {β : Type} (f : PersistentBeaconStore L → Event L → Option β)
    (earlier later : List (Event L)) :
    collect f s (earlier ++ later) = collect f s earlier ++ collect f (s.after earlier) later := by
  induction earlier generalizing s with
  | nil => rfl
  | cons e earlier ih =>
    rw [List.cons_append, collect, ih, collect, List.append_assoc]
    rfl

theorem after_append (earlier later : List (Event L)) :
    s.after (earlier ++ later) = (s.after earlier).after later := List.foldl_append

/-- A one-time prekey that is not handed out again stays until it is stored or removed by hand. -/
theorem after_preKey (hs : s.Faithful) {events : List (Event L)} {id : UInt32}
    (huntouched : ∀ e ∈ events, ¬e.touchesPreKey id) (hfresh : id ∉ collect hands s events) :
    (s.after events).live.prekeyMap.lookup id = s.live.prekeyMap.lookup id := by
  induction events generalizing s with
  | nil => rfl
  | cons e events ih =>
    rw [collect, List.mem_append, not_or] at hfresh
    refine (ih (handle_faithful hs e) (fun e' he' => huntouched e' (List.mem_cons_of_mem _ he'))
      hfresh.2).trans ?_
    have hkeep := huntouched e List.mem_cons_self
    cases e with
    | draw deviceId d =>
      rw [hands_draw] at hfresh
      have hne : id ≠ s.live.nextOneTimePreKeyId := by simpa using hfresh.1
      rw [(handle_draw deviceId d).preKey, if_neg hne]
    | relaunch registrationId => exact (handle_relaunch hs registrationId).2.prekeyMap id
    | mutate op =>
      rcases handle_mutate op with ⟨_, heq⟩ | ⟨_, heq⟩
      · rw [heq]
      · rw [heq]
        exact change_preKey s.live op hkeep

/-- The shared signed prekey stays until one is stored by hand. -/
theorem after_signed (hs : s.Faithful) {events : List (Event L)} {record : L.SignedPreKeyRecord}
    (huntouched : ∀ e ∈ events, ¬e.storesSigned signedPreKeyId)
    (hreadable : (L.signedPublicKey record).isSome)
    (h : s.live.signedPrekeyMap.lookup signedPreKeyId = some record) :
    (s.after events).live.signedPrekeyMap.lookup signedPreKeyId = some record := by
  induction events generalizing s with
  | nil => exact h
  | cons e events ih =>
    refine ih (handle_faithful hs e) (fun e' he' => huntouched e' (List.mem_cons_of_mem _ he')) ?_
    have hkeep := huntouched e List.mem_cons_self
    cases e with
    | draw deviceId d => exact (handle_draw deviceId d).signed.kept record h hreadable
    | relaunch registrationId =>
        exact ((handle_relaunch hs registrationId).2.signedPrekeyMap _).trans h
    | mutate op =>
      rcases handle_mutate op with ⟨_, heq⟩ | ⟨_, heq⟩
      · rwa [heq]
      · rw [heq]
        exact (change_signed s.live op hkeep).trans h

/-- The shared Kyber prekey stays until one is stored by hand. -/
theorem after_kyber (hs : s.Faithful) {events : List (Event L)} {record : L.KyberPreKeyRecord}
    (huntouched : ∀ e ∈ events, ¬e.storesKyber kyberPreKeyId)
    (hreadable : (L.kyberPublicKey record).isSome)
    (h : s.live.kyberPrekeyMap.lookup kyberPreKeyId = some record) :
    (s.after events).live.kyberPrekeyMap.lookup kyberPreKeyId = some record := by
  induction events generalizing s with
  | nil => exact h
  | cons e events ih =>
    refine ih (handle_faithful hs e) (fun e' he' => huntouched e' (List.mem_cons_of_mem _ he')) ?_
    have hkeep := huntouched e List.mem_cons_self
    cases e with
    | draw deviceId d => exact (handle_draw deviceId d).kyber.kept record h hreadable
    | relaunch registrationId =>
        exact ((handle_relaunch hs registrationId).2.kyberPrekeyMap _).trans h
    | mutate op =>
      rcases handle_mutate op with ⟨_, heq⟩ | ⟨_, heq⟩
      · rwa [heq]
      · rw [heq]
        exact (change_kyber s.live op hkeep).trans h

/-- What a run over any number of launches keeps. -/
structure Survives (s : PersistentBeaconStore L) (events : List (Event L)) : Prop where
  /-- The file, loaded, answers as the memory does. -/
  reload : ∀ registrationId, ∃ loaded,
    launch s.localIdentity (s.after events).file registrationId true = .ok loaded ∧
      ∀ q, loaded.live.answer q = (s.after events).live.answer q
  /-- No triple is accepted twice. -/
  accepted : (collect accepts s events).Nodup
  /-- No one-time prekey id is handed out twice. -/
  handed : (collect hands s events).length < 2 ^ 32 → (collect hands s events).Nodup
  /-- The private key of a drawn one-time prekey is there until it is stored or removed by hand. -/
  preKey : (collect hands s events).length < 2 ^ 32 →
    ∀ (earlier : List (Event L)) deviceId drawing (later : List (Event L)) id,
    events = earlier ++ .draw deviceId drawing :: later →
    (s.after earlier).hands (.draw deviceId drawing) = some id →
    (∀ e ∈ later, ¬e.touchesPreKey id) →
    (s.after events).live.loadPreKey id = .ok (L.preKeyRecord id drawing.preKey)
  /-- After a drawing there is a shared signed prekey, which stays until one is stored by hand. -/
  signed : ∀ (earlier : List (Event L)) deviceId drawing (later : List (Event L)),
    events = earlier ++ .draw deviceId drawing :: later →
    (∀ e ∈ later, ¬e.storesSigned signedPreKeyId) →
    ∃ record, (s.after (earlier ++ [.draw deviceId drawing])).live.loadSignedPreKey signedPreKeyId =
    .ok record ∧
      (s.after events).live.loadSignedPreKey signedPreKeyId = .ok record
  /-- After a drawing there is a shared Kyber prekey, which stays until one is stored by hand. -/
  kyber : ∀ (earlier : List (Event L)) deviceId drawing (later : List (Event L)),
    events = earlier ++ .draw deviceId drawing :: later →
    (∀ e ∈ later, ¬e.storesKyber kyberPreKeyId) →
    ∃ record, (s.after (earlier ++ [.draw deviceId drawing])).live.loadKyberPreKey kyberPreKeyId =
    .ok record ∧
      (s.after events).live.loadKyberPreKey kyberPreKeyId = .ok record

theorem load_of_lookup {κ α : Type} [DecidableEq κ] {d : Dict κ α} {id : κ} {missing : StoreError}
    {record : α} (h : d.lookup id = some record) : Memory.load d id missing = .ok record := by
  simp [Memory.load, h]

theorem after_draw (earlier later : List (Event L)) (deviceId : UInt32) (d : Drawing L) :
    s.after (earlier ++ .draw deviceId d :: later) =
      ((s.after earlier).handle (.draw deviceId d)).after later := after_append earlier _

/-- From the first launch on, the store survives every run. -/
theorem store_survives (localIdentity : IdentityKeyPair L) (registrationId : UInt32)
    (events : List (Event L)) :
    (install localIdentity registrationId).Survives events := by
  have hs := faithful_install localIdentity registrationId
  generalize install localIdentity registrationId = s at hs
  refine ⟨fun registrationId => ?_, (accepted_spec hs events).1, handed_nodup hs, ?_, ?_, ?_⟩
  · obtain ⟨snapshot, hfile, hsame⟩ := after_faithful hs events
    exact ⟨_, by rw [hfile]; rfl, hsame.answer_eq⟩
  · rintro hfew earlier deviceId d later id rfl hid huntouched
    obtain rfl := hands_eq hid
    have hnodup := handed_nodup hs hfew
    rw [collect_append, collect, hid] at hnodup
    have hfresh := (List.nodup_cons.mp (List.nodup_append.mp hnodup).2.1).1
    have hearlier := after_faithful hs earlier
    refine load_of_lookup ?_
    rw [after_draw, after_preKey (handle_faithful hearlier _) huntouched hfresh,
      (handle_draw deviceId d).preKey, if_pos rfl]
  · rintro earlier deviceId d later rfl huntouched
    obtain ⟨record, hthere, hreadable⟩ :=
      (handle_draw (s := s.after earlier) deviceId d).signed.there
    have hdrawn := handle_faithful (after_faithful hs earlier) (.draw deviceId d)
    refine ⟨record, load_of_lookup ?_, load_of_lookup ?_⟩
    · rw [after_append]
      exact hthere
    · rw [after_draw]
      exact after_signed hdrawn huntouched hreadable hthere
  · rintro earlier deviceId d later rfl huntouched
    obtain ⟨record, hthere, hreadable⟩ :=
      (handle_draw (s := s.after earlier) deviceId d).kyber.there
    have hdrawn := handle_faithful (after_faithful hs earlier) (.draw deviceId d)
    refine ⟨record, load_of_lookup ?_, load_of_lookup ?_⟩
    · rw [after_append]
      exact hthere
    · rw [after_draw]
      exact after_kyber hdrawn huntouched hreadable hthere

/-- Keys and records are their bytes. -/
@[reducible]
def bytewise : LibSignal where
  IdentityKey := Data
  PrivateKey := Data
  PublicKey := Data
  KEMKeyPair := Data
  KEMPublicKey := Data
  PreKeyRecord := Data
  SignedPreKeyRecord := Data
  KyberPreKeyRecord := Data
  SessionRecord := Data
  SenderKeyRecord := Data
  identityKeys := ⟨id, some, fun _ => rfl⟩
  publicKeys := ⟨id, some, fun _ => rfl⟩
  preKeys := ⟨id, some, fun _ => rfl⟩
  signedPreKeys := ⟨id, some, fun _ => rfl⟩
  kyberPreKeys := ⟨id, some, fun _ => rfl⟩
  sessions := ⟨id, some, fun _ => rfl⟩
  senderKeys := ⟨id, some, fun _ => rfl⟩
  serializeKEM := id
  address name deviceId := some ⟨name, deviceId⟩
  address_self _ := rfl
  publicKey := id
  kemPublicKey := id
  generateSignature key message := key ++ message
  preKeyRecord _ privateKey := privateKey
  signedPreKeyRecord _ _ privateKey _ := privateKey
  kyberPreKeyRecord _ _ keyPair _ := keyPair
  signedPublicKey := some
  signedSignature _ := []
  kyberPublicKey := some
  kyberSignature _ := []
  signedPublicKey_record _ _ _ _ := rfl
  kyberPublicKey_record _ _ _ _ := rfl

/-- A prekey, drawn or shared, is replaced by the one that is stored under its id by hand. -/
theorem replaced_by_hand :
    let s : PersistentBeaconStore bytewise := install ⟨[1], [2]⟩ 7
    let drawn := s.after [.draw 1 ⟨0, [3], [4], [5], true, true, true, true⟩]
    let stored := drawn.after [.mutate (.storePreKey [6] 1), .mutate (.storeSignedPreKey [7] 1),
      .mutate (.storeKyberPreKey [8] 1)]
    (drawn.live.loadPreKey 1 = .ok [3] ∧ stored.live.loadPreKey 1 = .ok [6]) ∧
      (drawn.live.loadSignedPreKey 1 = .ok [4] ∧ stored.live.loadSignedPreKey 1 = .ok [7]) ∧
      drawn.live.loadKyberPreKey 1 = .ok [5] ∧ stored.live.loadKyberPreKey 1 = .ok [8] := by
  exact ⟨⟨rfl, rfl⟩, ⟨rfl, rfl⟩, rfl, rfl⟩

end PersistentBeaconStore

end AeroNyra.ProtocolStore
