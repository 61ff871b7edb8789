import AeroNyra.Session.Survival
import AeroNyra.Lib.Interleave

/-! The two views of the store.  Kept map by map, it is at every moment what the records of all maps
are under their keys, in memory and in the file, over mutations whose writes may fail, drawings and
launches that may find no readable file. -/

namespace AeroNyra.ProtocolStore

open Interleave

variable {L : LibSignal}

/-- What a record of the memory serializes to. -/
def Memory.record (m : Memory L) : SignalKey → Option Data
  | .identity address => (m.publicKeys.lookup address).map L.identityKeys.serialize
  | .preKey id => (m.prekeyMap.lookup id).map L.preKeys.serialize
  | .signedPreKey id => (m.signedPrekeyMap.lookup id).map L.signedPreKeys.serialize
  | .kyberPreKey id => (m.kyberPrekeyMap.lookup id).map L.kyberPreKeys.serialize
  | .session address => (m.sessionMap.lookup address).map L.sessions.serialize
  | .senderKey sender distributionId =>
    (m.senderKeyMap.lookup ⟨sender, distributionId⟩).map L.senderKeys.serialize

/-- The records of all maps under their keys, with the same counters and marks. -/
structure Shows (m : Memory L) (shown : AeroNyra.Snapshot) : Prop where
  registrationId : shown.registrationId = m.registrationId
  nextOneTimePreKeyId : shown.nextOneTimePreKeyId = m.nextOneTimePreKeyId
  records : ∀ key, shown.records.lookup key = m.record key
  kyberUsed : shown.kyberUsed = m.kyberPrekeysUsed
  baseKeysSeen : ∀ combined, shown.baseKeysSeen.lookup combined =
    (m.baseKeysSeen.lookup combined).map (·.map L.publicKeys.serialize)

/-- No file, or the snapshot of a memory and its records. -/
inductive Files (L : LibSignal) : Option Snapshot → Option AeroNyra.Snapshot → Prop
  | none : Files L none none
  | some {m : Memory L} {shown : AeroNyra.Snapshot} (h : Shows m shown) :
    Files L (some (makeSnapshot m)) (some shown)

structure Flattens (s : PersistentBeaconStore L) (t : AeroNyra.PersistentBeaconStore) : Prop where
  live : Shows s.live t.live
  file : Files L s.file t.file

/-- The mutation of the records. -/
def Mutation.flat : Mutation L → AeroNyra.PersistentBeaconStore.Mutation
  | .allocateOneTimePreKeyId => .allocateOneTimePreKeyId
  | .saveIdentity identity address => .saveIdentity address (L.identityKeys.serialize identity)
  | .storePreKey record id => .storePreKey id (L.preKeys.serialize record)
  | .removePreKey id => .removePreKey id
  | .storeSignedPreKey record id => .storeSignedPreKey id (L.signedPreKeys.serialize record)
  | .storeKyberPreKey record id => .storeKyberPreKey id (L.kyberPreKeys.serialize record)
  | .markKyberPreKeyUsed id signedPreKeyId baseKey =>
    .markKyberPreKeyUsed id signedPreKeyId (L.publicKeys.serialize baseKey)
  | .storeSession record address => .storeSession address (L.sessions.serialize record)
  | .storeSenderKey sender distributionId record =>
    .storeSenderKey sender distributionId (L.senderKeys.serialize record)
  | .removeSession address => .removeSession address

/-- The bytes are those of a record of the kind. -/
def parses (L : LibSignal) : SignalKey → Data → Bool
  | .identity _, bytes => (L.identityKeys.parse bytes).isSome
  | .preKey _, bytes => (L.preKeys.parse bytes).isSome
  | .signedPreKey _, bytes => (L.signedPreKeys.parse bytes).isSome
  | .kyberPreKey _, bytes => (L.kyberPreKeys.parse bytes).isSome
  | .session _, bytes => (L.sessions.parse bytes).isSome
  | .senderKey _ _, bytes => (L.senderKeys.parse bytes).isSome

def parsesKey (L : LibSignal) (bytes : Data) : Bool := (L.publicKeys.parse bytes).isSome

theorem Format.serialize_injective {α : Type} (f : Format α) : Function.Injective f.serialize := by
  intro a b h
  have hread := congrArg f.parse h
  rw [f.parse_serialize, f.parse_serialize] at hread
  exact Option.some.inj hread

/-! ### One mutation -/

section Change

variable {m : Memory L} {shown : AeroNyra.Snapshot} {op : Mutation L}

/-- A mutation files the record that it stores, takes out the one that it removes, and leaves the
others. -/
theorem record_change (m : Memory L) (op : Mutation L) (key : SignalKey) :
    (op.change m).record key = (match op.flat.stores with
      | some entry => if key = entry.1 then some entry.2 else m.record key
      | none =>
        match op.flat.removes with
        | some removed => if key = removed then none else m.record key
        | none => m.record key) := by
  cases op <;> cases key <;>
    simp only [Mutation.change, Mutation.flat, AeroNyra.PersistentBeaconStore.Mutation.stores,
      AeroNyra.PersistentBeaconStore.Mutation.removes, Memory.record, Dict.lookup_insert,
      Dict.lookup_erase, SignalKey.identity.injEq, SignalKey.preKey.injEq,
      SignalKey.signedPreKey.injEq, SignalKey.kyberPreKey.injEq, SignalKey.session.injEq,
      SignalKey.senderKey.injEq, SenderKeyName.mk.injEq, reduceCtorEq, if_false] <;>
    split <;> rfl

/-- A record is filed in both views. -/
theorem Shows.store (h : Shows m shown) {key : SignalKey} {record : Data}
    (hstores : op.flat.stores = some (key, record)) :
    Shows (op.change m) { shown with records := AList.insert key record shown.records } where
  registrationId := by cases op <;> exact h.registrationId
  nextOneTimePreKeyId := by cases op <;> first | exact h.nextOneTimePreKeyId | cases hstores
  records other := by
    rw [record_change, hstores, Dict.lookup_insert, h.records]
  kyberUsed := by cases op <;> first | exact h.kyberUsed | cases hstores
  baseKeysSeen := by cases op <;> first | exact h.baseKeysSeen | cases hstores

/-- A record is removed from both views. -/
theorem Shows.remove (h : Shows m shown) {key : SignalKey} (hstores : op.flat.stores = none)
    (hremoves : op.flat.removes = some key) :
    Shows (op.change m) { shown with records := AList.erase key shown.records } where
  registrationId := by cases op <;> exact h.registrationId
  nextOneTimePreKeyId := by cases op <;> first | exact h.nextOneTimePreKeyId | cases hremoves
  records other := by
    rw [record_change, hstores, hremoves, Dict.lookup_erase, h.records]
  kyberUsed := by cases op <;> first | exact h.kyberUsed | cases hremoves
  baseKeysSeen := by cases op <;> first | exact h.baseKeysSeen | cases hremoves

/-- The base keys that were seen, in both views. -/
theorem Shows.seen (h : Shows m shown) (id signedPreKeyId : UInt32) :
    (shown.baseKeysSeen.lookup (PersistentBeaconStore.bothKeyIds id signedPreKeyId)).getD [] =
      (PersistentBeaconStore.seen m id signedPreKeyId).map L.publicKeys.serialize := by
  rw [h.baseKeysSeen, PersistentBeaconStore.seen]
  cases m.baseKeysSeen.lookup (PersistentBeaconStore.bothKeyIds id signedPreKeyId) <;> rfl

/-- A base key is refused in one view exactly when it is in the other. -/
theorem Shows.mem_seen (h : Shows m shown) {id signedPreKeyId : UInt32} {baseKey : L.PublicKey} :
    L.publicKeys.serialize baseKey ∈
        (shown.baseKeysSeen.lookup (PersistentBeaconStore.bothKeyIds id signedPreKeyId)).getD [] ↔
      baseKey ∈ PersistentBeaconStore.seen m id signedPreKeyId := by
  rw [h.seen, List.mem_map_of_injective L.publicKeys.serialize_injective]

theorem Shows.mark (h : Shows m shown) (id signedPreKeyId : UInt32) (baseKey : L.PublicKey) :
    Shows ((Mutation.markKyberPreKeyUsed id signedPreKeyId baseKey).change m)
      { shown with
        baseKeysSeen := AList.insert (PersistentBeaconStore.bothKeyIds id signedPreKeyId)
          ((shown.baseKeysSeen.lookup (PersistentBeaconStore.bothKeyIds id signedPreKeyId)).getD
            [] ++ [L.publicKeys.serialize baseKey]) shown.baseKeysSeen
        kyberUsed := shown.kyberUsed.insert id } where
  registrationId := h.registrationId
  nextOneTimePreKeyId := h.nextOneTimePreKeyId
  records key := by
    rw [record_change]
    exact h.records key
  kyberUsed := congrArg (List.insert id) h.kyberUsed
  baseKeysSeen combined := by
    simp only [Mutation.change, Dict.lookup_insert, h.seen]
    split
    · simp
    · exact h.baseKeysSeen combined

end Change

variable {s : PersistentBeaconStore L} {t : AeroNyra.PersistentBeaconStore}

/-- What a mutation that is not refused makes of both views; its write comes after it. -/
theorem apply_flat (h : Shows s.live t.live) {op : Mutation L} (hnew : ¬op.Refused s.live) :
    ∃ shown, Shows (op.change s.live) shown ∧
      ∀ saved, t.apply saved op.flat = AeroNyra.PersistentBeaconStore.persist
      ⟨shown, t.file⟩ saved := by
  cases op with
  | allocateOneTimePreKeyId =>
    refine ⟨{ t.live with nextOneTimePreKeyId := t.live.nextOneTimePreKeyId + 1 }, ?_, fun _ => rfl⟩
    refine { h with nextOneTimePreKeyId := ?_, records := fun key => ?_ }
    · exact congrArg (· + 1) h.nextOneTimePreKeyId
    · rw [record_change]
      exact h.records key
  | markKyberPreKeyUsed id signedPreKeyId baseKey =>
    exact ⟨_, h.mark id signedPreKeyId baseKey, fun _ => if_neg (mt h.mem_seen.mp hnew)⟩
  | removePreKey | removeSession => exact ⟨_, h.remove rfl rfl, fun _ => rfl⟩
  | saveIdentity | storePreKey | storeSignedPreKey | storeKyberPreKey | storeSession
    | storeSenderKey =>
    exact ⟨_, h.store rfl, fun _ => rfl⟩

theorem apply_refused (h : Shows s.live t.live) {op : Mutation L} (hrefused : op.Refused s.live)
    (saved : Bool) : t.apply saved op.flat = t := by
  cases op with
  | markKyberPreKeyUsed id signedPreKeyId baseKey => exact if_pos (h.mem_seen.mpr hrefused)
  | _ => cases hrefused

/-- A mutation in both views, whether its write succeeds or not. -/
theorem flattens_perform (h : Flattens s t) (saved : Bool) (op : Mutation L) :
    Flattens (s.perform saved op).1 (t.apply saved op.flat) := by
  by_cases hrefused : op.Refused s.live
  · rw [PersistentBeaconStore.perform_refused hrefused, apply_refused h.live hrefused]
    exact h
  · obtain ⟨shown, hshown, happly⟩ := apply_flat h.live hrefused
    rw [happly]
    cases saved with
    | true =>
      rw [PersistentBeaconStore.perform_saved hrefused]
      exact ⟨hshown, .some hshown⟩
    | false =>
      rw [PersistentBeaconStore.perform_failed hrefused]
      exact ⟨hshown, h.file⟩

/-! ### A launch -/

/-- Memories with the same content have the same records. -/
theorem Same.shows {m m' : Memory L} {shown : AeroNyra.Snapshot} (h : Same m m')
    (hshown : Shows m' shown)
    (hused : m.kyberPrekeysUsed = m'.kyberPrekeysUsed) : Shows m shown where
  registrationId := hshown.registrationId.trans h.registrationId.symm
  nextOneTimePreKeyId := hshown.nextOneTimePreKeyId.trans h.nextOneTimePreKeyId.symm
  records key := by
    rw [hshown.records]
    cases key <;> simp only [Memory.record, h.publicKeys, h.prekeyMap, h.signedPrekeyMap,
      h.kyberPrekeyMap, h.sessionMap, h.senderKeyMap]
  kyberUsed := hshown.kyberUsed.trans hused.symm
  baseKeysSeen combined := by
    rw [hshown.baseKeysSeen, h.baseKeysSeen]

theorem Format.parse_of_map {α : Type} (f : Format α) {o : Option α} {bytes : Data}
    (h : o.map f.serialize = some bytes) : (f.parse bytes).isSome := by
  obtain ⟨a, _, rfl⟩ := Option.map_eq_some_iff.mp h
  rw [f.parse_serialize]
  rfl

/-- Every record of a memory is readable. -/
theorem parses_record {m : Memory L} {key : SignalKey} {bytes : Data}
    (h : m.record key = some bytes) :
    parses L key bytes := by
  cases key with
  | identity => exact L.identityKeys.parse_of_map h
  | preKey => exact L.preKeys.parse_of_map h
  | signedPreKey => exact L.signedPreKeys.parse_of_map h
  | kyberPreKey => exact L.kyberPreKeys.parse_of_map h
  | session => exact L.sessions.parse_of_map h
  | senderKey => exact L.senderKeys.parse_of_map h

/-- Nothing is lost where the records are read back. -/
theorem Shows.readable {m : Memory L} {shown : AeroNyra.Snapshot} (h : Shows m shown) :
    Shows m (shown.readable (parses L) (parsesKey L)) where
  registrationId := h.registrationId
  nextOneTimePreKeyId := h.nextOneTimePreKeyId
  records key := by
    rw [← h.records key]
    exact AeroNyra.PersistentBeaconStore.lookup_readable fun other record hrecord =>
      parses_record ((h.records other).symm.trans hrecord)
  kyberUsed := h.kyberUsed
  baseKeysSeen combined := by
    have hall (keys : List L.PublicKey) :
        (keys.map L.publicKeys.serialize).filter (parsesKey L) =
        keys.map L.publicKeys.serialize := by
      refine List.filter_eq_self.mpr fun bytes hbytes => ?_
      obtain ⟨key, _, rfl⟩ := List.mem_map.mp hbytes
      simp [parsesKey, L.publicKeys.parse_serialize]
    refine (Dict.lookup_mapValues (·.filter (parsesKey L)) shown.baseKeysSeen combined).trans ?_
    rw [h.baseKeysSeen, Option.map_map]
    exact congrArg (Option.map · _) (funext hall)

theorem shows_fresh (registrationId : UInt32) :
    Shows ({ registrationId, nextOneTimePreKeyId := 1 } : Memory L) (.fresh registrationId) where
  registrationId := rfl
  nextOneTimePreKeyId := rfl
  records key := by cases key <;> rfl
  kyberUsed := rfl
  baseKeysSeen _ := rfl

/-- The first launch in both views. -/
theorem flattens_install (localIdentity : IdentityKeyPair L) (registrationId : UInt32) :
    Flattens (PersistentBeaconStore.install localIdentity registrationId)
      ⟨.fresh registrationId, some (.fresh registrationId)⟩ :=
  ⟨shows_fresh registrationId, .some (shows_fresh registrationId)⟩

/-- A launch over both files: both read theirs, or both write a fresh one, or both fail. -/
theorem flattens_launch {file : Option Snapshot} {flat : Option AeroNyra.Snapshot}
    (h : Files L file flat)
    (localIdentity : IdentityKeyPair L) (read saved : Bool) (registrationId : UInt32) :
    Option.Rel Flattens
      (PersistentBeaconStore.launch localIdentity (if read then file else none) registrationId
        saved).toOption
      (AeroNyra.PersistentBeaconStore.load (parses L)
        (parsesKey L) flat read registrationId saved) := by
  have hfresh : Option.Rel Flattens
      (PersistentBeaconStore.launch localIdentity none registrationId saved).toOption
      (if saved then some ⟨.fresh registrationId, some (.fresh registrationId)⟩ else none) := by
    cases saved with
    | true => exact .some (flattens_install localIdentity registrationId)
    | false => exact .none
  cases read with
  | false => exact hfresh
  | true =>
    cases h with
    | none => exact hfresh
    | some hshown =>
      exact .some ⟨(apply_makeSnapshot _).shows hshown.readable rfl, .some hshown⟩

/-! ### Runs -/

/-- What happens to a store: a mutation, and a launch over a file that can be read or not. -/
inductive Happening (L : LibSignal)
  | perform (saved : Bool) (op : Mutation L)
  | relaunch (read saved : Bool) (registrationId : UInt32)

namespace PersistentBeaconStore

/-- None when the launch fails. -/
def step (s : PersistentBeaconStore L) : Happening L → Option (PersistentBeaconStore L)
  | .perform saved op => some (s.perform saved op).1
  | .relaunch read saved registrationId =>
    (launch s.localIdentity (if read then s.file else none) registrationId saved).toOption

end PersistentBeaconStore

/-- The same in the view of the records. -/
def flatStep (t : AeroNyra.PersistentBeaconStore) : Happening L →
    Option AeroNyra.PersistentBeaconStore
  | .perform saved op => some (t.apply saved op.flat)
  | .relaunch read saved registrationId =>
    AeroNyra.PersistentBeaconStore.load (parses L) (parsesKey L) t.file read registrationId saved

theorem flattens_step (h : Flattens s t) (e : Happening L) :
    Option.Rel Flattens (s.step e) (flatStep t e) := by
  cases e with
  | perform saved op => exact .some (flattens_perform h saved op)
  | relaunch read saved registrationId =>
    exact flattens_launch h.file s.localIdentity read saved registrationId

/-- The two views go together over every run. -/
theorem flattens_run (h : Flattens s t) (es : List (Happening L)) :
    Option.Rel Flattens (run PersistentBeaconStore.step s es) (run flatStep t es) := by
  induction es generalizing s t with
  | nil => exact .some h
  | cons e es ih =>
    have hstep := flattens_step h e
    simp only [run]
    cases hs : s.step e with
    | none =>
      rw [hs] at hstep
      cases ht : flatStep t e with
      | none => exact .none
      | some t' =>
        rw [ht] at hstep
        cases hstep
    | some s' =>
      rw [hs] at hstep
      cases ht : flatStep t e with
      | none =>
        rw [ht] at hstep
        cases hstep
      | some t' =>
        rw [ht] at hstep
        cases hstep with
        | some hnext => exact ih hnext

/-! ### Drawings -/

namespace PersistentBeaconStore

/-- The store after mutations, each with whether its write succeeds. -/
def Performs (s s' : PersistentBeaconStore L) : Prop :=
  ∃ performed : List (Bool × Mutation L),
    run step s (performed.map fun p => .perform p.1 p.2) = some s'

theorem Performs.refl (s : PersistentBeaconStore L) : s.Performs s := ⟨[], rfl⟩

theorem Performs.single (s : PersistentBeaconStore L) (saved : Bool) (op : Mutation L) :
    s.Performs (s.perform saved op).1 := ⟨[(saved, op)], rfl⟩

theorem Performs.trans {s s' s'' : PersistentBeaconStore L} (h : s.Performs s')
    (h' : s'.Performs s'') :
    s.Performs s'' := by
  obtain ⟨first, hfirst⟩ := h
  obtain ⟨second, hsecond⟩ := h'
  refine ⟨first ++ second, ?_⟩
  rw [List.map_append]
  exact run_append.mpr ⟨s', hfirst, hsecond⟩

theorem Performs.andThen {α β : Type} {p : PersistentBeaconStore L × Except StoreError α}
    {f : PersistentBeaconStore L → α → PersistentBeaconStore L × Except StoreError β}
    (h : s.Performs p.1)
    (hf : ∀ (s : PersistentBeaconStore L) (a : α), s.Performs (f s a).1) :
    s.Performs (andThen p f).1 := by
  unfold PersistentBeaconStore.andThen
  split
  · exact h.trans (hf _ _)
  · exact h

theorem performs_shared {ρ π : Type} (existing : Option ρ) (publicKey : ρ → Option π)
    (signature : ρ → Data) (generated : π × Data)
    {store : PersistentBeaconStore L × Except StoreError Unit} (h : s.Performs store.1) :
    s.Performs (s.sharedMaterial existing publicKey signature generated store).1 := by
  unfold sharedMaterial
  split
  · exact .refl s
  · exact h.andThen fun s _ => .refl s

/-- A drawing is a row of mutations, whichever of its writes succeed. -/
theorem performs_draw (s : PersistentBeaconStore L) (deviceId : UInt32) (d : Drawing L) :
    s.Performs (s.freshBundleMaterial deviceId d).1 := by
  unfold freshBundleMaterial
  refine Performs.andThen (.single s d.savedId .allocateOneTimePreKeyId) fun s preKeyId => ?_
  refine Performs.andThen (.single s d.savedPreKey (.storePreKey _ _)) fun s _ => ?_
  refine Performs.andThen
    (performs_shared _ _ _ _ (.single s d.savedSigned (.storeSignedPreKey _ _)))
    fun s signed => ?_
  exact Performs.andThen (performs_shared _ _ _ _ (.single s d.savedKyber (.storeKyberPreKey _ _)))
    fun s kyber => .refl s

/-- A drawing in both views. -/
theorem flattens_draw (h : Flattens s t) (deviceId : UInt32) (d : Drawing L) :
    ∃ (es : List (Happening L)) (t' : AeroNyra.PersistentBeaconStore),
      run flatStep t es = some t' ∧ Flattens (s.freshBundleMaterial deviceId d).1 t' := by
  obtain ⟨performed, hrun⟩ := performs_draw s deviceId d
  have hrel := flattens_run h (performed.map fun p => .perform p.1 p.2)
  rw [hrun] at hrel
  cases ht : run flatStep t (performed.map fun p => .perform p.1 p.2) with
  | none =>
    rw [ht] at hrel
    cases hrel
  | some t' =>
    rw [ht] at hrel
    cases hrel with
    | some hflat => exact ⟨_, t', ht, hflat⟩

end PersistentBeaconStore

end AeroNyra.ProtocolStore
