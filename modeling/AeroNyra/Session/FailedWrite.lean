import AeroNyra.Session.Survival

/-! A write that fails.  Every mutator changes the memory first and writes then, so the change
stays when the write throws: the memory is ahead of the file, and a base key counts as seen. -/

namespace AeroNyra.ProtocolStore

variable {L : LibSignal}

/-- The mutation stores what is there, or removes what is not. -/
def Mutation.Redundant (m : Memory L) : Mutation L → Prop
  | .saveIdentity identity address => m.publicKeys.lookup address = some identity
  | .storePreKey record id => m.prekeyMap.lookup id = some record
  | .removePreKey id => m.prekeyMap.lookup id = none
  | .storeSignedPreKey record id => m.signedPrekeyMap.lookup id = some record
  | .storeKyberPreKey record id => m.kyberPrekeyMap.lookup id = some record
  | .storeSession record address => m.sessionMap.lookup address = some record
  | .storeSenderKey sender distributionId record =>
    m.senderKeyMap.lookup ⟨sender, distributionId⟩ = some record
  | .removeSession address => m.sessionMap.lookup address = none
  | .allocateOneTimePreKeyId | .markKyberPreKeyUsed .. => False

/-- After a mutation whose write failed, the store is as if it had not been called. -/
structure RolledBack (s : PersistentBeaconStore L) (op : Mutation L) : Prop where
  queries : ∀ q, (s.perform false op).1.live.answer q = s.live.answer q
  memory : Same (s.perform false op).1.live s.live
  retry : ((s.perform false op).1.perform true op).2 = (s.perform true op).2

variable {m : Memory L}

theorem lookup_insert_self {κ ν : Type} [DecidableEq κ] {d : Dict κ ν} {k : κ} {v : ν}
    (h : d.lookup k = some v) (j : κ) : AList.lookup j (AList.insert k v d) = d.lookup j := by
  rw [Dict.lookup_insert]
  split
  · rename_i heq
    rw [heq, h]
  · rfl

theorem lookup_erase_self {κ ν : Type} [DecidableEq κ] {d : Dict κ ν} {k : κ}
    (h : d.lookup k = none) (j : κ) : AList.lookup j (AList.erase k d) = d.lookup j := by
  rw [Dict.lookup_erase]
  split
  · rename_i heq
    rw [heq, h]
  · rfl

/-- A mutation leaves the content of the memory as it was exactly if it is redundant. -/
theorem same_change_iff (op : Mutation L) : Same (op.change m) m ↔ op.Redundant m := by
  constructor
  · intro h
    cases op with
    | allocateOneTimePreKeyId =>
      have hnext : m.nextOneTimePreKeyId + 1 = m.nextOneTimePreKeyId + 0 :=
        h.nextOneTimePreKeyId.trans (UInt32.add_zero _).symm
      exact absurd ((UInt32.add_right_inj _).mp hnext) (by decide)
    | saveIdentity identity address =>
        exact (h.publicKeys address).symm.trans (AList.lookup_insert _)
    | storePreKey record id => exact (h.prekeyMap id).symm.trans (AList.lookup_insert _)
    | removePreKey id => exact (h.prekeyMap id).symm.trans (AList.lookup_erase _ _)
    | storeSignedPreKey record id => exact (h.signedPrekeyMap id).symm.trans (AList.lookup_insert _)
    | storeKyberPreKey record id => exact (h.kyberPrekeyMap id).symm.trans (AList.lookup_insert _)
    | markKyberPreKeyUsed id signedPreKeyId baseKey =>
      have hseen := h.seen_eq id signedPreKeyId
      simp [Mutation.change, PersistentBeaconStore.seen] at hseen
    | storeSession record address => exact (h.sessionMap address).symm.trans (AList.lookup_insert _)
    | storeSenderKey sender distributionId record =>
      exact (h.senderKeyMap ⟨sender, distributionId⟩).symm.trans (AList.lookup_insert _)
    | removeSession address => exact (h.sessionMap address).symm.trans (AList.lookup_erase _ _)
  · intro h
    have hsame := Same.refl m
    cases op with
    | allocateOneTimePreKeyId => cases h
    | markKyberPreKeyUsed => cases h
    | saveIdentity identity address => exact { hsame with publicKeys := lookup_insert_self h }
    | storePreKey record id => exact { hsame with prekeyMap := lookup_insert_self h }
    | removePreKey id => exact { hsame with prekeyMap := lookup_erase_self h }
    | storeSignedPreKey record id => exact { hsame with signedPrekeyMap := lookup_insert_self h }
    | storeKyberPreKey record id => exact { hsame with kyberPrekeyMap := lookup_insert_self h }
    | storeSession record address => exact { hsame with sessionMap := lookup_insert_self h }
    | storeSenderKey sender distributionId record =>
        exact { hsame with senderKeyMap := lookup_insert_self h }
    | removeSession address => exact { hsame with sessionMap := lookup_erase_self h }

theorem not_refused_of_redundant {m m' : Memory L} {op : Mutation L} (h : op.Redundant m) :
    ¬op.Refused m' := by
  cases op with
  | markKyberPreKeyUsed => cases h
  | _ => exact not_false

/-- A mutator is undone by a failed write exactly if it is refused before the write, or has nothing
to change. -/
theorem failed_write_rolledBack (s : PersistentBeaconStore L) (op : Mutation L) :
    ((s.perform false op).2 = .error .writeFailed → RolledBack s op) ↔
      op.Refused s.live ∨ op.Redundant s.live := by
  by_cases hrefused : op.Refused s.live
  · refine iff_of_true (fun herror => ?_) (.inl hrefused)
    rw [PersistentBeaconStore.perform_refused hrefused] at herror
    cases herror
  · have hfailed := PersistentBeaconStore.perform_failed hrefused
    constructor
    · intro h
      have hmemory := (h (by rw [hfailed])).memory
      rw [hfailed] at hmemory
      exact .inr ((same_change_iff op).mp hmemory)
    · rintro (h | hredundant) _
      · exact absurd h hrefused
      · have hsame : Same (s.perform false op).1.live s.live := by
          rw [hfailed]
          exact (same_change_iff op).mpr hredundant
        refine ⟨hsame.answer_eq, hsame, ?_⟩
        rw [PersistentBeaconStore.perform_saved hrefused,
          PersistentBeaconStore.perform_saved (not_refused_of_redundant hredundant)]

/-- The first message of a session is processed again after its write failed: its base key was
never saved, and is refused for good. -/
theorem retry_refused :
    let s : PersistentBeaconStore PersistentBeaconStore.bytewise := .install ⟨[1], [2]⟩ 7
    let op : Mutation PersistentBeaconStore.bytewise := .markKyberPreKeyUsed 1 1 [9]
    (s.perform false op).2 = .error .writeFailed ∧
      ((s.perform false op).1.perform true op).2 = .error (.invalidMessage "reused base key") ∧
      (s.perform true op).2 = .ok () ∧ ¬RolledBack s op := by
  refine ⟨rfl, rfl, rfl, fun h => ?_⟩
  cases h.retry

end AeroNyra.ProtocolStore
