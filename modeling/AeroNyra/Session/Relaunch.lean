import AeroNyra.Enrollment.Service
import AeroNyra.Session.SignalStore

/-! The persisted trust state over launches.  The composition root loads the four sealed files, and
boots with an empty value where a load fails; from then on each store writes its whole value back.
So a file loses records, apart from those that are removed, only in launches that failed to load
it. -/

namespace AeroNyra

/-- The sealed files. -/
inductive TrustFile
  | signal
  | allowlist
  | denylist
  | ledger
  deriving DecidableEq

/-- One record of a sealed file. -/
inductive TrustRecord
  | signal (key : SignalKey)
  | contact (identity : Data)
  | block (identity : Data)
  | invite (id : Data)
  deriving DecidableEq

def TrustRecord.file : TrustRecord → TrustFile
  | .signal _ => .signal
  | .contact _ => .allowlist
  | .block _ => .denylist
  | .invite _ => .ledger

/-- A device, with what loaded at the present launch. -/
structure Device where
  signal : PersistentBeaconStore
  pairing : Interleave.Config Pairing Pairing.Action
  loaded : TrustFile → Bool

namespace Device

open Interleave

inductive Event
  /-- A mutation of the session store, and whether its write succeeds. -/
  | signal (op : PersistentBeaconStore.Mutation) (saved : Bool)
  | pairing (e : Interleave.Event Pairing.Call Pairing.Reply)
  /-- The app stops at any point and starts again: what it manages to load, the clock, and the
  registration identifier that a fresh session store draws. -/
  | relaunch (loaded : TrustFile → Bool) (now : Int) (registrationId : UInt32)
  | wipe (registrationId : UInt32)

variable (parses : SignalKey → Data → Bool) (parsesKey : Data → Bool) (localIdentity : Data)
  (d : Device)

/-- The services over files of which only some loaded. -/
def boot (files : Pairing) (loaded : TrustFile → Bool) (now : Int) : Pairing :=
  { Pairing.launch (if loaded .allowlist then files.allowlistFile else .empty)
      (if loaded .ledger then files.ledgerFile else .empty)
      (if loaded .denylist then files.denylistFile else []) localIdentity now with
    allowlistFile := files.allowlistFile
    ledgerFile := files.ledgerFile
    denylistFile := files.denylistFile }

/-- A device whose files were never written, right after its first launch. -/
def install (registrationId : UInt32) : Device :=
  ⟨⟨.fresh registrationId, some (.fresh registrationId)⟩,
    ⟨Pairing.launch .empty .empty [] localIdentity 0, []⟩, fun _ => true⟩

def step : Event → Option Device
  | .signal op saved =>
    if op.stores.all fun entry => parses entry.1 entry.2 then
      some { d with signal := d.signal.apply saved op }
    else none
  | .pairing e => (Pairing.machine.step d.pairing e).map fun pairing => { d with pairing }
  | .relaunch loaded now registrationId =>
    (PersistentBeaconStore.load parses parsesKey d.signal.file (loaded .signal) registrationId
      true).map fun signal =>
        ⟨signal, ⟨boot localIdentity d.pairing.shared loaded now, []⟩, loaded⟩
  | .wipe registrationId => some (install localIdentity registrationId)

abbrev Step := Transition Device Event

/-- The steps of a run from the installation. -/
def steps (registrationId : UInt32) (events : List Event) : List Step :=
  trace (step parses parsesKey localIdentity) (install localIdentity registrationId) events

/-- The file of the record holds it. -/
def Holds : TrustRecord → Prop
  | .signal key => d.signal.Holds key
  | .contact k => d.pairing.shared.allowlistFile.contains k
  | .block k => k ∈ d.pairing.shared.denylistFile.map (·.rawKey)
  | .invite id => (d.pairing.shared.ledgerFile.pending.lookup id).isSome

/-- The record is in force in the present launch. -/
def InForce : TrustRecord → Prop
  | .signal key => (d.signal.live.records.lookup key).isSome
  | .contact k => d.pairing.shared.allowlist.contains k
  | .block k => k ∈ d.pairing.shared.blockedContacts.map (·.rawKey)
  | .invite id => (d.pairing.shared.pending.pending.lookup id).isSome

/-- The invite is past its expiry and the skew. -/
def Expired (ledger : PendingInvites) (now : Int) (id : Data) : Prop :=
  ∃ expiresAt, ledger.pending.lookup id = some expiresAt ∧
    expiresAt + Invite.defaultSkewMillis < now

/-- The explicit removals: a revocation, the end of a block, a burned or expired invite. -/
def Removal (s : Pairing) : Pairing.Action → Pairing.Reply → TrustRecord → Prop
  | .revoke k, _, .contact j => j = k
  | .rollback k, _, .contact j => j = k
  | .release k, _, .block j => j = k
  | .burn id _, _, .invite j => j = id
  | .mintInvite _, reply, .invite j => Expired s.pending reply.now j
  | _, _, _ => False

/-- The step removes the record: explicitly, as a session or a one-time prekey that goes, as an
invite that expired, or with everything in a wipe. -/
def Step.Removes (r : TrustRecord) (t : Step) : Prop :=
  match t.event, r with
  | .signal op _, .signal key => op.removes = some key
  | .pairing e, r =>
    ∃ a reply, t.pre.pairing.acts e = some (a, reply) ∧ Removal t.pre.pairing.shared a reply r
  | .relaunch _ now _, .invite id => Expired t.pre.pairing.shared.ledgerFile now id
  | .wipe _, _ => True
  | _, _ => False

/-- The event begins a launch. -/
def Event.starts : Event → Bool
  | .relaunch .. | .wipe _ => true
  | .signal .. | .pairing _ => false

/-- A step of the present launch removed the record. -/
def Removed (past : List Step) (r : TrustRecord) : Prop :=
  ∃ before u after, past = before ++ u :: after ∧ u.Removes r ∧ ∀ v ∈ after, v.event.starts = false

variable {parses : SignalKey → Data → Bool} {parsesKey : Data → Bool} {localIdentity : Data}
  {d : Device} {r : TrustRecord}

theorem removed_of_removes {past : List Step} {t : Step} (h : t.Removes r) :
    Removed (past ++ [t]) r :=
  ⟨past, t, [], rfl, h, by simp⟩

theorem Removed.goOn {past : List Step} {t : Step} (h : Removed past r)
    (ht : t.event.starts = false) : Removed (past ++ [t]) r := by
  obtain ⟨before, u, after, rfl, hu, hafter⟩ := h
  refine ⟨before, u, after ++ [t], by simp, hu, fun v hv => ?_⟩
  rcases List.mem_append.mp hv with hv | hv
  · exact hafter v hv
  · exact List.mem_singleton.mp hv ▸ ht

/-! ### What the services save -/

/-- What an action of the services writes: the gates of the coordinator, or one file together with
the value in memory, which keeps all records but those that the action removes. -/
inductive Saves (s : Pairing) (a : Pairing.Action) (reply : Pairing.Reply) : Pairing → Prop
  | gates (c : FirstContactCoordinator) : Saves s a reply { s with coordinator := c }
  | allowlist (updated : ContactAllowlist)
      (keeps : ∀ k, s.allowlist.contains k → updated.contains k ∨ Removal s a reply (.contact k)) :
      Saves s a reply { s with allowlistFile := updated, allowlist := updated }
  | ledger (updated : PendingInvites)
      (keeps : ∀ id, (s.pending.pending.lookup id).isSome →
        (updated.pending.lookup id).isSome ∨ Removal s a reply (.invite id)) :
      Saves s a reply { s with ledgerFile := updated, pending := updated }
  | denylist (updated : List BlockedContact)
      (keeps : ∀ k ∈ s.blockedContacts.map (·.rawKey),
        k ∈ updated.map (·.rawKey) ∨ Removal s a reply (.block k)) :
      Saves s a reply { s with denylistFile := updated, blockedContacts := updated }

theorem lookup_prune {ledger pruned : PendingInvites} {now : Int} {id : Data}
    (h : ledger.prune now = some pruned) (hid : (ledger.pending.lookup id).isSome) :
    (pruned.pending.lookup id).isSome ∨ Expired ledger now id := by
  unfold PendingInvites.prune at h
  split at h
  · obtain rfl := Option.some.inj h
    obtain ⟨expiresAt, hexpires⟩ := Option.isSome_iff_exists.mp hid
    by_cases hlive : now ≤ expiresAt + Invite.defaultSkewMillis
    · exact .inl (by simp [hexpires, hlive])
    · exact .inr ⟨expiresAt, hexpires, by omega⟩
  · cases h

section Saves

variable {s : Pairing} {a : Pairing.Action} {reply : Pairing.Reply}

theorem saves_allowlist {updated : ContactAllowlist} {next : List Pairing.Action}
    (keeps : ∀ k, s.allowlist.contains k → updated.contains k ∨ Removal s a reply (.contact k)) :
    Saves s a reply (s.saveAllowlist updated reply next).1 := by
  unfold Pairing.saveAllowlist
  split
  · exact .allowlist updated keeps
  · exact .gates s.coordinator

theorem saves_ledger {updated : PendingInvites} {next : List Pairing.Action}
    (keeps : ∀ id, (s.pending.pending.lookup id).isSome →
      (updated.pending.lookup id).isSome ∨ Removal s a reply (.invite id)) :
    Saves s a reply (s.saveLedger updated reply next).1 := by
  unfold Pairing.saveLedger
  split
  · exact .ledger updated keeps
  · exact .gates s.coordinator

theorem saves_denylist {updated : List BlockedContact}
    (keeps : ∀ k ∈ s.blockedContacts.map (·.rawKey),
      k ∈ updated.map (·.rawKey) ∨ Removal s a reply (.block k)) :
    Saves s a reply (s.saveDenylist updated reply).1 := by
  unfold Pairing.saveDenylist
  split
  · exact .denylist updated keeps
  · exact .gates s.coordinator

theorem saves_revoke {k : Data} (hremoval : ∀ j, j = k → Removal s a reply (.contact j)) :
    Saves s a reply (s.revoke k reply).1 := by
  unfold Pairing.revoke
  split
  · refine saves_allowlist fun j hj => ?_
    by_cases hjk : j = k
    · exact .inr (hremoval j hjk)
    · exact .inl (by simp [ContactAllowlist.contains_revoke, hjk, hj])
  · exact .gates s.coordinator

theorem saves_exec {p : Pairing × Exit Pairing.Action} (h : s.exec a reply = some p) :
    Saves s a reply p.1 := by
  cases a with
  | enroll k v =>
    obtain rfl := Option.some.inj h
    unfold Pairing.enroll
    split
    · exact saves_allowlist fun j hj => .inl (by simp [ContactAllowlist.contains_enroll, hj])
    · exact .gates s.coordinator
  | markVerified k =>
    obtain rfl := Option.some.inj h
    unfold Pairing.markVerified
    split
    · exact saves_allowlist fun j hj => .inl (by rw [ContactAllowlist.contains_markVerified, hj])
    · exact .gates s.coordinator
  | revoke k =>
    obtain rfl := Option.some.inj h
    exact saves_revoke fun _ hj => hj
  | rollback k =>
    obtain rfl := Option.some.inj h
    have hrevoke : Saves s (.rollback k) reply (s.revoke k reply).1 := saves_revoke fun _ hj => hj
    unfold Pairing.rollback
    split
    · rename_i hcase
      rw [hcase] at hrevoke
      exact hrevoke
    · rename_i hcase
      rw [hcase] at hrevoke
      exact hrevoke
  | addReconnectContact | removeReconnectContact | addVerifiedContact | removeVerifiedContact
  | setBlockedIdentities =>
    obtain rfl := Option.some.inj h
    exact .gates _
  | mintInvite ttlMillis =>
    simp only [Pairing.exec, Pairing.mintInvite, Option.bind_eq_bind, Option.bind_eq_some_iff] at h
    obtain ⟨expiresAt, _, pruned, hpruned, h⟩ := h
    obtain rfl := Option.some.inj h
    refine saves_ledger fun id hid => ?_
    rcases lookup_prune hpruned hid with hlive | hexpired
    · by_cases hnew : id = reply.nonce <;> simp [PendingInvites.register, hnew, hlive]
    · exact .inr hexpired
  | burn inviteID redeemer =>
    simp only [Pairing.exec, Pairing.burn] at h
    split at h
    · obtain ⟨⟨burned, updated⟩, hconsume, rfl⟩ := Option.map_eq_some_iff.mp h
      dsimp only
      split
      · refine saves_ledger fun id hid => ?_
        by_cases hburned : id = inviteID
        · exact .inr hburned
        · left
          unfold PendingInvites.consume at hconsume
          split at hconsume
          · cases hconsume
            exact hid
          · obtain ⟨last, _, heq⟩ := Option.map_eq_some_iff.mp hconsume
            cases heq
            simp [hburned, hid]
      · exact .gates s.coordinator
    · obtain rfl := Option.some.inj h
      exact .gates s.coordinator
  | scan code =>
    obtain rfl := Option.some.inj h
    unfold Pairing.scan
    split <;> exact .gates s.coordinator
  | onBundle k =>
    obtain rfl := Option.some.inj h
    exact .gates _
  | throwMalformed | echoRouted =>
    obtain rfl := Option.some.inj h
    exact .gates s.coordinator
  | redeem code =>
    simp only [Pairing.exec, Pairing.redeem] at h
    split at h
    · obtain ⟨last, _, rfl⟩ := Option.map_eq_some_iff.mp h
      split
      · split
        · exact .gates s.coordinator
        · split <;> exact .gates s.coordinator
      · exact .gates s.coordinator
    · obtain rfl := Option.some.inj h
      exact .gates s.coordinator
  | establish =>
    obtain rfl := Option.some.inj h
    unfold Pairing.establish
    split
    · exact .gates _
    · exact .gates s.coordinator
  | block k petname =>
    obtain rfl := Option.some.inj h
    refine saves_denylist fun j hj => .inl ?_
    obtain ⟨entry, hentry, rfl⟩ := List.mem_map.mp hj
    by_cases hk : entry.rawKey = k
    · simp [hk]
    · refine List.mem_map_of_mem (List.mem_append_left _ (List.mem_filter.mpr ⟨hentry, ?_⟩))
      simpa using hk
  | unblock k =>
    obtain rfl := Option.some.inj h
    unfold Pairing.unblock
    split <;> exact .gates s.coordinator
  | release k =>
    obtain rfl := Option.some.inj h
    refine saves_denylist fun j hj => ?_
    obtain ⟨entry, hentry, rfl⟩ := List.mem_map.mp hj
    by_cases hk : entry.rawKey = k
    · exact .inr hk
    · refine .inl (List.mem_map_of_mem (List.mem_filter.mpr ⟨hentry, ?_⟩))
      simpa using hk

end Saves

/-! ### What a step does to the files -/

/-- Within a launch, a step leaves a file as it is or brings it in line with the memory, and the
memory loses only what the step removes. -/
structure GoesOn (t : Step) : Prop where
  files : ∀ r, (t.post.Holds r ↔ t.pre.Holds r) ∨ (t.post.Holds r ↔ t.post.InForce r)
  memory : ∀ r, t.pre.InForce r → t.post.InForce r ∨ t.Removes r
  loaded : t.post.loaded = t.pre.loaded

theorem goesOn_signal {t : Step} {op : PersistentBeaconStore.Mutation} {saved : Bool}
    (he : t.event = .signal op saved)
    (hpost : t.post = { t.pre with signal := t.pre.signal.apply saved op }) : GoesOn t := by
  constructor
  · intro r
    cases r with
    | signal key =>
      rw [hpost]
      rcases (PersistentBeaconStore.apply_eq t.pre.signal saved op).2 with hsame | hlive
      · exact .inl (by simp [Holds, PersistentBeaconStore.Holds, hsame])
      · exact .inr (by simp [Holds, InForce, PersistentBeaconStore.Holds, hlive])
    | contact | block | invite =>
      rw [hpost]
      exact .inl Iff.rfl
  · intro r hr
    cases r with
    | signal key =>
      rw [hpost]
      refine (PersistentBeaconStore.keeps_apply hr).imp_right fun hremoves => ?_
      simpa [Step.Removes, he] using hremoves
    | contact | block | invite =>
      rw [hpost]
      exact .inl hr
  · rw [hpost]

theorem goesOn_pairing {t : Step} {e : Interleave.Event Pairing.Call Pairing.Reply}
    {pairing : Config Pairing Pairing.Action} (he : t.event = .pairing e)
    (hstep : Pairing.machine.step t.pre.pairing e = some pairing)
    (hpost : t.post = { t.pre with pairing }) : GoesOn t := by
  rcases Machine.step_cases hstep with ⟨call, _, hcall⟩ |
    ⟨i, reply, a, rest, handler, s, x, _, _, hx, hacts, hexec⟩
  · have hshared : t.post.pairing.shared = t.pre.pairing.shared := by rw [hpost, hcall]
    have hsignal : t.post.signal = t.pre.signal := by rw [hpost]
    refine ⟨fun r => .inl ?_, fun r hr => .inl ?_, by rw [hpost]⟩
    · cases r <;> simp [Holds, hshared, hsignal]
    · cases r <;> simpa [InForce, hshared, hsignal] using hr
  · have hshared : t.post.pairing.shared = s := by rw [hpost, hexec]
    have hsignal : t.post.signal = t.pre.signal := by rw [hpost]
    have hremoval {r : TrustRecord} (h : Removal t.pre.pairing.shared a reply r) : t.Removes r := by
      simp only [Step.Removes, he]
      exact ⟨a, reply, hacts, h⟩
    have hsaves : Saves t.pre.pairing.shared a reply s := saves_exec hx
    clear hx hexec
    refine ⟨fun r => ?_, fun r hr => ?_, by rw [hpost]⟩
    · cases hsaves with
      | gates c => cases r <;> exact .inl (by simp [Holds, hshared, hsignal])
      | allowlist updated keeps =>
        cases r with
        | contact k => exact .inr (by simp [Holds, InForce, hshared])
        | signal | block | invite => exact .inl (by simp [Holds, hshared, hsignal])
      | ledger updated keeps =>
        cases r with
        | invite id => exact .inr (by simp [Holds, InForce, hshared])
        | signal | block | contact => exact .inl (by simp [Holds, hshared, hsignal])
      | denylist updated keeps =>
        cases r with
        | block k => exact .inr (by simp [Holds, InForce, hshared])
        | signal | invite | contact => exact .inl (by simp [Holds, hshared, hsignal])
    · cases hsaves with
      | gates c => cases r <;> exact .inl (by simpa [InForce, hshared, hsignal] using hr)
      | allowlist updated keeps =>
        cases r with
        | contact k =>
          refine (keeps k hr).imp (fun hk => ?_) hremoval
          simpa [InForce, hshared] using hk
        | signal | block | invite => exact .inl (by simpa [InForce, hshared, hsignal] using hr)
      | ledger updated keeps =>
        cases r with
        | invite id =>
          refine (keeps id hr).imp (fun hid => ?_) hremoval
          simpa [InForce, hshared] using hid
        | signal | block | contact => exact .inl (by simpa [InForce, hshared, hsignal] using hr)
      | denylist updated keeps =>
        cases r with
        | block k =>
          refine (keeps k hr).imp (fun hk => ?_) hremoval
          simpa [InForce, hshared] using hk
        | signal | invite | contact => exact .inl (by simpa [InForce, hshared, hsignal] using hr)

/-- Every record of the session layer parses again. -/
structure Parses (parses : SignalKey → Data → Bool) (d : Device) : Prop where
  live : ∀ key record, d.signal.live.records.lookup key = some record → parses key record
  file : ∀ snapshot ∈ d.signal.file, ∀ key record, snapshot.records.lookup key = some record →
    parses key record

theorem parses_install (registrationId : UInt32) :
    Parses parses (install localIdentity registrationId) := by
  refine ⟨by simp [install, Snapshot.fresh], fun snapshot hfile => ?_⟩
  obtain rfl := Option.some.inj hfile
  simp [Snapshot.fresh]

theorem parses_step {t : Step}
    (ht : step parses parsesKey localIdentity t.pre t.event = some t.post)
    (h : Parses parses t.pre) : Parses parses t.post := by
  cases he : t.event with
  | signal op saved =>
    rw [he] at ht
    simp only [step] at ht
    split at ht
    · rename_i hop
      rw [← Option.some.inj ht]
      have hlive := PersistentBeaconStore.parses_apply saved op h.live
        (by simpa [Option.all_eq_true] using hop)
      refine ⟨hlive, fun snapshot hfile => ?_⟩
      rcases (PersistentBeaconStore.apply_eq t.pre.signal saved op).2 with hsame | hnew
      · exact h.file snapshot (hsame ▸ hfile)
      · obtain rfl := Option.some.inj (hnew.symm.trans hfile)
        exact hlive
    · cases ht
  | pairing e =>
    rw [he] at ht
    obtain ⟨pairing, _, hpost⟩ := Option.map_eq_some_iff.mp ht
    rw [← hpost]
    exact ⟨h.live, h.file⟩
  | relaunch loaded now registrationId =>
    rw [he] at ht
    obtain ⟨signal, hload, hpost⟩ := Option.map_eq_some_iff.mp ht
    rw [← hpost]
    rcases PersistentBeaconStore.load_cases hload with ⟨snapshot, _, hfile, rfl⟩ | ⟨_, rfl⟩
    · have hparses := h.file snapshot hfile
      refine ⟨fun key record hrecord => hparses key record ?_, fun other hother => ?_⟩
      · exact (PersistentBeaconStore.lookup_readable hparses).symm.trans hrecord
      · obtain rfl := Option.some.inj hother
        exact hparses
    · have hfresh : Parses parses (install localIdentity registrationId) :=
        parses_install registrationId
      exact ⟨hfresh.live, hfresh.file⟩
  | wipe registrationId =>
    rw [he] at ht
    rw [← Option.some.inj ht]
    exact parses_install registrationId

/-- What a relaunch finds in the files that it loads is in force, but for expired invites; and it
takes nothing out of them. -/
structure Reloads (t : Step) : Prop where
  kept : ∀ r, t.post.Holds r → t.pre.Holds r
  same : ∀ r, t.post.loaded r.file → t.pre.Holds r → t.post.Holds r
  memory : ∀ r, t.post.loaded r.file → t.pre.Holds r → t.post.InForce r ∨ t.Removes r

theorem reloads {t : Step} {loaded : TrustFile → Bool} {now : Int} {registrationId : UInt32}
    (he : t.event = .relaunch loaded now registrationId)
    (ht : step parses parsesKey localIdentity t.pre t.event = some t.post)
    (h : Parses parses t.pre) : Reloads t := by
  rw [he] at ht
  obtain ⟨signal, hload, hpost⟩ := Option.map_eq_some_iff.mp ht
  have hloaded : t.post.loaded = loaded := by rw [← hpost]
  have hsignal : t.post.signal = signal := by rw [← hpost]
  have hshared : t.post.pairing.shared = boot localIdentity t.pre.pairing.shared loaded now := by
    rw [← hpost]
  constructor
  · intro r hr
    cases r with
    | signal key =>
      simp only [Holds, hsignal] at hr ⊢
      rcases PersistentBeaconStore.load_cases hload with ⟨snapshot, _, hfile, rfl⟩ | ⟨_, rfl⟩
      · obtain ⟨other, hother, hkey⟩ := hr
        exact ⟨other, hfile.trans hother, hkey⟩
      · exact absurd hr (PersistentBeaconStore.not_holds_fresh registrationId)
    | contact | block | invite => simpa [Holds, hshared, boot] using hr
  · intro r hyes hr
    rw [hloaded] at hyes
    cases r with
    | signal key =>
      simp only [Holds, hsignal] at hr ⊢
      obtain ⟨other, hother, hkey⟩ := hr
      rcases PersistentBeaconStore.load_cases hload with ⟨snapshot, _, hfile, rfl⟩ | ⟨hnone, _⟩
      · exact ⟨other, hfile.symm.trans hother, hkey⟩
      · cases (hnone hyes).symm.trans hother
    | contact | block | invite => simpa [Holds, hshared, boot] using hr
  · intro r hyes hr
    rw [hloaded] at hyes
    cases r with
    | signal key =>
      simp only [InForce, hsignal]
      obtain ⟨other, hother, hkey⟩ := hr
      rcases PersistentBeaconStore.load_cases hload with ⟨snapshot, _, hfile, rfl⟩ | ⟨hnone, _⟩
      · obtain rfl := Option.some.inj (hfile.symm.trans hother)
        exact .inl (by rwa [PersistentBeaconStore.lookup_readable (h.file _ hfile)])
      · cases (hnone hyes).symm.trans hother
    | contact k =>
      have hyes : loaded .allowlist = true := hyes
      exact .inl (by simpa [InForce, Holds, hshared, boot, Pairing.launch, hyes] using hr)
    | block k =>
      have hyes : loaded .denylist = true := hyes
      exact .inl (by simpa [InForce, Holds, hshared, boot, Pairing.launch, hyes] using hr)
    | invite id =>
      have hyes : loaded .ledger = true := hyes
      simp only [InForce, hshared, boot, Pairing.launch, hyes, ↓reduceIte]
      cases hprune : t.pre.pairing.shared.ledgerFile.prune now with
      | none => exact .inl hr
      | some pruned =>
        refine (lookup_prune hprune hr).imp_right fun hexpired => ?_
        simpa [Step.Removes, he] using hexpired

/-- What a file of the present launch holds is in force, unless it was removed or the file did not
load. -/
structure Kept (parses : SignalKey → Data → Bool) (past : List Step) (d : Device) : Prop where
  parses : Parses parses d
  memory : ∀ r, d.Holds r → d.loaded r.file → d.InForce r ∨ Removed past r

theorem not_holds_install (registrationId : UInt32) :
    ¬(install localIdentity registrationId).Holds r := by
  intro hr
  cases r with
  | signal key => exact PersistentBeaconStore.not_holds_fresh registrationId hr
  | contact k =>
      simp [Holds, install, Pairing.launch, ContactAllowlist.contains, ContactAllowlist.empty] at hr
  | block k => simp [Holds, install, Pairing.launch] at hr
  | invite id => simp [Holds, install, Pairing.launch, PendingInvites.empty] at hr

/-- The kinds of steps. -/
theorem step_kind {t : Step} (ht : step parses parsesKey localIdentity t.pre t.event = some t.post)
    (h : Parses parses t.pre) :
    (GoesOn t ∧ t.event.starts = false) ∨ Reloads t ∨
    ∃ registrationId, t.event = .wipe registrationId ∧
      t.post = install localIdentity registrationId := by
  cases he : t.event with
  | signal op saved =>
    rw [he] at ht
    simp only [step] at ht
    split at ht
    · exact .inl ⟨goesOn_signal he (Option.some.inj ht).symm, rfl⟩
    · cases ht
  | pairing e =>
    rw [he] at ht
    obtain ⟨pairing, hstep, hpost⟩ := Option.map_eq_some_iff.mp ht
    exact .inl ⟨goesOn_pairing he hstep hpost.symm, rfl⟩
  | relaunch loaded now registrationId => exact .inr (.inl (reloads he ht h))
  | wipe registrationId =>
    rw [he] at ht
    exact .inr (.inr ⟨registrationId, rfl, (Option.some.inj ht).symm⟩)

theorem kept_step {past : List Step} {t : Step}
    (ht : step parses parsesKey localIdentity t.pre t.event = some t.post)
    (h : Kept parses past t.pre) : Kept parses (past ++ [t]) t.post := by
  refine ⟨parses_step ht h.parses, fun r hr hyes => ?_⟩
  rcases step_kind ht h.parses with ⟨hgoes, hstarts⟩ | hreloads | ⟨registrationId, _, hpost⟩
  · rcases hgoes.files r with hsame | hlive
    · rw [hgoes.loaded] at hyes
      rcases h.memory r (hsame.mp hr) hyes with hforce | hremoved
      · exact (hgoes.memory r hforce).imp_right removed_of_removes
      · exact .inr (hremoved.goOn hstarts)
    · exact .inl (hlive.mp hr)
  · exact (hreloads.memory r hyes (hreloads.kept r hr)).imp_right removed_of_removes
  · rw [hpost] at hr
    exact absurd hr (not_holds_install registrationId)

/-- In every run over any number of launches, a step takes a record out of a file only if the step,
or an earlier step of that launch, removes it explicitly, or if the present launch failed to load
the file; and what the files hold is in force after every launch that loads them. -/
theorem records_kept (parses : SignalKey → Data → Bool) (parsesKey : Data → Bool)
    (localIdentity : Data) (registrationId : UInt32) (events : List Event) (event : Event)
    (d d' : Device)
    (hrun : run (step parses parsesKey localIdentity) (install localIdentity registrationId)
      events = some d)
    (hstep : step parses parsesKey localIdentity d event = some d') (r : TrustRecord) :
    (d.Holds r → ¬d'.Holds r →
      Step.Removes r ⟨d, event, d'⟩ ∨
      Removed (steps parses parsesKey localIdentity registrationId events) r ∨
      d'.loaded r.file = false) ∧
    (∀ loaded now registrationId, event = .relaunch loaded now registrationId → loaded r.file →
      d.Holds r → d'.InForce r ∨ Step.Removes r ⟨d, event, d'⟩) := by
  have hkept := run_history (Kept parses) (fun past t ht h => kept_step ht h)
    ⟨parses_install registrationId, fun r hr => absurd hr (not_holds_install registrationId)⟩ hrun
  have hkind := step_kind (t := ⟨d, event, d'⟩) hstep hkept.parses
  constructor
  · intro hbefore hafter
    rcases hkind with ⟨hgoes, _⟩ | hreloads | ⟨_, hwipe, _⟩
    · cases hyes : d.loaded r.file with
      | false => exact .inr (.inr ((congrFun hgoes.loaded r.file).trans hyes))
      | true =>
        have hlive : d'.Holds r ↔ d'.InForce r :=
          (hgoes.files r).resolve_left fun hsame => hafter (hsame.mpr hbefore)
        rcases hkept.memory r hbefore hyes with hforce | hremoved
        · have hleft := hgoes.memory r hforce
          exact .inl (hleft.resolve_left fun hstays => hafter (hlive.mpr hstays))
        · exact .inr (.inl hremoved)
    · cases hyes : d'.loaded r.file with
      | false => exact .inr (.inr rfl)
      | true => exact absurd (hreloads.same r hyes hbefore) hafter
    · have hwipe : event = .wipe _ := hwipe
      exact .inl (by simp [Step.Removes, hwipe])
  · intro loaded now registrationId hevent hyes hbefore
    have hreloads := reloads (t := ⟨d, event, d'⟩) hevent hstep hkept.parses
    have hloaded : d'.loaded = loaded := by
      rw [hevent] at hstep
      obtain ⟨signal, _, hpost⟩ := Option.map_eq_some_iff.mp hstep
      rw [← hpost]
    exact hreloads.memory r (hloaded ▸ hyes) hbefore

/-! ### A launch that failed to load the allowlist -/

/-- A contact is enrolled; the next launch does not load the allowlist, and another contact is
enrolled. -/
def failedLoad : List Event :=
  [.pairing (.start (.enroll (.replicate 32 1) false)), .pairing (.step 0 {}),
    .pairing (.step 0 {}), .relaunch (fun file => file != .allowlist) 0 7,
    .pairing (.start (.enroll (.replicate 32 2) false))]

/-- The action of the services that a step runs. -/
def services (u : Step) : Option (Pairing.Action × Pairing.Reply) :=
  match u.event with
  | .pairing e => u.pre.pairing.acts e
  | _ => none

/-- Stand-in for the session layer, whose records the runs below never read. -/
abbrev bare : Device → Event → Option Device := step (fun _ _ => true) (fun _ => true) []

theorem records_kept_failedLoad : ∃ d d', run bare (install [] 7) failedLoad = some d ∧
    bare d (.pairing (.step 0 {})) = some d' ∧ d.Holds (.contact (.replicate 32 1)) ∧
    ¬d'.Holds (.contact (.replicate 32 1)) ∧
    (Step.Removes (.contact (.replicate 32 1)) ⟨d, .pairing (.step 0 {}), d'⟩ ∨
      Removed (steps (fun _ _ => true) (fun _ => true) [] 7 failedLoad)
        (.contact (.replicate 32 1)) ∨
      d'.loaded .allowlist = false) := by
  refine ⟨_, _, rfl, rfl, rfl, Bool.false_ne_true, ?_⟩
  exact (records_kept (fun _ _ => true) (fun _ => true) [] 7 failedLoad (.pairing (.step 0 {})) _ _
    rfl rfl (.contact (.replicate 32 1))).1 rfl Bool.false_ne_true

/-- The contact of the earlier launch is gone from the file, and nothing removed it. -/
theorem record_lost : ¬∀ events event d d' r, run bare (install [] 7) events = some d →
    bare d event = some d' → d.Holds r → ¬d'.Holds r →
    Step.Removes r ⟨d, event, d'⟩ ∨
      Removed (steps (fun _ _ => true) (fun _ => true) [] 7 events) r := by
  intro hkept
  have hlost : ∃ d d', run bare (install [] 7) failedLoad = some d ∧
      bare d (.pairing (.step 0 {})) = some d' ∧ d.Holds (.contact (.replicate 32 1)) ∧
      ¬d'.Holds (.contact (.replicate 32 1)) ∧
      d.pairing.acts (.step 0 {} : Interleave.Event Pairing.Call Pairing.Reply) =
        some (.enroll (.replicate 32 2) false, {}) :=
    ⟨_, _, rfl, rfl, rfl, Bool.false_ne_true, rfl⟩
  obtain ⟨d, d', hrun, hstep, hbefore, hafter, hlast⟩ := hlost
  rcases hkept _ _ _ _ _ hrun hstep hbefore hafter with ⟨a, reply, hacts, hremoval⟩ |
    ⟨before, u, after, hpast, hremoves, _⟩
  · cases hlast.symm.trans hacts
    exact hremoval
  · have hmem : u ∈ steps (fun _ _ => true) (fun _ => true) [] 7 failedLoad := by
      rw [hpast]
      exact List.mem_append_right _ List.mem_cons_self
    have hran := List.mem_map_of_mem (f := services) hmem
    have hall : (steps (fun _ _ => true) (fun _ => true) [] 7 failedLoad).map services =
        [none, some (.enroll (.replicate 32 1) false, {}),
          some (.addReconnectContact (.replicate 32 1), {}), none, none] := rfl
    have hevent := event_mem hmem
    rw [hall] at hran
    unfold Step.Removes at hremoves
    split at hremoves
    · rename_i hr
      cases hr
    · rename_i e _ he
      obtain ⟨a, reply, hacts, hremoval⟩ := hremoves
      have hservices : services u = some (a, reply) := by simp only [services, he, hacts]
      rw [hservices] at hran
      simp only [List.mem_cons, reduceCtorEq, Option.some.injEq, Prod.mk.injEq, List.not_mem_nil,
        or_false, false_or] at hran
      rcases hran with ⟨rfl, _⟩ | ⟨rfl, _⟩ <;> exact hremoval
    · rename_i hr
      cases hr
    · rename_i he
      rw [he] at hevent
      simp [failedLoad] at hevent
    · exact hremoves

end Device

end AeroNyra
