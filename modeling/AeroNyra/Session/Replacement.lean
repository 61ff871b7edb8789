import AeroNyra.Coordinator.Presence
import AeroNyra.Enrollment.Service

/-! What replaces a session.  A bundle runs `establishSession` from three sides: the frames that
anybody in radio range sends, the scanned code of a pairing in person, and a redeemed invite.  Only
the invite's side looks whether there is a pairing already. -/

namespace AeroNyra

open Interleave (Config Event Exit Machine Transition trace run forall_trace_iff)

/-- The session store behind the services.  A record is filed under the identity and the device of
its peer. -/
structure SessionStore where
  services : Pairing
  records : Dict (Data × UInt32) Data
  /-- The identities for which `establishSession` was run, the oldest first. -/
  establishes : List Data

namespace SessionStore

inductive Call
  | service (call : Pairing.Call)
  /-- A frame of the `transport.bundles` feed. -/
  | bundleFrame (link : UUID) (data : Data)
  | openInbound (payload : Data)
  /-- Any seal to a peer: a message, an acknowledgement, an announcement, a hello. -/
  | sealTo (rawKey : Data)

inductive Action
  | service (a : Pairing.Action)
  | bundleFrame (link : UUID) (data : Data)
  /-- `onBundle` as `pairFromScanned` calls it. -/
  | scanned (rawKey : Data)
  /-- The coordinator's `redeemInvite` up to the routing of its echo. -/
  | redeemed (rawKey : Data)
  | openInbound (payload : Data)
  | sealTo (rawKey : Data)
  deriving DecidableEq

/-- What the environment decides: for the services as before, the device that a bundle or a wrapper
names, the session record that libsignal writes, if it gets that far, and the identity whose session
opens a payload. -/
structure Reply where
  service : Pairing.Reply := {}
  device : UInt32 := 1
  record : Option Data := none
  opened : Option Data := none

variable (rawKeyOf : Data → Option Data) (s : SessionStore)

def coordinator : FirstContactCoordinator := s.services.coordinator

def HasSession (rawKey : Data) : Prop := ∃ device, (s.records.lookup (rawKey, device)).isSome

/-- Writes the session record of a peer, if there is one to write. -/
def write (rawKey : Data) (reply : Reply) : SessionStore :=
  match reply.record with
  | none => s
  | some record => { s with records := AList.insert (rawKey, reply.device) record s.records }

/-- Whether it succeeds, besides. -/
def establishSession (rawKey : Data) (reply : Reply) : SessionStore × Bool :=
  (write { s with establishes := s.establishes ++ [rawKey] } rawKey reply, reply.service.ok)

def onBundle (link : UUID) (rawKey : Option Data) (reply : Reply) :
    SessionStore × FirstContactCoordinator.BundleOutcome :=
  match rawKey with
  | none => (s, .malformed)
  | some rawKey =>
    if rawKey ∈ s.coordinator.reconnectAllowlistIdentities then
      let identified := { s with
        services := { s.services with
          coordinator := FirstContactCoordinator.emitReachablePeers { s.coordinator with
            linkPeers := AList.insert link rawKey s.coordinator.linkPeers } } }
      if s.coordinator.initiates rawKey then
        let p := identified.establishSession rawKey reply
        (p.1, if p.2 then .initiated else .initiateFailed)
      else (identified, .responder)
    else (s, .droppedUnenrolled)

/-- The session is established before anything else; the echo is sealed in the same stretch. -/
def redeemInvite (rawKey : Data) (reply : Reply) : SessionStore × Exit Action :=
  let p := s.establishSession rawKey reply
  if p.2 then
    ({ p.1 with services := { p.1.services with
        coordinator := p.1.services.coordinator.emitReachablePeers } }, .goOn [])
  else (p.1, .throw [])

/-- What the calls of the services go on with: the two entries of a bundle carry its identity. -/
def entry : Pairing.Action → Pairing.Action → Action
  | .redeem (some code), .establish => .redeemed code.rawKey
  | _, .onBundle rawKey => .scanned rawKey
  | _, a => .service a

/-- The two entries are actions of their own here. -/
def takesBundle : Pairing.Action → Bool
  | .onBundle _ | .establish => true
  | _ => false

def exec : Action → Reply → Option (SessionStore × Exit Action)
  | .service a, reply =>
    if takesBundle a then none
    else
      (s.services.exec a reply.service).map fun p => ({ s with services := p.1 }, p.2.map (entry a))
  | .bundleFrame link data, reply => some ((s.onBundle link (rawKeyOf data) reply).1, .goOn [])
  | .scanned rawKey, reply =>
    let p := s.onBundle reply.service.link (some rawKey) reply
    some (p.1,
      match p.2 with
      | .initiated | .responder => .goOn []
      | .malformed | .droppedUnenrolled | .initiateFailed =>
        .goOn [.service (.rollback rawKey), .service .throwMalformed])
  | .redeemed rawKey, reply => some (s.redeemInvite rawKey reply)
  | .openInbound _, reply =>
    some (match reply.opened with
      | none => s
      | some rawKey => s.write rawKey reply, .goOn [])
  | .sealTo rawKey, reply => some (s.write rawKey reply, .goOn [])

def machine : Machine SessionStore Action Call Reply where
  thread
    | .service call =>
      ⟨(Pairing.thread call).todo.map .service, (Pairing.thread call).onThrow.map .service⟩
    | .bundleFrame link data => ⟨[.bundleFrame link data], []⟩
    | .openInbound payload => ⟨[.openInbound payload], []⟩
    | .sealTo rawKey => ⟨[.sealTo rawKey], []⟩
  exec := exec rawKeyOf

abbrev Step := Transition (Config SessionStore Action) (Event Call Reply)

/-! ### What the claim is about -/

/-- Causes of a change, for the session of one identity. -/
def Scans (k : Data) (_ : SessionStore) (a : Action) (_ : Reply) : Prop := a = .scanned k

def Seals (k : Data) (_ : SessionStore) (a : Action) (_ : Reply) : Prop := a = .sealTo k

def Opens (k : Data) (_ : SessionStore) (a : Action) (reply : Reply) : Prop :=
  ∃ payload, a = .openInbound payload ∧ reply.opened = some k

/-- The step establishes no session with an identity that has one, unless it was scanned in person,
and changes the record of such a session for its own messages, for a seal to it, or for a scan. -/
structure Kept (t : Step) : Prop where
  established : ∃ new, t.post.shared.establishes = t.pre.shared.establishes ++ new ∧
    ∀ k ∈ new, t.pre.shared.HasSession k → Config.Ran t (Scans k)
  changed : ∀ k device, t.pre.shared.HasSession k →
    t.post.shared.records.lookup (k, device) ≠ t.pre.shared.records.lookup (k, device) →
      Config.Ran t (Opens k) ∨ Config.Ran t (Seals k) ∨ Config.Ran t (Scans k)

/-- A frame in the air names an enrolled identity below our own, or an invite whose redemption found
no pairing is established, and there is a session. -/
def Replaces (rawKeyOf : Data → Option Data) (s : SessionStore) (a : Action) (_ : Reply) : Prop :=
  (∃ link data k, a = .bundleFrame link data ∧ rawKeyOf data = some k ∧
    k ∈ s.coordinator.reconnectAllowlistIdentities ∧ s.coordinator.initiates k ∧ s.HasSession k) ∨
  ∃ k, a = .redeemed k ∧ s.HasSession k

/-! ### What an action writes -/

variable {rawKeyOf s} {a : Action} {reply : Reply} {k : Data} {key : Data × UInt32}

theorem lookup_write (h : (s.write k reply).records.lookup key ≠ s.records.lookup key) :
    key.1 = k := by
  unfold write at h
  split at h
  · exact absurd rfl h
  · dsimp only at h
    rw [Dict.lookup_insert] at h
    split at h
    · rename_i hkey
      rw [hkey]
    · exact absurd rfl h

theorem establishes_write : (s.write k reply).establishes = s.establishes := by
  unfold write
  split <;> rfl

/-- The identity for which an action runs `establishSession`. -/
def establishing (rawKeyOf : Data → Option Data) (s : SessionStore) : Action → Option Data
  | .bundleFrame _ data => (rawKeyOf data).filter fun k =>
      decide (k ∈ s.coordinator.reconnectAllowlistIdentities) && s.coordinator.initiates k
  | .scanned k =>
    if k ∈ s.coordinator.reconnectAllowlistIdentities ∧ s.coordinator.initiates k
      then some k else none
  | .redeemed k => some k
  | .service _ | .openInbound _ | .sealTo _ => none

/-- From `s` to `s'` the sessions of `new` were established, and no record of another identity
changed but of those in `used`. -/
structure Wrote (s s' : SessionStore) (new : Option Data) (used : Data → Prop) : Prop where
  establishes : s'.establishes = s.establishes ++ new.toList
  records : ∀ key, s'.records.lookup key ≠ s.records.lookup key → key.1 ∈ new ∨ used key.1

theorem Wrote.none {s' : SessionStore} {used : Data → Prop} (he : s'.establishes = s.establishes)
    (hr : s'.records = s.records) : Wrote s s' none used :=
  ⟨by simp [he], fun key h => absurd (by rw [hr]) h⟩

theorem wrote_establishSession {used : Data → Prop} :
    Wrote s (s.establishSession k reply).1 (some k) used := by
  refine ⟨establishes_write, fun key h => .inl ?_⟩
  rw [lookup_write h]
  exact Option.mem_some_self k

/-- Where nothing was written before. -/
theorem Wrote.after {s₀ s' : SessionStore} {new : Option Data} {used : Data → Prop}
    (h : Wrote s s' new used) (he : s.establishes = s₀.establishes) (hr : s.records = s₀.records) :
    Wrote s₀ s' new used :=
  ⟨he ▸ h.establishes, fun key hkey => h.records key (hr ▸ hkey)⟩

theorem wrote_onBundle {used : Data → Prop} (link : UUID) (rawKey : Option Data) :
    Wrote s (s.onBundle link rawKey reply).1
      (rawKey.filter fun k =>
        decide (k ∈ s.coordinator.reconnectAllowlistIdentities) && s.coordinator.initiates k)
          used := by
  cases rawKey with
  | none => exact .none rfl rfl
  | some k =>
    unfold onBundle
    by_cases henrolled : k ∈ s.coordinator.reconnectAllowlistIdentities
    · by_cases hfirst : s.coordinator.initiates k
      · simp only [henrolled, hfirst, Option.filter_some, decide_true, Bool.and_true, ↓reduceIte]
        exact .after wrote_establishSession rfl rfl
      · simp only [henrolled, hfirst, Option.filter_some, Bool.and_false, ↓reduceIte,
          Bool.false_eq_true]
        exact .none rfl rfl
    · simp only [henrolled, Option.filter_some, decide_false, Bool.false_and, ↓reduceIte,
        Bool.false_eq_true]
      exact .none rfl rfl

theorem establishing_scanned (k : Data) :
    establishing rawKeyOf s (.scanned k) = (some k).filter fun k =>
      decide (k ∈ s.coordinator.reconnectAllowlistIdentities) && s.coordinator.initiates k := by
  simp [establishing, Option.filter_some]

theorem exec_wrote {p : SessionStore × Exit Action} (h : s.exec rawKeyOf a reply = some p) :
    Wrote s p.1 (establishing rawKeyOf s a) fun k => Opens k s a reply ∨ Seals k s a reply := by
  cases a with
  | service a =>
    have hservice : ∃ q, p.1 = { s with services := q } := by
      unfold exec at h
      dsimp only at h
      split at h
      · cases h
      · obtain ⟨q, _, rfl⟩ := Option.map_eq_some_iff.mp h
        exact ⟨q.1, rfl⟩
    obtain ⟨q, hq⟩ := hservice
    rw [hq]
    exact .none rfl rfl
  | bundleFrame link data =>
    obtain rfl := Option.some.inj h
    exact wrote_onBundle link _
  | scanned k =>
    obtain rfl := Option.some.inj h
    rw [establishing_scanned]
    exact wrote_onBundle _ _
  | redeemed k =>
    obtain rfl := Option.some.inj h
    have hwrote : Wrote s (s.establishSession k reply).1 (some k) fun j =>
      Opens j s (.redeemed k) reply ∨ Seals j s (.redeemed k) reply := wrote_establishSession
    unfold redeemInvite
    dsimp only
    split
    · exact ⟨hwrote.establishes, hwrote.records⟩
    · exact hwrote
  | openInbound payload =>
    obtain rfl := Option.some.inj h
    dsimp only [establishing]
    cases hopened : reply.opened with
    | none => exact .none rfl rfl
    | some k =>
      refine ⟨by simp [establishes_write], fun key hkey => .inr (.inl ⟨payload, rfl, ?_⟩)⟩
      rw [lookup_write hkey, hopened]
  | sealTo k =>
    obtain rfl := Option.some.inj h
    refine ⟨by simp [establishes_write, establishing], fun key hkey => .inr (.inr ?_)⟩
    rw [lookup_write hkey]
    rfl

/-! ### Who is replaced -/

theorem kept_iff {t : Step} {p : SessionStore × Exit Action}
    (h : t.pre.shared.exec rawKeyOf a reply = some p)
    (hpost : t.post.shared = p.1) (hran : ∀ q, Config.Ran t q ↔ q t.pre.shared a reply) :
    Kept t ↔ ¬Replaces rawKeyOf t.pre.shared a reply := by
  have hwrote := exec_wrote h
  rw [← hpost] at hwrote
  constructor
  · intro hkept hreplaces
    obtain ⟨new, hnew, hall⟩ := hkept.established
    have hnew : new = (establishing rawKeyOf t.pre.shared a).toList :=
      List.append_cancel_left (hnew.symm.trans hwrote.establishes)
    rcases hreplaces with ⟨link, data, k, rfl, hk, henrolled, hfirst, hsession⟩ | ⟨k, rfl, hsession⟩
    · have hmem : k ∈ new := by
        rw [hnew]
        simp [establishing, hk, Option.filter_some, henrolled, hfirst]
      have hscans := (hran _).mp (hall k hmem hsession)
      cases hscans
    · have hmem : k ∈ new := by simp [hnew, establishing]
      have hscans := (hran _).mp (hall k hmem hsession)
      cases hscans
  · intro hnot
    have hscans (k : Data) (hk : k ∈ establishing rawKeyOf t.pre.shared a)
        (hsession : t.pre.shared.HasSession k) : a = .scanned k := by
      cases a with
      | bundleFrame link data =>
        obtain ⟨hdata, hgate⟩ := Option.filter_eq_some_iff.mp hk
        simp only [Bool.and_eq_true, decide_eq_true_eq] at hgate
        exact absurd (.inl ⟨link, data, k, rfl, hdata, hgate.1, hgate.2, hsession⟩) hnot
      | scanned j =>
        rw [establishing_scanned] at hk
        rw [Option.some.inj (Option.filter_eq_some_iff.mp hk).1]
      | redeemed j =>
        obtain rfl := Option.some.inj hk
        exact absurd (.inr ⟨j, rfl, hsession⟩) hnot
      | service | openInbound | sealTo => cases hk
    refine ⟨⟨_, hwrote.establishes, fun k hk hsession => ?_⟩, fun k device hsession hchanged => ?_⟩
    · exact (hran _).mpr (hscans k (Option.mem_toList.mp hk) hsession)
    · rcases hwrote.records (k, device) hchanged with hnew | hopens | hseals
      · exact .inr (.inr ((hran _).mpr (hscans k hnew hsession)))
      · exact .inl ((hran _).mpr hopens)
      · exact .inr (.inl ((hran _).mpr hseals))

/-- In every run, working sessions are kept exactly when none is replaced from the air or by an
invite. -/
theorem sessions_kept_iff (rawKeyOf : Data → Option Data) (c : Config SessionStore Action)
    (es : List (Event Call Reply)) :
    (∀ t ∈ trace (machine rawKeyOf).step c es, Kept t) ↔
      ∀ t ∈ trace (machine rawKeyOf).step c es, ¬Config.Ran t (Replaces rawKeyOf) := by
  refine forall_trace_iff fun t ht => ?_
  rcases Machine.step_shared ht with ⟨hsame, hquiet⟩ | ⟨a, reply, x, hexec, hran⟩
  · refine iff_of_true ⟨⟨[], by simp [hsame], by simp⟩, fun k device _ h => ?_⟩ (hquiet _)
    rw [hsame] at h
    exact absurd rfl h
  · rw [hran]
    exact kept_iff hexec rfl hran

theorem not_contains_of_establish {s : Pairing} {code : Pairing.Code} {reply : Pairing.Reply}
    {p : Pairing × Exit Pairing.Action} (h : s.redeem (some code) reply = some p)
    (hb : .establish ∈ p.2.added) : ¬s.allowlist.contains code.rawKey := by
  unfold Pairing.redeem at h
  split at h
  · rename_i key id expiresAt heq
    obtain rfl := Option.some.inj heq
    obtain ⟨last, _, rfl⟩ := Option.map_eq_some_iff.mp h
    split at hb
    · rename_i admitted hadmitted
      obtain ⟨hcode, _⟩ := Option.filter_eq_some_iff.mp hadmitted
      obtain rfl := Option.some.inj hcode
      split at hb
      · cases hb
      · split at hb
        · cases hb
        · assumption
    · cases hb
  · obtain rfl := Option.some.inj h
    cases hb

/-- The invite's side has a guard: only the redemption of a code whose identity has no pairing goes
on to establish it. -/
theorem redeemed_added {a : Pairing.Action} {p : SessionStore × Exit Action}
    (h : s.exec rawKeyOf (.service a) reply = some p) (hk : .redeemed k ∈ p.2.added) :
    ∃ code, a = .redeem (some code) ∧ code.rawKey = k ∧ ¬s.services.allowlist.contains k := by
  unfold exec at h
  dsimp only at h
  split at h
  · cases h
  · obtain ⟨q, hq, rfl⟩ := Option.map_eq_some_iff.mp h
    obtain ⟨b, hb, hentry⟩ := Interleave.mem_added_map hk
    have hq : s.services.exec a reply.service = some q := hq
    cases a with
    | redeem code =>
      cases code with
      | none => cases b <;> cases hentry
      | some code =>
        cases b with
        | establish =>
          obtain rfl := Action.redeemed.inj hentry
          exact ⟨code, rfl, rfl, not_contains_of_establish hq hb⟩
        | _ => cases hentry
    | _ => cases b <;> cases hentry

/-! ### A replayed bundle -/

/-- Our own key is above the contact's. -/
def installed : Config SessionStore Action :=
  ⟨⟨Pairing.launch .empty .empty [] (List.replicate 32 9) 0, ∅, []⟩, []⟩

def friend : Data := List.replicate 32 5

/-- The friend is paired in person; then its bundle comes over the air. -/
def replayed : List (Event Call Reply) :=
  [.start (.service (.pairFromScanned (some ⟨friend, none⟩))), .step 0 {}, .step 0 {}, .step 0 {},
    .step 0 {}, .step 0 { record := some [1] }, .start (.bundleFrame 7 (List.replicate 64 5)),
    .step 1 { record := some [2] }]

set_option maxRecDepth 8192 in
theorem session_replaced :
    ∃ c', run (machine FirstContactCoordinator.prefixKey).step installed replayed = some c' ∧
    c'.shared.establishes = [friend, friend] ∧ c'.shared.records.lookup (friend, 1) = some [2] ∧
    ¬∀ t ∈ trace (machine FirstContactCoordinator.prefixKey).step installed replayed, Kept t := by
  refine ⟨_, rfl, rfl, rfl, fun hall => ?_⟩
  have hlast := hall _ (List.mem_of_getLast?
    (l := trace (machine FirstContactCoordinator.prefixKey).step installed replayed) rfl)
  obtain ⟨new, hnew, hscanned⟩ := hlast.established
  obtain rfl : [friend] = new := List.append_cancel_left hnew
  obtain ⟨a, reply, hacts, hscans⟩ := hscanned friend (by simp) ⟨1, rfl⟩
  obtain rfl := hscans
  cases hacts

end SessionStore

end AeroNyra
