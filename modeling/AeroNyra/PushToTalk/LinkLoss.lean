import AeroNyra.PushToTalk.Listener

/-! Sessions and the links they came over.  Nothing but a close takes a context away or ends a
session, so a session outlives its link unless it was closed before the link was lost.  The history
beside the machine attributes the sessions of the audio owner to their peers. -/

namespace AeroNyra.Listener

open Interleave

/-! ### What an action does to the links -/

/-- The links and their reachability are the same. -/
structure SameLinks (c c' : FirstContactCoordinator) : Prop where
  linkPeers : c'.linkPeers = c.linkPeers
  reachableLinks : c'.reachableLinks = c.reachableLinks

variable {rawKeyOf : Data → Option Data} {hashHex : Data → String}
  {decodeManifest : Data → Option MediaManifest} {crypto : PTTSessionCrypto}

/-- What the services do to the links: a revocation forgets those of its peer, and a QR pairing maps
a link of its own. -/
theorem service_links {s : Pairing} {a : Pairing.Action} {reply : Pairing.Reply}
    {p : Pairing × Exit Pairing.Action} (h : s.exec a reply = some p) :
    SameLinks s.coordinator p.1.coordinator ∨
    (∃ k, a = .removeReconnectContact k ∧ k ∈ s.coordinator.reconnectAllowlistIdentities ∧
      p.1.coordinator.linkPeers = s.coordinator.linkPeers.filterValues (· != k) ∧
      p.1.coordinator.reachableLinks = s.coordinator.reachableLinks) ∨
    (∃ k, a = .onBundle k ∧ k ∈ s.coordinator.reconnectAllowlistIdentities ∧
      p.1.coordinator.linkPeers = AList.insert reply.link k s.coordinator.linkPeers ∧
      p.1.coordinator.reachableLinks = s.coordinator.reachableLinks) := by
  have hsame {s' : Pairing} (hs : s'.coordinator = s.coordinator) :
      SameLinks s.coordinator s'.coordinator := by
    rw [hs]
    exact ⟨rfl, rfl⟩
  have hallowlist (updated : ContactAllowlist) (next : List Pairing.Action) :
      (s.saveAllowlist updated reply next).1.coordinator = s.coordinator := by
    unfold Pairing.saveAllowlist
    split <;> rfl
  have hledger (updated : PendingInvites) (next : List Pairing.Action) :
      (s.saveLedger updated reply next).1.coordinator = s.coordinator := by
    unfold Pairing.saveLedger
    split <;> rfl
  have hdenylist (updated : List BlockedContact) :
      (s.saveDenylist updated reply).1.coordinator = s.coordinator := by
    unfold Pairing.saveDenylist
    split <;> rfl
  have hrevoke (k : Data) : (s.revoke k reply).1.coordinator = s.coordinator := by
    unfold Pairing.revoke
    split
    · exact hallowlist _ _
    · rfl
  cases a with
  | enroll k v =>
    obtain rfl := Option.some.inj h
    refine .inl (hsame ?_)
    unfold Pairing.enroll
    split
    · exact hallowlist _ _
    · rfl
  | markVerified k =>
    obtain rfl := Option.some.inj h
    refine .inl (hsame ?_)
    unfold Pairing.markVerified
    split
    · exact hallowlist _ _
    · rfl
  | revoke k =>
    obtain rfl := Option.some.inj h
    exact .inl (hsame (hrevoke k))
  | rollback k =>
    obtain rfl := Option.some.inj h
    refine .inl (hsame ?_)
    have hk := hrevoke k
    unfold Pairing.rollback
    split <;> rename_i heq <;> rwa [heq] at hk
  | addReconnectContact k =>
    obtain rfl := Option.some.inj h
    refine .inl ?_
    dsimp only [FirstContactCoordinator.addReconnectContact]
    split
    · split <;> exact ⟨rfl, rfl⟩
    · exact ⟨rfl, rfl⟩
  | removeReconnectContact k =>
    obtain rfl := Option.some.inj h
    dsimp only [FirstContactCoordinator.removeReconnectContact]
    split
    · rename_i hk
      exact .inr (.inl ⟨k, rfl, hk, rfl, rfl⟩)
    · exact .inl ⟨rfl, rfl⟩
  | addVerifiedContact k =>
    obtain rfl := Option.some.inj h
    refine .inl ?_
    dsimp only [FirstContactCoordinator.addVerifiedContact]
    split
    · split <;> exact ⟨rfl, rfl⟩
    · exact ⟨rfl, rfl⟩
  | removeVerifiedContact k =>
    obtain rfl := Option.some.inj h
    refine .inl ?_
    dsimp only [FirstContactCoordinator.removeVerifiedContact]
    split <;> exact ⟨rfl, rfl⟩
  | setBlockedIdentities keys =>
    obtain rfl := Option.some.inj h
    exact .inl ⟨rfl, rfl⟩
  | mintInvite ttlMillis =>
    simp only [Pairing.exec, Pairing.mintInvite, Option.bind_eq_bind, Option.bind_eq_some_iff] at h
    obtain ⟨expiresAt, _, pruned, _, h⟩ := h
    obtain rfl := Option.some.inj h
    exact .inl (hsame (hledger _ _))
  | burn inviteID redeemer =>
    simp only [Pairing.exec, Pairing.burn] at h
    split at h
    · obtain ⟨q, _, rfl⟩ := Option.map_eq_some_iff.mp h
      split
      · exact .inl (hsame (hledger _ _))
      · exact .inl ⟨rfl, rfl⟩
    · obtain rfl := Option.some.inj h
      exact .inl ⟨rfl, rfl⟩
  | scan code =>
    obtain rfl := Option.some.inj h
    refine .inl (hsame ?_)
    unfold Pairing.scan
    split <;> rfl
  | onBundle k =>
    obtain rfl := Option.some.inj h
    dsimp only [Pairing.onBundle, FirstContactCoordinator.onBundle]
    split
    · rename_i hk
      exact .inr (.inr ⟨k, rfl, hk, rfl, rfl⟩)
    · exact .inl ⟨rfl, rfl⟩
  | throwMalformed =>
    obtain rfl := Option.some.inj h
    exact .inl ⟨rfl, rfl⟩
  | redeem code =>
    simp only [Pairing.exec, Pairing.redeem] at h
    split at h
    · obtain ⟨last, _, rfl⟩ := Option.map_eq_some_iff.mp h
      refine .inl (hsame ?_)
      split
      · split
        · rfl
        · split <;> rfl
      · rfl
    · obtain rfl := Option.some.inj h
      exact .inl ⟨rfl, rfl⟩
  | establish =>
    obtain rfl := Option.some.inj h
    refine .inl ?_
    unfold Pairing.establish
    split <;> exact ⟨rfl, rfl⟩
  | echoRouted =>
    obtain rfl := Option.some.inj h
    exact .inl ⟨rfl, rfl⟩
  | block k petname =>
    obtain rfl := Option.some.inj h
    exact .inl (hsame (hdenylist _))
  | unblock k =>
    obtain rfl := Option.some.inj h
    refine .inl (hsame ?_)
    unfold Pairing.unblock
    split <;> rfl
  | release k =>
    obtain rfl := Option.some.inj h
    exact .inl (hsame (hdenylist _))

/-- What a transport does to the links: it says which are reachable, or identifies one. -/
theorem presence_links {c : FirstContactCoordinator} {a : FirstContactCoordinator.Action}
    {reply : FirstContactCoordinator.Reply}
    {p : FirstContactCoordinator × Exit FirstContactCoordinator.Action} (hlinks : drivesLinks a)
    (h : FirstContactCoordinator.exec rawKeyOf c a reply = some p) :
    SameLinks c p.1 ∨
    (∃ ids, a = .call (.onReachable ids) ∧ p.1.linkPeers = c.linkPeers ∧
      p.1.reachableLinks = ids.toFinset) ∨
    (∃ link k, a.Identifies rawKeyOf link k c reply ∧
      p.1.linkPeers = AList.insert link k c.linkPeers ∧ p.1.reachableLinks = c.reachableLinks) := by
  have hgreet (links : List UUID) (c : FirstContactCoordinator) : SameLinks c
    (c.greetNext links).1 := by
    obtain ⟨greeted, keys, emitted, hgreeted⟩ := c.greetNext_eq links
    rw [hgreeted]
    exact ⟨rfl, rfl⟩
  cases a with
  | greet links =>
    obtain rfl := Option.some.inj h
    exact .inl (hgreet links c)
  | call call =>
    cases call with
    | onReachable ids =>
      obtain rfl := Option.some.inj h
      have hafter := hgreet ids.dedup { c with
        reachableLinks := ids.toFinset
        greetedLinks := c.greetedLinks ∩ ids.toFinset }
      exact .inr (.inl ⟨ids, rfl, hafter.linkPeers, hafter.reachableLinks⟩)
    | onBundle link data =>
      obtain rfl := Option.some.inj h
      dsimp only [FirstContactCoordinator.onBundle]
      split
      · exact .inl ⟨rfl, rfl⟩
      · rename_i k hk
        split
        · rename_i henrolled
          exact .inr (.inr ⟨link, k, .inl ⟨data, rfl, hk, henrolled⟩, rfl, rfl⟩)
        · exact .inl ⟨rfl, rfl⟩
    | onReconnectFrame link data =>
      obtain rfl := Option.some.inj h
      dsimp only [FirstContactCoordinator.onReconnectFrame]
      split
      · split
        · exact .inl ⟨rfl, rfl⟩
        · rename_i discriminator ciphertext
          split
          · rename_i hdisc
            unfold FirstContactCoordinator.onReconnectItsMe
            split
            · exact .inl ⟨rfl, rfl⟩
            · rename_i k plaintext hopened
              split
              · rename_i hverified
                split
                · rename_i hhello
                  refine .inr (.inr ⟨link, k, .inr ⟨ciphertext, plaintext, ?_, hopened, hhello,
                    hverified⟩, rfl, rfl⟩)
                  rw [hdisc]
                · exact .inl ⟨rfl, rfl⟩
              · exact .inl ⟨rfl, rfl⟩
          · exact .inl ⟨rfl, rfl⟩
      · exact .inl ⟨rfl, rfl⟩
    | enableReconnect | redeemInvite | addReconnectContact | removeReconnectContact
      | addVerifiedContact | removeVerifiedContact | setBlockedIdentities => cases hlinks

/-! ### Sessions and their peers -/

/-- The peer of each session that the owner holds open. -/
abbrev Sessions := Dict Data Data

/-- The session that the inbox is about to hand to the owner, with its peer. -/
def opening (l : Listener) : Action → Option (Data × Data)
  | .handleEvent =>
    match l.events[l.handled]? with
    | some (.pttOpened k id) => some (id, k)
    | _ => none
  | _ => none

theorem opening_eq_none {l : Listener} {a : Action} (h : a ≠ .handleEvent) :
    opening l a = none := by
  cases a with
  | handleEvent => exact absurd rfl h
  | _ => rfl

/-- A session that the owner takes belongs to the peer of its event, until the owner drops it. -/
def Sessions.note (sessions : Sessions) (l : Listener) (a : Action) (_ : Reply) (l' : Listener) :
    Sessions :=
  let opened : Sessions :=
    match opening l a with
    | some (id, k) => if id ∈ l.pttSessionOwner.openSessions then sessions
        else AList.insert id k sessions
    | none => sessions
  opened.filterEntries fun id _ => decide (id ∈ l'.pttSessionOwner.openSessions)

/-- A reachable link belongs to the peer. -/
def Within (l : Listener) (k : Data) : Prop :=
  ∃ link ∈ l.coordinator.reachableLinks, l.coordinator.linkPeers.lookup link = some k

/-- Every context is on a reachable link, and every open session is one of a peer in reach. -/
structure Linked (l : Listener) (sessions : Sessions) : Prop where
  known : ∀ id, id ∈ l.pttSessionOwner.openSessions ↔ (sessions.lookup id).isSome
  contexts : ∀ link, l.pttReceiver.HasContext link → link ∈ l.coordinator.reachableLinks
  peers : ∀ id k, sessions.lookup id = some k → l.Within k

/-- The action identifies the link as one of `k`. -/
def Maps (rawKeyOf : Data → Option Data) (l : Listener) (a : Action) (reply : Reply) (link : UUID)
    (k : Data) : Prop :=
  (∃ pa pr, a = .presence pa ∧ reply = .presence pr ∧
    pa.Identifies rawKeyOf link k l.coordinator pr) ∨
    ∃ pr, a = .service (.onBundle k) ∧ reply = .service pr ∧ pr.link = link ∧ k ∈ l.enrolled

/-- The action takes a link from a session or a session to no link: a link with a context is lost; a
peer with an open session loses its last reachable link, or is revoked, or its last reachable link
turns out to be another peer's; a session is opened over a link that is not reachable, or handed to
the owner when its peer is out of reach. -/
inductive Severs (rawKeyOf : Data → Option Data) (l : Listener) (sessions : Sessions) :
    Action → Reply → Prop
  | contextLost {ids reply link} (context : l.pttReceiver.HasContext link) (lost : link ∉ ids) :
      Severs rawKeyOf l sessions (.presence (.call (.onReachable ids))) reply
  | peerLost {ids reply id k} (session : sessions.lookup id = some k)
      (lost : ∀ link ∈ ids, l.coordinator.linkPeers.lookup link ≠ some k) :
      Severs rawKeyOf l sessions (.presence (.call (.onReachable ids))) reply
  | revoked {k reply id} (enrolled : k ∈ l.enrolled) (session : sessions.lookup id = some k) :
      Severs rawKeyOf l sessions (.service (.removeReconnectContact k)) reply
  | remapped {a reply link j id k} (maps : Maps rawKeyOf l a reply link j) (other : k ≠ j)
      (session : sessions.lookup id = some k)
      (lost : ∀ link' ∈ l.coordinator.reachableLinks, link' ≠ link →
        l.coordinator.linkPeers.lookup link' ≠ some k) : Severs rawKeyOf l sessions a reply
  | openedFar {a refused k id secret link} (opens : l.opens a = some (k, id, secret))
      (mapped : link ∈ l.linksFor k) (decodes : link ∉ refused)
      (far : link ∉ l.coordinator.reachableLinks) :
      Severs rawKeyOf l sessions a (.decoders refused)
  | handedFar {a} {ok : Bool} {k id} (opening : opening l a = some (id, k))
      (new : id ∉ l.pttSessionOwner.openSessions)
      (takes : ok ∨ l.pttSessionOwner.openSessions ≠ []) (far : ¬l.Within k) :
      Severs rawKeyOf l sessions a (.activated ok)

variable {l l' : Listener} {a : Action} {reply : Reply} {sessions : Sessions}

theorem Sessions.lookup_note {id : Data} : (note sessions l a reply l').lookup id =
    if id ∈ l'.pttSessionOwner.openSessions then
      match opening l a with
      | some (j, k) =>
        if j ∉ l.pttSessionOwner.openSessions ∧ id = j then some k else sessions.lookup id
      | none => sessions.lookup id
    else none := by
  have hfilter (d : Sessions) :
      (d.filterEntries fun id _ => decide (id ∈ l'.pttSessionOwner.openSessions)).lookup id =
        if id ∈ l'.pttSessionOwner.openSessions then d.lookup id else none := by
    rw [Dict.lookup_filterEntries]
    by_cases hid : id ∈ l'.pttSessionOwner.openSessions
    · cases d.lookup id <;> simp [hid]
    · simp [hid]
  unfold note
  rw [hfilter]
  split
  · cases hopening : opening l a with
    | none => rfl
    | some p =>
      obtain ⟨j, k⟩ := p
      dsimp only
      by_cases hj : j ∈ l.pttSessionOwner.openSessions
      · simp [hj]
      · rw [if_neg hj, Dict.lookup_insert]
        simp [hj]
  · rfl

/-- An action that leaves the owner alone keeps the invariant when contexts and peers keep links. -/
theorem Linked.same_owner (h : Linked l sessions) (howner : l'.pttSessionOwner = l.pttSessionOwner)
    (hopening : opening l a = none)
    (hcontexts : ∀ link, l'.pttReceiver.HasContext link → link ∈ l'.coordinator.reachableLinks)
    (hpeers : ∀ id k, sessions.lookup id = some k → l'.Within k) :
    Linked l' (sessions.note l a reply l') := by
  have hlookup (id : Data) : (sessions.note l a reply l').lookup id = sessions.lookup id := by
    rw [Sessions.lookup_note, hopening, howner]
    split
    · rfl
    · rename_i hid
      cases hs : sessions.lookup id with
      | none => rfl
      | some k => exact absurd ((h.known id).mpr (by rw [hs]; rfl)) hid
  refine ⟨fun id => ?_, hcontexts, fun id k hk => hpeers id k (hlookup id ▸ hk)⟩
  rw [hlookup, howner]
  exact h.known id

/-- Links and reachability carry over. -/
theorem Within.same (hlinks : SameLinks l.coordinator l'.coordinator) {k : Data} (h : l.Within k) :
    l'.Within k := by
  obtain ⟨link, hreach, hpeer⟩ := h
  exact ⟨link, hlinks.reachableLinks ▸ hreach, by rw [hlinks.linkPeers]; exact hpeer⟩

/-- So does the invariant, when the owner is left alone and new contexts are on reachable links. -/
theorem Linked.same_links (h : Linked l sessions) (hlinks : SameLinks l.coordinator l'.coordinator)
    (howner : l'.pttSessionOwner = l.pttSessionOwner) (hopening : opening l a = none)
    (hcontexts : ∀ link, l'.pttReceiver.HasContext link →
      l.pttReceiver.HasContext link ∨ link ∈ l.coordinator.reachableLinks) :
    Linked l' (sessions.note l a reply l') := by
  refine h.same_owner howner hopening (fun link hlink => ?_) fun id k hk => ?_
  · rw [hlinks.reachableLinks]
    exact (hcontexts link hlink).elim (h.contexts link) id
  · exact Within.same hlinks (h.peers id k hk)

/-- A link that is mapped to another peer leaves one to each peer that has a second. -/
theorem Within.mapped {link : UUID} {j k : Data} (h : l.Within k)
    (hpeers : l'.coordinator.linkPeers = AList.insert link j l.coordinator.linkPeers)
    (hreach : l'.coordinator.reachableLinks = l.coordinator.reachableLinks)
    (hother : k = j ∨ ∃ link' ∈ l.coordinator.reachableLinks, link' ≠ link ∧
      l.coordinator.linkPeers.lookup link' = some k) : l'.Within k := by
  rcases hother with rfl | ⟨link', hlink', hne, hk⟩
  · obtain ⟨link', hlink', hk⟩ := h
    refine ⟨link', hreach ▸ hlink', ?_⟩
    rw [hpeers, Dict.lookup_insert]
    split
    · rfl
    · exact hk
  · refine ⟨link', hreach ▸ hlink', ?_⟩
    rw [hpeers, Dict.lookup_insert, if_neg hne]
    exact hk

/-- A link that turns out to be a peer's leaves every peer with a session in reach, unless it severs
one. -/
theorem Linked.mapped (h : Linked l sessions) {link : UUID} {j : Data}
    (hkeeps : ¬Severs rawKeyOf l sessions a reply) (hmaps : Maps rawKeyOf l a reply link j)
    (hpeers : l'.coordinator.linkPeers = AList.insert link j l.coordinator.linkPeers)
    (hreach : l'.coordinator.reachableLinks = l.coordinator.reachableLinks) (id k : Data)
    (hk : sessions.lookup id = some k) : l'.Within k := by
  refine (h.peers id k hk).mapped hpeers hreach ?_
  by_contra hlost
  obtain ⟨hother, hlost⟩ := not_or.mp hlost
  refine hkeeps (.remapped hmaps hother hk fun link' hlink' hne hk' => ?_)
  exact hlost ⟨link', hlink', hne, hk'⟩

theorem Linked.service {a : Pairing.Action} {reply : Pairing.Reply}
    {p : Pairing × Exit Pairing.Action} (h : Linked l sessions)
    (hexec : l.services.exec a reply = some p)
    (hkeeps : ¬Severs rawKeyOf l sessions (.service a) (.service reply)) :
    Linked { l with services := p.1 }
      (sessions.note l (.service a) (.service reply) { l with services := p.1 }) := by
  rcases service_links hexec with hsame | ⟨k, rfl, henrolled, hlinks, hreach⟩ |
    ⟨k, rfl, henrolled, hlinks, hreach⟩
  · exact h.same_links hsame rfl rfl fun link hlink => .inl hlink
  · refine h.same_owner rfl rfl (fun link hlink => hreach ▸ h.contexts link hlink) fun id j hj => ?_
    have hne : j ≠ k := by
      rintro rfl
      exact hkeeps (.revoked henrolled hj)
    obtain ⟨link, hlink, hpeer⟩ := h.peers id j hj
    refine ⟨link, hreach ▸ hlink, ?_⟩
    show p.1.coordinator.linkPeers.lookup link = some j
    have hpeer : l.services.coordinator.linkPeers.lookup link = some j := hpeer
    rw [hlinks, Dict.lookup_filterValues, hpeer]
    simp [hne]
  · refine h.same_owner rfl rfl (fun link hlink => hreach ▸ h.contexts link hlink) ?_
    exact h.mapped hkeeps (.inr ⟨reply, rfl, rfl, rfl, henrolled⟩) hlinks hreach

theorem Linked.presence {a : FirstContactCoordinator.Action} {reply : FirstContactCoordinator.Reply}
    {p : FirstContactCoordinator × Exit FirstContactCoordinator.Action} (h : Linked l sessions)
    (hlinks : drivesLinks a)
      (hexec : FirstContactCoordinator.exec rawKeyOf l.coordinator a reply = some p)
    (hkeeps : ¬Severs rawKeyOf l sessions (.presence a) (.presence reply)) :
    Linked { l with services := { l.services with coordinator := p.1 } }
      (sessions.note l (.presence a) (.presence reply)
        { l with services := { l.services with coordinator := p.1 } }) := by
  rcases presence_links hlinks hexec with hsame | ⟨ids, rfl, hpeers, hreach⟩ |
    ⟨link, k, hidentifies, hpeers, hreach⟩
  · exact h.same_links hsame rfl rfl fun link hlink => .inl hlink
  · refine h.same_owner rfl rfl (fun link hlink => ?_) fun id k hk => ?_
    · show link ∈ p.1.reachableLinks
      rw [hreach, List.mem_toFinset]
      by_contra hlost
      exact hkeeps (.contextLost hlink hlost)
    · by_contra hfar
      refine hkeeps (.peerLost hk fun link hlink hpeer => hfar ⟨link, ?_, ?_⟩)
      · show link ∈ p.1.reachableLinks
        rw [hreach, List.mem_toFinset]
        exact hlink
      · show p.1.linkPeers.lookup link = some k
        rw [hpeers]
        exact hpeer
  · refine h.same_owner rfl rfl (fun link hlink => hreach ▸ h.contexts link hlink) ?_
    exact h.mapped hkeeps (.inl ⟨a, reply, rfl, rfl, hidentifies⟩) hpeers hreach

/-- An action of the audio owner keeps the invariant when every session that it opens is one of a
peer in reach. -/
theorem Linked.owner (h : Linked l sessions) (howned : ∀ j ∈ l'.pttSessionOwner.openSessions,
      j ∈ l.pttSessionOwner.openSessions ∨
        j ∉ l.pttSessionOwner.openSessions ∧ ∃ k, opening l a = some (j, k) ∧ l.Within k)
    (hservices : l'.services = l.services) (hreceiver : l'.pttReceiver = l.pttReceiver) :
    Linked l' (sessions.note l a reply l') := by
  have hwithin {k : Data} (hk : l.Within k) : l'.Within k := by
    obtain ⟨link, hreach, hpeer⟩ := hk
    refine ⟨link, ?_, ?_⟩
    · rw [coordinator, hservices]
      exact hreach
    · rw [coordinator, hservices]
      exact hpeer
  have hnote (j : Data) (hj : j ∈ l'.pttSessionOwner.openSessions) :
      ∃ k, (sessions.note l a reply l').lookup j = some k ∧ l'.Within k := by
    rw [Sessions.lookup_note, if_pos hj]
    rcases howned j hj with hold | ⟨hnew, k, hopening, hk⟩
    · obtain ⟨k, hk⟩ := Option.isSome_iff_exists.mp ((h.known j).mp hold)
      refine ⟨k, ?_, hwithin (h.peers j k hk)⟩
      split
      · rw [if_neg fun hj' => hj'.1 (hj'.2 ▸ hold)]
        exact hk
      · exact hk
    · rw [hopening]
      exact ⟨k, if_pos ⟨hnew, rfl⟩, hwithin hk⟩
  refine ⟨fun id => ⟨fun hid => ?_, fun hid => ?_⟩, fun link hlink => ?_, fun id k hk => ?_⟩
  · obtain ⟨k, hk, _⟩ := hnote id hid
    rw [hk]
    rfl
  · rw [Sessions.lookup_note] at hid
    split at hid
    · assumption
    · cases hid
  · rw [coordinator, hservices]
    rw [hreceiver] at hlink
    exact h.contexts link hlink
  · have hid : id ∈ l'.pttSessionOwner.openSessions := by
      by_contra hid
      rw [Sessions.lookup_note, if_neg hid] at hk
      cases hk
    obtain ⟨j, hj, hwithin⟩ := hnote id hid
    cases hk.symm.trans hj
    exact hwithin

theorem Linked.handle {event : Yield} {ok : Bool} (h : Linked l sessions)
    (hnext : l.events[l.handled]? = some event)
    (hkeeps : ¬Severs rawKeyOf l sessions .handleEvent (.activated ok)) :
    Linked (l.handle event ok)
      (sessions.note l .handleEvent (.activated ok) (l.handle event ok)) := by
  refine h.owner (fun j hj => ?_) rfl rfl
  cases event with
  | pttOpened k id =>
    have hj : j ∈ (l.pttSessionOwner.opened id ok).openSessions := hj
    rcases PTTSessionOwner.mem_opened hj with hold | ⟨rfl, hnew⟩
    · exact .inl hold
    · have hopening : opening l .handleEvent = some (j, k) := by simp [opening, hnext]
      refine .inr ⟨hnew, k, hopening, ?_⟩
      by_contra hfar
      exact hkeeps (.handedFar hopening hnew (PTTSessionOwner.takes_of_mem_opened hj hnew) hfar)
  | pttClosed k id => exact .inl (PTTSessionOwner.mem_closed.mp hj).1
  | content | established | learnedNostrIdentity | callSignal => exact .inl hj

theorem Linked.effect (h : Linked l sessions) (heffect : Effect rawKeyOf crypto l a reply l')
    (hkeeps : ¬Severs rawKeyOf l sessions a reply) : Linked l' (sessions.note l a reply l') := by
  cases heffect with
  | service hexec => exact h.service hexec hkeeps
  | presence hlinks hexec => exact h.presence hlinks hexec hkeeps
  | burn hburn =>
    rename_i inviteID _ rawKey reply p
    have hexec : l.services.exec (.burn inviteID rawKey) reply = some p := hburn
    rcases service_links hexec with hsame | ⟨k, ha, _⟩ | ⟨k, ha, _⟩
    · exact h.same_links hsame rfl rfl fun link hlink => .inl hlink
    · cases ha
    · cases ha
  | open_ hopens =>
    rename_i refused k id secret _
    have hopening : opening l a = none := by
      apply opening_eq_none
      rintro rfl
      cases hopens
    have hsame : SameLinks l.coordinator (l.pttOpen crypto k id secret refused).coordinator := by
      rw [coordinator, coordinator, pttOpen_services]
      exact ⟨rfl, rfl⟩
    refine h.same_links hsame pttOpen_pttSessionOwner hopening fun link hlink => ?_
    rw [PTTReceiver.HasContext, pttOpen_contexts] at hlink
    split at hlink
    · rename_i hnew
      right
      by_contra hfar
      exact hkeeps (.openedFar hopens hnew.1 hnew.2 hfar)
    · exact .inl hlink
  | close _ hcloses =>
    rename_i k id _
    have hopening : opening l a = none := by
      apply opening_eq_none
      rintro rfl
      cases hcloses
    refine h.same_links ⟨rfl, rfl⟩ rfl hopening fun link hlink => ?_
    rw [PTTReceiver.HasContext, pttClose_contexts] at hlink
    split at hlink
    · cases hlink
    · exact .inl hlink
  | audio link frame decoded =>
    refine h.same_links ⟨rfl, rfl⟩ rfl rfl fun j hj => ?_
    exact .inl ((PTTReceiver.hasContext_receive crypto).mp hj)
  | tick => exact h.same_owner rfl rfl h.contexts h.peers
  | engineStopped => exact h.same_owner rfl rfl h.contexts h.peers
  | handle _ hnext => exact h.handle hnext hkeeps
  | interruption =>
    refine h.owner (fun j hj => ?_) rfl rfl
    exact absurd hj PTTSessionOwner.not_mem_interruptionBegan
  | still hreceives hopens hcloses hstill =>
    have hopening : opening l a = none := by
      apply opening_eq_none
      rintro rfl
      cases hreceives
    have hsame : SameLinks l.coordinator l'.coordinator := by
      rw [coordinator, coordinator, hstill.services]
      exact ⟨rfl, rfl⟩
    refine h.same_links hsame hstill.pttSessionOwner hopening fun link hlink => ?_
    rw [hstill.pttReceiver] at hlink
    exact .inl hlink

/-! ### Runs -/

/-- The machine with the sessions beside it. -/
def linkedMachine (rawKeyOf : Data → Option Data) (hashHex : Data → String)
    (decodeManifest : Data → Option MediaManifest) (crypto : PTTSessionCrypto) :
    Machine (Listener × Sessions) Action Call Reply :=
  (machine rawKeyOf hashHex decodeManifest crypto).observed Sessions.note

abbrev LinkedStep := Transition (Config (Listener × Sessions) Action) (Event Call Reply)

/-- The app after its launch, with no sessions. -/
def launchLinked (services : Pairing) : Config (Listener × Sessions) Action :=
    ⟨(launch services, ∅), []⟩

/-- No session outlives its link: every link with a context is reachable, every open session is one
of a peer that has a reachable link, and the owner is not live once no such peer has one. -/
structure Bound (l : Listener) (sessions : Sessions) : Prop where
  contexts : ∀ link, l.pttReceiver.HasContext link → link ∈ l.coordinator.reachableLinks
  attributed : ∀ id ∈ l.pttSessionOwner.openSessions, ∃ k, sessions.lookup id = some k
  closed : ∀ k, ¬l.Within k → ∀ id, sessions.lookup id = some k →
    id ∉ l.pttSessionOwner.openSessions
  silent : (∀ id k, sessions.lookup id = some k → ¬l.Within k) → l.pttSessionOwner.isLive = false

theorem Linked.bound (h : Linked l sessions) : Bound l sessions where
  contexts := h.contexts
  attributed id hid := Option.isSome_iff_exists.mp ((h.known id).mp hid)
  closed k hfar id hk := absurd (h.peers id k hk) hfar
  silent hfar := by
    rw [l.pttSessionOwner.live]
    have hempty : l.pttSessionOwner.openSessions = [] := by
      apply List.eq_nil_iff_forall_not_mem.mpr
      intro id hid
      obtain ⟨k, hk⟩ := Option.isSome_iff_exists.mp ((h.known id).mp hid)
      exact hfar id k hk (h.peers id k hk)
    simp [hempty]

/-- The links hold in the shared state. -/
def AllLinked (c : Config (Listener × Sessions) Action) : Prop := Linked c.shared.1 c.shared.2

/-- The step takes no link from a session, and no session to where there is none. -/
def LinkedStep.Keeps (rawKeyOf : Data → Option Data) (t : LinkedStep) : Prop :=
  ¬Config.Ran t fun s a reply => Severs rawKeyOf s.1 s.2 a reply

theorem allLinked_launch (services : Pairing) : AllLinked (launchLinked services) := by
  refine ⟨fun id => ?_, fun link hlink => ?_, fun id k hk => ?_⟩
  · simp [launchLinked, launch, PTTSessionOwner.new]
  · simp [launchLinked, launch, PTTReceiver.HasContext] at hlink
  · simp [launchLinked] at hk

theorem allLinked_step (t : LinkedStep)
    (ht : (linkedMachine rawKeyOf hashHex decodeManifest crypto).step t.pre t.event = some t.post)
    (hkeeps : LinkedStep.Keeps rawKeyOf t) (h : AllLinked t.pre) : AllLinked t.post := by
  refine Machine.observed_step_invariant Linked ?_ ht hkeeps h
  intro l sessions a reply l' x hexec hkeeps hlinked
  exact hlinked.effect (exec_effect hexec) hkeeps

/-- In every run that severs nothing, no session outlives its link in any state reached. -/
theorem session_ends_with_link {services : Pairing} {es : List (Event Call Reply)}
    {c : Config (Listener × Sessions) Action}
    (hkeeps : ∀ t ∈ trace (linkedMachine rawKeyOf hashHex decodeManifest crypto).step
      (launchLinked services) es, LinkedStep.Keeps rawKeyOf t)
    (hrun : run (linkedMachine rawKeyOf hashHex decodeManifest crypto).step
      (launchLinked services) es = some c) : Bound c.shared.1 c.shared.2 := by
  have hlinked : AllLinked c :=
    run_invariant AllLinked _ allLinked_step (allLinked_launch services) hkeeps hrun
  exact hlinked.bound

/-- No link changes while there is a session, and sessions are opened and handed over in reach. -/
def LinkedStep.keepsBool (t : LinkedStep) : Bool :=
  (t.pre.acts t.event).all fun p =>
    let l := t.pre.shared.1
    match p.1 with
    | .presence _ | .service _ => l.pttReceiver.contexts.keys.isEmpty && t.pre.shared.2.keys.isEmpty
    | a =>
      (l.opens a).all (fun o => (l.linksFor o.1).all (· ∈ l.coordinator.reachableLinks)) &&
        (opening l a).all fun o => (l.linksFor o.2).any (· ∈ l.coordinator.reachableLinks)

theorem LinkedStep.keeps_of_keepsBool {t : LinkedStep} (h : t.keepsBool) :
    LinkedStep.Keeps rawKeyOf t := by
  rintro ⟨a, reply, hacts, hsevers⟩
  rw [keepsBool, hacts, Option.all_some] at h
  dsimp only at h
  have hnone {κ ν : Type} [DecidableEq κ] {d : Dict κ ν} (hd : d.keys.isEmpty) (k : κ) :
      d.lookup k = none := by
    apply AList.lookup_eq_none.mpr
    rw [AList.mem_keys, List.isEmpty_iff.mp hd]
    exact List.not_mem_nil
  split at h
  · rw [Bool.and_eq_true] at h
    cases hsevers with
    | contextLost hcontext => simp [PTTReceiver.HasContext, hnone h.1] at hcontext
    | peerLost hsession => simp [hnone h.2] at hsession
    | remapped _ _ hsession => simp [hnone h.2] at hsession
    | openedFar hopens => cases hopens
    | handedFar hopening => cases hopening
  · rw [Bool.and_eq_true] at h
    cases hsevers with
    | revoked _ hsession => simp [hnone h.2] at hsession
    | remapped _ _ hsession => simp [hnone h.2] at hsession
    | openedFar hopens => cases hopens
    | handedFar hopening => cases hopening
  · rename_i hpresence hservice
    rw [Bool.and_eq_true] at h
    cases hsevers with
    | contextLost | peerLost => exact hpresence _ rfl
    | revoked => exact hservice _ rfl
    | remapped hmaps =>
      rcases hmaps with ⟨pa, _, rfl, _⟩ | ⟨_, rfl, _⟩
      · exact hpresence pa rfl
      · exact hservice _ rfl
    | openedFar hopens hmapped _ hfar =>
      rw [hopens, Option.all_some] at h
      exact hfar (of_decide_eq_true (List.all_eq_true.mp h.1 _ hmapped))
    | handedFar hopening _ _ hfar =>
      rw [hopening, Option.all_some, List.any_eq_true] at h
      obtain ⟨link, hlink, hreach⟩ := h.2
      exact hfar ⟨link, of_decide_eq_true hreach, mem_linksFor.mp hlink⟩

/-- The inbox handles the next event, as call `i`. -/
def handleNext (i : Nat) :
    List (Event Call Reply) := [.start .handleEvent, .step i (.activated true)]

/-- No link is reachable any more, as call `i`. -/
def linkDown (i : Nat) : List (Event Call Reply) :=
  [.start (.onReachable []), .step i (.presence ⟨false, none⟩)]

/-- A session that is closed before its link is lost. -/
def closedThenLost : List (Event Call Reply) :=
  linkUp ++ openMessage 2 1 ++ handleNext 3 ++ closeMessage 4 1 ++ handleNext 5 ++ linkDown 6

set_option maxRecDepth 16384 in
theorem session_ends_closed :
    ∃ c, run (linkedMachine FirstContactCoordinator.prefixKey (fun _ => "") (fun _ => none)
        plainCrypto).step (launchLinked launchContact.shared.services) closedThenLost = some c ∧
      c.Idle ∧ Bound c.shared.1 c.shared.2 := by
  have hkeeps : ∀ t ∈ trace (linkedMachine FirstContactCoordinator.prefixKey (fun _ => "")
      (fun _ => none) plainCrypto).step (launchLinked launchContact.shared.services) closedThenLost,
      LinkedStep.Keeps FirstContactCoordinator.prefixKey t := by
    intro t ht
    refine LinkedStep.keeps_of_keepsBool (List.all_eq_true.mp ?_ t ht)
    decide +kernel
  exact ⟨_, rfl, Config.idle_of_all rfl, session_ends_with_link hkeeps rfl⟩

/-- A session whose close never arrives. -/
def lostClose : List (Event Call Reply) :=
  linkUp ++ openMessage 2 1 ++ handleNext 3 ++ linkDown 4

set_option maxRecDepth 16384 in
theorem session_outlives_link :
    ∃ c, run (linkedMachine FirstContactCoordinator.prefixKey (fun _ => "") (fun _ => none)
        plainCrypto).step (launchLinked launchContact.shared.services) lostClose = some c ∧
      c.Idle ∧ c.shared.1.handled = c.shared.1.events.length ∧
      c.shared.1.coordinator.reachableLinks = ∅ ∧ c.shared.1.pttReceiver.HasContext 7 ∧
      c.shared.1.pttSessionOwner.openSessions = [List.replicate 16 1] ∧
      c.shared.2.lookup (List.replicate 16 1) = some contact ∧
      c.shared.1.pttSessionOwner.isLive = true ∧ ¬Bound c.shared.1 c.shared.2 := by
  refine ⟨_, rfl, Config.idle_of_all rfl, rfl, rfl, ?_, rfl, rfl, rfl, fun hbound => ?_⟩
  · decide
  · exact absurd (hbound.contexts 7 (by decide)) (by decide)

end AeroNyra.Listener
