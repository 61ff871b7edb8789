import AeroNyra.PushToTalk.Listener

/-! The session stack: the listening side, the router and our Nostr identity, with the calls that
hand something to a transport.  Whatever is on its way out carries the identity that it is sealed
for. -/

namespace AeroNyra

open Interleave

structure SessionStack where
  listener : Listener
  router : MessageRouter
  ourNostrPublicKey : Option Data
  announcedNostrTo : Finset Data

namespace SessionStack

/-! ### Calls -/

/-- Who announces our Nostr key. -/
inductive Announcer
  | receive
  | send
  | reannounce
  deriving DecidableEq

/-- The control messages of the app that nothing tracks. -/
inductive Control
  | callSignal
  /-- The opening or the end of a session of live audio. -/
  | ptt
  deriving DecidableEq

inductive Call
  | listener (call : Listener.Call)
  /-- A message or a transfer that the inbox sends, sends again, flushes or re-drives. -/
  | send (rawKey : Data) (nostrRecipient : Option Data) (m : Outbound.Outgoing)
  | reannounceNostrIdentity (rawKey : Data) (nostrRecipient : Option Data)
  | clearNostrAnnounceState
  | setNostrPublicKey (key : Option Data)
  | control (kind : Control) (rawKey : Data) (nostrRecipient : Option Data)
  | timer (task : Nat)

inductive Action
  | listener (a : Listener.Action)
  | openInbound (envelope : Envelope)
  /-- `receive` from the decoding of the payload on. -/
  | dispatch (m : Node.Opened)
  | confirm (wireID : MessageID) (hops : UInt8)
  /-- `sendDeliveryAck`, once the Nostr key of the sender is looked up. -/
  | sendDeliveryAck (receipt : Node.Receipt)
  | carryAck (receipt : Node.Receipt) (a : MessageRouter.Segment)
  /-- The inbox asks whether the contact is verified. -/
  | gateSend (rawKey : Data) (nostrRecipient : Option Data) (m : Outbound.Outgoing)
  /-- `send` and `sendMedia` up to their announcement. -/
  | beginSend (rawKey : Data) (nostrRecipient : Option Data) (m : Outbound.Outgoing)
  | reannounce (rawKey : Data) (nostrRecipient : Option Data)
  /-- `announceNostrIdentity` once its recipient is looked up. -/
  | resolved (by_ : Announcer) (rawKey : Data) (envelope : Envelope)
  | announce (by_ : Announcer) (rawKey : Data) (a : MessageRouter.Segment)
  | announced (rawKey : Data)
  | clearNostrAnnounceState
  | setNostrPublicKey (key : Option Data)
  | control (kind : Control) (rawKey : Data) (nostrRecipient : Option Data)
  /-- The coordinator's `redeemInvite` once the session is established. -/
  | routeEcho (rawKey : Data)
  /-- The rest of a send, a control message or an echo. -/
  | outbound (rawKey : Data) (a : Outbound.Action)
  /-- The call of `rerouteToNostr` at the end of `onReachable`. -/
  | depart (departed : Finset Data)
  /-- A segment of `rerouteToNostr`, with the peer whose entry it was waiting for. -/
  | reroute (peer : Option Data) (a : MessageRouter.Segment)
  | router (a : MessageRouter.Segment)

inductive Reply
  | listener (reply : Listener.Reply)
  /-- What the ciphertext opens to, the sealed announcement if one is due and the seal does not
  throw, and the links for which no decoder can be created. -/
  | opened (rawKey plaintext : Data) (announcement : Option Envelope) (refused : List UUID)
  | decoders (refused : List UUID)
  /-- The sealed announcement, unless the seal throws. -/
  | announcement (sealed : Option Envelope)
  | nostrKey (recipient : Option Data)
  /-- A sealed envelope and the Nostr key to send it to. -/
  | sealed (nostrRecipient : Option Data) (envelope : Envelope)
  | router (reply : MessageRouter.Reply)
  | outbound (reply : Outbound.Reply)
  /-- The order in which a set is iterated. -/
  | order (keys : List Data)
  | done
  | threw

variable (rawKeyOf : Data → Option Data) (hashHex : Data → String)
  (decodeManifest : Data → Option MediaManifest) (crypto : PTTSessionCrypto) (s : SessionStack)

def coordinator : FirstContactCoordinator := s.listener.coordinator

def blocked : Finset Data := s.coordinator.blockedIdentities

def enrolled : List Data := s.coordinator.reconnectAllowlistIdentities

/-! ### The announcement of our Nostr key -/

/-- We have a key, and the peer was not told. -/
def announcementDue (rawKey : Data) : Prop :=
  s.ourNostrPublicKey.isSome ∧ rawKey ∉ s.announcedNostrTo

instance (rawKey : Data) : Decidable (s.announcementDue rawKey) :=
  inferInstanceAs (Decidable (_ ∧ _))

/-- `announceNostrIdentity` up to its first suspension. -/
def announceNostrIdentity (by_ : Announcer) (rawKey : Data) (nostrRecipient : Option Data)
    (sealed : Option Envelope) : List Action :=
  if s.announcementDue rawKey then
    match sealed, nostrRecipient with
    | none, _ => []
    | some envelope, some recipient =>
      [.announce by_ rawKey (.call (.send envelope false (some rawKey) (some recipient)))]
    | some envelope, none => [.resolved by_ rawKey envelope]
  else []

/-- The peer was told when a transport took the announcement. -/
def afterAnnounce (by_ : Announcer) (rawKey : Data) : MessageRouter.Outcome → Exit Action
  | .suspend next => .goOn [.announce by_ rawKey next]
  | .returned state => if state = .sent ∨ state = .cast then .goOn [.announced rawKey] else .goOn []
  | .rerouted _ | .finished => .goOn []

/-! ### `receive` -/

/-- The actions of the listening side, of which two are actions of their own here; the echo of an
invite carries the identity that it goes to. -/
def lift (invited : Option Data) : Listener.Action → Action
  | .openInbound envelope => .openInbound envelope
  | .dispatch m => .dispatch m
  | .service .echoRouted =>
    match invited with
    | some rawKey => .routeEcho rawKey
    | none => .listener (.service .echoRouted)
  | a => .listener a

/-- The identity of the invite that an action redeems. -/
def inviter : Listener.Action → Option Data
  | .service (.redeem (some code)) => some code.rawKey
  | _ => none

/-- The receipt for an event with content. -/
def receipt (m : Node.Opened) : Listener.Yield → Option Node.Receipt
  | .content event => some ⟨event.peerKey, event.wireID, Node.hops m.envelope⟩
  | _ => none

/-- The confirmation of a delivery that an acknowledgement asks for. -/
def confirmation (m : Node.Opened) : List Action :=
  match MessagePayload.decodeSealed m.plaintext with
  | some ⟨.ack, body⟩ =>
    match MessagePayload.parseDeliveryAck body with
    | some (wireID, hops) => [.confirm wireID hops]
    | none => []
  | _ => []

/-- An event with content is acknowledged. -/
def dispatch (m : Node.Opened) (refused : List UUID) : SessionStack × Exit Action :=
  let p := s.listener.dispatch hashHex decodeManifest crypto m refused
  let receipts := (p.1.events.drop s.listener.events.length).filterMap (receipt m)
  ({ s with listener := p.1 },
    match p.2.map (lift none) with
    | .goOn next => .goOn (next ++ receipts.map .sendDeliveryAck ++ confirmation m)
    | .throw cleanup => .throw cleanup)

/-- `receive` once its ciphertext has opened.  Where no announcement is due it goes on at once. -/
def receiveOpened (m : Node.Opened) (announcement : Option Envelope) (refused : List UUID) :
    SessionStack × Exit Action :=
  if m.rawKey ∈ s.blocked then (s, .goOn [])
  else
    match s.announceNostrIdentity .receive m.rawKey none announcement with
    | [] => s.dispatch hashHex decodeManifest crypto m refused
    | actions => (s, .goOn (actions ++ [.dispatch m]))

/-- The transport is chosen by what was last reported reachable. -/
def sendDeliveryAck (receipt : Node.Receipt) (nostrRecipient : Option Data) (envelope : Envelope) :
    Exit Action :=
  if receipt.peer ∈ s.coordinator.lastReachableKeys then
    .goOn [.carryAck receipt (.call (.send envelope false (some receipt.peer) nostrRecipient))]
  else
    match nostrRecipient with
    | some recipient => .goOn [.carryAck receipt (.call (.publishOverNostr envelope recipient))]
    | none => .goOn []

/-! ### What goes out otherwise -/

/-- `sendCallSignal`, or the open and close of live audio, which only go over Bluetooth first. -/
def sendControl (kind : Control) (rawKey : Data) (nostrRecipient : Option Data)
    (envelope : Envelope) :
    Exit Action :=
  match kind with
  | .ptt => .goOn [.outbound rawKey (Outbound.routeOut envelope false (some rawKey) none none)]
  | .callSignal =>
    if rawKey ∈ s.coordinator.lastReachableKeys then
      .goOn [.outbound rawKey (Outbound.routeOut envelope false (some rawKey) nostrRecipient none)]
    else
      match nostrRecipient with
      | some recipient => .goOn
          [.outbound rawKey (.carry none (.call (.publishOverNostr envelope recipient)))]
      | none => .throw []

/-! ### Reroutes -/

/-- The peers that `onReachable` finds gone at its end are handed to the router. -/
def departures (before after : FirstContactCoordinator) : Listener.Action → List Action
  | .presence (.call (.onReachable _)) | .presence (.greet _) =>
    if before.lastReachableKeys \ after.lastReachableKeys = ∅ then []
    else [.depart (before.lastReachableKeys \ after.lastReachableKeys)]
  | _ => []

/-- The peer of the first entry that `rerouteToNostr` does not skip. -/
def reroutedPeer (departed : List Data) : List (MessageID × OutboxEntry) → Option Data
  | [] => none
  | (_, entry) :: entries =>
    match MessageRouter.rerouteTarget departed entry with
    | none => reroutedPeer departed entries
    | some _ => entry.peerKey

/-- The peer whose entry a segment of `rerouteToNostr` hands over. -/
def reroutes (r : MessageRouter) : MessageRouter.Segment → MessageRouter.Reply → Option Data
  | .call (.rerouteToNostr departed), .order ids => reroutedPeer departed (r.snapshot ids)
  | .rerouteReplied _ _ _ departed entries _, _ => reroutedPeer departed entries
  | _, _ => none

/-- The two are actions of their own here. -/
def opensInbound : Listener.Action → Bool
  | .openInbound _ | .dispatch _ => true
  | _ => false

def exec : Action → Reply → Option (SessionStack × Exit Action)
  | .listener a, .listener reply =>
    if opensInbound a then none
    else
      (s.listener.exec rawKeyOf hashHex decodeManifest crypto a reply).map fun p =>
        ({ s with listener := p.1 },
          (p.2.map (lift (inviter a))).followedBy (departures s.coordinator p.1.coordinator a))
  | .openInbound envelope, .opened rawKey plaintext announcement refused =>
    some (s.receiveOpened hashHex decodeManifest crypto
      ⟨envelope, rawKey, plaintext⟩ announcement refused)
  | .openInbound _, .threw => some (s, .goOn [])
  | .dispatch m, .decoders refused => some (s.dispatch hashHex decodeManifest crypto m refused)
  | .confirm wireID hops, .done =>
    some ({ s with router := s.router.confirmDelivery wireID hops.toNat }, .goOn [])
  | .sendDeliveryAck receipt, .sealed nostrRecipient envelope =>
    some (s, s.sendDeliveryAck receipt nostrRecipient envelope)
  | .sendDeliveryAck _, .threw => some (s, .goOn [])
  | .carryAck receipt a, .router reply =>
    (s.router.exec a reply).map fun p =>
      ({ s with router := p.1 }, p.2.exit.map (.carryAck receipt))
  | .gateSend rawKey nostrRecipient m, .done =>
    some (s, .goOn
      (if s.listener.services.allowlist.isVerified rawKey then [.beginSend rawKey nostrRecipient m]
        else []))
  | .beginSend rawKey nostrRecipient m, .announcement sealed =>
    some (s, .goOn (s.announceNostrIdentity .send rawKey nostrRecipient sealed ++
      [.outbound rawKey (.commit m)]))
  | .beginSend .., .threw => some (s, .throw [])
  | .reannounce rawKey nostrRecipient, .announcement sealed =>
    some (s, .goOn (s.announceNostrIdentity .reannounce rawKey nostrRecipient sealed))
  | .resolved by_ rawKey envelope, .nostrKey recipient =>
    some (s, .goOn [.announce by_ rawKey (.call (.send envelope false (some rawKey) recipient))])
  | .announce by_ rawKey a, .router reply =>
    (s.router.exec a reply).map fun p => ({ s with router := p.1 }, afterAnnounce by_ rawKey p.2)
  | .announced rawKey, .done =>
    some ({ s with announcedNostrTo := insert rawKey s.announcedNostrTo }, .goOn [])
  | .clearNostrAnnounceState, .done => some ({ s with announcedNostrTo := ∅ }, .goOn [])
  | .setNostrPublicKey key, .done => some ({ s with ourNostrPublicKey := key }, .goOn [])
  | .control kind rawKey nostrRecipient, .sealed _ envelope =>
    some (s, s.sendControl kind rawKey nostrRecipient envelope)
  | .control .., .threw => some (s, .throw [])
  | .routeEcho rawKey, .sealed nostrRecipient envelope =>
    some (s, .goOn [.outbound rawKey (Outbound.routeOut envelope false none nostrRecipient none)])
  | .routeEcho _, .threw => some (s, .throw [])
  | .outbound rawKey a, .outbound reply =>
    (Outbound.exec s.router a reply).map fun p =>
      ({ s with router := p.1 }, p.2.map (.outbound rawKey))
  | .depart departed, .order keys =>
    if keys.toFinset = departed then some (s, .goOn [.reroute none (.call (.rerouteToNostr keys))])
    else none
  | .reroute _ a, .router reply =>
    (s.router.exec a reply).map fun p =>
      ({ s with router := p.1 }, p.2.exit.map (.reroute (reroutes s.router a reply)))
  | .router a, .router reply =>
    (s.router.exec a reply).map fun p => ({ s with router := p.1 }, p.2.exit.map .router)
  | _, _ => none

def machine : Machine SessionStack Action Call Reply where
  thread
    | .listener call =>
      let thread := (Listener.machine rawKeyOf hashHex decodeManifest crypto).thread call
      ⟨thread.todo.map (lift none), thread.onThrow.map (lift none)⟩
    | .send rawKey nostrRecipient m => ⟨[.gateSend rawKey nostrRecipient m], []⟩
    | .reannounceNostrIdentity rawKey nostrRecipient => ⟨[.reannounce rawKey nostrRecipient], []⟩
    | .clearNostrAnnounceState => ⟨[.clearNostrAnnounceState], []⟩
    | .setNostrPublicKey key => ⟨[.setNostrPublicKey key], []⟩
    | .control kind rawKey nostrRecipient => ⟨[.control kind rawKey nostrRecipient], []⟩
    | .timer task => ⟨[.router (.call (.timer task))], []⟩
  exec := exec rawKeyOf hashHex decodeManifest crypto

abbrev Step := Transition (Config SessionStack Action) (Event Call Reply)

/-- The stack after its launch. -/
def launch (services : Pairing) (transports : List MeshTransport) (seenCapacity : Nat) :
    SessionStack where
  listener := .launch services
  router := .new transports seenCapacity
  ourNostrPublicKey := none
  announcedNostrTo := ∅

/-! ### What an action does -/

/-- The action runs `receive` from the decoding of `m` on. -/
def Dispatches (a : Action) (reply : Reply) (m : Node.Opened) (refused : List UUID) : Prop :=
  (a = .dispatch m ∧ reply = .decoders refused) ∨
  ∃ sealed, a = .openInbound m.envelope ∧ reply = .opened m.rawKey m.plaintext sealed refused ∧
    m.rawKey ∉ s.blocked ∧ s.announceNostrIdentity .receive m.rawKey none sealed = []

/-- The actions that an action brings in. -/
inductive Brings : Action → Reply → Action → Prop
  | listener {a reply q b} (own : opensInbound a = false)
      (exec : s.listener.exec rawKeyOf hashHex decodeManifest crypto a reply = some q)
      (added : b ∈ q.2.added) : Brings (.listener a) (.listener reply) (lift (inviter a) b)
  | announcement {envelope rawKey plaintext sealed refused b} (passed : rawKey ∉ s.blocked)
      (announces : b ∈ s.announceNostrIdentity .receive rawKey none sealed) :
      Brings (.openInbound envelope) (.opened rawKey plaintext sealed refused) b
  | afterwards {envelope rawKey plaintext sealed refused} (passed : rawKey ∉ s.blocked) :
      Brings (.openInbound envelope) (.opened rawKey plaintext sealed refused)
        (.dispatch ⟨envelope, rawKey, plaintext⟩)
  | redeemEcho {a reply m refused inviteID nostrPubkey} (by_ : s.Dispatches a reply m refused) :
      Brings a reply (.listener (.redeemEcho inviteID nostrPubkey m.rawKey))
  | receipt {a reply m refused receipt} (by_ : s.Dispatches a reply m refused)
      (peer : receipt.peer = m.rawKey) : Brings a reply (.sendDeliveryAck receipt)
  | confirm {a reply m refused wireID hops} (by_ : s.Dispatches a reply m refused) :
      Brings a reply (.confirm wireID hops)
  | ack {receipt reply next} : Brings (.sendDeliveryAck receipt) reply (.carryAck receipt next)
  | carryAck {receipt a reply next} : Brings (.carryAck receipt a) reply (.carryAck receipt next)
  | gateSend {rawKey nostrRecipient m reply}
      (verified : s.listener.services.allowlist.isVerified rawKey) :
      Brings (.gateSend rawKey nostrRecipient m) reply (.beginSend rawKey nostrRecipient m)
  | sendAnnouncement {rawKey nostrRecipient m sealed b}
      (announces : b ∈ s.announceNostrIdentity .send rawKey nostrRecipient sealed) :
      Brings (.beginSend rawKey nostrRecipient m) (.announcement sealed) b
  | commit {rawKey nostrRecipient m reply} :
      Brings (.beginSend rawKey nostrRecipient m) reply (.outbound rawKey (.commit m))
  | reannouncement {rawKey nostrRecipient sealed b}
      (announces : b ∈ s.announceNostrIdentity .reannounce rawKey nostrRecipient sealed) :
      Brings (.reannounce rawKey nostrRecipient) (.announcement sealed) b
  | resolved {by_ rawKey envelope reply next} :
      Brings (.resolved by_ rawKey envelope) reply (.announce by_ rawKey next)
  | announce {by_ rawKey a reply next} :
      Brings (.announce by_ rawKey a) reply (.announce by_ rawKey next)
  | announced {by_ rawKey a reply} : Brings (.announce by_ rawKey a) reply (.announced rawKey)
  | control {kind rawKey nostrRecipient recipient envelope b} :
      Brings (.control kind rawKey nostrRecipient) (.sealed recipient envelope) (.outbound rawKey b)
  | routeEcho {rawKey reply b} : Brings (.routeEcho rawKey) reply (.outbound rawKey b)
  | outbound {rawKey a reply b} : Brings (.outbound rawKey a) reply (.outbound rawKey b)
  | departure {a reply b q} (exec : s.listener.exec rawKeyOf hashHex decodeManifest crypto a reply =
      some q) (departs : b ∈ departures s.coordinator q.1.coordinator a) :
      Brings (.listener a) (.listener reply) b
  | depart {departed keys} (order : keys.toFinset = departed) :
      Brings (.depart departed) (.order keys) (.reroute none (.call (.rerouteToNostr keys)))
  | reroute {peer a reply q b} (exec : s.router.exec a reply = some q)
      (added : b ∈ q.2.exit.added) :
      Brings (.reroute peer a) (.router reply) (.reroute (reroutes s.router a reply) b)
  | router {a reply b} : Brings (.router a) reply (.router b)

variable {rawKeyOf hashHex decodeManifest crypto s} {a b : Action} {reply : Reply}
  {p : SessionStack × Exit Action} {m : Node.Opened} {refused : List UUID}

/-- What the listening side goes on with, where it does not open anything. -/
theorem added_listener {l : Listener} {c c' : Listener.Action} {creply : Listener.Reply}
    {q : Listener × Exit Listener.Action} (own : opensInbound c = false)
    (h : l.exec rawKeyOf hashHex decodeManifest crypto c creply = some q) (hc : c' ∈ q.2.added) :
    (∃ b b' sreply r, c = .service b ∧ c' = .service b' ∧ l.services.exec b sreply = some r ∧
      b' ∈ r.2.added) ∨
    (∃ b b', c = .presence b ∧ c' = .presence b') ∨
    ∃ inviteID nostrPubkey rawKey, c = .redeemEcho inviteID nostrPubkey rawKey ∧
      ((∃ redeemer, c' = .service (.enroll redeemer false)) ∨
        ∃ redeemed, c' = .surface nostrPubkey rawKey redeemed) := by
  unfold Listener.exec at h
  split at h
  case h_1 =>
    obtain ⟨r, hr, rfl⟩ := Option.map_eq_some_iff.mp h
    obtain ⟨b', hb', rfl⟩ := mem_added_map hc
    exact .inl ⟨_, b', _, r, rfl, rfl, hr, hb'⟩
  case h_2 =>
    split at h
    · obtain ⟨r, _, rfl⟩ := Option.map_eq_some_iff.mp h
      obtain ⟨b', _, rfl⟩ := mem_added_map hc
      exact .inr (.inl ⟨_, b', rfl, rfl⟩)
    · cases h
  case h_3 => cases own
  case h_5 => cases own
  case h_6 =>
    obtain ⟨r, hr, rfl⟩ := Option.map_eq_some_iff.mp h
    dsimp only at hc
    refine .inr (.inr ⟨_, _, _, rfl, ?_⟩)
    have henroll (b' : Pairing.Action) (hb' : b' ∈ r.2.added) : ∃ redeemer, b' =
      .enroll redeemer false :=
      ⟨_, Pairing.added_burn hr hb'⟩
    split at hc
    · exact .inr ⟨_, List.mem_singleton.mp hc⟩
    · rename_i next _ heq
      rcases List.mem_append.mp hc with hc | hc
      · obtain ⟨b', hb', rfl⟩ := List.mem_map.mp hc
        obtain ⟨redeemer, rfl⟩ := henroll b' (by rw [heq]; exact hb')
        exact .inl ⟨redeemer, rfl⟩
      · exact .inr ⟨_, List.mem_singleton.mp hc⟩
    · rename_i cleanup heq
      obtain ⟨b', hb', rfl⟩ := List.mem_map.mp hc
      obtain ⟨redeemer, rfl⟩ := henroll b' (by rw [heq]; exact hb')
      exact .inl ⟨redeemer, rfl⟩
  all_goals first
    | cases h; done
    | obtain rfl := Option.some.inj h
      cases hc
    | obtain ⟨_, _, rfl⟩ := Option.map_eq_some_iff.mp h
      cases hc

theorem depart_of_departures {before after : FirstContactCoordinator} {c : Listener.Action}
    (hb : b ∈ departures before after c) : ∃ gone, b = .depart gone ∧
    gone ⊆ before.lastReachableKeys := by
  unfold departures at hb
  split at hb
  · split at hb
    · cases hb
    · exact ⟨_, List.mem_singleton.mp hb, Finset.sdiff_subset⟩
  · split at hb
    · cases hb
    · exact ⟨_, List.mem_singleton.mp hb, Finset.sdiff_subset⟩
  · cases hb

/-- What `receive` goes on with after its dispatch. -/
theorem added_listener_dispatch {b : Listener.Action}
    (hb : b ∈ (s.listener.dispatch hashHex decodeManifest crypto m refused).2.added) :
    ∃ inviteID nostrPubkey, b = .redeemEcho inviteID nostrPubkey m.rawKey := by
  have hecho {inviteID : Data} {nostrPubkey : Option Data}
      (hb : b ∈ (s.listener.redeemInviteEcho inviteID nostrPubkey m.rawKey).added) :
      ∃ inviteID nostrPubkey, b = .redeemEcho inviteID nostrPubkey m.rawKey := by
    unfold Listener.redeemInviteEcho at hb
    split at hb
    · cases hb
    · exact ⟨_, _, List.mem_singleton.mp hb⟩
  unfold Listener.dispatch at hb
  split at hb
  case h_6 =>
    dsimp only at hb
    split at hb
    · cases hb
    · exact hecho hb
  case h_7 =>
    dsimp only at hb
    split at hb
    · cases hb
    · exact hecho hb
  all_goals cases hb

/-- The receipts of a dispatch go to the sender. -/
theorem peer_of_receipt {receipt : Node.Receipt}
    (h : receipt ∈ ((s.listener.dispatch hashHex decodeManifest crypto m refused).1.events.drop
      s.listener.events.length).filterMap (SessionStack.receipt m)) : receipt.peer = m.rawKey := by
  have hyields : Listener.YieldsOf m.rawKey s.listener
      (s.listener.dispatch hashHex decodeManifest crypto m refused).1 := .dispatch m refused
  obtain ⟨events, hevents, hall⟩ := hyields
  rw [hevents, List.drop_left] at h
  obtain ⟨event, hevent, heq⟩ := List.mem_filterMap.mp h
  have hpeer := (hall event hevent).1
  cases event with
  | content event =>
    obtain rfl := Option.some.inj heq
    exact hpeer
  | established | learnedNostrIdentity | callSignal | pttOpened | pttClosed => cases heq

theorem brings_dispatch (by_ : s.Dispatches a reply m refused)
    (hb : b ∈ (s.dispatch hashHex decodeManifest crypto m refused).2.added) :
    Brings rawKeyOf hashHex decodeManifest crypto s a reply b := by
  have hecho {c : Listener.Action}
      (hc : c ∈ (s.listener.dispatch hashHex decodeManifest crypto m refused).2.added) :
      Brings rawKeyOf hashHex decodeManifest crypto s a reply (lift none c) := by
    obtain ⟨inviteID, nostrPubkey, rfl⟩ := added_listener_dispatch hc
    exact .redeemEcho by_
  unfold dispatch at hb
  dsimp only at hb
  split at hb
  · rename_i next heq
    rcases List.mem_append.mp hb with hb | hb
    · rcases List.mem_append.mp hb with hb | hb
      · have hadded : b ∈ ((s.listener.dispatch hashHex decodeManifest crypto m refused).2.map
            (lift none)).added := by rwa [heq]
        obtain ⟨c, hc, rfl⟩ := mem_added_map hadded
        exact hecho hc
      · obtain ⟨receipt, hreceipt, rfl⟩ := List.mem_map.mp hb
        exact .receipt by_ (peer_of_receipt hreceipt)
    · unfold confirmation at hb
      split at hb
      · split at hb
        · obtain rfl := List.mem_singleton.mp hb
          exact .confirm by_
        · cases hb
      · cases hb
  · rename_i cleanup heq
    have hadded : b ∈ ((s.listener.dispatch hashHex decodeManifest crypto m refused).2.map
        (lift none)).added := by rwa [heq]
    obtain ⟨c, hc, rfl⟩ := mem_added_map hadded
    exact hecho hc

theorem brings_of_exec (h : s.exec rawKeyOf hashHex decodeManifest crypto a reply = some p)
    (hb : b ∈ p.2.added) : Brings rawKeyOf hashHex decodeManifest crypto s a reply b := by
  unfold exec at h
  split at h
  · split at h
    · cases h
    · obtain ⟨q, hq, rfl⟩ := Option.map_eq_some_iff.mp h
      rcases mem_added_followedBy hb with hb | hb
      · obtain ⟨c, hc, rfl⟩ := mem_added_map hb
        exact .listener (Bool.eq_false_iff.mpr ‹_›) hq hc
      · exact .departure hq hb
  · obtain rfl := Option.some.inj h
    rename_i envelope rawKey plaintext sealed refused
    unfold receiveOpened at hb
    split at hb
    · cases hb
    · rename_i hpassed
      split at hb
      · rename_i hnone
        exact brings_dispatch (.inr ⟨sealed, rfl, rfl, hpassed, hnone⟩) hb
      · rcases List.mem_append.mp hb with hb | hb
        · exact .announcement hpassed hb
        · obtain rfl := List.mem_singleton.mp hb
          exact .afterwards hpassed
  · obtain rfl := Option.some.inj h
    cases hb
  · obtain rfl := Option.some.inj h
    exact brings_dispatch (.inl ⟨rfl, rfl⟩) hb
  · obtain rfl := Option.some.inj h
    cases hb
  · obtain rfl := Option.some.inj h
    unfold sendDeliveryAck at hb
    split at hb
    · obtain rfl := List.mem_singleton.mp hb
      exact .ack
    · split at hb
      · obtain rfl := List.mem_singleton.mp hb
        exact .ack
      · cases hb
  · obtain rfl := Option.some.inj h
    cases hb
  · obtain ⟨q, hq, rfl⟩ := Option.map_eq_some_iff.mp h
    obtain ⟨c, hc, rfl⟩ := mem_added_map hb
    exact .carryAck
  · obtain rfl := Option.some.inj h
    dsimp only [Exit.added] at hb
    split at hb
    · obtain rfl := List.mem_singleton.mp hb
      exact .gateSend ‹_›
    · cases hb
  · obtain rfl := Option.some.inj h
    rcases List.mem_append.mp hb with hb | hb
    · exact .sendAnnouncement hb
    · obtain rfl := List.mem_singleton.mp hb
      exact .commit
  · obtain rfl := Option.some.inj h
    cases hb
  · obtain rfl := Option.some.inj h
    exact .reannouncement hb
  · obtain rfl := Option.some.inj h
    obtain rfl := List.mem_singleton.mp hb
    exact .resolved
  · obtain ⟨q, hq, rfl⟩ := Option.map_eq_some_iff.mp h
    dsimp only at hb
    unfold afterAnnounce at hb
    split at hb
    · obtain rfl := List.mem_singleton.mp hb
      exact .announce
    · split at hb
      · obtain rfl := List.mem_singleton.mp hb
        exact .announced
      · cases hb
    · cases hb
    · cases hb
  · obtain rfl := Option.some.inj h
    cases hb
  · obtain rfl := Option.some.inj h
    cases hb
  · obtain rfl := Option.some.inj h
    cases hb
  · obtain rfl := Option.some.inj h
    unfold sendControl at hb
    split at hb
    · obtain rfl := List.mem_singleton.mp hb
      exact .control
    · split at hb
      · obtain rfl := List.mem_singleton.mp hb
        exact .control
      · split at hb
        · obtain rfl := List.mem_singleton.mp hb
          exact .control
        · cases hb
  · obtain rfl := Option.some.inj h
    cases hb
  · obtain rfl := Option.some.inj h
    obtain rfl := List.mem_singleton.mp hb
    exact .routeEcho
  · obtain rfl := Option.some.inj h
    cases hb
  · obtain ⟨q, hq, rfl⟩ := Option.map_eq_some_iff.mp h
    obtain ⟨c, hc, rfl⟩ := mem_added_map hb
    exact .outbound
  · split at h
    · obtain rfl := Option.some.inj h
      obtain rfl := List.mem_singleton.mp hb
      exact .depart ‹_›
    · cases h
  · obtain ⟨q, hq, rfl⟩ := Option.map_eq_some_iff.mp h
    obtain ⟨c, hc, rfl⟩ := mem_added_map hb
    exact .reroute hq hc
  · obtain ⟨q, hq, rfl⟩ := Option.map_eq_some_iff.mp h
    obtain ⟨c, hc, rfl⟩ := mem_added_map hb
    exact .router
  · cases h

/-- What an action does to the listening side. -/
theorem exec_listener (h : s.exec rawKeyOf hashHex decodeManifest crypto a reply = some p) :
    p.1.listener = s.listener ∨
    (∃ c creply q, a = .listener c ∧ reply = .listener creply ∧ opensInbound c = false ∧
      s.listener.exec rawKeyOf hashHex decodeManifest crypto c creply = some q ∧
      p.1.listener = q.1) ∨
    ∃ m refused, s.Dispatches a reply m refused ∧
      p.1.listener = (s.listener.dispatch hashHex decodeManifest crypto m refused).1 := by
  unfold exec at h
  split at h
  case h_1 =>
    split at h
    · cases h
    · obtain ⟨q, hq, rfl⟩ := Option.map_eq_some_iff.mp h
      exact .inr (.inl ⟨_, _, q, rfl, rfl, Bool.eq_false_iff.mpr ‹_›, hq, rfl⟩)
  case h_2 =>
    obtain rfl := Option.some.inj h
    rename_i envelope rawKey plaintext sealed refused
    unfold receiveOpened
    split
    · exact .inl rfl
    · rename_i hpassed
      split
      · rename_i hnone
        exact .inr (.inr
          ⟨⟨envelope, rawKey, plaintext⟩, refused, .inr ⟨sealed, rfl, rfl, hpassed, hnone⟩, rfl⟩)
      · exact .inl rfl
  case h_4 =>
    obtain rfl := Option.some.inj h
    exact .inr (.inr ⟨_, _, .inl ⟨rfl, rfl⟩, rfl⟩)
  all_goals first
    | cases h; done
    | obtain rfl := Option.some.inj h
      exact .inl rfl
    | obtain ⟨q, _, rfl⟩ := Option.map_eq_some_iff.mp h
      exact .inl rfl
    | obtain ⟨_, h⟩ := Option.ite_none_right_eq_some.mp h
      obtain rfl := Option.some.inj h
      exact .inl rfl

/-- Only the services change who is admitted. -/
theorem exec_access (h : s.exec rawKeyOf hashHex decodeManifest crypto a reply = some p) :
    Pairing.SameAccess s.listener.services p.1.listener.services ∨
      ∃ b sreply q, a = .listener (.service b) ∧ s.listener.services.exec b sreply = some q ∧
        p.1.listener.services = q.1 := by
  rcases exec_listener h with hsame | ⟨c, creply, q, rfl, rfl, _, hq, hlistener⟩ |
    ⟨m, refused, _, hlistener⟩
  · rw [hsame]
    exact .inl (.refl _)
  · rw [hlistener]
    rcases Listener.exec_admission hq with hsame | ⟨b, sreply, q', rfl, rfl, hq', hservices⟩
    · exact .inl hsame
    · exact .inr ⟨b, sreply, q', rfl, hq', hservices⟩
  · rw [hlistener]
    have hexec : s.listener.exec rawKeyOf hashHex decodeManifest crypto (.dispatch m)
      (.decoders refused) =
        some (s.listener.dispatch hashHex decodeManifest crypto m refused) := rfl
    rcases Listener.exec_admission hexec with hsame | ⟨_, _, _, heq, _⟩
    · exact .inl hsame
    · cases heq

theorem exec_blocked (h : s.exec rawKeyOf hashHex decodeManifest crypto a reply = some p) :
    p.1.blocked = s.blocked ∨ ∃ keys, a = .listener (.service (.setBlockedIdentities keys)) := by
  rcases exec_access h with hsame | ⟨b, sreply, q, rfl, hq, hservices⟩
  · exact .inl hsame.blocked
  · rcases Pairing.blocked_exec hq with hsame | ⟨keys, rfl, _⟩
    · refine .inl ?_
      rw [blocked, coordinator, Listener.coordinator, hservices]
      exact hsame
    · exact .inr ⟨keys, rfl⟩

/-- Where the events come from that an action yields. -/
theorem exec_yields (h : s.exec rawKeyOf hashHex decodeManifest crypto a reply = some p) :
    p.1.listener.events = s.listener.events ∨
    (∃ nostrPubkey k redeemed, a = .listener (.surface nostrPubkey k redeemed) ∧
      Listener.YieldsOf k s.listener p.1.listener) ∨
    ∃ m refused, s.Dispatches a reply m refused ∧
      Listener.YieldsOf m.rawKey s.listener p.1.listener := by
  rcases exec_listener h with hsame | ⟨c, creply, q, rfl, rfl, hown, hq, hlistener⟩ |
    ⟨m, refused, hby, hlistener⟩
  · exact .inl (by rw [hsame])
  · rw [hlistener]
    unfold Listener.exec at hq
    split at hq
    case h_7 =>
      obtain rfl := Option.some.inj hq
      exact .inr (.inl ⟨_, _, _, rfl, .surface _ _⟩)
    case h_5 => cases hown
    all_goals first
      | cases hq; done
      | obtain rfl := Option.some.inj hq
        exact .inl rfl
      | obtain ⟨_, _, rfl⟩ := Option.map_eq_some_iff.mp hq
        exact .inl rfl
      | split at hq
        · obtain ⟨_, _, rfl⟩ := Option.map_eq_some_iff.mp hq
          exact .inl rfl
        · cases hq
  · rw [hlistener]
    exact .inr (.inr ⟨m, refused, hby, .dispatch m refused⟩)

/-! ### A device to try things on -/

/-- The machine over stand-ins for the bundle parser, the digest, the manifest decoder and the
cipher. -/
def plainMachine : Machine SessionStack Action Call Reply :=
  machine FirstContactCoordinator.prefixKey (fun _ => "") (fun _ => none) Listener.plainCrypto

/-- A launch with the given contacts, over Bluetooth and a relay. -/
def launchWith (allowlist : ContactAllowlist) : SessionStack :=
  launch (.launch allowlist .empty [] (List.replicate 32 1) 0) [⟨.ble, false⟩, ⟨.internet, true⟩] 8

/-- An envelope of `rawKey` with a payload, and the announcement that goes out for it if one is
due. -/
def opening (rawKey : Data) (payload : MessagePayload) : Reply :=
  .opened rawKey payload.sealedPlaintext (some (.new (.filled 1) [])) []

def service (reply : Pairing.Reply) : Reply := .listener (.service reply)

/-- Our Nostr key is set, as call 0. -/
def setKey : List (Event Call Reply) :=
  [.start (.setNostrPublicKey (some (List.replicate 32 3))), .step 0 .done]

/-- The contact is blocked, as call `i`, as far as the coordinator's blocked identities. -/
def blockContact (i : Nat) : List (Event Call Reply) :=
  [.start (.listener (.service (.block Listener.contact none))), .step i (service {}),
    .step i (service {})]

end SessionStack

end AeroNyra
