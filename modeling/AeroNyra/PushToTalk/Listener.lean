import AeroNyra.Calls.Signal
import AeroNyra.Coordinator.Receive
import AeroNyra.Enrollment.Service
import AeroNyra.PushToTalk.Player

/-! The listening side of the app: the services, the coordinator's `receive` with every kind of
payload, its audio drive, and the inbox loop that turns yielded events into peer rows and into
sessions of the audio owner.  Acknowledgements and announcements that `receive` sends change
nothing here. -/

namespace AeroNyra

open Interleave

/-! ### The owner of the audio session -/

/-- The open sessions by their identifiers; the live flag says that there is one. -/
structure PTTSessionOwner where
  openSessions : List Data
  isLive : Bool
  live : isLive = !openSessions.isEmpty

namespace PTTSessionOwner

def new : PTTSessionOwner := ⟨[], false, rfl⟩

variable (o : PTTSessionOwner)

/-- The first session needs the audio session activated; a further one joins it. -/
def opened (pttID : Data) (activated : Bool) : PTTSessionOwner :=
  if pttID ∈ o.openSessions then o
  else if o.openSessions.isEmpty && !activated then o
  else ⟨o.openSessions ++ [pttID], true, by simp⟩

def closed (pttID : Data) : PTTSessionOwner :=
  if pttID ∈ o.openSessions then
    let rest := o.openSessions.filter (· != pttID)
    ⟨rest, !rest.isEmpty, rfl⟩
  else o

def interruptionBegan : PTTSessionOwner := o.openSessions.foldl closed o

variable {o} {id j : Data} {activated : Bool}

theorem mem_opened (h : j ∈ (o.opened id activated).openSessions) :
    j ∈ o.openSessions ∨ (j = id ∧ id ∉ o.openSessions) := by
  unfold opened at h
  split at h
  · exact .inl h
  · rename_i hnew
    split at h
    · exact .inl h
    · rcases List.mem_append.mp h with h | h
      · exact .inl h
      · exact .inr ⟨List.mem_singleton.mp h, hnew⟩

/-- What the owner takes newly it has the audio session for. -/
theorem takes_of_mem_opened (h : j ∈ (o.opened id activated).openSessions)
    (hnew : j ∉ o.openSessions) :
    activated ∨ o.openSessions ≠ [] := by
  unfold opened at h
  split at h
  · exact absurd h hnew
  · split at h
    · exact absurd h hnew
    · rename_i hrefused
      by_contra hnot
      obtain ⟨hinactive, hempty⟩ := not_or.mp hnot
      exact hrefused (by simp [not_not.mp hempty, hinactive])

theorem mem_closed : j ∈ (o.closed id).openSessions ↔ j ∈ o.openSessions ∧ j ≠ id := by
  unfold closed
  split
  · simp
  · rename_i hout
    exact ⟨fun h => ⟨h, fun e => hout (e ▸ h)⟩, And.left⟩

theorem mem_foldl_closed {ids : List Data} :
    j ∈ (ids.foldl closed o).openSessions ↔ j ∈ o.openSessions ∧ j ∉ ids := by
  induction ids generalizing o with
  | nil => simp
  | cons id ids ih => simp [ih, mem_closed, and_assoc]

theorem not_mem_interruptionBegan : j ∉ o.interruptionBegan.openSessions := by
  unfold interruptionBegan
  rw [mem_foldl_closed]
  exact fun h => h.2 h.1

end PTTSessionOwner

/-! ### What the coordinator yields -/

namespace Listener

/-- The events that `receive` yields. -/
inductive Yield
  | content (event : SessionEvent)
  | established (peerKey : Data)
  | learnedNostrIdentity (peerKey nostrPubkey : Data)
  | callSignal (peerKey : Data) (signal : CallSignal)
  | pttOpened (peerKey pttID : Data)
  | pttClosed (peerKey pttID : Data)
  deriving DecidableEq

def Yield.peerKey : Yield → Data
  | .content event => event.peerKey
  | .established peerKey => peerKey
  | .learnedNostrIdentity peerKey _ => peerKey
  | .callSignal peerKey _ => peerKey
  | .pttOpened peerKey _ => peerKey
  | .pttClosed peerKey _ => peerKey

/-- The peers that have a row, and the messages that have one. -/
structure Rows where
  peers : Finset Data := ∅
  stored : Finset MessageID := ∅

namespace Rows

/-- What the inbox does to its rows for an event. -/
def handle (rows : Rows) : Yield → Rows
  | .content event =>
    if event.wireID ∈ rows.stored then rows
    else ⟨insert event.peerKey rows.peers, insert event.wireID rows.stored⟩
  | .established peerKey | .learnedNostrIdentity peerKey _ =>
    { rows with peers := insert peerKey rows.peers }
  | .callSignal .. | .pttOpened .. | .pttClosed .. => rows

end Rows

end Listener

structure Listener where
  services : Pairing
  reassembler : MediaReassembler
  pttReceiver : PTTReceiver
  pttPlayer : PTTPlayer
  pttSessionOwner : PTTSessionOwner
  /-- The events yielded so far, the oldest first, and how many of them the inbox has handled. -/
  events : List Listener.Yield
  handled : Nat
  rows : Listener.Rows

namespace Listener

/-! ### Calls -/

inductive Call
  | service (call : Pairing.Call)
  | onReachable (ids : List UUID)
  | onBundle (link : UUID) (data : Data)
  | onReconnectFrame (link : UUID) (data : Data)
  | receive (envelope : Envelope)
  | ingestPTTAudio (link : UUID) (frame : Data)
  | tick
  | engineStopped
  /-- The inbox loop takes the next event. -/
  | handleEvent
  | interruptionBegan

inductive Action
  | service (a : Pairing.Action)
  | presence (a : FirstContactCoordinator.Action)
  | openInbound (envelope : Envelope)
  /-- `receive` from the decoding of the payload on. -/
  | dispatch (m : Node.Opened)
  /-- `redeemEcho` up to its `enroll`, for an echo of `rawKey`. -/
  | redeemEcho (inviteID : Data) (redeemerNostrPubkey : Option Data) (rawKey : Data)
  /-- `redeemInviteEcho` after `redeemEcho`. -/
  | surface (redeemerNostrPubkey : Option Data) (rawKey : Data) (redeemed : Bool)
  | ingestPTTAudio (link : UUID) (frame : Data)
  | tick
  | engineStopped
  | handleEvent
  | interruptionBegan

inductive Reply
  | service (reply : Pairing.Reply)
  | presence (reply : FirstContactCoordinator.Reply)
  /-- What the ciphertext opens to. -/
  | opened (rawKey plaintext : Data)
  | threw
  /-- The links for which no Opus decoder can be created. -/
  | decoders (refused : List UUID)
  /-- What the decoder makes of a frame. -/
  | pcm (decoded : Option Pcm)
  /-- Whether the engine can play. -/
  | engine (ok : Bool)
  /-- Whether the audio session can be activated. -/
  | activated (ok : Bool)
  | done

variable (rawKeyOf : Data → Option Data) (hashHex : Data → String)
  (decodeManifest : Data → Option MediaManifest) (crypto : PTTSessionCrypto) (l : Listener)

def coordinator : FirstContactCoordinator := l.services.coordinator

/-- The entries of the coordinator that transports call; the others belong to the services. -/
def drivesLinks : FirstContactCoordinator.Action → Bool
  | .call (.onReachable _) | .call (.onBundle ..) | .call (.onReconnectFrame ..) | .greet _ => true
  | _ => false

/-- The identities that the coordinator admits. -/
def enrolled : List Data := l.coordinator.reconnectAllowlistIdentities

def verified : Finset Data := l.coordinator.verifiedIdentities

def yield (event : Yield) : Listener := { l with events := l.events ++ [event] }

/-- The links of a peer, reachable or not. -/
def linksFor (rawKey : Data) : List UUID :=
  (l.coordinator.linkPeers.pairs.filter (·.2 == rawKey)).map (·.1)

/-! ### The arms of `receive` -/

/-- Yields a completed transfer under the identifier that its media identifier spells. -/
def emitMedia (rawKey : Data) (done : MediaReassembler.Completed) : Listener :=
  match (Node.hexToBytes done.mediaID).bind MessageID.ofBytes? with
  | none => l
  | some wireID => l.yield (.content (.receivedMedia rawKey done wireID))

/-- The arms for manifests and chunks, once the reassembler has taken one. -/
def finishMedia (rawKey : Data)
    (ingested : MediaReassembler × Option MediaReassembler.Completed) : Listener :=
  let l := { l with reassembler := ingested.1 }
  match ingested.2 with
  | none => l
  | some done => l.emitMedia rawKey done

/-- A blocked identity burns no invite. -/
def redeemInviteEcho (inviteID : Data) (redeemerNostrPubkey : Option Data) (rawKey : Data) :
    Exit Action :=
  if rawKey ∈ l.coordinator.blockedIdentities then .goOn []
  else .goOn [.redeemEcho inviteID redeemerNostrPubkey rawKey]

def yieldSignal (rawKey : Data) : Option CallSignal → Listener
  | none => l
  | some signal => l.yield (.callSignal rawKey signal)

/-- A context on every link of the sender, and the event, unless there is no link. -/
def pttOpen (rawKey pttID secret : Data) (refused : List UUID) : Listener :=
  let links := l.linksFor rawKey
  if links.isEmpty then l
  else
    yield { l with
      pttReceiver := links.foldl (fun r link =>
        r.openSession link (crypto.initiatorToResponder secret) (decide (link ∉ refused)))
        l.pttReceiver } (.pttOpened rawKey pttID)

/-- Context and player buffer go on every link of the sender. -/
def pttClose (rawKey pttID : Data) : Listener :=
  let links := l.linksFor rawKey
  yield { l with
    pttReceiver := links.foldl (·.dropLink) l.pttReceiver
    pttPlayer := links.foldl (·.drop) l.pttPlayer } (.pttClosed rawKey pttID)

def dispatch (m : Node.Opened) (refused : List UUID) : Listener × Exit Action :=
  match MessagePayload.decodeSealed m.plaintext with
  | none => (l, .goOn [])
  | some ⟨.text, body⟩ =>
    (if m.rawKey ∈ l.verified then l.yield (.content (.received m.rawKey body m.envelope.id))
      else l, .goOn [])
  | some ⟨.mediaManifest, json⟩ =>
    (if m.rawKey ∈ l.verified then
      match decodeManifest json with
      | none => l
      | some manifest =>
        l.finishMedia m.rawKey (MediaReassembler.ingestManifest hashHex l.reassembler manifest)
    else l, .goOn [])
  | some ⟨.mediaChunk, chunk⟩ =>
    (if m.rawKey ∈ l.verified then
      l.finishMedia m.rawKey (MediaReassembler.ingestChunk hashHex l.reassembler chunk)
    else l, .goOn [])
  | some ⟨.nostrIdentity, body⟩ =>
    (match MessagePayload.parseNostrIdentity body with
      | none => l
      | some nostrKey => l.yield (.learnedNostrIdentity m.rawKey nostrKey), .goOn [])
  | some ⟨.inviteEcho, body⟩ =>
    (l, match MessagePayload.parseInviteEcho body with
      | none => .goOn []
      | some inviteID => l.redeemInviteEcho inviteID none m.rawKey)
  | some ⟨.inviteEchoV2, body⟩ =>
    (l, match MessagePayload.parseInviteEchoV2 body with
      | none => .goOn []
      | some (inviteID, nostrPubkey) => l.redeemInviteEcho inviteID (some nostrPubkey) m.rawKey)
  | some ⟨.callRequest, body⟩ =>
    (if m.rawKey ∈ l.verified then l.yieldSignal m.rawKey (CallSignal.parseRequestBody body) else l,
      .goOn [])
  | some ⟨.callAnswer, body⟩ =>
    (if m.rawKey ∈ l.verified then l.yieldSignal m.rawKey (CallSignal.parseAnswerBody body) else l,
      .goOn [])
  | some ⟨.callDecline, body⟩ =>
    (if m.rawKey ∈ l.verified then l.yieldSignal m.rawKey (CallSignal.parseDeclineBody body) else l,
      .goOn [])
  | some ⟨.pttOpen, body⟩ =>
    (if m.rawKey ∈ l.verified then
      match MessagePayload.parsePTTOpen body with
      | none => l
      | some (pttID, secret) => l.pttOpen crypto m.rawKey pttID secret refused
    else l, .goOn [])
  | some ⟨.pttClose, body⟩ =>
    (if m.rawKey ∈ l.verified then
      match MessagePayload.parsePTTClose body with
      | none => l
      | some pttID => l.pttClose m.rawKey pttID
    else l, .goOn [])
  -- a hello is ignored on this path, and an acknowledgement goes to the router
  | some ⟨.reconnectHello, _⟩ | some ⟨.ack, _⟩ => (l, .goOn [])

/-! ### Actions -/

/-- `receive` once its ciphertext has opened: a blocked sender is dropped.  Before the rest an
announcement may be due, which other calls can overtake. -/
def receiveOpened (m : Node.Opened) : Exit Action :=
  if m.rawKey ∈ l.coordinator.blockedIdentities then .goOn [] else .goOn [.dispatch m]

/-- Goes on with `enroll` and then the event when the invite was burned. -/
def redeemEcho (inviteID : Data) (nostrPubkey : Option Data) (rawKey : Data)
    (reply : Pairing.Reply) : Option (Listener × Exit Action) :=
  (l.services.burn inviteID rawKey reply).map fun p =>
    ({ l with services := p.1 },
      match p.2 with
      | .goOn [] => .goOn [.surface nostrPubkey rawKey false]
      | .goOn next => .goOn (next.map .service ++ [.surface nostrPubkey rawKey true])
      | .throw cleanup => .throw (cleanup.map .service))

def surface (nostrPubkey : Option Data) (rawKey : Data) (redeemed : Bool) : Listener :=
  if redeemed || decide (rawKey ∈ l.enrolled) then
    match nostrPubkey with
    | none => l.yield (.established rawKey)
    | some nostrPubkey =>
      (l.yield (.established rawKey)).yield (.learnedNostrIdentity rawKey nostrPubkey)
  else l

def ingestPTTAudio (link : UUID) (frame : Data) (decoded : Option Pcm) : Listener :=
  let received := l.pttReceiver.receive crypto link frame decoded
  { l with
    pttReceiver := received.1
    pttPlayer :=
      match received.2 with
      | .decoded seq pcm => l.pttPlayer.enqueue link seq pcm
      | _ => l.pttPlayer }

/-- The inbox handles an event: rows first, and the edges of a session go to the owner. -/
def handle (event : Yield) (activated : Bool) : Listener :=
  { l with
    handled := l.handled + 1
    rows := l.rows.handle event
    pttSessionOwner :=
      match event with
      | .pttOpened _ pttID => l.pttSessionOwner.opened pttID activated
      | .pttClosed _ pttID => l.pttSessionOwner.closed pttID
      | _ => l.pttSessionOwner }

def exec : Action → Reply → Option (Listener × Exit Action)
  | .service a, .service reply =>
    (l.services.exec a reply).map fun p => ({ l with services := p.1 }, p.2.map .service)
  | .presence a, .presence reply =>
    if drivesLinks a then
      (FirstContactCoordinator.exec rawKeyOf l.coordinator a reply).map fun p =>
        ({ l with services := { l.services with coordinator := p.1 } }, p.2.map .presence)
    else none
  | .openInbound envelope, .opened rawKey plaintext =>
    some (l, l.receiveOpened ⟨envelope, rawKey, plaintext⟩)
  | .openInbound _, .threw => some (l, .goOn [])
  | .dispatch m, .decoders refused => some (l.dispatch hashHex decodeManifest crypto m refused)
  | .redeemEcho inviteID nostrPubkey rawKey, .service reply =>
    l.redeemEcho inviteID nostrPubkey rawKey reply
  | .surface nostrPubkey rawKey redeemed, .done =>
    some (l.surface nostrPubkey rawKey redeemed, .goOn [])
  | .ingestPTTAudio link frame, .pcm decoded =>
    some (l.ingestPTTAudio crypto link frame decoded, .goOn [])
  | .tick, .engine ok => some ({ l with pttPlayer := l.pttPlayer.tick ok }, .goOn [])
  | .engineStopped, .done => some ({ l with pttPlayer := l.pttPlayer.engineStopped }, .goOn [])
  | .handleEvent, .activated ok => l.events[l.handled]?.map fun event =>
      (l.handle event ok, .goOn [])
  | .interruptionBegan, .done =>
    some ({ l with pttSessionOwner := l.pttSessionOwner.interruptionBegan }, .goOn [])
  | _, _ => none

def machine : Machine Listener Action Call Reply where
  thread
    | .service call =>
      ⟨(Pairing.thread call).todo.map .service, (Pairing.thread call).onThrow.map .service⟩
    | .onReachable ids => ⟨[.presence (.call (.onReachable ids))], []⟩
    | .onBundle link data => ⟨[.presence (.call (.onBundle link data))], []⟩
    | .onReconnectFrame link data => ⟨[.presence (.call (.onReconnectFrame link data))], []⟩
    | .receive envelope => ⟨[.openInbound envelope], []⟩
    | .ingestPTTAudio link frame => ⟨[.ingestPTTAudio link frame], []⟩
    | .tick => ⟨[.tick], []⟩
    | .engineStopped => ⟨[.engineStopped], []⟩
    | .handleEvent => ⟨[.handleEvent], []⟩
    | .interruptionBegan => ⟨[.interruptionBegan], []⟩
  exec := exec rawKeyOf hashHex decodeManifest crypto

abbrev Step := Transition (Config Listener Action) (Event Call Reply)

/-- The app after its launch. -/
def launch (services : Pairing) : Listener where
  services
  reassembler := .new
  pttReceiver := ⟨∅⟩
  pttPlayer := {}
  pttSessionOwner := .new
  events := []
  handled := 0
  rows := {}

/-! ### What an action does -/

/-- The session that an action opens: its peer, identifier and secret. -/
def opens : Action → Option (Data × Data × Data)
  | .dispatch m =>
    match MessagePayload.decodeSealed m.plaintext with
    | some ⟨.pttOpen, body⟩ =>
      if m.rawKey ∈ l.verified then (MessagePayload.parsePTTOpen body).map (m.rawKey, ·) else none
    | _ => none
  | _ => none

/-- The session that an action closes: its peer and identifier. -/
def closes : Action → Option (Data × Data)
  | .dispatch m =>
    match MessagePayload.decodeSealed m.plaintext with
    | some ⟨.pttClose, body⟩ =>
      if m.rawKey ∈ l.verified then (MessagePayload.parsePTTClose body).map (m.rawKey, ·) else none
    | _ => none
  | _ => none

/-- The services, the coordinator, live audio and the owner are the same. -/
structure Still (l l' : Listener) : Prop where
  services : l'.services = l.services
  pttReceiver : l'.pttReceiver = l.pttReceiver
  pttPlayer : l'.pttPlayer = l.pttPlayer
  pttSessionOwner : l'.pttSessionOwner = l.pttSessionOwner

/-- The action belongs to `receive`. -/
def Action.receives : Action → Bool
  | .openInbound _ | .dispatch _ | .surface .. => true
  | _ => false

/-- The kinds of actions. -/
inductive Effect : Action → Reply → Listener → Prop
  | service {a reply p} (exec : l.services.exec a reply = some p) :
      Effect (.service a) (.service reply) { l with services := p.1 }
  | presence {a reply p} (links : drivesLinks a)
      (exec : FirstContactCoordinator.exec rawKeyOf l.coordinator a reply = some p) :
      Effect (.presence a) (.presence reply)
        { l with services := { l.services with coordinator := p.1 } }
  | open_ {a refused k id secret} (opens : l.opens a = some (k, id, secret))
      (closes : l.closes a = none) :
      Effect a (.decoders refused) (l.pttOpen crypto k id secret refused)
  | close {a refused k id} (opens : l.opens a = none) (closes : l.closes a = some (k, id)) :
      Effect a (.decoders refused) (l.pttClose k id)
  | audio (link frame decoded) :
      Effect (.ingestPTTAudio link frame) (.pcm decoded)
        (l.ingestPTTAudio crypto link frame decoded)
  | tick (ok) : Effect .tick (.engine ok) { l with pttPlayer := l.pttPlayer.tick ok }
  | engineStopped : Effect .engineStopped .done { l with pttPlayer := l.pttPlayer.engineStopped }
  | handle {event} (ok) (next : l.events[l.handled]? = some event) :
      Effect .handleEvent (.activated ok) (l.handle event ok)
  | interruption : Effect .interruptionBegan .done
      { l with pttSessionOwner := l.pttSessionOwner.interruptionBegan }
  | burn {inviteID nostrPubkey rawKey reply p}
      (burn : l.services.burn inviteID rawKey reply = some p) :
      Effect (.redeemEcho inviteID nostrPubkey rawKey) (.service reply) { l with services := p.1 }
  | still {a reply l'} (receives : a.receives) (opens : l.opens a = none)
      (closes : l.closes a = none) (still : Still l l') : Effect a reply l'

namespace Still

variable {l} {l' : Listener}

theorem refl (l : Listener) : Still l l := ⟨rfl, rfl, rfl, rfl⟩

theorem yield (event : Yield) : Still l (l.yield event) := ⟨rfl, rfl, rfl, rfl⟩

theorem emitMedia (rawKey : Data) (done : MediaReassembler.Completed) :
    Still l (l.emitMedia rawKey done) := by
  unfold Listener.emitMedia
  split
  · exact refl l
  · exact yield _

theorem finishMedia (rawKey : Data)
    (ingested : MediaReassembler × Option MediaReassembler.Completed) :
    Still l (l.finishMedia rawKey ingested) := by
  unfold Listener.finishMedia
  dsimp only
  split
  · exact ⟨rfl, rfl, rfl, rfl⟩
  · rename_i done _
    have h := emitMedia (l := { l with reassembler := ingested.1 }) rawKey done
    exact ⟨h.services, h.pttReceiver, h.pttPlayer, h.pttSessionOwner⟩

theorem yieldSignal (rawKey : Data) (signal : Option CallSignal) :
    Still l (l.yieldSignal rawKey signal) := by
  cases signal with
  | none => exact refl l
  | some signal => exact yield _

theorem surface (nostrPubkey : Option Data) (rawKey : Data) (redeemed : Bool) :
    Still l (l.surface nostrPubkey rawKey redeemed) := by
  unfold Listener.surface
  split
  · split
    · exact yield _
    · exact ⟨rfl, rfl, rfl, rfl⟩
  · exact refl l

theorem ite (p : Prop) [Decidable p] (h : Still l l') : Still l (if p then l' else l) := by
  split
  · exact h
  · exact refl l

end Still

variable {rawKeyOf hashHex decodeManifest crypto l} {a : Action} {reply : Reply}
  {p : Listener × Exit Action}

/-- A peer that opens a session is verified. -/
theorem verified_of_opens {k id secret : Data} (h : l.opens a = some (k, id, secret)) :
    k ∈ l.verified := by
  cases a with
  | dispatch m =>
    simp only [opens] at h
    split at h
    · split at h
      · rename_i hv
        obtain ⟨q, _, heq⟩ := Option.map_eq_some_iff.mp h
        cases heq
        exact hv
      · cases h
    · cases h
  | service | presence | openInbound | redeemEcho | surface | ingestPTTAudio | tick | engineStopped
    | handleEvent | interruptionBegan => cases h

theorem opens_of_kind {m : Node.Opened} {kind : WirePayloadKind} {body : Data}
    (h : MessagePayload.decodeSealed m.plaintext = some ⟨kind, body⟩) (hk : kind ≠ .pttOpen) :
    l.opens (.dispatch m) = none := by
  cases kind <;> first | exact absurd rfl hk | simp [opens, h]

theorem closes_of_kind {m : Node.Opened} {kind : WirePayloadKind} {body : Data}
    (h : MessagePayload.decodeSealed m.plaintext = some ⟨kind, body⟩) (hk : kind ≠ .pttClose) :
    l.closes (.dispatch m) = none := by
  cases kind <;> first | exact absurd rfl hk | simp [closes, h]

/-- What a payload does that neither opens nor closes a session. -/
theorem Effect.of_kind {m : Node.Opened} {refused : List UUID} {kind : WirePayloadKind}
    {body : Data} {l' : Listener} (h : MessagePayload.decodeSealed m.plaintext = some ⟨kind, body⟩)
    (hopen : kind ≠ .pttOpen) (hclose : kind ≠ .pttClose) (hstill : Still l l') :
    Effect rawKeyOf crypto l (.dispatch m) (.decoders refused) l' :=
  .still rfl (opens_of_kind h hopen) (closes_of_kind h hclose) hstill

theorem dispatch_effect (m : Node.Opened) (refused : List UUID) :
    Effect rawKeyOf crypto l (.dispatch m) (.decoders refused)
      (l.dispatch hashHex decodeManifest crypto m refused).1 := by
  unfold dispatch
  split
  · rename_i h
    exact .still rfl (by simp [opens, h]) (by simp [closes, h]) (.refl l)
  · rename_i h
    exact .of_kind h nofun nofun (.ite _ (.yield _))
  · rename_i h
    refine .of_kind h nofun nofun (.ite _ ?_)
    split
    · exact .refl l
    · exact .finishMedia _ _
  · rename_i h
    exact .of_kind h nofun nofun (.ite _ (.finishMedia _ _))
  · rename_i h
    refine .of_kind h nofun nofun ?_
    split
    · exact .refl l
    · exact .yield _
  · rename_i h
    exact .of_kind h nofun nofun (.refl l)
  · rename_i h
    exact .of_kind h nofun nofun (.refl l)
  · rename_i h
    exact .of_kind h nofun nofun (.ite _ (.yieldSignal _ _))
  · rename_i h
    exact .of_kind h nofun nofun (.ite _ (.yieldSignal _ _))
  · rename_i h
    exact .of_kind h nofun nofun (.ite _ (.yieldSignal _ _))
  · rename_i body h
    have hcloses : l.closes (.dispatch m) = none := closes_of_kind h nofun
    by_cases hv : m.rawKey ∈ l.verified
    · rw [if_pos hv]
      split
      · rename_i hp
        exact .still rfl (by simp [opens, h, hp]) hcloses (.refl l)
      · rename_i id secret hp
        exact .open_ (by simp [opens, h, hp, hv]) hcloses
    · rw [if_neg hv]
      exact .still rfl (by simp [opens, h, hv]) hcloses (.refl l)
  · rename_i body h
    have hopens : l.opens (.dispatch m) = none := opens_of_kind h nofun
    by_cases hv : m.rawKey ∈ l.verified
    · rw [if_pos hv]
      split
      · rename_i hp
        exact .still rfl hopens (by simp [closes, h, hp]) (.refl l)
      · rename_i id hp
        exact .close hopens (by simp [closes, h, hp, hv])
    · rw [if_neg hv]
      exact .still rfl hopens (by simp [closes, h, hv]) (.refl l)
  · rename_i h
    exact .of_kind h nofun nofun (.refl l)
  · rename_i h
    exact .of_kind h nofun nofun (.refl l)

theorem exec_effect (h : l.exec rawKeyOf hashHex decodeManifest crypto a reply = some p) :
    Effect rawKeyOf crypto l a reply p.1 := by
  unfold exec at h
  split at h
  · obtain ⟨q, hq, rfl⟩ := Option.map_eq_some_iff.mp h
    exact .service hq
  · split at h
    · rename_i hlinks
      obtain ⟨q, hq, rfl⟩ := Option.map_eq_some_iff.mp h
      exact .presence hlinks hq
    · cases h
  · obtain rfl := Option.some.inj h
    exact .still rfl rfl rfl (.refl l)
  · obtain rfl := Option.some.inj h
    exact .still rfl rfl rfl (.refl l)
  · obtain rfl := Option.some.inj h
    exact dispatch_effect _ _
  · obtain ⟨q, hq, rfl⟩ := Option.map_eq_some_iff.mp h
    exact .burn hq
  · obtain rfl := Option.some.inj h
    exact .still rfl rfl rfl (.surface _ _ _)
  · obtain rfl := Option.some.inj h
    exact .audio _ _ _
  · obtain rfl := Option.some.inj h
    exact .tick _
  · obtain rfl := Option.some.inj h
    exact .engineStopped
  · obtain ⟨event, hevent, rfl⟩ := Option.map_eq_some_iff.mp h
    exact .handle _ hevent
  · obtain rfl := Option.some.inj h
    exact .interruption
  · cases h

/-- An action that closes a session does nothing else. -/
theorem exec_closes {k id : Data}
    (h : l.exec rawKeyOf hashHex decodeManifest crypto a reply = some p)
    (hcloses : l.closes a = some (k, id)) : p.1 = l.pttClose k id := by
  have heffect := exec_effect h
  generalize p.1 = l' at heffect ⊢
  cases heffect with
  | open_ _ hcloses' => cases hcloses.symm.trans hcloses'
  | close _ hcloses' =>
    cases hcloses.symm.trans hcloses'
    rfl
  | still _ _ hcloses' => cases hcloses.symm.trans hcloses'
  | service | presence | audio | tick | engineStopped | handle | interruption | burn =>
      cases hcloses

variable {k id secret : Data} {refused : List UUID} {link : UUID}

theorem pttOpen_pttPlayer :
    (l.pttOpen crypto k id secret refused).pttPlayer = l.pttPlayer := by
  unfold pttOpen
  dsimp only
  split <;> rfl

theorem pttOpen_services : (l.pttOpen crypto k id secret refused).services = l.services := by
  unfold pttOpen
  dsimp only
  split <;> rfl

theorem pttOpen_pttSessionOwner :
    (l.pttOpen crypto k id secret refused).pttSessionOwner = l.pttSessionOwner := by
  unfold pttOpen
  dsimp only
  split <;> rfl

/-! ### What `receive` yields -/

/-- The event reaches the user.  That a contact is new, and its Nostr key, are housekeeping. -/
def Yield.UserReaching : Yield → Prop
  | .content _ | .callSignal .. | .pttOpened .. | .pttClosed .. => True
  | .established _ | .learnedNostrIdentity .. => False

/-- Every event that is new in `l'` is of `k`, and reaches the user only if `k` is verified. -/
def YieldsOf (k : Data) (l l' : Listener) : Prop :=
  ∃ events, l'.events = l.events ++ events ∧
    ∀ event ∈ events, event.peerKey = k ∧ (event.UserReaching → k ∈ l.verified)

namespace YieldsOf

variable {l' : Listener}

theorem same (h : l'.events = l.events) : YieldsOf k l l' := ⟨[], by simp [h], by simp⟩

theorem one {event : Yield} (h : l'.events = l.events ++ [event]) (hk : event.peerKey = k)
    (hv : event.UserReaching → k ∈ l.verified) : YieldsOf k l l' := by
  refine ⟨[event], h, fun e he => ?_⟩
  rw [List.mem_singleton.mp he]
  exact ⟨hk, hv⟩

theorem emitMedia (done : MediaReassembler.Completed) (hk : k ∈ l.verified) :
    YieldsOf k l (l.emitMedia k done) := by
  unfold Listener.emitMedia
  split
  · exact same rfl
  · exact one rfl rfl fun _ => hk

theorem finishMedia (ingested : MediaReassembler × Option MediaReassembler.Completed)
    (hk : k ∈ l.verified) : YieldsOf k l (l.finishMedia k ingested) := by
  unfold Listener.finishMedia
  dsimp only
  split
  · exact same rfl
  · rename_i done _
    exact emitMedia (l := { l with reassembler := ingested.1 }) done hk

theorem yieldSignal (signal : Option CallSignal) (hk : k ∈ l.verified) :
    YieldsOf k l (l.yieldSignal k signal) := by
  cases signal with
  | none => exact same rfl
  | some signal => exact one rfl rfl fun _ => hk

theorem pttOpen (pttID secret : Data) (refused : List UUID) (hk : k ∈ l.verified) :
    YieldsOf k l (l.pttOpen crypto k pttID secret refused) := by
  unfold Listener.pttOpen
  dsimp only
  split
  · exact same rfl
  · exact one rfl rfl fun _ => hk

/-- An arm behind a copy of the gate. -/
theorem gated (h : k ∈ l.verified → YieldsOf k l l') :
    YieldsOf k l (if k ∈ l.verified then l' else l) := by
  split
  · exact h ‹_›
  · exact same rfl

theorem dispatch (m : Node.Opened) (refused : List UUID) :
    YieldsOf m.rawKey l (l.dispatch hashHex decodeManifest crypto m refused).1 := by
  unfold Listener.dispatch
  split
  · exact same rfl
  · exact gated fun hk => one rfl rfl fun _ => hk
  · refine gated fun hk => ?_
    split
    · exact same rfl
    · exact finishMedia _ hk
  · exact gated fun hk => finishMedia _ hk
  · dsimp only
    split
    · exact same rfl
    · exact one rfl rfl False.elim
  · exact same rfl
  · exact same rfl
  · exact gated (yieldSignal _)
  · exact gated (yieldSignal _)
  · exact gated (yieldSignal _)
  · refine gated fun hk => ?_
    split
    · exact same rfl
    · exact pttOpen _ _ _ hk
  · refine gated fun hk => ?_
    split
    · exact same rfl
    · exact one rfl rfl fun _ => hk
  · exact same rfl
  · exact same rfl

/-- A burned invite makes a contact known and reaches the user with nothing. -/
theorem surface (nostrPubkey : Option Data) (redeemed : Bool) :
    YieldsOf k l (l.surface nostrPubkey k redeemed) := by
  unfold Listener.surface
  split
  · split
    · exact one rfl rfl False.elim
    · rename_i nostrKey
      refine ⟨[.established k, .learnedNostrIdentity k nostrKey], by simp [Listener.yield], ?_⟩
      intro event hevent
      rcases List.mem_cons.mp hevent with rfl | hevent
      · exact ⟨rfl, False.elim⟩
      · obtain rfl := List.mem_singleton.mp hevent
        exact ⟨rfl, False.elim⟩
  · exact same rfl

end YieldsOf

/-! ### The gates -/

/-- Reachability, bundles and hellos change which links there are and whose they are, and what was
emitted. -/
theorem presence_eq {c : FirstContactCoordinator} {a : FirstContactCoordinator.Action}
    {reply : FirstContactCoordinator.Reply}
    {p : FirstContactCoordinator × Exit FirstContactCoordinator.Action} (hlinks : drivesLinks a)
    (h : FirstContactCoordinator.exec rawKeyOf c a reply = some p) :
    ∃ links reachable greeted keys emitted, p.1 = { c with
      linkPeers := links
      reachableLinks := reachable
      greetedLinks := greeted
      lastReachableKeys := keys
      reachablePeers := emitted } := by
  cases a with
  | greet links =>
    obtain rfl := Option.some.inj h
    obtain ⟨greeted, keys, emitted, heq⟩ := c.greetNext_eq links
    exact ⟨_, _, greeted, keys, emitted, heq⟩
  | call call =>
    cases call with
    | onReachable ids =>
      obtain rfl := Option.some.inj h
      obtain ⟨greeted, keys, emitted, heq⟩ := FirstContactCoordinator.greetNext_eq
        { c with
          reachableLinks := ids.toFinset
          greetedLinks := c.greetedLinks ∩ ids.toFinset } ids.dedup
      exact ⟨_, _, greeted, keys, emitted, heq⟩
    | onBundle link data =>
      obtain rfl := Option.some.inj h
      dsimp only [FirstContactCoordinator.onBundle]
      split
      · exact ⟨_, _, _, _, _, rfl⟩
      · split
        · exact ⟨_, _, _, _, _, rfl⟩
        · exact ⟨_, _, _, _, _, rfl⟩
    | onReconnectFrame link data =>
      obtain rfl := Option.some.inj h
      dsimp only [FirstContactCoordinator.onReconnectFrame]
      split
      · split
        · exact ⟨_, _, _, _, _, rfl⟩
        · split
          · unfold FirstContactCoordinator.onReconnectItsMe
            split
            · exact ⟨_, _, _, _, _, rfl⟩
            · split
              · split
                · exact ⟨_, _, _, _, _, rfl⟩
                · exact ⟨_, _, _, _, _, rfl⟩
              · exact ⟨_, _, _, _, _, rfl⟩
          · exact ⟨_, _, _, _, _, rfl⟩
      · exact ⟨_, _, _, _, _, rfl⟩
    | enableReconnect | redeemInvite | addReconnectContact | removeReconnectContact
      | addVerifiedContact | removeVerifiedContact | setBlockedIdentities => cases hlinks

theorem presence_gates {c : FirstContactCoordinator} {a : FirstContactCoordinator.Action}
    {reply : FirstContactCoordinator.Reply}
    {p : FirstContactCoordinator × Exit FirstContactCoordinator.Action} (hlinks : drivesLinks a)
    (h : FirstContactCoordinator.exec rawKeyOf c a reply = some p) :
    p.1.verifiedIdentities = c.verifiedIdentities := by
  obtain ⟨_, _, _, _, _, heq⟩ := presence_eq hlinks h
  rw [heq]

/-- Only the services change who is admitted. -/
theorem exec_admission (h : l.exec rawKeyOf hashHex decodeManifest crypto a reply = some p) :
    Pairing.SameAccess l.services p.1.services ∨
      ∃ b sreply q, a = .service b ∧ reply = .service sreply ∧ l.services.exec b sreply = some q ∧
        p.1.services = q.1 := by
  have heffect := exec_effect h
  generalize p.1 = l' at heffect ⊢
  cases heffect with
  | service hexec => exact .inr ⟨_, _, _, rfl, rfl, hexec, rfl⟩
  | presence hlinks hexec =>
    obtain ⟨_, _, _, _, _, heq⟩ := presence_eq hlinks hexec
    exact .inl ⟨rfl, rfl, congrArg (·.reconnectAllowlistIdentities) heq,
      congrArg (·.verifiedIdentities) heq, congrArg (·.blockedIdentities) heq⟩
  | open_ =>
    rw [pttOpen_services]
    exact .inl (.refl _)
  | burn hburn => exact .inl (Pairing.sameAccess_burn hburn)
  | still _ _ _ hstill =>
    rw [hstill.services]
    exact .inl (.refl _)
  | close | audio | tick | engineStopped | handle | interruption => exact .inl (.refl _)

/-- Only a verification adds to the verified identities. -/
theorem verified_of_effect {l' : Listener} {k : Data} (h : Effect rawKeyOf crypto l a reply l')
    (hk : k ∈ l'.verified) : k ∈ l.verified ∨ a = .service (.addVerifiedContact k) := by
  have keep {v : Finset Data} (hv : v = l.verified) (hk : k ∈ v) : k ∈ l.verified := hv ▸ hk
  cases h with
  | service hexec =>
    rename_i a reply q
    have heffect := Pairing.exec_effect hexec
    obtain ⟨s', x⟩ := q
    cases heffect with
    | quiet _ _ _ gates => exact .inl (keep gates.verified hk)
    | enroll | verify | revoke => exact .inl hk
    | addReconnect j =>
      exact .inl (keep (FirstContactCoordinator.addReconnectContact_verified j) hk)
    | removeReconnect j =>
      exact .inl (keep (FirstContactCoordinator.removeReconnectContact_verified j) hk)
    | addVerified j =>
      have hk : k ∈ (l.services.coordinator.addVerifiedContact j).verifiedIdentities := hk
      by_cases hjk : j = k
      · exact .inr (hjk ▸ rfl)
      · cases hon : l.services.coordinator.reconnectEnabled with
        | true =>
          rcases (FirstContactCoordinator.mem_addVerifiedContact k j hon).mp hk with ⟨heq, _⟩ | hk
          · exact absurd heq.symm hjk
          · exact .inl hk
        | false =>
          simp only [FirstContactCoordinator.addVerifiedContact, hon, Bool.false_and,
            Bool.false_eq_true, ↓reduceIte] at hk
          exact .inl hk
    | removeVerified j =>
      exact .inl ((FirstContactCoordinator.mem_removeVerifiedContact k j).mp hk).2
  | presence hlinks hexec => exact .inl (keep (presence_gates hlinks hexec) hk)
  | open_ =>
    rw [verified, coordinator, pttOpen_services] at hk
    exact .inl hk
  | burn hburn =>
    rename_i inviteID _ rawKey reply q
    have hexec : l.services.exec (.burn inviteID rawKey) reply = some q := hburn
    have heffect := Pairing.exec_effect hexec
    obtain ⟨s', x⟩ := q
    cases heffect with
    | quiet _ _ _ gates => exact .inl (keep gates.verified hk)
    | revoke _ by_ => rcases by_ with h | h <;> cases h
  | still _ _ _ hstill =>
    rw [verified, coordinator, hstill.services] at hk
    exact .inl hk
  | close | audio | tick | engineStopped | handle | interruption => exact .inl hk

/-! ### Contexts and buffers after an open, a close and a frame -/

theorem mem_linksFor : link ∈ l.linksFor k ↔ l.coordinator.linkPeers.lookup link = some k := by
  simp only [linksFor, List.mem_map, List.mem_filter, beq_iff_eq]
  constructor
  · rintro ⟨⟨_, _⟩, ⟨hmem, rfl⟩, rfl⟩
    exact Dict.mem_pairs.mp hmem
  · intro h
    exact ⟨(link, k), ⟨Dict.mem_pairs.mpr h, rfl⟩, rfl⟩

theorem lookup_openSessions (links : List UUID) (r : PTTReceiver) (key : Data) :
    (links.foldl (fun r link => r.openSession link key (decide (link ∉ refused))) r).contexts.lookup
        link =
      if link ∈ links ∧ link ∉ refused then some { key } else r.contexts.lookup link := by
  refine Dict.foldl_at (fun (r : PTTReceiver) link => r.contexts.lookup link) (p := (· ∉ refused))
    (fun r j link => ?_) links r link
  by_cases hrefused : j ∈ refused <;> simp [PTTReceiver.openSession, hrefused]

theorem pttOpen_contexts : (l.pttOpen crypto k id secret refused).pttReceiver.contexts.lookup link =
    if link ∈ l.linksFor k ∧ link ∉ refused then
      some { key := crypto.initiatorToResponder secret }
    else l.pttReceiver.contexts.lookup link := by
  unfold pttOpen
  dsimp only
  split
  · rename_i hempty
    rw [List.isEmpty_iff] at hempty
    simp [hempty]
  · exact lookup_openSessions _ _ _

theorem pttClose_contexts : (l.pttClose k id).pttReceiver.contexts.lookup link =
    if link ∈ l.linksFor k then none else l.pttReceiver.contexts.lookup link := by
  have hdrop := Dict.foldl_at (fun (r : PTTReceiver) link => r.contexts.lookup link)
    (f := fun r link => r.dropLink link) (p := fun _ => True) (v := none)
    (fun r j link => by simp [PTTReceiver.dropLink]) (l.linksFor k) l.pttReceiver link
  simp only [and_true] at hdrop
  exact hdrop

theorem pttClose_buffers : (l.pttClose k id).pttPlayer.buffers.lookup link =
    if link ∈ l.linksFor k then none else l.pttPlayer.buffers.lookup link := by
  have hdrop := Dict.foldl_at (fun (p : PTTPlayer) link => p.buffers.lookup link)
    (f := fun p link => p.drop link) (p := fun _ => True) (v := none)
    (fun p j link => by simp [PTTPlayer.lookup_drop]) (l.linksFor k) l.pttPlayer link
  simp only [and_true] at hdrop
  exact hdrop

/-! ### A device to try things on -/

/-- A cipher whose frames carry their key as the tag. -/
def plainCrypto : PTTSessionCrypto where
  initiatorToResponder secret := secret.take PTTAudioWire.tagBytes
  openSealed key _ ciphertext tag := if tag = key then some ciphertext else none

/-- The machine over stand-ins for the bundle parser, the digest and the manifest decoder. -/
def plainMachine : Machine Listener Action Call Reply :=
  machine FirstContactCoordinator.prefixKey (fun _ => "") (fun _ => none) plainCrypto

/-- A launch with the given contacts. -/
def launchWith (allowlist : ContactAllowlist) : Config Listener Action :=
  ⟨launch (.launch allowlist .empty [] (List.replicate 32 1) 0), []⟩

/-- A message of `rawKey` with a payload: the call, its opening and its dispatch as call `i`. -/
def message (i : Nat) (rawKey : Data) (payload : MessagePayload) : List (Event Call Reply) :=
  [.start (.receive (.new (.filled (.ofNat i)) [])),
    .step i (.opened rawKey payload.sealedPlaintext), .step i (.decoders [])]

/-- A verified contact. -/
def contact : Data := List.replicate 32 5

def launchContact : Config Listener Action :=
    launchWith (ContactAllowlist.empty.enroll contact 0 true)

/-- The contact's bundle arrives on link 7 while it is reachable, in calls 0 and 1. -/
def linkUp : List (Event Call Reply) :=
  [.start (.onReachable [7]), .step 0 (.presence ⟨false, none⟩), .step 0 (.presence ⟨false, none⟩),
    .start (.onBundle 7 (List.replicate 64 5)), .step 1 (.presence ⟨true, none⟩)]

/-- The contact's open of the session whose identifier and secret repeat `b`, as call `i`. -/
def openMessage (i : Nat) (b : UInt8) : List (Event Call Reply) :=
  message i contact ⟨.pttOpen, List.replicate 48 b⟩

def closeMessage (i : Nat) (b : UInt8) : List (Event Call Reply) :=
  message i contact ⟨.pttClose, List.replicate 16 b⟩

/-- A frame with sequence number `seq` of the contact's session `b`, as call `i`. -/
def audioFrame (i : Nat) (seq b : UInt8) : List (Event Call Reply) :=
  [.start (.ingestPTTAudio 7 (List.replicate 7 0 ++ [seq] ++ List.replicate 16 b)),
    .step i (.pcm (some []))]

/-- The contact is revoked, as call `i`. -/
def revokeContact (i : Nat) : List (Event Call Reply) :=
  [.start (.service (.revoke contact)), .step i (.service {}), .step i (.service {}),
    .step i (.service {})]

end Listener

end AeroNyra
