import AeroNyra.Coordinator.Outbound
import AeroNyra.Coordinator.Presence
import AeroNyra.Media.Reassembler

/-! A node: the coordinator, the router and the media reassembler, with every call of them in
progress.  `receive` opens an inbound envelope, drops what comes from a blocked identity, and acts
on the payload: content of a verified contact is yielded to the inbox and acknowledged, and an
acknowledgement confirms a delivery.  The arms of `receive` that touch none of the three (identity
announcements, invite echoes, calls, push-to-talk) end the call. -/

namespace AeroNyra

/-- The events that carry content to the inbox. -/
inductive SessionEvent
  | received (peerKey plaintext : Data) (wireID : MessageID)
  | receivedMedia (peerKey : Data) (done : MediaReassembler.Completed) (wireID : MessageID)
  deriving DecidableEq

namespace SessionEvent

def peerKey : SessionEvent → Data
  | received peerKey .. => peerKey
  | receivedMedia peerKey .. => peerKey

def wireID : SessionEvent → MessageID
  | received _ _ wireID => wireID
  | receivedMedia _ _ wireID => wireID

end SessionEvent

structure Node where
  coordinator : FirstContactCoordinator
  router : MessageRouter
  reassembler : MediaReassembler
  /-- The content events yielded so far, the oldest first. -/
  events : List SessionEvent

namespace Node

open Interleave

/-! ### Identifiers of transfers -/

/-- The value of a hexadecimal digit of either case. -/
def hexDigit (c : Char) : Option Nat :=
  if '0' ≤ c ∧ c ≤ '9' then some (c.toNat - '0'.toNat)
  else if 'a' ≤ c ∧ c ≤ 'f' then some (c.toNat - 'a'.toNat + 10)
  else if 'A' ≤ c ∧ c ≤ 'F' then some (c.toNat - 'A'.toNat + 10)
  else none

/-- `UInt8(_, radix: 16)` of two characters, which takes a leading sign. -/
def hexByte (a b : Char) : Option UInt8 :=
  if a = '+' then (hexDigit b).map .ofNat
  else if a = '-' then if hexDigit b = some 0 then some 0 else none
  else (hexDigit a).bind fun high => (hexDigit b).map fun low => .ofNat (16 * high + low)

def hexPairs : List Char → Option Data
  | [] => some []
  | a :: b :: rest => (hexByte a b).bind fun byte => (hexPairs rest).map (byte :: ·)
  | [_] => none

def hexToBytes (s : String) : Option Data := hexPairs s.toList

/-! ### Calls -/

/-- A call of the router from outside `receive`: nothing else confirms a delivery. -/
structure OtherCall where
  call : MessageRouter.Call
  other : ∀ id hops, call ≠ .confirmDelivery id hops

inductive Call
  | send (announcement : Option Outbound.Announcement) (m : Outbound.Outgoing)
  | router (call : OtherCall)
  | presence (call : FirstContactCoordinator.Call)
  | receive (envelope : Envelope)

/-- An envelope, with the identity under whose session it opened and what it opened to. -/
structure Opened where
  envelope : Envelope
  rawKey : Data
  plaintext : Data

/-- A delivery acknowledgement on its way to `peer`. -/
structure Receipt where
  peer : Data
  wireID : MessageID
  hops : UInt8
  deriving DecidableEq

inductive Action
  | outbound (a : Outbound.Action)
  | presence (a : FirstContactCoordinator.Action)
  | openInbound (envelope : Envelope)
  /-- `receive` from the decoding of the payload on. -/
  | dispatch (m : Opened)
  | confirm (m : Opened) (wireID : MessageID) (hops : UInt8)
  /-- `sendDeliveryAck`, once the Nostr key of the sender is looked up. -/
  | sendDeliveryAck (receipt : Receipt)
  /-- A router segment that hands over an acknowledgement. -/
  | carryAck (receipt : Receipt) (a : MessageRouter.Segment)

inductive Reply
  | outbound (reply : Outbound.Reply)
  | presence (reply : FirstContactCoordinator.Reply)
  /-- What the ciphertext opens to, and the announcement that is due to its sender. -/
  | opened (rawKey plaintext : Data) (announcement : Option Outbound.Announcement)
  /-- The sender's Nostr key and the sealed acknowledgement. -/
  | sealed (nostrRecipient : Option Data) (envelope : Envelope)
  | router (reply : MessageRouter.Reply)
  | done
  | threw

variable (rawKeyOf : Data → Option Data) (hashHex : Data → String)
  (decodeManifest : Data → Option MediaManifest) (n : Node)

/-- The hops that an envelope travelled. -/
def hops (envelope : Envelope) : UInt8 := .ofNat (Envelope.maxHops.toNat - envelope.ttl.toNat)

/-- Yields a completed transfer under the identifier that its media identifier spells. -/
def emitMedia (rawKey : Data) (done : MediaReassembler.Completed) : Node × Option MessageID :=
  match (hexToBytes done.mediaID).bind MessageID.ofBytes? with
  | none => (n, none)
  | some wireID =>
    ({ n with events := n.events ++ [.receivedMedia rawKey done wireID] }, some wireID)

/-- The arms of `receive` for manifests and chunks, once the reassembler has taken one. -/
def finishMedia (m : Opened) (ingested : MediaReassembler × Option MediaReassembler.Completed) :
    Node × Exit Action :=
  let n := { n with reassembler := ingested.1 }
  match ingested.2 with
  | none => (n, .goOn [])
  | some done =>
    match n.emitMedia m.rawKey done with
    | (n, some wireID) => (n, .goOn [.sendDeliveryAck ⟨m.rawKey, wireID, hops m.envelope⟩])
    | (n, none) => (n, .goOn [])

def dispatch (m : Opened) : Node × Exit Action :=
  match MessagePayload.decodeSealed m.plaintext with
  | none => (n, .goOn [])
  | some ⟨.text, body⟩ =>
    if m.rawKey ∈ n.coordinator.verifiedIdentities then
      ({ n with events := n.events ++ [.received m.rawKey body m.envelope.id] },
        .goOn [.sendDeliveryAck ⟨m.rawKey, m.envelope.id, hops m.envelope⟩])
    else (n, .goOn [])
  | some ⟨.mediaManifest, json⟩ =>
    if m.rawKey ∈ n.coordinator.verifiedIdentities then
      match decodeManifest json with
      | none => (n, .goOn [])
      | some manifest =>
        n.finishMedia m (MediaReassembler.ingestManifest hashHex n.reassembler manifest)
    else (n, .goOn [])
  | some ⟨.mediaChunk, chunk⟩ =>
    if m.rawKey ∈ n.coordinator.verifiedIdentities then
      n.finishMedia m (MediaReassembler.ingestChunk hashHex n.reassembler chunk)
    else (n, .goOn [])
  | some ⟨.ack, body⟩ =>
    match MessagePayload.parseDeliveryAck body with
    | none => (n, .goOn [])
    | some (wireID, hops) => (n, .goOn [.confirm m wireID hops])
  | some ⟨_, _⟩ => (n, .goOn [])

/-- `receive` once its ciphertext has opened. -/
def receiveOpened (m : Opened) (announcement : Option Outbound.Announcement) :
    Node × Exit Action :=
  if m.rawKey ∈ n.coordinator.blockedIdentities then (n, .goOn [])
  else
    match announcement with
    | none => n.dispatch hashHex decodeManifest m
    | some announcement =>
      (n, .goOn [.outbound (Outbound.announceNostrIdentity announcement), .dispatch m])

def sendDeliveryAck (receipt : Receipt) (nostrRecipient : Option Data) (envelope : Envelope) :
    Exit Action :=
  if receipt.peer ∈ n.coordinator.lastReachableKeys then
    .goOn [.carryAck receipt (.call (.send envelope false (some receipt.peer) nostrRecipient))]
  else
    match nostrRecipient with
    | some recipient => .goOn [.carryAck receipt (.call (.publishOverNostr envelope recipient))]
    | none => .goOn []

def exec : Action → Reply → Option (Node × Exit Action)
  | .outbound a, .outbound reply =>
    (Outbound.exec n.router a reply).map fun p =>
      ({ n with router := p.1 }, p.2.map .outbound)
  | .presence a, .presence reply =>
    (FirstContactCoordinator.exec rawKeyOf n.coordinator a reply).map fun p =>
      ({ n with coordinator := p.1 }, p.2.map .presence)
  | .openInbound envelope, .opened rawKey plaintext announcement =>
    some (n.receiveOpened hashHex decodeManifest ⟨envelope, rawKey, plaintext⟩ announcement)
  | .openInbound _, .threw => some (n, .goOn [])
  | .dispatch m, .done => some (n.dispatch hashHex decodeManifest m)
  | .confirm _ wireID hops, .done =>
    some ({ n with router := n.router.confirmDelivery wireID hops.toNat }, .goOn [])
  | .sendDeliveryAck receipt, .sealed nostrRecipient envelope =>
    some (n, n.sendDeliveryAck receipt nostrRecipient envelope)
  | .sendDeliveryAck _, .threw => some (n, .goOn [])
  | .carryAck receipt a, .router reply =>
    (n.router.exec a reply).map fun p =>
      ({ n with router := p.1 }, p.2.exit.map (.carryAck receipt))
  | _, _ => none

def machine : Machine Node Action Call Reply where
  thread
    | .send announcement m =>
      ⟨(Outbound.actions announcement m).map .outbound, []⟩
    | .router call => ⟨[.outbound (.router (.call call.call))], []⟩
    | .presence call => ⟨[.presence (.call call)], []⟩
    | .receive envelope => ⟨[.openInbound envelope], []⟩
  exec := exec rawKeyOf hashHex decodeManifest

abbrev Step := Transition (Config Node Action) (Event Call Reply)

/-- A node that was just launched. -/
def launch (localIdentity : Data) (transports : List MeshTransport) (seenCapacity : Nat) : Node :=
  ⟨.new localIdentity, .new transports seenCapacity, .new, []⟩

/-- The steps of a run from the launch. -/
def steps (localIdentity : Data) (transports : List MeshTransport) (seenCapacity : Nat)
    (events : List (Event Call Reply)) : List Step :=
  trace (machine rawKeyOf hashHex decodeManifest).step
    ⟨launch localIdentity transports seenCapacity, []⟩ events

end Node

end AeroNyra
