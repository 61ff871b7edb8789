import AeroNyra.Coordinator.Receive
import AeroNyra.Router.Inbound
import AeroNyra.Transport.Links

/-! A network of devices that flood: what one of them sends goes over the radio to the links that
it writes to and the ones that it notifies, whose devices relay it onward, and over the internet to
its recipient.  What is on the air may arrive at the other end of these links in any order, any
number of times or never.  Packets carry, for the proofs only, where they come from and who relayed
them; and a device keeps which identifiers have passed through it. -/

namespace AeroNyra

/-- The links that a relay of what came over `link` must keep out of. -/
def FirstContactCoordinator.relayExclusions (c : FirstContactCoordinator) (link : UUID) :
    Finset UUID :=
  match c.linkPeers.lookup link with
  | none => {link}
  | some peer => insert link ((c.linkPeers.pairs.filter (·.2 == peer)).map (·.1)).toFinset

namespace BLEMeshTransport

def Effect.writes : Effect → Finset UUID
  | .write ids _ => ids
  | .reachable _ | .update _ => ∅

def Effect.isUpdate : Effect → Bool
  | .update _ => true
  | .reachable _ | .write .. => false

/-- Where a frame goes: the links that it is written to or that are notified of it.  Slices that
wait go to whoever has subscribed by then. -/
structure Audience where
  links : Finset UUID := ∅
  notified : Bool := false
  deriving DecidableEq

/-- Where a frame goes, from what was done to send it: it was written, and slices of it went out to
the subscribers or joined their queue. -/
def Links.audience (l : Links) (sent : Links × List Effect) : Audience :=
  let notified := decide (sent.1.notify ≠ l.notify) || sent.2.any Effect.isUpdate
  { links := (sent.2.map Effect.writes).foldr (· ∪ ·) (if notified then l.subscribedCentrals else ∅)
    notified }

end BLEMeshTransport

namespace Flooding

open BLEMeshTransport

structure Packet (ν : Type) where
  kind : TransportKind
  bytes : Data
  origin : ν
  /-- The devices that relayed it, in order. -/
  path : List ν
  audience : Audience
  deriving DecidableEq

namespace Packet

variable {ν : Type} (p : Packet ν)

/-- Who puts the packet on the air. -/
def sender : ν := p.path.getLast?.getD p.origin

/-- The packet can come to `n` over its link `link`: it went over the internet, or over the link
`onto` of the sender, whose other end that is. -/
def ComesTo (peer : ν → UUID → ν) (n : ν) (link onto : UUID) : Prop :=
  p.kind = .internet ∨ peer p.sender onto = n ∧ peer n link = p.sender ∧
    (onto ∈ p.audience.links ∨ p.audience.notified = true)

instance [DecidableEq ν] (peer : ν → UUID → ν) (n : ν) (link onto : UUID) :
    Decidable (p.ComesTo peer n link onto) :=
  inferInstanceAs (Decidable (_ ∨ _))

end Packet

/-- How far `handleInbound` is with an envelope. -/
inductive Stage
  /-- The receiver has still to answer which links to keep out of. -/
  | excluding (forwarded : Envelope)
  /-- The coordinator has answered, as it was then. -/
  | relaying (forwarded : Envelope) (asked : FirstContactCoordinator)
  /-- The envelope is to be handed to the receiver, or has been. -/
  | receiving

/-- A call of `handleInbound` that is past the dedup. -/
structure Handling (ν : Type) where
  link : UUID
  envelope : Envelope
  packet : Packet ν
  stage : Stage

/-- A relay over the radio: the coordinator as it was asked, the links as they were, and what was
done. -/
structure Relay (ν : Type) where
  source : Handling ν
  forwarded : Envelope
  asked : FirstContactCoordinator
  links : Links
  effects : List Effect

/-- A new envelope that the router sent: who took it, and the links as they were. -/
structure Sending where
  id : MessageID
  carrier : Option TransportKind
  links : Links

/-- A device: what its router, its coordinator and its radio have of the flooding. -/
structure Station (ν : Type) where
  seen : SeenCache
  coordinator : FirstContactCoordinator
  links : Links
  sent : List Sending
  handling : List (Handling ν)
  relayed : List (Relay ν)
  received : List (Handling ν)
  /-- The identifiers of all that was sent or has arrived. -/
  passed : List MessageID

namespace Station

variable {ν : Type} (s : Station ν)

/-- The dedup cache is asked for an identifier. -/
def mark (id : MessageID) : Station ν :=
  { s with seen := (s.seen.containsOrInsert id).2, passed := s.passed ++ [id] }

/-- The router sends a new envelope, and the radio, the internet or nobody takes it; none when the
radio cannot, as it has no link or the frame is too long to be built. -/
def send (n : ν) (id : MessageID) (ciphertext : Data) (carrier : Option TransportKind)
    (updateValue : Nat → Bool) :
    Option (Station ν × List (Packet ν)) :=
  let wire := (Envelope.new id ciphertext).wireData
  let sent := { s.mark id with sent := s.sent ++ [⟨id, carrier, s.links⟩] }
  match carrier with
  | none => some (sent, [])
  | some .internet => some (sent, [⟨.internet, wire, n, [], {}⟩])
  | some .ble =>
    (frame .envelope wire).bind fun bytes =>
      let result := s.links.broadcast bytes updateValue
      if result.1 then
        some ({ sent with links := result.2.1 }, [⟨.ble, wire, n, [], s.links.audience result.2⟩])
      else none

/-- Where `handleInbound` goes after the dedup. -/
def afterDedup (kind : TransportKind) (e : Envelope) : Stage :=
  if Inbound.shouldRelay kind then
    match e.forwarded with
    | some forwarded => .excluding forwarded
    | none => .receiving
  else .receiving

/-- An envelope arrives. -/
def handleInbound (p : Packet ν) (link : UUID) (e : Envelope) : Station ν :=
  if (s.seen.containsOrInsert e.id).1 then s.mark e.id
  else
    { s.mark e.id with handling := s.handling ++ [⟨link, e, p, afterDedup p.kind e⟩] }

def setStage (i : Nat) (h : Handling ν) (stage : Stage) : List (Handling ν) :=
  s.handling.set i { h with stage }

/-- The receiver answers. -/
def exclusions (i : Nat) : Option (Station ν) :=
  s.handling[i]?.bind fun h =>
    match h.stage with
    | .excluding forwarded =>
        some { s with handling := s.setStage i h (.relaying forwarded s.coordinator) }
    | .relaying .. | .receiving => none

/-- The radio transport relays, and the internet transport does nothing; none when the frame is too
long to be built. -/
def relay (i : Nat) (updateValue : Nat → Bool) : Option (Station ν × Relay ν) :=
  s.handling[i]?.bind fun h =>
    match h.stage with
    | .relaying forwarded asked =>
      (frame .envelope forwarded.wireData).map fun bytes =>
        let sent := s.links.relay bytes (asked.relayExclusions h.link) updateValue
        let relay := ⟨h, forwarded, asked, s.links, sent.2⟩
        ({ s with
            links := sent.1
            handling := s.setStage i h .receiving
            relayed := s.relayed ++ [relay] }, relay)
    | .excluding _ | .receiving => none

/-- The envelope is handed to the receiver. -/
def receive (i : Nat) : Option (Station ν) :=
  s.handling[i]?.bind fun h =>
    match h.stage with
    | .receiving => some { s with handling := s.handling.eraseIdx i, received := s.received ++ [h] }
    | .excluding _ | .relaying .. => none

end Station

structure Network (ν : Type) where
  stations : ν → Station ν
  air : List (Packet ν)

inductive Event (ν : Type)
  /-- The router sends a new envelope: the radio takes it, the internet does, or neither. -/
  | send (n : ν) (id : MessageID) (ciphertext : Data) (carrier : Option TransportKind)
      (updateValue : Nat → Bool)
  | publishOverNostr (n : ν) (id : MessageID) (ciphertext : Data)
  /-- What was sent before goes out over the internet. -/
  | rerouteToNostr (n : ν) (k : Nat)
  /-- A packet arrives over a link, of which the sender's end is `onto`. -/
  | arrive (n : ν) (k : Nat) (link onto : UUID)
  | exclusions (n : ν) (i : Nat)
  | relay (n : ν) (i : Nat) (updateValue : Nat → Bool)
  | receive (n : ν) (i : Nat)
  /-- The coordinator and the links of a device change for reasons of their own. -/
  | coordinator (n : ν) (c : FirstContactCoordinator)
  | links (n : ν) (l : Links)

namespace Network

variable {ν : Type} [DecidableEq ν]

/-- Devices that have just been launched, with the capacities of their caches. -/
def launch (capacity : ν → Nat) : Network ν where
  stations n := ⟨.new (capacity n), .new [], {}, [], [], [], [], []⟩
  air := []

variable (net : Network ν)

def put (n : ν) (s : Station ν) (packets : List (Packet ν)) : Network ν :=
  ⟨Function.update net.stations n s, net.air ++ packets⟩

/-- One step of a network, where `peer n link` is the device at the other end of a link of `n`. -/
def step (peer : ν → UUID → ν) : Event ν → Option (Network ν)
  | .send n id ciphertext carrier updateValue =>
    ((net.stations n).send n id ciphertext carrier updateValue).map fun (s, packets) =>
    net.put n s packets
  | .publishOverNostr n id ciphertext =>
    ((net.stations n).send n id ciphertext (some .internet) fun _ => false).map fun (s, packets) =>
      net.put n s packets
  | .rerouteToNostr n k =>
    net.air[k]?.bind fun p =>
      if p.origin = n ∧ p.path = [] then
        some (net.put n (net.stations n) [⟨.internet, p.bytes, n, [], {}⟩])
      else none
  | .arrive n k link onto =>
    net.air[k]?.bind fun p =>
      if p.ComesTo peer n link onto then
        match Envelope.ofWire? p.bytes with
        | some e => some (net.put n ((net.stations n).handleInbound p link e) [])
        | none => some net
      else none
  | .exclusions n i => ((net.stations n).exclusions i).map fun s => net.put n s []
  | .relay n i updateValue =>
    ((net.stations n).relay i updateValue).map fun (s, relay) =>
      net.put n s [⟨.ble, relay.forwarded.wireData, relay.source.packet.origin,
        relay.source.packet.path ++ [n], relay.links.audience (s.links, relay.effects)⟩]
  | .receive n i => ((net.stations n).receive i).map fun s => net.put n s []
  | .coordinator n c => some (net.put n { net.stations n with coordinator := c } [])
  | .links n l => some (net.put n { net.stations n with links := l } [])

end Network

end Flooding

end AeroNyra
