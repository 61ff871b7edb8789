import AeroNyra.Transport.NotifyQueue
import Mathlib.Data.Finset.Basic

/-! The links of the transport in both roles: the peripherals that it writes to and the centrals
that subscribe to it, and what its callbacks and its sends do with them. -/

namespace AeroNyra

namespace BLEMeshTransport

def characteristicUUID : CBUUID := 0x2496E79A7D3F4AB1B6AEDE940F1597D1

def audioCharacteristicUUID : CBUUID := 0x0B66CE0873F24CA2AB6A82685E626D61

/-- The links, between a start and a stop; the peripheral manager is there whenever its mailbox
is. -/
structure Links where
  peers : Finset UUID := ∅
  writeTargets : Finset UUID := ∅
  subscribedCentrals : Finset UUID := ∅
  notify : NotifyQueue := {}
  deriving DecidableEq

/-- What a callback or a send does outside the transport's own state. -/
inductive Effect
  | reachable (ids : Finset UUID)
  /-- A frame joins the queues of these peripherals. -/
  | write (ids : Finset UUID) (frame : Data)
  /-- `updateValue` accepts a slice. -/
  | update (slice : Data)
  deriving DecidableEq

namespace Links

def emitReachable (l : Links) : Effect := .reachable (l.writeTargets ∪ l.subscribedCentrals)

/-! ### The central's callbacks -/

/-- A peer that waits for its holdoff to end is left alone. -/
def didDiscover (l : Links) (id : UUID) (heldOff : Bool) : Links × List Effect :=
  if id ∈ l.peers ∨ heldOff then (l, []) else ({ l with peers := insert id l.peers }, [])

/-- Asks for the services. -/
def didConnect (l : Links) (_id : UUID) : Links × List Effect := (l, [])

def didFailToConnect (l : Links) (id : UUID) : Links × List Effect :=
  ({ l with peers := l.peers.erase id }, [])

def didDisconnectPeripheral (l : Links) (id : UUID) : Links × List Effect :=
  let l := { l with
    peers := l.peers.erase id
    writeTargets := l.writeTargets.erase id }
  (l, [l.emitReachable])

/-- A characteristic that was discovered: the mailbox is what makes a link reachable. -/
def discovered (id : UUID) (s : Links × List Effect) (char : CBUUID) : Links × List Effect :=
  if char = characteristicUUID then
    let l := { s.1 with writeTargets := insert id s.1.writeTargets }
    (l, s.2 ++ [l.emitReachable])
  else s

def didDiscoverCharacteristicsFor (l : Links) (id : UUID) (chars : Option (List CBUUID)) :
    Links × List Effect :=
  match chars with
  | none => (l, [])
  | some chars => chars.foldl (discovered id) (l, [])

/-- A write fails with a conclusive code, or is one failure too many. -/
def dropDeadLink (l : Links) (id : UUID) : Links × List Effect :=
  let l := { l with
    peers := l.peers.erase id
    writeTargets := l.writeTargets.erase id }
  (l, [l.emitReachable])

def centralManagerDidUpdateState (l : Links) (poweredOn : Bool) : Links × List Effect :=
  if poweredOn then (l, [])
  else
    let l := { l with
      peers := ∅
      writeTargets := ∅ }
    (l, [l.emitReachable])

/-! ### The peripheral's callbacks -/

def peripheralManagerDidUpdateState (l : Links) (poweredOn : Bool) : Links × List Effect :=
  if poweredOn then ({ l with notify.mailbox := true }, [])
  else
    let l := { l with
      subscribedCentrals := ∅
      notify := {} }
    (l, [l.emitReachable])

/-- Of whichever characteristic. -/
def didSubscribeTo (l : Links) (central : UUID) (_char : CBUUID) : Links × List Effect :=
  let l := { l with subscribedCentrals := insert central l.subscribedCentrals }
  (l, [l.emitReachable])

/-- Of whichever characteristic. -/
def didUnsubscribeFrom (l : Links) (central : UUID) (_char : CBUUID) : Links × List Effect :=
  let l := { l with subscribedCentrals := l.subscribedCentrals.erase central }
  (l, [l.emitReachable])

/-- The queue's slices that `updateValue` accepts. -/
def notified (l : Links) (sent : NotifyQueue × List Data) : Links × List Effect :=
  ({ l with notify := sent.1 }, sent.2.map .update)

def peripheralManagerIsReady (l : Links) (updateValue : Nat → Bool) : Links × List Effect :=
  l.notified (l.notify.peripheralManagerIsReady updateValue)

def notifySubscribers (l : Links) (frame : Data) (updateValue : Nat → Bool) : Links × List Effect :=
  l.notified (l.notify.notifySubscribers frame updateValue)

/-! ### Sending -/

/-- Whether the frame was enqueued; the effects are its writes. -/
def writeFrameToPeer (l : Links) (frame : Data) (id : UUID) : Bool × List Effect :=
  if id ∈ l.peers ∧ id ∈ l.writeTargets then (true, [.write {id} frame]) else (false, [])

/-- Sends by whichever role there is; whether the link has one. -/
def sendFrameToLink (l : Links) (frame : Data) (id : UUID) (updateValue : Nat → Bool) :
    Bool × Links × List Effect :=
  if id ∈ l.writeTargets then
    let written := l.writeFrameToPeer frame id
    (written.1, l, written.2)
  else if id ∈ l.subscribedCentrals then (true, l.notifySubscribers frame updateValue)
  else (false, l, [])

/-- Writes to all peripherals but some, and notifies the subscribers. -/
def writeToAll (l : Links) (frame : Data) (excluded : Finset UUID) : Effect :=
  .write ((l.writeTargets \ excluded) ∩ l.peers) frame

/-- A frame for all links; false when there is none. -/
def broadcast (l : Links) (frame : Data) (updateValue : Nat → Bool) : Bool × Links × List Effect :=
  if l.writeTargets = ∅ ∧ l.subscribedCentrals = ∅ then (false, l, [])
  else if l.subscribedCentrals = ∅ then (true, l, [l.writeToAll frame ∅])
  else
    let sent := l.notifySubscribers frame updateValue
    (true, sent.1, l.writeToAll frame ∅ :: sent.2)

/-- A frame for the links that do not belong to its source, in so far as notifications can spare
them. -/
def relay (l : Links) (frame : Data) (excluded : Finset UUID) (updateValue : Nat → Bool) :
    Links × List Effect :=
  if l.subscribedCentrals \ excluded = ∅ then (l, [l.writeToAll frame excluded])
  else
    let sent := l.notifySubscribers frame updateValue
    (sent.1, l.writeToAll frame excluded :: sent.2)

inductive Event
  | didDiscover (id : UUID) (heldOff : Bool)
  | didConnect (id : UUID)
  | didFailToConnect (id : UUID)
  | didDisconnectPeripheral (id : UUID)
  | didDiscoverCharacteristicsFor (id : UUID) (chars : Option (List CBUUID))
  | dropDeadLink (id : UUID)
  | centralManagerDidUpdateState (poweredOn : Bool)
  | peripheralManagerDidUpdateState (poweredOn : Bool)
  | didSubscribeTo (central : UUID) (char : CBUUID)
  | didUnsubscribeFrom (central : UUID) (char : CBUUID)
  | peripheralManagerIsReady (updateValue : Nat → Bool)
  | send (envelope : Data) (updateValue : Nat → Bool)
  | relay (envelope : Data) (excludingLinks : Finset UUID) (updateValue : Nat → Bool)
  | sendBundle (data : Data) (toLink : UUID) (updateValue : Nat → Bool)
  | sendReconnect (data : Data) (toLink : UUID) (updateValue : Nat → Bool)

/-- The links after the event, and its effects; none when a frame is too long to be built. -/
def react (l : Links) : Event → Option (Links × List Effect)
  | .didDiscover id heldOff => some (l.didDiscover id heldOff)
  | .didConnect id => some (l.didConnect id)
  | .didFailToConnect id => some (l.didFailToConnect id)
  | .didDisconnectPeripheral id => some (l.didDisconnectPeripheral id)
  | .didDiscoverCharacteristicsFor id chars => some (l.didDiscoverCharacteristicsFor id chars)
  | .dropDeadLink id => some (l.dropDeadLink id)
  | .centralManagerDidUpdateState poweredOn => some (l.centralManagerDidUpdateState poweredOn)
  | .peripheralManagerDidUpdateState poweredOn => some (l.peripheralManagerDidUpdateState poweredOn)
  | .didSubscribeTo central char => some (l.didSubscribeTo central char)
  | .didUnsubscribeFrom central char => some (l.didUnsubscribeFrom central char)
  | .peripheralManagerIsReady updateValue => some (l.peripheralManagerIsReady updateValue)
  | .send envelope updateValue =>
    (frame .envelope envelope).map fun frame => (l.broadcast frame updateValue).2
  | .relay envelope excludingLinks updateValue =>
    (frame .envelope envelope).map fun frame => l.relay frame excludingLinks updateValue
  | .sendBundle data toLink updateValue =>
    (frame .bundle data).map fun frame => (l.sendFrameToLink frame toLink updateValue).2
  | .sendReconnect data toLink updateValue =>
    (frame .reconnect data).map fun frame => (l.sendFrameToLink frame toLink updateValue).2

end Links

end BLEMeshTransport

end AeroNyra
