import AeroNyra.Transport.WriteQueue

/-! The central's side of the link to one peripheral: the queue of frames with one chunk in flight,
its failures and the holdoff behind them, and the ring of audio frames, with the connection that
comes and goes below.  Every function of the source reads and writes the entries of one identifier
only. -/

namespace AeroNyra

namespace BLEMeshTransport

/-! ### Audio rings -/

def audioRingCapacity : Nat := 8

def audioDrainPerReady : Nat := 2

/-- The ring with a frame behind it, without its oldest frames beyond the capacity. -/
def enqueueAudio (ring : List Data) (framed : Data) : List Data :=
  let q := ring ++ [framed]
  if audioRingCapacity < q.length then q.drop (q.length - audioRingCapacity) else q

/-- The loop of a drain: the frames that go out, up to `limit` of them, and those that stay;
`accepts i` is the answer to the `i`-th of them. -/
def drainRing (accepts : Nat → Bool) : Nat → List Data → List Data × List Data
  | 0, ring => ([], ring)
  | _ + 1, [] => ([], [])
  | limit + 1, framed :: ring =>
    if accepts 0 then
      let drained := drainRing (fun i => accepts (i + 1)) limit ring
      (framed :: drained.1, drained.2)
    else ([], framed :: ring)

/-! ### The engine -/

/-- Seconds. -/
def baseReconnectDelay : Nat := 1

def maxReconnectDelay : Nat := 30

/-- What the central keeps for a peripheral; a count that is absent is zero. -/
structure WriteEngine where
  peer : Bool := false
  writeTarget : Bool := false
  audioWriteTarget : Bool := false
  /-- The frames, each as its remaining chunks. -/
  writeQueue : List (List Data) := []
  writeInFlight : Bool := false
  chunkRetriesLeft : Option Nat := none
  writeErrorCount : Nat := 0
  audioRing : List Data := []
  reconnectAttempts : Nat := 0
  /-- No connection before this time, in seconds. -/
  reconnectHoldoff : Option Nat := none
  deriving DecidableEq

namespace WriteEngine

/-- What the engine asks of CoreBluetooth. -/
inductive Effect
  /-- A write with response. -/
  | write (chunk : Data)
  /-- A write without response. -/
  | writeAudio (framed : Data)
  | cancelPeripheralConnection
  deriving DecidableEq

variable (e : WriteEngine)

/-- There are a peripheral and a characteristic to write to. -/
def linked : Bool := e.peer && e.writeTarget

/-- Sends the head chunk of the head frame unless one is in flight. -/
def pumpWriteQueue : WriteEngine × List Effect :=
  if e.writeInFlight || !e.linked then (e, [])
  else
    match e.writeQueue with
    | (chunk :: _) :: _ => ({ e with writeInFlight := true }, [.write chunk])
    | _ => (e, [])

/-- With a frame at the end of the queue. -/
def enqueued (chunks : List Data) : WriteEngine := { e with writeQueue := e.writeQueue ++ [chunks] }

/-- A frame for a link that is not there is refused. -/
def writeFrameToPeer (frame : Data) (maximumWriteValueLength : Nat) : WriteEngine × List Effect :=
  if e.linked then
    let maxChunk := max 20 maximumWriteValueLength
    (e.enqueued (Pieces.cut maxChunk frame)).pumpWriteQueue
  else (e, [])

/-- Pops the head chunk, and its frame with the last one; a frame without chunks traps. -/
def advanceWriteQueue : Option (WriteEngine × List Effect) :=
  match e.writeQueue with
  | [] => some e.pumpWriteQueue
  | [] :: _ => none
  | [_] :: frames => some (pumpWriteQueue { e with writeQueue := frames })
  | (_ :: chunks) :: frames => some (pumpWriteQueue { e with writeQueue := chunks :: frames })

/-- Drops the head frame with whatever is left of it. -/
def failHeadFrame : WriteEngine × List Effect :=
    pumpWriteQueue { e with writeQueue := e.writeQueue.tail }

def drainAudioRing (limit : Nat) (canSend : Nat → Bool) : WriteEngine × List Effect :=
  if e.peer && e.audioWriteTarget then
    let drained := drainRing canSend limit e.audioRing
    ({ e with audioRing := drained.2 }, drained.1.map .writeAudio)
  else (e, [])

def sendAudioFrame (framed : Data) (canSend : Nat → Bool) : WriteEngine × List Effect :=
  if e.peer && e.audioWriteTarget then
    drainAudioRing { e with audioRing := enqueueAudio e.audioRing framed } 1 canSend
  else (e, [])

/-- The entries that a disconnect and a dead link clear. -/
def cleared : WriteEngine :=
  { e with
    peer := false
    writeTarget := false
    audioWriteTarget := false
    writeErrorCount := 0
    writeQueue := []
    audioRing := []
    chunkRetriesLeft := none }

/-- The end of a link whose writes fail. -/
def tearDown (now : Nat) : WriteEngine × List Effect :=
  let delay := min maxReconnectDelay (baseReconnectDelay * 2 ^ e.reconnectAttempts)
  ({ e.cleared with
    reconnectAttempts := e.reconnectAttempts + 1
    reconnectHoldoff := some (now + delay) }, [.cancelPeripheralConnection])

/-- The response to the write in flight. -/
def didWriteValueFor (error : Option WriteError) (now : Nat) (canSend : Nat → Bool) :
    Option (WriteEngine × List Effect) :=
  let e := { e with writeInFlight := false }
  match error with
  | none =>
    (advanceWriteQueue { e with
      writeErrorCount := 0
      chunkRetriesLeft := none
      reconnectAttempts := 0 }).map fun advanced =>
        let drained := advanced.1.drainAudioRing audioDrainPerReady canSend
        (drained.1, advanced.2 ++ drained.2)
  | some error =>
    if error.linkDead then some (e.tearDown now)
    else
      let retries := e.chunkRetriesLeft.getD chunkRetryLimit
      if 0 < retries then some (pumpWriteQueue { e with chunkRetriesLeft := some (retries - 1) })
      else
        let e := { e with
          chunkRetriesLeft := none
          writeErrorCount := e.writeErrorCount + 1 }
        if e.writeErrorCount < writeErrorTeardownThreshold then some e.failHeadFrame
        else some (e.tearDown now)

/-- A peer that is known or waits for its holdoff to end is left alone. -/
def didDiscover (now : Nat) : WriteEngine :=
  if e.peer || e.reconnectHoldoff.any (now < ·) then e
  else { e with
    peer := true
    reconnectHoldoff := none }

def didFailToConnect : WriteEngine := { e with peer := false }

def didDisconnectPeripheral : WriteEngine := { e.cleared with writeInFlight := false }

/-- Whether the mailbox and the audio characteristic are among those of the service. -/
def didDiscoverCharacteristicsFor (mailbox audio : Bool) : WriteEngine :=
  { e with
    writeTarget := e.writeTarget || mailbox
    audioWriteTarget := e.audioWriteTarget || audio }

/-- The central is no longer powered on. -/
def poweredOff : WriteEngine :=
  { e.didDisconnectPeripheral with
    reconnectAttempts := 0
    reconnectHoldoff := none }

end WriteEngine

/-! ### The link -/

/-- The engine, the connection below it, and the writes that have no response yet. -/
structure WriteLink where
  engine : WriteEngine := {}
  connected : Bool := false
  outstanding : List Data := []
  deriving DecidableEq

namespace WriteLink

open WriteEngine

/-- The chunks among the effects. -/
def written (effects : List WriteEngine.Effect) : List Data :=
  effects.filterMap fun
    | .write chunk => some chunk
    | _ => none

/-- The audio frames among the effects. -/
def writtenAudio (effects : List WriteEngine.Effect) : List Data :=
  effects.filterMap fun
    | .writeAudio framed => some framed
    | _ => none

inductive Event
  | didDiscover (now : Nat)
  | didConnect
  | didFailToConnect
  | didDisconnectPeripheral
  | didDiscoverCharacteristicsFor (mailbox audio : Bool)
  | poweredOff
  | writeFrameToPeer (type : FrameType) (payload : Data) (maximumWriteValueLength : Nat)
  | didWriteValueFor (error : Option WriteError) (now : Nat) (canSend : Nat → Bool)
  | sendAudioFrame (payload : Data) (canSend : Nat → Bool)
  | peripheralIsReady (canSend : Nat → Bool)

/-- The engine after the event, and its effects; none when it cannot happen.  Characteristics are
those of a connection, an attempt to connect fails only without one, and a response comes to a
write. -/
def react (l : WriteLink) : Event → Option (WriteEngine × List WriteEngine.Effect)
  | .didDiscover now => some (l.engine.didDiscover now, [])
  | .didConnect => some (l.engine, [])
  | .didFailToConnect => if l.connected then none else some (l.engine.didFailToConnect, [])
  | .didDisconnectPeripheral => if l.connected then some (l.engine.didDisconnectPeripheral, [])
      else none
  | .didDiscoverCharacteristicsFor mailbox audio =>
    if l.connected then some (l.engine.didDiscoverCharacteristicsFor mailbox audio, []) else none
  | .poweredOff => some (l.engine.poweredOff, [])
  | .writeFrameToPeer type payload maximumWriteValueLength =>
    (frame type payload).map fun wire => l.engine.writeFrameToPeer wire maximumWriteValueLength
  | .didWriteValueFor error now canSend =>
    if l.outstanding = [] then none else l.engine.didWriteValueFor error now canSend
  | .sendAudioFrame payload canSend =>
    (frame .audioFrame payload).map fun framed => l.engine.sendAudioFrame framed canSend
  | .peripheralIsReady canSend => some (l.engine.drainAudioRing audioDrainPerReady canSend)

def connectedAfter (l : WriteLink) : Event → Bool
  | .didConnect => true
  | .didDisconnectPeripheral | .poweredOff => false
  | _ => l.connected

/-- The writes that still have no response: one answers the first of them, and none comes behind
the end of the connection. -/
def unanswered (l : WriteLink) : Event → List Data
  | .didDisconnectPeripheral | .poweredOff => []
  | .didWriteValueFor .. => l.outstanding.tail
  | _ => l.outstanding

def step (l : WriteLink) (event : Event) : Option WriteLink :=
  (l.react event).map fun reaction =>
    ⟨reaction.1, l.connectedAfter event, l.unanswered event ++ written reaction.2⟩

end WriteLink

end BLEMeshTransport

end AeroNyra
