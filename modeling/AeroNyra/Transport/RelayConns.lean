import AeroNyra.Lib.Interleave
import AeroNyra.Transport.GiftWraps

/-! The connections of the internet transport, one for each relay: the sockets, the reads, the ping
chains and the reconnect timers.  Every callback holds the generation of its connection at the time
it was armed, and may run at any time.  Dates and delays are in milliseconds; a date counts from
the start of 2001. -/

namespace AeroNyra

/-- What a relay sends. -/
inductive RelayMessage
  | event (subscriptionID : Text) (event : NostrEvent)
  | endOfStoredEvents (subscriptionID : Text)
  | ok (eventID : Text) (accepted : Bool) (message : Text)
  | notice (message : Text)
  | closed (subscriptionID message : Text)
  | unknown

structure RelayConn where
  url : Text
  subID : Text
  session : Option Nat
  task : Option Nat
  reconnectAttempts : Nat
  generation : Nat
  lastInboundAt : Int
  lastPongAt : Int
  lastPingAt : Int
  connectedAt : Int
  reqRetries : Nat
  deriving DecidableEq

namespace RelayConn

def distantPast : Int := -63114076800000

def baseReconnectDelay : Nat := 1000

def maxReconnectDelay : Nat := 30000

def staleAfter : Int := 45000

def minSocketAgeForRefresh : Int := 10000

def maxREQRetries : Nat := 5

def new (url subID : Text) : RelayConn :=
  ⟨url, subID, none, none, 0, 0, distantPast, distantPast, distantPast, distantPast, 0⟩

/-- The reasons of a `CLOSED` that retrying cannot cure. -/
def permanentPrefixes : List Text :=
  ["auth-required:", "restricted:", "blocked:", "invalid:", "unsupported:"].map String.toList

def isPermanent (message : Text) : Bool := permanentPrefixes.any fun reason =>
    reason.isPrefixOf message

end RelayConn

/-- What a callback of a connection is for. -/
inductive CallbackKind
  /-- The delegate of a socket's session, which may be called any number of times. -/
  | delegate (socket : Nat)
  | receive (socket : Nat)
  | reqSent (socket : Nat)
  | reqRetry
  | ping
  | pong (socket : Nat)
  | pongDeadline (pingAt : Int)
  | reconnect (delay : Nat)
  deriving DecidableEq

structure Callback where
  generation : Nat
  kind : CallbackKind
  deriving DecidableEq

/-- A connection with what is under way for it. -/
structure RelayLine where
  conn : RelayConn
  /-- The transport holds the connection; callbacks hold it for longer. -/
  held : Bool
  /-- How many sockets have been opened for it. -/
  opened : Nat
  /-- The sockets that have been resumed and not cancelled. -/
  live : List Nat
  /-- The callbacks that have still to run. -/
  pending : List Callback
  deriving DecidableEq

/-- What a callback is called with: a frame, parsed if it can be, or an error.  A timer ignores
it. -/
inductive CallbackResult
  | success (frame : Option RelayMessage)
  | failure

namespace RelayLine

variable (started : Bool) (now : Int) (l : RelayLine)

def arm (generation : Nat) (kind : CallbackKind) : RelayLine :=
  { l with pending := l.pending ++ [⟨generation, kind⟩] }

/-- The start of every teardown: the generation moves on, and the socket is cancelled. -/
def tearDown : RelayLine :=
  { l with
    conn := { l.conn with generation := l.conn.generation + 1, task := none, session := none }
    live := l.live.filter fun socket => l.conn.task ≠ some socket }

def sendSubscription : RelayLine :=
  match l.conn.task with
  | some socket => l.arm l.conn.generation (.reqSent socket)
  | none => l

def receiveNext (generation : Nat) : RelayLine :=
  match l.conn.task with
  | some socket => l.arm generation (.receive socket)
  | none => l

def schedulePing (generation : Nat) : RelayLine := l.arm generation .ping

/-- A fresh socket, under the current generation. -/
def openSocket : RelayLine :=
  { l with
    conn := { l.conn with
      reqRetries := 0, connectedAt := now, session := some l.opened, task := some l.opened }
    opened := l.opened + 1
    live := l.live ++ [l.opened]
    pending := l.pending ++ [⟨l.conn.generation, .delegate l.opened⟩] }

def connect : RelayLine :=
  let generation := l.conn.generation
  (((l.openSocket now).sendSubscription).receiveNext generation).schedulePing generation

def reconnectDelay (attempts : Nat) : Nat :=
  min RelayConn.maxReconnectDelay (RelayConn.baseReconnectDelay * 2 ^ (attempts - 1))

def scheduleReconnect : RelayLine :=
  let l := l.tearDown
  if started then
    let attempts := l.conn.reconnectAttempts + 1
    { l with conn := { l.conn with reconnectAttempts := attempts } }.arm l.conn.generation
      (.reconnect (reconnectDelay attempts))
  else l

def reconnectNow : RelayLine :=
  if started then
    let l := l.tearDown
    { l with conn := { l.conn with reconnectAttempts := 0 } }.connect now
  else l

def sendPing (generation : Nat) : RelayLine :=
  if started ∧ l.conn.generation = generation then
    match l.conn.task with
    | some socket =>
      let l := { l with conn := { l.conn with lastPingAt := now } }
      ((l.arm generation (.pong socket)).arm generation (.pongDeadline now)).schedulePing generation
    | none => l
  else l

/-- The connection's part in a frame; an `EVENT` and an `OK` are for parts of the transport that
touch no connection. -/
def handleFrame : RelayMessage → RelayLine
  | .closed subID message =>
    if subID = l.conn.subID ∧ RelayConn.isPermanent message then l
    else if subID = l.conn.subID ∧ started then l.scheduleReconnect started
    else l
  | .event .. | .endOfStoredEvents .. | .ok .. | .notice .. | .unknown => l

def onReceive (generation : Nat) : CallbackResult → RelayLine
  | .success frame =>
    if l.conn.generation = generation then
      let l := { l with conn := { l.conn with reconnectAttempts := 0, lastInboundAt := now } }
      let l := (frame.map (l.handleFrame started)).getD l
      if started ∧ l.conn.task.isSome then l.receiveNext generation else l
    else l
  | .failure =>
    if l.conn.generation = generation ∧ started then l.scheduleReconnect started else l

def onReqSent (generation : Nat) : CallbackResult → RelayLine
  | .success _ => l
  | .failure =>
    if started ∧ l.conn.generation = generation then
      if l.conn.reqRetries < RelayConn.maxREQRetries then
        { l with conn := { l.conn with reqRetries := l.conn.reqRetries + 1 } }.arm generation
        .reqRetry
      else l
    else l

def onPong (generation : Nat) : CallbackResult → RelayLine
  | .success _ =>
    if l.conn.generation = generation then { l with conn := { l.conn with lastPongAt := now } }
      else l
  | .failure => if l.conn.generation = generation then l.reconnectNow started now else l

/-- `socketDidOpen` writes a log line only; `socketDidClose` is the failure. -/
def onDelegate (generation : Nat) : CallbackResult → RelayLine
  | .success _ => l
  | .failure =>
    if l.conn.generation = generation ∧ started then l.scheduleReconnect started else l

/-- A callback runs on the transport's queue. -/
def runCallback (callback : Callback) (result : CallbackResult) : RelayLine :=
  match callback.kind with
  | .delegate _ => l.onDelegate started callback.generation result
  | .receive _ => l.onReceive started now callback.generation result
  | .reqSent _ => l.onReqSent started callback.generation result
  | .reqRetry =>
    if started ∧ l.conn.generation = callback.generation then l.sendSubscription else l
  | .ping => l.sendPing started now callback.generation
  | .pong _ => l.onPong started now callback.generation result
  | .pongDeadline pingAt =>
    if (started ∧ l.conn.generation = callback.generation) ∧ l.conn.lastPongAt < pingAt then
      l.reconnectNow started now
    else l
  | .reconnect _ =>
    if started ∧ l.conn.generation = callback.generation then l.connect now else l

/-- A callback leaves the pending ones when it runs; a delegate stays. -/
def without (i : Nat) : RelayLine :=
  match l.pending[i]? with
  | some ⟨_, .delegate _⟩ => l
  | _ => { l with pending := l.pending.eraseIdx i }

/-- The scene-active refresh of a connection. -/
def refresh : RelayLine :=
  let lastLife := max l.conn.lastInboundAt l.conn.lastPongAt
  let stale := RelayConn.staleAfter < now - lastLife
  let youngSocket := now - l.conn.connectedAt < RelayConn.minSocketAgeForRefresh
  if l.conn.task = none ∨ (stale ∧ ¬youngSocket) then l.reconnectNow started now else l

def stop : RelayLine := { l.tearDown with held := false }

end RelayLine

/-! ### All connections -/

inductive PathStatus
  | satisfied
  | unsatisfied
  | requiresConnection
  deriving DecidableEq

structure NWPath where
  status : PathStatus
  wifi : Bool
  cellular : Bool
  wiredEthernet : Bool

def NWPath.signature (path : NWPath) : Text :=
  let status := match path.status with
    | .satisfied => "satisfied"
    | .unsatisfied => "unsatisfied"
    | .requiresConnection => "requiresConnection"
  let classes := (if path.wifi then ["wifi"] else []) ++ (if path.cellular then ["cell"] else []) ++
    (if path.wiredEthernet then ["wired"] else [])
  (status ++ "|" ++ String.intercalate "+" classes).toList

/-- What the transport reads and writes of its connections.  The lines are those of all connections
ever made; `conns` is made of the ones that are held. -/
structure NostrConnections where
  relayURLs : List Text
  started : Bool
  lastPathSignature : Option Text
  lines : List RelayLine

namespace NostrConnections

inductive Event
  /-- Each connection has a random subscription identifier. -/
  | start (now : Int) (subIDs : Nat → Text)
  | stop
  | refreshConnections (now : Int)
  | pathUpdate (now : Int) (path : NWPath)
  /-- A callback of a line runs. -/
  | callback (now : Int) (line i : Nat) (result : CallbackResult)

def launch (relayURLs : List Text) : NostrConnections := ⟨relayURLs, false, none, []⟩

variable (s : NostrConnections)

/-- The connections that the transport holds. -/
def conns : List RelayLine := s.lines.filter (·.held)

/-- `conns` one after another. -/
def forEach (f : RelayLine → RelayLine) : List RelayLine :=
  s.lines.map fun l => if l.held then f l else l

def start (now : Int) (subIDs : Nat → Text) : NostrConnections :=
  if s.started then s
  else
    let made := s.relayURLs.mapIdx fun i url =>
      RelayLine.connect now ⟨.new url (subIDs i), true, 0, [], []⟩
    { s with started := true, lines := s.forEach (fun l => { l with held := false }) ++ made }

def stop : NostrConnections :=
  { s with started := false, lastPathSignature := none, lines := s.forEach RelayLine.stop }

def refreshConnections (now : Int) : NostrConnections :=
  if s.started then { s with lines := s.forEach (RelayLine.refresh s.started now) } else s

def handlePathUpdate (now : Int) (path : NWPath) : NostrConnections :=
  let prior := s.lastPathSignature
  let s := { s with lastPathSignature := some path.signature }
  if s.started ∧ prior ≠ none ∧ prior ≠ some path.signature ∧ path.status = .satisfied then
    { s with lines := s.forEach (RelayLine.reconnectNow s.started now) }
  else s

/-- One block of the transport's queue. -/
def step : Event → Option NostrConnections
  | .start now subIDs => some (s.start now subIDs)
  | .stop => some s.stop
  | .refreshConnections now => some (s.refreshConnections now)
  | .pathUpdate now path => some (s.handlePathUpdate now path)
  | .callback now line i result =>
    s.lines[line]?.bind fun l => l.pending[i]?.map fun callback =>
      { s with lines := s.lines.set line ((l.without i).runCallback s.started now callback result) }

end NostrConnections

end AeroNyra
