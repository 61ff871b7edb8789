import AeroNyra.Coordinator.Outbound
import AeroNyra.Inbox.Message

/-! The outbound half of the inbox: the operations that put a row in flight, and the loop that
applies the router's delivery updates to the rows.  Both write a row's delivery state on the main
actor, between suspension points at which anything else may run. -/

namespace AeroNyra

/-- The identifier that a router call may begin to track. -/
def MessageRouter.Call.tracks : MessageRouter.Call → Option MessageID
  | .send envelope true _ _ => some envelope.id
  | .beginTracking id | .resend id => some id
  | _ => none

namespace Message

/-- A text that the composer inserts. -/
def composed (peer : Data) (content : String) (now : Date) : Message :=
  { content, isOutbound := true, isRead := false, timestamp := now, listenedAt := none
    deliveredAt := none, wireID := none, deliveryState := .sent, nostrRedriveDone := false
    mediaData := none, mediaMime := none, isStory := false, isPushToTalk := false, sentAt := none
    peer := some peer }

def composedMedia (peer data : Data) (mime : MediaMimeType) (isStory isPushToTalk : Bool)
    (now : Date) : Message :=
  { composed peer "" now with
    mediaData := some data
    mediaMime := some mime
    isStory
    isPushToTalk
    sentAt := if isStory then some now else none }

end Message

/-- The first outbound row with the identifier. -/
def Rows.outboundRow (rows : Rows) (id : MessageID) : Option UUID :=
  (rows.pairs.find? fun row => row.2.isOutbound && row.2.wireID == some id).map (·.1)

structure MessageInbox where
  rows : Rows
  router : MessageRouter
  /-- How many of the router's updates have been applied. -/
  taken : Nat
  /-- The wire identifiers drawn so far, each with the row that it was drawn for. -/
  drawn : Dict MessageID UUID

namespace MessageInbox

open Interleave

/-- A row in flight under an identifier. -/
structure Attempt where
  row : UUID
  id : MessageID
  deriving DecidableEq

/-- The operations that put a row in flight.  `redriveInFlightMedia` takes its rows one after the
other, and what it does with one of them is an operation here. -/
inductive Operation
  | send (row : UUID) (trimmed : String) (peer : Option Data)
  | sendMedia (row : UUID) (data : Data) (mime : MediaMimeType) (peer : Option Data)
    (isStory isPushToTalk : Bool)
  | resend (row : UUID)
  | redriveInFlightMedia (row : UUID) (departed : List Data)

inductive Action
  /-- An operation up to its call of the coordinator. -/
  | begin (op : Operation)
  | outbound (attempt : Attempt) (a : Outbound.Action)
  /-- The coordinator returned: the row gets the identifier. -/
  | stamp (attempt : Attempt)
  /-- The router's answer to `state(of:)`. -/
  | query (attempt : Attempt)
  | settle (attempt : Attempt) (committed : Option MessageDeliveryState)
  /-- The catch branch. -/
  | fail (attempt : Attempt)
  /-- One turn of `runDeliveryUpdates`. -/
  | apply
  /-- A router call that others make. -/
  | router (a : MessageRouter.Segment)

/-- What an operation finds when it begins: the verification of the peer and its Nostr key, the
identifier that it would draw, and what the coordinator seals for it. -/
structure Circumstances where
  now : Date
  isVerified : Bool
  nostrRecipient : Option Data
  fresh : MessageID
  announcement : Option Outbound.Announcement
  ciphertext : Data
  payloads : Bool → List Envelope

inductive Reply
  | begin (c : Circumstances)
  | outbound (reply : Outbound.Reply)
  | router (reply : MessageRouter.Reply)
  | now (date : Date)

/-- Nobody but the coordinator, on behalf of an operation, begins to track a message. -/
inductive Call
  | operation (op : Operation)
  | deliveryUpdate
  | router (call : { call : MessageRouter.Call // call.tracks = none })

variable (s : MessageInbox)

def setDeliveryState (row : UUID) (state : MessageDeliveryState) (now : Date) : MessageInbox :=
  { s with rows := s.rows.modify row (·.setDeliveryState state now) }

/-- How the coordinator's actions leave the operation that called it. -/
def Attempt.exit (attempt : Attempt) : Exit Outbound.Action → Exit Action
  | .goOn first => .goOn (first.map (.outbound attempt))
  | .throw cleanup => .throw (cleanup.map (.outbound attempt) ++ [.fail attempt])

/-- The call of the coordinator and the stamp that follows it. -/
def script (attempt : Attempt) (announcement : Option Outbound.Announcement)
    (m : Outbound.Outgoing) : Exit Action :=
  .goOn ((Outbound.actions announcement m).map (.outbound attempt) ++ [.stamp attempt])

/-- Puts a row in flight under its earlier identifier, or under a fresh one. -/
def putInFlight (row : UUID) (reuse : Option MessageID) (c : Circumstances)
    (outgoing : MessageID → Outbound.Outgoing) : Option (MessageInbox × Exit Action) :=
  match reuse with
  | some id => some (s, script ⟨row, id⟩ c.announcement (outgoing id))
  | none =>
    if (s.drawn.lookup c.fresh).isNone then
      some ({ s with drawn := AList.insert c.fresh row s.drawn },
        script ⟨row, c.fresh⟩ c.announcement (outgoing c.fresh))
    else none

/-- Inserts a fresh row, and puts it in flight if the peer is verified. -/
def compose (row : UUID) (m : Message) (c : Circumstances)
    (outgoing : MessageID → Outbound.Outgoing) : Option (MessageInbox × Exit Action) :=
  if (s.rows.lookup row).isNone then
    let s := { s with rows := AList.insert row m s.rows }
    if c.isVerified then s.putInFlight row none c outgoing
    else some (s.setDeliveryState row .notDelivered c.now, .goOn [])
  else none

def send (row : UUID) (trimmed : String) (peer : Option Data) (c : Circumstances) :
    Option (MessageInbox × Exit Action) :=
  match peer with
  | some rawKey =>
    if trimmed.isEmpty then some (s, .goOn [])
    else s.compose row (.composed rawKey trimmed c.now) c fun id =>
      .text id c.ciphertext rawKey c.nostrRecipient
  | none => some (s, .goOn [])

def sendMedia (row : UUID) (data : Data) (mime : MediaMimeType) (peer : Option Data)
    (isStory isPushToTalk : Bool) (c : Circumstances) : Option (MessageInbox × Exit Action) :=
  match peer with
  | some rawKey =>
    s.compose row (.composedMedia rawKey data mime isStory isPushToTalk c.now) c fun id =>
      .media id c.payloads rawKey c.nostrRecipient false
  | none => some (s, .goOn [])

/-- What `resend` hands to the coordinator: the blob, if the row has one and its kind is known. -/
def resent (m : Message) (rawKey : Data) (c : Circumstances) (id : MessageID) :
    Outbound.Outgoing :=
  if m.isMedia && m.mediaMime.isSome then .media id c.payloads rawKey c.nostrRecipient false
  else .text id c.ciphertext rawKey c.nostrRecipient

def resend (row : UUID) (c : Circumstances) : Option (MessageInbox × Exit Action) :=
  (s.rows.lookup row).bind fun m =>
    match m.peer with
    | some rawKey =>
      if m.isOutbound && m.deliveryState == .notDelivered && !m.isTombstone && c.isVerified then
        (s.setDeliveryState row .sent c.now).putInFlight row m.wireID c (resent m rawKey c)
      else some (s, .goOn [])
    | none => some (s, .goOn [])

/-- The row may be sent once more over Nostr. -/
def redrivable (m : Message) (rawKey : Data) (departed : List Data) (c : Circumstances) : Bool :=
  m.isOutbound && m.isMedia && m.mediaMime.isSome && !m.deliveryState.isTerminal &&
    !m.nostrRedriveDone && rawKey ∈ departed && c.nostrRecipient.isSome && c.isVerified

def redriveInFlightMedia (row : UUID) (departed : List Data) (c : Circumstances) :
    Option (MessageInbox × Exit Action) :=
  (s.rows.lookup row).bind fun m =>
    match m.peer, m.wireID with
    | some rawKey, some id =>
      if redrivable m rawKey departed c then
        MessageInbox.putInFlight
          { s with rows := s.rows.modify row ({ · with nostrRedriveDone := true }) } row (some id) c
          fun id => .media id c.payloads rawKey c.nostrRecipient true
      else some (s, .goOn [])
    | _, _ => some (s, .goOn [])

def begin (c : Circumstances) : Operation → Option (MessageInbox × Exit Action)
  | .send row trimmed peer => s.send row trimmed peer c
  | .sendMedia row data mime peer isStory isPushToTalk =>
    s.sendMedia row data mime peer isStory isPushToTalk c
  | .resend row => s.resend row c
  | .redriveInFlightMedia row departed => s.redriveInFlightMedia row departed c

/-- What an update makes of its row: a terminal row takes terminal updates only. -/
def advance (u : MessageDeliveryState) (now : Date) (m : Message) : Message :=
  if m.deliveryState.isTerminal && !u.isTerminal then m
  else if m.deliveryState == u then m
  else m.setDeliveryState u now

def apply (u : DeliveryUpdate) (now : Date) : MessageInbox :=
  match s.rows.outboundRow u.id with
  | some row => { s with rows := s.rows.modify row (advance u.state now) }
  | none => s

def exec : Action → Reply → Option (MessageInbox × Exit Action)
  | .begin op, .begin c => s.begin c op
  | .outbound attempt a, .outbound reply =>
    (Outbound.exec s.router a reply).map fun p =>
      ({ s with router := p.1 }, attempt.exit p.2)
  | .stamp attempt, .now _ =>
    some ({ s with rows := s.rows.modify attempt.row ({ · with wireID := some attempt.id }) },
      .goOn [.query attempt])
  | .query attempt, .now _ => some (s, .goOn [.settle attempt (s.router.stateOf attempt.id)])
  | .settle attempt committed, .now now =>
    some (committed.elim s (s.setDeliveryState attempt.row · now), .goOn [])
  | .fail attempt, .now now =>
    some (s.setDeliveryState attempt.row .notDelivered now, .goOn [])
  | .apply, .now now =>
    s.router.updates[s.taken]?.map fun u =>
      (MessageInbox.apply { s with taken := s.taken + 1 } u now, .goOn [])
  | .router a, .router reply =>
    (s.router.exec a reply).map fun p => ({ s with router := p.1 }, p.2.exit.map .router)
  | _, _ => none

def machine : Machine MessageInbox Action Call Reply where
  thread
    | .operation op => ⟨[.begin op], []⟩
    | .deliveryUpdate => ⟨[.apply], []⟩
    | .router call => ⟨[.router (.call call.1)], []⟩
  exec := exec

/-- The inbox at a launch, over the rows of earlier launches and a new router. -/
def launch (rows : Rows) (drawn : Dict MessageID UUID) (transports : List MeshTransport)
    (seenCapacity : Nat) : MessageInbox :=
  ⟨rows, .new transports seenCapacity, 0, drawn⟩

abbrev Step := Transition (Config MessageInbox Action) (Event Call Reply)

/-- The steps of a run from a launch. -/
def steps (s : MessageInbox) (events : List (Event Call Reply)) : List Step :=
  trace machine.step ⟨s, []⟩ events

/-- The updates of `id` that have not been applied yet. -/
def pending (id : MessageID) : List MessageDeliveryState :=
  ((s.router.updates.drop s.taken).filter (·.id = id)).map (·.state)

end MessageInbox

end AeroNyra
