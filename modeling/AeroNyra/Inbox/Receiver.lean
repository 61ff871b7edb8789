import AeroNyra.Coordinator.Receive
import AeroNyra.Inbox.Message

/-! A device over its launches: a node, the inbox that takes the node's content events one by one
and writes rows, the context that holds the rows, and the store on disk.  A relaunch starts a new
node with nothing in flight, and a context that holds what the store holds. -/

namespace AeroNyra

namespace SessionEvent

/-- The text of the row; bytes that are not UTF-8 give the empty text. -/
def text : SessionEvent → String
  | received _ plaintext _ => (String.fromUTF8? ⟨plaintext.toArray⟩).getD ""
  | receivedMedia .. => ""

def media : SessionEvent → Option Data
  | received .. => none
  | receivedMedia _ done _ => some done.data

/-- The row that `handleReceived` and `handleReceivedMedia` insert. -/
def message (event : SessionEvent) (now : Date) : Message :=
  let m := Message.received event.peerKey event.text (some event.wireID) now
  match event with
  | received .. => m
  | receivedMedia _ done _ =>
    { m with
      mediaData := event.media
      mediaMime := some done.mime
      isStory := done.isStory
      isPushToTalk := done.isPushToTalk
      sentAt := if done.isStory then some (min (done.sentAt.getD now) now) else none }

end SessionEvent

structure Receiver where
  node : Interleave.Config Node Node.Action
  /-- How many of the node's events the inbox has taken. -/
  taken : Nat
  context : Rows
  store : Rows

namespace Receiver

open Interleave

/-- A save that fails leaves everything as it is, so it is no event. -/
inductive Event
  | node (e : Interleave.Event Node.Call Node.Reply)
  /-- `handleReceived` or `handleReceivedMedia`, up to its save.  The count of the rows with the
  identifier may fail, and then none is found. -/
  | take (row : UUID) (now : Date) (counted : Bool)
  | save
  /-- The insertion of an outbound row, or a change of one. -/
  | writeOutbound (row : UUID) (m : Message)
  | recordMissedCall (row : UUID) (peer : Data) (now : Date)
  /-- The marks that a transcript on screen leaves on a row. -/
  | mark (row : UUID) (isRead : Bool) (listenedAt : Option Date)
  /-- The user deletes a row. -/
  | delete (row : UUID)
  /-- The blob of an expired row is wiped. -/
  | reap (row : UUID)
  /-- The app stops at any point, and starts again. -/
  | relaunch
  | wipe

variable (rawKeyOf : Data → Option Data) (hashHex : Data → String)
  (decodeManifest : Data → Option MediaManifest) (launch : Node)

/-- A device right after a launch that found `store`. -/
def start (store : Rows) : Receiver := ⟨⟨launch, []⟩, 0, store, store⟩

variable (s : Receiver)

/-- A fresh row, under the identifier that was drawn for it. -/
def insert (row : UUID) (m : Message) : Option Receiver :=
  if (s.context.lookup row).isNone then some { s with context := AList.insert row m s.context }
  else none

theorem insert_eq_some {s s' : Receiver} {row : UUID} {m : Message} (h : s.insert row m = some s') :
    s.context.lookup row = none ∧ s' = { s with context := AList.insert row m s.context } := by
  unfold insert at h
  split at h
  · exact ⟨Option.isNone_iff_eq_none.mp ‹_›, (Option.some.inj h).symm⟩
  · cases h

/-- What the inbox does with an event. -/
def handle (row : UUID) (now : Date) (counted : Bool) (event : SessionEvent) : Option Receiver :=
  let s := { s with taken := s.taken + 1 }
  if counted && s.context.alreadyStored event.wireID then some s
  else s.insert row (event.message now)

/-- The inbox leaves an event whose identifier it finds, and makes a fresh row of another. -/
theorem handle_cases {s s' : Receiver} {row : UUID} {now : Date} {counted : Bool}
    {event : SessionEvent} (h : s.handle row now counted event = some s') :
    (counted && s.context.alreadyStored event.wireID) = true ∧
    s' = { s with taken := s.taken + 1 } ∨
    (counted && s.context.alreadyStored event.wireID) = false ∧ s.context.lookup row = none ∧
      s' = { s with
        taken := s.taken + 1
        context := AList.insert row (event.message now) s.context } := by
  unfold handle at h
  dsimp only at h
  split at h
  · rename_i hfound
    exact .inl ⟨hfound, (Option.some.inj h).symm⟩
  · rename_i hnew
    obtain ⟨hfresh, hinsert⟩ := insert_eq_some h
    exact .inr ⟨by simpa using hnew, hfresh, hinsert⟩

def step : Event → Option Receiver
  | .node e =>
    ((Node.machine rawKeyOf hashHex decodeManifest).step s.node e).map fun node => { s with node }
  | .take row now counted =>
    s.node.shared.events[s.taken]?.bind (s.handle row now counted)
  | .save => some { s with store := s.context }
  | .writeOutbound row m =>
    if m.isOutbound && (s.context.lookup row).all (·.isOutbound) then
      some { s with context := AList.insert row m s.context }
    else none
  | .recordMissedCall row peer now => s.insert row (.received peer "missed call" none now)
  | .mark row isRead listenedAt =>
    some { s with context := s.context.modify row ({ · with isRead, listenedAt }) }
  | .delete row => some { s with context := AList.erase row s.context }
  | .reap row => some { s with context := s.context.modify row ({ · with mediaData := none }) }
  | .relaunch => some (start launch s.store)
  | .wipe => some (start launch ∅)

abbrev Step := Transition Receiver Event

/-- The steps of a run over any number of launches, the first of which found `store`. -/
def steps (store : Rows) (events : List Event) : List Step :=
  trace (step rawKeyOf hashHex decodeManifest launch) (start launch store) events

/-- The event hands an acknowledgement to a transport. -/
def HandsOver (e : Event) (receipt : Node.Receipt) : Prop :=
  ∃ e' a reply, e = .node e' ∧ s.node.acts e' = some (.carryAck receipt a, reply)

/-- The event leaves the row and its blob where they are. -/
def Event.Spares (row : UUID) : Event → Prop
  | .delete other | .reap other => other ≠ row
  | .wipe => False
  | _ => True

end Receiver

end AeroNyra
