import AeroNyra.Inbox.Launches
import AeroNyra.Inbox.Receiver

/-! Two devices over their launches, and the messages that are on the air between them: a transport
took a copy of the last envelope of each, and from then on copies may be lost, delayed, reordered
and duplicated.  The receiver knows a message again by its identifier, so a row of the sender
arrives once as long as it goes out under one identifier only. -/

namespace AeroNyra

/-- The envelope that a transport has in its hands while the call waits for it. -/
def MessageRouter.Segment.inHands : Segment → Option Envelope
  | .bleReplied envelope _ _ | .nostrReplied envelope _ _ | .publishReplied envelope _
  | .rerouteReplied _ envelope _ _ _ _ => some envelope
  | .call _ | .timeoutFired _ => none

namespace MessageInbox

open Interleave

/-- The row that an operation is about. -/
def Operation.row : Operation → UUID
  | .send row _ _ | .sendMedia row _ _ _ _ _ | .resend row | .redriveInFlightMedia row _ => row

/-- The operation is to put its row in flight under a fresh identifier. -/
def draws (s : MessageInbox) (c : Circumstances) : Operation → Bool
  | .send _ trimmed peer => peer.isSome && !trimmed.isEmpty && c.isVerified
  | .sendMedia _ _ _ peer _ _ => peer.isSome && c.isVerified
  | .resend row => (s.rows.lookup row).any fun m =>
    m.peer.isSome && m.isOutbound && m.deliveryState == .notDelivered && !m.isTombstone &&
      c.isVerified && m.wireID.isNone
  | .redriveInFlightMedia _ _ => false

/-- The action hands over an envelope of a message. -/
def Action.carries : Action → Bool
  | .outbound _ (.carry _ _) => true
  | _ => false

/-- The message of which a transport has the last envelope, while the call waits for it. -/
def handing (t : Thread Action) : Option MessageID :=
  match t.todo with
  | .outbound attempt (.carry _ segment) :: rest =>
    if segment.inHands.isSome && !rest.any (·.carries) then some attempt.id else none
  | .router (.rerouteReplied _ envelope _ _ _ _) :: _ => some envelope.id
  | _ => none

variable {s s' : MessageInbox} {c : Circumstances} {x : Exit Action}

theorem drawn_compose {row : UUID} {m : Message} {outgoing : MessageID → Outbound.Outgoing}
    (h : s.compose row m c outgoing = some (s', x)) (hdrawn : s'.drawn ≠ s.drawn) :
    c.isVerified ∧ s'.drawn = AList.insert c.fresh row s.drawn := by
  unfold compose at h
  split at h
  · dsimp only at h
    split at h
    · rename_i hverified
      unfold putInFlight at h
      dsimp only at h
      split at h
      · cases h
        exact ⟨hverified, rfl⟩
      · cases h
    · cases h
      exact absurd rfl hdrawn
  · cases h

/-- Only an operation that is to draw a fresh identifier does, and for its own row. -/
theorem draws_begin {op : Operation} (h : s.begin c op = some (s', x))
    (hdrawn : s'.drawn ≠ s.drawn) :
    s.draws c op ∧ s'.drawn = AList.insert c.fresh op.row s.drawn := by
  have hrefused (h : some (s, (.goOn [] : Exit Action)) = some (s', x)) :
      s.draws c op ∧ s'.drawn = AList.insert c.fresh op.row s.drawn := by
    cases h
    exact absurd rfl hdrawn
  cases op with
  | send row trimmed peer =>
    simp only [MessageInbox.begin, send] at h
    split at h
    · split at h
      · exact hrefused h
      · rename_i hcontent
        obtain ⟨hverified, hinsert⟩ := drawn_compose h hdrawn
        exact ⟨by simp [draws, hcontent, hverified], hinsert⟩
    · exact hrefused h
  | sendMedia row data mime peer isStory isPushToTalk =>
    simp only [MessageInbox.begin, sendMedia] at h
    split at h
    · obtain ⟨hverified, hinsert⟩ := drawn_compose h hdrawn
      exact ⟨by simp [draws, hverified], hinsert⟩
    · exact hrefused h
  | resend row =>
    obtain ⟨m, hrow, h⟩ := Option.bind_eq_some_iff.mp h
    split at h
    · rename_i rawKey hpeer
      split at h
      · rename_i hguard
        cases hwire : m.wireID with
        | some id =>
          rw [hwire] at h
          cases h
          exact absurd rfl hdrawn
        | none =>
          rw [hwire] at h
          unfold putInFlight at h
          dsimp only at h
          split at h
          · cases h
            refine ⟨?_, rfl⟩
            simp only [Bool.and_eq_true] at hguard
            simp [draws, hrow, hpeer, hwire, hguard]
          · cases h
      · exact hrefused h
    · exact hrefused h
  | redriveInFlightMedia row departed =>
    obtain ⟨m, hrow, h⟩ := Option.bind_eq_some_iff.mp h
    split at h
    · split at h
      · cases h
        exact absurd rfl hdrawn
      · exact hrefused h
    · exact hrefused h

/-- An action that draws an identifier is an operation that is to draw one for its row. -/
theorem draws_exec {a : Action} {reply : Reply} {attempt : Attempt}
    (h : exec s a reply = some (s', x)) (hfresh : s.drawn.lookup attempt.id = none)
    (hdrawn : s'.drawn = AList.insert attempt.id attempt.row s.drawn) :
    ∃ op c, a = .begin op ∧ reply = .begin c ∧ s.draws c op ∧ op.row = attempt.row := by
  have hne : s'.drawn ≠ s.drawn := by
    intro hsame
    have hlookup := congrArg (AList.lookup attempt.id) (hsame.symm.trans hdrawn)
    rw [hfresh, AList.lookup_insert] at hlookup
    cases hlookup
  rcases exec_cases h with ⟨op, c, rfl, rfl, hbegin⟩ | ⟨u, now, _, happly⟩ | ⟨hsame, _⟩
  · obtain ⟨hdraws, hinsert⟩ := draws_begin hbegin hne
    refine ⟨op, c, rfl, rfl, hdraws, ?_⟩
    have hlookup := congrArg (AList.lookup attempt.id) (hdrawn.symm.trans hinsert)
    rw [AList.lookup_insert, Dict.lookup_insert] at hlookup
    split at hlookup
    · exact (Option.some.inj hlookup).symm
    · cases hlookup.trans hfresh
  · rw [happly, drawn_apply] at hne
    exact absurd rfl hne
  · exact absurd hsame hne

end MessageInbox

namespace Rows

/-- The identifier of an inbound row, if it has one, and the peer that it is from. -/
def inboundID (rows : Rows) (row : UUID) : Option (MessageID × Option Data) :=
  (rows.lookup row).bind fun m => if m.isOutbound then none else m.wireID.map fun id => (id, m.peer)

variable {rows : Rows} {row : UUID}

/-- A change of a row that leaves its identifier and its peer alone. -/
theorem inboundID_modify {f : Message → Message} (hout : ∀ m, (f m).isOutbound = m.isOutbound)
    (hwire : ∀ m, (f m).wireID = m.wireID) (hpeer : ∀ m, (f m).peer = m.peer) (row j : UUID) :
    Rows.inboundID (rows.modify row f) j = rows.inboundID j := by
  unfold inboundID
  rw [Dict.lookup_modify]
  split
  · rename_i hj
    rw [hj, Option.bind_map]
    simp only [Function.comp_def, hout, hwire, hpeer]
  · rfl

theorem inboundID_insert (rows : Rows) (row j : UUID) (m : Message) :
    Rows.inboundID (AList.insert row m rows) j =
      if j = row then (if m.isOutbound then none else m.wireID.map fun id => (id, m.peer))
      else rows.inboundID j := by
  unfold inboundID
  rw [Dict.lookup_insert]
  split <;> rfl

/-- An identifier that no row has is not one of an inbound row. -/
theorem inboundID_of_not_stored {id : MessageID} {peer : Option Data}
    (h : rows.alreadyStored id = false) : rows.inboundID row ≠ some (id, peer) := by
  intro hid
  obtain ⟨m, hrow, hm⟩ := Option.bind_eq_some_iff.mp hid
  split at hm
  · cases hm
  · obtain ⟨_, hwire, heq⟩ := Option.map_eq_some_iff.mp hm
    cases heq
    have hnot := List.any_eq_false.mp h (row, m) (Dict.mem_pairs.mpr hrow)
    simp [hwire] at hnot

end Rows

structure Exchange where
  sender : Sender
  /-- The messages of which a transport has taken the last envelope. -/
  aired : List MessageID
  receiver : Receiver

namespace Exchange

open Interleave MessageInbox

inductive Event
  | sender (e : Sender.Event)
  /-- The transport that the call at an index waits for takes a copy of the envelope; it may answer
  anything afterwards. -/
  | carry (thread : Nat)
  | receiver (e : Receiver.Event)

variable (rawKeyOf : Data → Option Data) (hashHex : Data → String)
  (decodeManifest : Data → Option MediaManifest) (launch : Node) (senderKey : Data)

/-- What the receiver's inbox takes as content of the sender is a message on the air. -/
def hears (s : Exchange) : Receiver.Event → Bool
  | .take _ _ _ => s.receiver.node.shared.events[s.receiver.taken]?.all fun event =>
    event.peerKey != senderKey || s.aired.contains event.wireID
  | _ => true

def step (s : Exchange) : Event → Option Exchange
  | .sender e => (s.sender.step e).map fun sender => { s with sender }
  | .carry i =>
    (s.sender.inbox.threads[i]?.bind handing).map fun id => { s with aired := id :: s.aired }
  | .receiver e =>
    if s.hears senderKey e then
      (Receiver.step rawKeyOf hashHex decodeManifest launch s.receiver e).map fun receiver =>
        { s with receiver }
    else none

/-- Both devices right after their first launches. -/
def start (transports : List MeshTransport) (seenCapacity : Nat) : Exchange :=
  ⟨.start ∅ ∅ transports seenCapacity, [], .start launch ∅⟩

abbrev Step := Transition Exchange Event

def steps (transports : List MeshTransport) (seenCapacity : Nat) (events : List Event) :
    List Step :=
  trace (step rawKeyOf hashHex decodeManifest launch senderKey)
    (start launch transports seenCapacity) events

/-- The outbound row of the sender that an identifier was drawn for. -/
abbrev rowOf (s : Exchange) (id : MessageID) : Option UUID := s.sender.state.drawn.lookup id

/-- The receiver's store holds at most one inbound row for each outbound row of the sender. -/
def Once (s : Exchange) : Prop :=
  ∀ row i j id id', s.receiver.store.inboundID i = some (id, some senderKey) →
    s.receiver.store.inboundID j = some (id', some senderKey) → s.rowOf id = some row →
    s.rowOf id' = some row → i = j

/-- A message that is on the air, under way, or known by its row. -/
def InUse (s : Exchange) (id : MessageID) : Prop :=
  id ∈ s.aired ∨ (∃ attempt, s.sender.Serving attempt ∧ attempt.id = id) ∨
    (∃ row, s.sender.state.rows.outboundID row = some id) ∨
    ∃ row, s.sender.store.outboundID row = some id

/-! ### The steps that lose an identifier -/

/-- A row is put in flight under a fresh identifier while it is on the air, or under way, under an
earlier one. -/
def Step.Redraws (t : Step) : Prop :=
  ∃ e op c id, t.event = .sender (.inbox e) ∧
    t.pre.sender.inbox.acts e = some (.begin op, .begin c) ∧ t.pre.sender.state.draws c op ∧
    t.pre.rowOf id = some op.row ∧ (id ∈ t.pre.aired ∨ t.pre.sender.Serving ⟨op.row, id⟩)

/-- The router reroutes a message whose row is in use under another identifier. -/
def Step.Revives (t : Step) : Prop :=
  ∃ i thread id, t.event = .carry i ∧ t.pre.sender.inbox.threads[i]? = some thread ∧
    attemptOf thread = none ∧ handing thread = some id ∧
    ¬∃ row, t.pre.rowOf id = some row ∧
      ∀ other, t.pre.InUse other → t.pre.rowOf other = some row → other = id

/-- The receiver's inbox takes a message that it has, and fails to find it. -/
def Step.Miscounts (t : Step) : Prop :=
  ∃ row now event, t.event = .receiver (.take row now false) ∧
    t.pre.receiver.node.shared.events[t.pre.receiver.taken]? = some event ∧
    t.pre.receiver.context.alreadyStored event.wireID

def Step.Loses (t : Step) : Prop := t.Redraws ∨ t.Revives ∨ t.Miscounts

/-! ### The sender -/

/-- Every row of the sender is in use under one identifier at most. -/
structure Single (s : Exchange) : Prop where
  recorded : s.sender.Recorded
  aired : ∀ id ∈ s.aired, ∃ row, s.rowOf id = some row
  kept : ∀ row, s.sender.state.rows.outboundID row = none → s.sender.store.outboundID row = none
  single : ∀ row id id', s.InUse id → s.InUse id' → s.rowOf id = some row → s.rowOf id' = some row →
    id = id'

variable {s s' : Exchange}

theorem Single.rowOf (h : s.Single) {id : MessageID} (hid : s.InUse id) :
    ∃ row, s.rowOf id = some row := by
  rcases hid with hid | ⟨attempt, hattempt, rfl⟩ | ⟨row, hrow⟩ | ⟨row, hrow⟩
  · exact h.aired id hid
  · exact ⟨_, h.recorded.serving attempt hattempt⟩
  · exact ⟨row, h.recorded.rows row id hrow⟩
  · exact ⟨row, h.recorded.store row id hrow⟩

/-- What is in use for a row that has no identifier is on the air or under way. -/
theorem Single.aired_or_serving (h : s.Single) {row : UUID} {id : MessageID} (hid : s.InUse id)
    (hrow : s.rowOf id = some row) (hnone : s.sender.state.rows.outboundID row = none) :
    id ∈ s.aired ∨ s.sender.Serving ⟨row, id⟩ := by
  rcases hid with hid | ⟨attempt, hattempt, rfl⟩ | ⟨other, hheld⟩ | ⟨other, hheld⟩
  · exact .inl hid
  · have hsame := (h.recorded.serving attempt hattempt).symm.trans hrow
    rw [← Option.some.inj hsame]
    exact .inr hattempt
  · have hsame := (h.recorded.rows other id hheld).symm.trans hrow
    rw [Option.some.inj hsame, hnone] at hheld
    cases hheld
  · have hsame := (h.recorded.store other id hheld).symm.trans hrow
    rw [Option.some.inj hsame, h.kept row hnone] at hheld
    cases hheld

/-- A step after which nothing is in use that was not before. -/
theorem Single.of_inUse (h : s.Single) (hrecorded : s'.sender.Recorded)
    (hdrawn : ∀ id row, s.rowOf id = some row → s'.rowOf id = some row)
    (hkept : ∀ row, s'.sender.state.rows.outboundID row = none →
      s'.sender.store.outboundID row = none)
    (huse : ∀ id, s'.InUse id → s.InUse id) : s'.Single := by
  refine ⟨hrecorded, fun id hid => ?_, hkept, fun row id id' hid hid' hrow hrow' => ?_⟩
  · obtain ⟨row, hrow⟩ := h.rowOf (huse id (.inl hid))
    exact ⟨row, hdrawn id row hrow⟩
  · have hold {id : MessageID} (hid : s'.InUse id) (hrow : s'.rowOf id = some row) :
        s.rowOf id = some row := by
      obtain ⟨other, hother⟩ := h.rowOf (huse id hid)
      rw [hother, ← hrow, hdrawn id other hother]
    exact h.single row id id' (huse id hid) (huse id' hid') (hold hid hrow) (hold hid' hrow')

/-- A step after which one identifier more is in use, the only one of its row. -/
theorem Single.of_new (h : s.Single) (hrecorded : s'.sender.Recorded)
    (hdrawn : ∀ id row, s.rowOf id = some row → s'.rowOf id = some row)
    (hkept : ∀ row, s'.sender.state.rows.outboundID row = none →
      s'.sender.store.outboundID row = none)
    {new : MessageID} {row : UUID} (hnew : s'.rowOf new = some row)
    (huse : ∀ id, s'.InUse id → s.InUse id ∨ id = new)
    (halone : ∀ id, s.InUse id → s.rowOf id = some row → id = new) : s'.Single := by
  have hold {id : MessageID} {row : UUID} (hid : s.InUse id) (hrow : s'.rowOf id = some row) :
      s.rowOf id = some row := by
    obtain ⟨other, hother⟩ := h.rowOf hid
    rw [hother, ← hrow, hdrawn id other hother]
  have hnewest {id : MessageID} {other : UUID} (hid : s'.InUse id) (hrow : s'.rowOf id = some other)
      (hother : s'.rowOf new = some other) : id = new := by
    rcases huse id hid with hid | heq
    · cases hnew.symm.trans hother
      exact halone id hid (hold hid hrow)
    · exact heq
  refine ⟨hrecorded, fun id hid => ?_, hkept, fun other id id' hid hid' hrow hrow' => ?_⟩
  · rcases huse id (.inl hid) with hid | rfl
    · obtain ⟨other, hother⟩ := h.rowOf hid
      exact ⟨other, hdrawn id other hother⟩
    · exact ⟨row, hnew⟩
  · rcases huse id hid with hold₁ | rfl
    · rcases huse id' hid' with hold₂ | rfl
      · exact h.single other id id' hold₁ hold₂ (hold hold₁ hrow) (hold hold₂ hrow')
      · exact hnewest hid hrow hrow'
    · exact (hnewest hid' hrow' hrow).symm

/-- What is in use after a step of the inbox, by what is served and what the rows hold. -/
theorem inUse_inbox {c : Config MessageInbox Action} {P : MessageID → Prop}
    (hold : ∀ id, s.InUse id → P id)
    (hserving : ∀ attempt, Sender.Serving { s.sender with inbox := c } attempt → P attempt.id)
    (hheld : ∀ row id, c.shared.rows.outboundID row = some id → P id) (id : MessageID)
    (hid : InUse { s with sender := { s.sender with inbox := c } } id) : P id := by
  rcases hid with hid | ⟨attempt, hattempt, rfl⟩ | ⟨row, hrow⟩ | ⟨row, hrow⟩
  · exact hold id (.inl hid)
  · exact hserving attempt hattempt
  · exact hheld row id hrow
  · exact hold id (.inr (.inr (.inr ⟨row, hrow⟩)))

theorem single_inbox {e : Interleave.Event Call Reply} {c : Config MessageInbox Action}
    (hs : s.Single) (hc : MessageInbox.machine.step s.sender.inbox e = some c)
    (hrecorded : Sender.Recorded { s.sender with inbox := c })
    (hredraws : ∀ s', ¬Step.Redraws ⟨s, .sender (.inbox e), s'⟩) :
    Single { s with sender := { s.sender with inbox := c } } := by
  have hserved {attempt : Attempt} (h : s.sender.Serving attempt) : s.InUse attempt.id :=
    .inr (.inl ⟨attempt, h, rfl⟩)
  have hrow {row : UUID} {id : MessageID} (h : s.sender.state.rows.outboundID row = some id) :
      s.InUse id := .inr (.inr (.inl ⟨row, h⟩))
  rcases Sender.inbox_cases hc with ⟨_, hshared, hserving⟩ |
    ⟨a, reply, x, hacts, hx, hserving, hserving'⟩
  · have hstate : c.shared = s.sender.inbox.shared := hshared
    refine hs.of_inUse hrecorded (fun id row hid => ?_) (fun row hnone => hs.kept row ?_)
      (inUse_inbox (fun _ hid => hid) (fun attempt h => hserved (hserving attempt h))
        fun row id h => ?_)
    · show c.shared.drawn.lookup id = some row
      rwa [hstate]
    · have hnone : c.shared.rows.outboundID row = none := hnone
      rwa [hstate] at hnone
    · rw [hstate] at h
      exact hrow h
  · have hids := MessageInbox.identifies_exec hx
    have hmono (id : MessageID) (row : UUID) (hid : s.rowOf id = some row) :
        c.shared.drawn.lookup id = some row := hids.drawn_mono hid
    cases hids with
    | keep ids drawn serves =>
      refine hs.of_inUse hrecorded hmono (fun row hnone => hs.kept row ((ids row).symm.trans hnone))
        (inUse_inbox (fun _ hid => hid) (fun attempt h => ?_) fun row id h => ?_)
      · rcases hserving' attempt h with hold | ⟨b, hb, hb'⟩
        · exact hserved hold
        · exact hserved (hserving attempt (serves b hb attempt hb'))
      · exact hrow ((ids row).symm.trans h)
    | reuse attempt hid ids drawn serves =>
      refine hs.of_inUse hrecorded hmono (fun row hnone => hs.kept row ((ids row).symm.trans hnone))
        (inUse_inbox (fun _ hid => hid) (fun other h => ?_) fun row id h => ?_)
      · rcases hserving' other h with hold | ⟨b, hb, hb'⟩
        · exact hserved hold
        · rw [serves b hb other hb']
          exact hrow hid
      · exact hrow ((ids row).symm.trans h)
    | draw attempt hfresh hnone ids drawn serves =>
      obtain ⟨op, circumstances, rfl, rfl, hdraws, hop⟩ := draws_exec hx hfresh drawn
      have hnew : c.shared.drawn.lookup attempt.id = some attempt.row := by
        rw [drawn]
        exact AList.lookup_insert _
      refine hs.of_new hrecorded hmono
        (fun row hnone => hs.kept row ((ids row).symm.trans hnone)) hnew
        (inUse_inbox (P := fun id => s.InUse id ∨ id = attempt.id) (fun _ hid => .inl hid)
          (fun other h => ?_) fun row id h => .inl (hrow ((ids row).symm.trans h)))
          fun id hid hof => ?_
      · rcases hserving' other h with hold | ⟨b, hb, hb'⟩
        · exact .inl (hserved hold)
        · exact .inr (congrArg Attempt.id (serves b hb other hb'))
      · -- what is in use for the row is on the air or under way, and redrawn here
        have hearlier := hs.aired_or_serving hid hof hnone
        rw [← hop] at hearlier hof
        exact absurd ⟨e, op, circumstances, id, rfl, hacts, hdraws, hof, hearlier⟩ (hredraws s)
    | stamp attempt hattempt ids drawn serves =>
      have hattempt := hserving attempt hattempt
      refine hs.of_inUse hrecorded hmono (fun row hnone => hs.kept row ?_)
        (inUse_inbox (fun _ hid => hid) (fun other h => ?_) fun row id h => ?_)
      · have hnone := (ids row).symm.trans hnone
        split at hnone
        · refine Rows.outboundID_of_inbound fun m hm => ?_
          rw [hm, Option.bind_some] at hnone
          split at hnone
          · cases hnone
          · assumption
        · exact hnone
      · rcases hserving' other h with hold | ⟨b, hb, hb'⟩
        · exact hserved hold
        · rw [serves b hb other hb']
          exact hserved hattempt
      · have h := (ids row).symm.trans h
        split at h
        · obtain ⟨m, _, hm⟩ := Option.bind_eq_some_iff.mp h
          split at hm
          · cases hm
            exact hserved hattempt
          · cases hm
        · exact hrow h

theorem single_sender {e : Sender.Event} {sender : Sender} (hs : s.Single)
    (h : s.sender.step e = some sender) (hredraws : ∀ s', ¬Step.Redraws ⟨s, .sender e, s'⟩) :
    Single { s with sender } := by
  have hrecorded := Sender.recorded_step h hs.recorded
  cases e with
  | inbox e =>
    obtain ⟨c, hc, rfl⟩ := Option.map_eq_some_iff.mp h
    exact single_inbox hs hc hrecorded hredraws
  | save =>
    cases h
    refine hs.of_inUse hrecorded (fun _ _ hid => hid) (fun _ hnone => hnone) ?_
    rintro id (hid | hid | hid | hid)
    · exact .inl hid
    · exact .inr (.inl hid)
    · exact .inr (.inr (.inl hid))
    · exact .inr (.inr (.inl hid))
  | reconcileBootOrphans now =>
    simp only [Sender.step] at h
    split at h
    · cases h
    · cases h
      have hids (row : UUID) := MessageInbox.outboundID_reconcile (s := s.sender.state) now row
      refine hs.of_inUse hrecorded (fun _ _ hid => hid)
        (fun row hnone => hs.kept row ((hids row).symm.trans hnone)) ?_
      rintro id (hid | hid | ⟨row, hrow⟩ | hid)
      · exact .inl hid
      · exact .inr (.inl hid)
      · exact .inr (.inr (.inl ⟨row, (hids row).symm.trans hrow⟩))
      · exact .inr (.inr (.inr hid))
  | relaunch transports seenCapacity =>
    cases h
    refine hs.of_inUse hrecorded (fun _ _ hid => hid) (fun _ hnone => hnone) ?_
    rintro id (hid | ⟨attempt, hattempt, _⟩ | hid | hid)
    · exact .inl hid
    · exact absurd hattempt (Sender.not_serving_start _ _ transports seenCapacity attempt)
    · exact .inr (.inr (.inr hid))
    · exact .inr (.inr (.inr hid))

/-- A transport takes a copy for the attempt under way, or for the row that a reroute is about. -/
theorem single_carry {i : Nat} {thread : Thread Action} {id : MessageID} (hs : s.Single)
    (hthread : s.sender.inbox.threads[i]? = some thread) (hid : handing thread = some id)
    (hrevives : ∀ s', ¬Step.Revives ⟨s, .carry i, s'⟩) :
    Single { s with aired := id :: s.aired } := by
  have huse (other : MessageID) (h : InUse { s with aired := id :: s.aired } other) :
      s.InUse other ∨ other = id := by
    rcases h with hair | h
    · rcases List.mem_cons.mp hair with rfl | hair
      · exact .inr rfl
      · exact .inl (.inl hair)
    · exact .inl (.inr h)
  cases hattempt : attemptOf thread with
  | none =>
    by_cases halone : ∃ row, s.rowOf id = some row ∧
        ∀ other, s.InUse other → s.rowOf other = some row → other = id
    · obtain ⟨row, hrow, honly⟩ := halone
      exact hs.of_new hs.recorded (fun _ _ h => h) hs.kept
        hrow huse honly
    · exact absurd ⟨i, thread, id, rfl, hthread, hattempt, hid, halone⟩ (hrevives s)
  | some attempt =>
    have hserving : s.sender.Serving attempt ∧ attempt.id = id := by
      unfold attemptOf at hattempt
      unfold handing at hid
      obtain ⟨a, hhead, ha⟩ := Option.bind_eq_some_iff.mp hattempt
      refine ⟨⟨thread, List.mem_of_getElem? hthread, a,
        List.mem_append_left _ (List.mem_of_head? hhead), ha⟩, ?_⟩
      split at hid
      · rename_i htodo
        split at hid
        · rw [htodo] at hhead
          cases hhead
          cases ha
          exact Option.some.inj hid
        · cases hid
      · rename_i htodo
        rw [htodo] at hhead
        cases hhead
        cases ha
      · cases hid
    obtain ⟨hserving, rfl⟩ := hserving
    refine hs.of_inUse hs.recorded (fun _ _ h => h)
      hs.kept fun other h => ?_
    rcases huse other h with h | rfl
    · exact h
    · exact .inr (.inl ⟨attempt, hserving, rfl⟩)

/-! ### The receiver -/

/-- The inbound rows of the sender are of messages on the air, and no two inbound rows have one
identifier. -/
structure Heard (senderKey : Data) (aired : List MessageID) (rows : Rows) : Prop where
  aired : ∀ row id, rows.inboundID row = some (id, some senderKey) → id ∈ aired
  once : ∀ i j id peer peer', rows.inboundID i = some (id, peer) →
    rows.inboundID j = some (id, peer') → i = j

variable {rawKeyOf : Data → Option Data} {hashHex : Data → String}
  {decodeManifest : Data → Option MediaManifest} {launch : Node} {senderKey : Data}
  {aired : List MessageID} {rows rows' : Rows}

theorem heard_empty : Heard senderKey aired ∅ :=
  ⟨fun _ _ h => (nomatch h), fun _ _ _ _ _ h => nomatch h⟩

theorem Heard.of_rows (h : Heard senderKey aired rows)
    (hrows : ∀ row p, rows'.inboundID row = some p → rows.inboundID row = some p) :
    Heard senderKey aired rows' :=
  ⟨fun row id hid => h.aired row id (hrows row _ hid),
    fun i j id peer peer' hi hj => h.once i j id peer peer' (hrows i _ hi) (hrows j _ hj)⟩

theorem Heard.of_aired (h : Heard senderKey aired rows) (id : MessageID) :
    Heard senderKey (id :: aired) rows :=
  ⟨fun row other hid => List.mem_cons_of_mem _ (h.aired row other hid), h.once⟩

theorem Heard.modify (h : Heard senderKey aired rows) {f : Message → Message} (row : UUID)
    (hout : ∀ m, (f m).isOutbound = m.isOutbound) (hwire : ∀ m, (f m).wireID = m.wireID)
    (hpeer : ∀ m, (f m).peer = m.peer) : Heard senderKey aired (rows.modify row f) :=
  h.of_rows fun j p hp => by rwa [Rows.inboundID_modify hout hwire hpeer] at hp

/-- A row that no inbound row has the identifier of. -/
theorem Heard.insert (h : Heard senderKey aired rows) {row : UUID} {m : Message}
    (hnew : ∀ id, m.isOutbound = false → m.wireID = some id →
      rows.alreadyStored id = false ∧ (m.peer = some senderKey → id ∈ aired)) :
    Heard senderKey aired (AList.insert row m rows) := by
  have hcases {j : UUID} {id : MessageID} {peer : Option Data}
      (hid : Rows.inboundID (AList.insert row m rows) j = some (id, peer)) :
      (j = row ∧ rows.alreadyStored id = false ∧ (peer = some senderKey → id ∈ aired)) ∨
        rows.inboundID j = some (id, peer) := by
    rw [Rows.inboundID_insert] at hid
    split at hid
    · rename_i hj
      split at hid
      · cases hid
      · rename_i hout
        obtain ⟨_, hwire, heq⟩ := Option.map_eq_some_iff.mp hid
        cases heq
        exact .inl ⟨hj, hnew _ (by simpa using hout) hwire⟩
    · exact .inr hid
  refine ⟨fun j id hid => ?_, fun i j id peer peer' hi hj => ?_⟩
  · rcases hcases hid with ⟨_, _, hair⟩ | hid
    · exact hair rfl
    · exact h.aired j id hid
  · rcases hcases hi with ⟨rfl, hstored, _⟩ | hi
    · rcases hcases hj with ⟨rfl, _, _⟩ | hj
      · rfl
      · exact absurd hj (Rows.inboundID_of_not_stored hstored)
    · rcases hcases hj with ⟨_, hstored, _⟩ | hj
      · exact absurd hi (Rows.inboundID_of_not_stored hstored)
      · exact h.once i j id peer peer' hi hj

/-- The row of an event. -/
theorem message_fields (event : SessionEvent) (now : Date) :
    (event.message now).wireID = some event.wireID ∧ (event.message now).peer =
    some event.peerKey := by
  cases event with
  | received => exact ⟨rfl, rfl⟩
  | receivedMedia => exact ⟨rfl, rfl⟩

/-- The receiver's inbox takes an event. -/
theorem heard_take {r r' : Receiver} {row : UUID} {now : Date} {counted : Bool}
    {event : SessionEvent}
    (h : Heard senderKey aired r.context) (hhandle : r.handle row now counted event = some r')
    (hair : event.peerKey = senderKey → event.wireID ∈ aired)
    (hcounted : counted = false → r.context.alreadyStored event.wireID = false) :
    Heard senderKey aired r'.context ∧ r'.store = r.store := by
  rcases Receiver.handle_cases hhandle with ⟨_, rfl⟩ | ⟨hnew, _, rfl⟩
  · exact ⟨h, rfl⟩
  · refine ⟨h.insert fun id _ hid => ?_, rfl⟩
    obtain ⟨hwire, hpeer⟩ := message_fields event now
    cases hwire.symm.trans hid
    refine ⟨?_, fun hsender => hair (Option.some.inj (hpeer.symm.trans hsender))⟩
    cases hcount : counted with
    | false => exact hcounted hcount
    | true => simpa [hcount] using hnew

/-- A step of the receiver in which it counts right what it takes. -/
theorem heard_step {r r' : Receiver} {e : Receiver.Event}
    (hstep : Receiver.step rawKeyOf hashHex decodeManifest launch r e = some r')
    (hcontext : Heard senderKey aired r.context) (hstore : Heard senderKey aired r.store)
    (htake : ∀ row now counted event, e = .take row now counted →
      r.node.shared.events[r.taken]? = some event → (event.peerKey = senderKey →
        event.wireID ∈ aired) ∧ (counted = false → r.context.alreadyStored event.wireID = false)) :
    Heard senderKey aired r'.context ∧ Heard senderKey aired r'.store := by
  cases e with
  | node e =>
    obtain ⟨node, _, rfl⟩ := Option.map_eq_some_iff.mp hstep
    exact ⟨hcontext, hstore⟩
  | take row now counted =>
    obtain ⟨event, hevent, hhandle⟩ := Option.bind_eq_some_iff.mp hstep
    obtain ⟨hair, hcounted⟩ := htake row now counted event rfl hevent
    obtain ⟨hheard, hsame⟩ := heard_take hcontext hhandle hair hcounted
    exact ⟨hheard, hsame ▸ hstore⟩
  | save =>
    cases hstep
    exact ⟨hcontext, hcontext⟩
  | writeOutbound row m =>
    simp only [Receiver.step] at hstep
    split at hstep
    · rename_i hguard
      cases hstep
      refine ⟨hcontext.insert fun id hout => ?_, hstore⟩
      simp [hout] at hguard
    · cases hstep
  | recordMissedCall row peer now =>
    rw [(Receiver.insert_eq_some hstep).2]
    exact ⟨hcontext.insert fun id _ hid => (nomatch hid), hstore⟩
  | mark row isRead listenedAt =>
    cases hstep
    exact ⟨hcontext.modify row (fun _ => rfl) (fun _ => rfl) fun _ => rfl, hstore⟩
  | delete row =>
    cases hstep
    refine ⟨hcontext.of_rows fun j p hp => ?_, hstore⟩
    unfold Rows.inboundID at hp ⊢
    rw [Dict.lookup_erase] at hp
    split at hp
    · cases hp
    · exact hp
  | reap row =>
    cases hstep
    exact ⟨hcontext.modify row (fun _ => rfl) (fun _ => rfl) fun _ => rfl, hstore⟩
  | relaunch =>
    cases hstep
    exact ⟨hstore, hstore⟩
  | wipe =>
    cases hstep
    exact ⟨heard_empty, heard_empty⟩

/-! ### Runs -/

/-- The invariant of both devices. -/
structure Sound (senderKey : Data) (s : Exchange) : Prop where
  single : s.Single
  context : Heard senderKey s.aired s.receiver.context
  store : Heard senderKey s.aired s.receiver.store

theorem sound_start (launch : Node) (senderKey : Data) (transports : List MeshTransport)
    (seenCapacity : Nat) : Sound senderKey (start launch transports seenCapacity) := by
  have hrecorded : (Sender.start ∅ ∅ transports seenCapacity).Recorded :=
    Sender.recorded_start Sender.drawn_empty transports seenCapacity
  have hnothing (id : MessageID) : ¬(start launch transports seenCapacity).InUse id := by
    rintro (hid | ⟨attempt, hattempt, _⟩ | ⟨row, hrow⟩ | ⟨row, hrow⟩)
    · cases hid
    · exact Sender.not_serving_start ∅ ∅ transports seenCapacity attempt hattempt
    · cases hrow
    · cases hrow
  refine ⟨⟨hrecorded, fun id hid => absurd (.inl hid) (hnothing id), fun _ _ => rfl, ?_⟩,
    heard_empty, heard_empty⟩
  intro row id id' hid
  exact absurd hid (hnothing id)

theorem sound_step {t : Step}
    (h : step rawKeyOf hashHex decodeManifest launch senderKey t.pre t.event = some t.post)
    (hloses : ¬t.Loses) (hs : Sound senderKey t.pre) : Sound senderKey t.post := by
  obtain ⟨s, e, s'⟩ := t
  have h : step rawKeyOf hashHex decodeManifest launch senderKey s e = some s' := h
  cases e with
  | sender e =>
    obtain ⟨sender, hsender, heq⟩ := Option.map_eq_some_iff.mp h
    cases heq
    refine ⟨single_sender hs.single hsender fun _ hredraws => ?_, hs.context, hs.store⟩
    exact hloses (.inl hredraws)
  | carry i =>
    obtain ⟨id, hid, heq⟩ := Option.map_eq_some_iff.mp h
    cases heq
    obtain ⟨thread, hthread, hhanding⟩ := Option.bind_eq_some_iff.mp hid
    exact ⟨single_carry hs.single hthread hhanding fun _ hrevives => hloses (.inr (.inl hrevives)),
      hs.context.of_aired id, hs.store.of_aired id⟩
  | receiver e =>
    simp only [step] at h
    split at h
    · rename_i hhears
      obtain ⟨receiver, hreceiver, heq⟩ := Option.map_eq_some_iff.mp h
      cases heq
      obtain ⟨hcontext, hstore⟩ := heard_step hreceiver hs.context hs.store (by
        rintro row now counted event rfl hevent
        refine ⟨fun hpeer => ?_, fun hcounted => ?_⟩
        · simpa [hears, hevent, hpeer] using hhears
        · subst hcounted
          by_contra hstored
          exact hloses (.inr (.inr ⟨row, now, event, rfl, hevent, by simpa using hstored⟩)))
      exact ⟨⟨hs.single.recorded, hs.single.aired, hs.single.kept, hs.single.single⟩,
        hcontext, hstore⟩
    · cases h

theorem Sound.once (hs : Sound senderKey s) : Once senderKey s := by
  intro row i j id id' hi hj hid hid'
  have hair := hs.store.aired i id hi
  have hair' := hs.store.aired j id' hj
  obtain rfl := hs.single.single row id id' (.inl hair) (.inl hair') hid hid'
  exact hs.store.once i j id _ _ hi hj

/-- In every run of a sender and a receiver, with any number of launches of both, in which no row
is put in flight under a fresh identifier while an earlier one is in use, no reroute revives an
identifier of a row that is in use under another, and the receiver counts right what it takes: the
receiver's store never holds two inbound rows of one outbound row. -/
theorem never_twice (rawKeyOf : Data → Option Data) (hashHex : Data → String)
    (decodeManifest : Data → Option MediaManifest) (launch : Node) (senderKey : Data)
    (transports : List MeshTransport) (seenCapacity : Nat) (events : List Event)
    (hkept : ∀ t ∈ steps rawKeyOf hashHex decodeManifest launch senderKey transports seenCapacity
      events, ¬t.Loses) :
    ∀ t ∈ steps rawKeyOf hashHex decodeManifest launch senderKey transports seenCapacity events,
      Once senderKey t.post := by
  intro t ht
  have hpre := trace_invariant_of (Sound senderKey) (fun t : Step => ¬t.Loses)
    (fun _ h hloses hs => sound_step h hloses hs)
    (sound_start launch senderKey transports seenCapacity)
    hkept ht
  exact (sound_step (step_of_mem_trace ht) (hkept t ht) hpre).once

/-! ### Runs of one row -/

/-- A check that a step loses no identifier: what it draws is the first of its row, what it carries
is for an attempt, and the receiver counts. -/
def Step.keeps (t : Step) : Bool :=
  match t.event with
  | .sender (.inbox e) =>
    match t.pre.sender.inbox.acts e with
    | some (.begin op, .begin c) => !t.pre.sender.state.draws c op ||
      t.pre.sender.state.drawn.pairs.all fun entry => entry.2 != op.row
    | _ => true
  | .carry i => (t.pre.sender.inbox.threads[i]?.bind attemptOf).isSome
  | .receiver (.take _ _ counted) => counted
  | _ => true

theorem not_loses_of_keeps {t : Step} (h : t.keeps) : ¬t.Loses := by
  unfold Step.keeps at h
  rintro (⟨e, op, c, id, he, hacts, hdraws, hrow, _⟩ | ⟨i, thread, id, he, hthread, hattempt, _⟩ |
    ⟨row, now, event, he, _⟩)
  · rw [he] at h
    simp only [hacts, hdraws, Bool.not_true, Bool.false_or] at h
    have hother := List.all_eq_true.mp h (id, op.row) (Dict.mem_pairs.mpr hrow)
    simp at hother
  · rw [he] at h
    simp [hthread, hattempt] at h
  · rw [he] at h
    cases h

/-- The transport takes the text of row 0 and says so, and the sender saves nothing of it. -/
def carried : List Event :=
  (((Sender.sending (.filled 1)).take 6).map .sender : List Event) ++ ([.carry 0] : List Event) ++
    ([.sender (.inbox (.step 0 (.outbound (.router .ok))))] : List Event)

/-- The sender is launched anew, gives up on the row, sends it again, and a transport takes it. -/
def carriedAgain : List Event :=
  [.sender (.relaunch [⟨.ble, false⟩] 1), .sender (.reconcileBootOrphans 0),
    .sender (.inbox (.start (.operation (.resend 0)))),
    .sender (.inbox (.step 0 (.begin ⟨0, true, none, .filled 2, none, [], fun _ => []⟩))),
    .sender (.inbox (.step 0 (.outbound .done))),
    .sender (.inbox (.step 0 (.outbound (.reachable true)))),
    .sender (.inbox (.step 0 (.outbound (.router .ok)))), .carry 0]

/-- The receiver opens a text of the sender in a call, and takes it. -/
def taken (call : Nat) (id : MessageID) (row : UUID) : List Event :=
  [.receiver (.node (.start (.receive (.new id [])))),
    .receiver (.node (.step call (.opened (.replicate 32 5)
      (MessagePayload.sealedPlaintext ⟨.text, [104, 105]⟩) none))),
    .receiver (.take row 0 true), .receiver .save]

/-- The receiver has verified the sender. -/
def verified : List Event :=
  [.receiver (.node (.start (.presence (.enableReconnect [.replicate 32 5] [.replicate 32 5])))),
    .receiver (.node (.step 0 (.presence ⟨false, none⟩)))]

/-- Stand-ins for the bundle parser, the digest and the manifest decoder, which the runs below never
call. -/
abbrev bareSteps (events : List Event) : List Step :=
  steps (fun _ => none) (fun _ => "") (fun _ => none) (Node.launch [] [⟨.internet, true⟩] 1)
    (.replicate 32 5) [⟨.ble, false⟩] 1 events

set_option maxRecDepth 8192 in
/-- The send returns and is saved before the relaunch: the resend goes out under the same
identifier, and the receiver drops the second copy. -/
theorem never_twice_saved :
    let events := carried ++ ((Sender.sending (.filled 1)).drop 7).map .sender ++ carriedAgain ++
      verified ++ taken 1 (.filled 1) 7 ++ taken 2 (.filled 1) 8
    (∃ t ∈ bareSteps events,
      (t.post.receiver.taken, t.post.receiver.store.pairs.map (·.1)) = (2, [7])) ∧
    ∀ t ∈ bareSteps events, Once (.replicate 32 5) t.post := by
  intro events
  have hkeeps : (bareSteps events).all (·.keeps) := rfl
  refine ⟨⟨_, List.mem_of_getElem? (i := 29) rfl, rfl⟩, ?_⟩
  exact never_twice (fun _ => none) (fun _ => "") (fun _ => none)
    (Node.launch [] [⟨.internet, true⟩] 1) (.replicate 32 5) [⟨.ble, false⟩] 1 events fun t ht =>
      not_loses_of_keeps (List.all_eq_true.mp hkeeps t ht)

set_option maxRecDepth 8192 in
/-- The sender stops between the transport's answer and its save: the resend draws a fresh
identifier, and the receiver stores the text twice. -/
theorem twice : ¬∀ (rawKeyOf : Data → Option Data) (hashHex : Data → String)
    (decodeManifest : Data → Option MediaManifest) (launch : Node) (senderKey : Data)
    (transports : List MeshTransport) (seenCapacity : Nat) (events : List Event),
    ∀ t ∈ steps rawKeyOf hashHex decodeManifest launch senderKey transports seenCapacity events,
      Once senderKey t.post := by
  intro honce
  have hlast : ∃ t ∈ bareSteps (carried ++ carriedAgain ++ verified ++ taken 1 (.filled 1) 7 ++
        taken 2 (.filled 2) 8),
      t.post.receiver.store.inboundID 7 = some (.filled 1, some (.replicate 32 5)) ∧
      t.post.receiver.store.inboundID 8 = some (.filled 2, some (.replicate 32 5)) ∧
      t.post.rowOf (.filled 1) = some 0 ∧ t.post.rowOf (.filled 2) = some 0 :=
    ⟨_, List.mem_of_getElem? (i := 25) rfl, rfl, rfl, rfl, rfl⟩
  obtain ⟨t, ht, hfirst, hsecond, hrow, hrow'⟩ := hlast
  have hsame := honce _ _ _ _ (.replicate 32 5) _ _ _ t ht 0 7 8 _ _ hfirst hsecond hrow hrow'
  cases hsame

end Exchange

end AeroNyra
