import AeroNyra.Inbox.Receiver

/-! What an acknowledgement stands for.  A node acknowledges only what it put into the stream of
content events under a session of a verified contact.  The row comes later: it is there once the
inbox took the event, found no row with its identifier, and a save succeeded. -/

namespace AeroNyra

namespace Node

open Interleave

variable {rawKeyOf : Data → Option Data} {hashHex : Data → String}
  {decodeManifest : Data → Option MediaManifest} {n n' : Node}

/-- The acknowledgement that an action is about to hand over. -/
def Action.receipt? : Action → Option Receipt
  | .sendDeliveryAck receipt | .carryAck receipt _ => some receipt
  | _ => none

/-- The transfer that the payload of `m` completes. -/
def Opened.Completes (hashHex : Data → String) (decodeManifest : Data → Option MediaManifest)
    (m : Opened) (r : MediaReassembler) (done : MediaReassembler.Completed) : Prop :=
  (∃ json manifest, MessagePayload.decodeSealed m.plaintext = some ⟨.mediaManifest, json⟩ ∧
    decodeManifest json = some manifest ∧
    (MediaReassembler.ingestManifest hashHex r manifest).2 = some done) ∨
  ∃ chunk, MessagePayload.decodeSealed m.plaintext = some ⟨.mediaChunk, chunk⟩ ∧
    (MediaReassembler.ingestChunk hashHex r chunk).2 = some done

/-- The event holds the content of `m`, and the identifier that goes with it. -/
def Opened.Carries (hashHex : Data → String) (decodeManifest : Data → Option MediaManifest)
    (m : Opened) (r : MediaReassembler) : SessionEvent → Prop
  | .received peerKey plaintext wireID => peerKey = m.rawKey ∧ wireID = m.envelope.id ∧
      MessagePayload.decodeSealed m.plaintext = some ⟨.text, plaintext⟩
  | .receivedMedia peerKey done wireID => peerKey = m.rawKey ∧
      (hexToBytes done.mediaID).bind MessageID.ofBytes? = some wireID ∧
      m.Completes hashHex decodeManifest r done

/-- The action is `receive` from the decoding of the payload of `m` on. -/
def Action.Handles (m : Opened) (a : Action) (reply : Reply) : Prop :=
  (a = .dispatch m ∧ reply = .done) ∨
    a = .openInbound m.envelope ∧ reply = .opened m.rawKey m.plaintext none

/-- The action puts `event` into the stream, for content of a verified contact. -/
structure Yields (hashHex : Data → String) (decodeManifest : Data → Option MediaManifest)
    (n n' : Node) (a : Action) (reply : Reply) (m : Opened) (event : SessionEvent) : Prop where
  handles : a.Handles m reply
  carries : m.Carries hashHex decodeManifest n.reassembler event
  verified : m.rawKey ∈ n.coordinator.verifiedIdentities
  events : n'.events = n.events ++ [event]

theorem Opened.Carries.peerKey {m : Opened} {r : MediaReassembler} {event : SessionEvent}
    (h : m.Carries hashHex decodeManifest r event) : event.peerKey = m.rawKey := by
  cases event with
  | received => exact h.1
  | receivedMedia => exact h.1

/-- An acknowledgement of an event that is in the stream. -/
def Acked (events : List SessionEvent) (a : Action) : Prop :=
  ∀ receipt, a.receipt? = some receipt →
    ∃ event ∈ events, event.peerKey = receipt.peer ∧ event.wireID = receipt.wireID

/-- What one pass over a payload does: no event and no acknowledgement, or one event with its
acknowledgement. -/
inductive Pass (hashHex : Data → String) (decodeManifest : Data → Option MediaManifest) (n : Node)
    (m : Opened) (p : Node × Exit Action) : Prop
  | quiet (events : p.1.events = n.events) (receipts : ∀ b ∈ p.2.added, b.receipt? = none)
  | yield (event : SessionEvent) (hops : UInt8)
      (carries : m.Carries hashHex decodeManifest n.reassembler event)
      (verified : m.rawKey ∈ n.coordinator.verifiedIdentities)
      (events : p.1.events = n.events ++ [event])
      (exit : p.2 = .goOn [.sendDeliveryAck ⟨m.rawKey, event.wireID, hops⟩])

theorem pass_finishMedia {m : Opened}
    {ingested : MediaReassembler × Option MediaReassembler.Completed}
    (hverified : m.rawKey ∈ n.coordinator.verifiedIdentities)
    (hdone : ∀ done, ingested.2 = some done →
      m.Completes hashHex decodeManifest n.reassembler done) :
    Pass hashHex decodeManifest n m (n.finishMedia m ingested) := by
  unfold finishMedia
  dsimp only
  split
  · exact .quiet rfl (by simp [Exit.added])
  · rename_i done hsome
    unfold emitMedia
    split
    · rename_i n₁ wireID hemit
      split at hemit
      · cases hemit
      · rename_i hid
        cases hemit
        exact .yield (.receivedMedia m.rawKey done wireID) _ ⟨rfl, hid, hdone done hsome⟩ hverified
          rfl rfl
    · rename_i n₁ hemit
      split at hemit
      · cases hemit
        exact .quiet rfl (by simp [Exit.added])
      · cases hemit

theorem pass_dispatch (hashHex : Data → String) (decodeManifest : Data → Option MediaManifest)
    (n : Node) (m : Opened) :
    Pass hashHex decodeManifest n m (n.dispatch hashHex decodeManifest m) := by
  unfold dispatch
  split
  · exact .quiet rfl (by simp [Exit.added])
  · rename_i body hbody
    split
    · rename_i hverified
      exact .yield (.received m.rawKey body m.envelope.id) _ ⟨rfl, rfl, hbody⟩ hverified rfl rfl
    · exact .quiet rfl (by simp [Exit.added])
  · rename_i json hjson
    split
    · rename_i hverified
      split
      · exact .quiet rfl (by simp [Exit.added])
      · rename_i manifest hmanifest
        exact pass_finishMedia hverified fun done hdone =>
          .inl ⟨json, manifest, hjson, hmanifest, hdone⟩
    · exact .quiet rfl (by simp [Exit.added])
  · rename_i chunk hchunk
    split
    · rename_i hverified
      exact pass_finishMedia hverified fun done hdone => .inr ⟨chunk, hchunk, hdone⟩
    · exact .quiet rfl (by simp [Exit.added])
  · split
    · exact .quiet rfl (by simp [Exit.added])
    · exact .quiet rfl (by simp [Exit.added, Action.receipt?])
  · exact .quiet rfl (by simp [Exit.added])

/-- What an action does to the stream, and whose acknowledgements it brings in. -/
def Streams (hashHex : Data → String) (decodeManifest : Data → Option MediaManifest) (n n' : Node)
    (a : Action) (reply : Reply) (added : List Action) : Prop :=
  (n'.events = n.events ∧ ∀ b ∈ added, b.receipt? = none ∨ b.receipt? = a.receipt?) ∨
  ∃ m event, Yields hashHex decodeManifest n n' a reply m event ∧
    ∀ b ∈ added, ∃ hops, b.receipt? = some ⟨m.rawKey, event.wireID, hops⟩

theorem Pass.streams {m : Opened} {p : Node × Exit Action} {a : Action} {reply : Reply}
    (h : Pass hashHex decodeManifest n m p) (ha : a.Handles m reply) :
    Streams hashHex decodeManifest n p.1 a reply p.2.added := by
  cases h with
  | quiet events receipts => exact .inl ⟨events, fun b hb => .inl (receipts b hb)⟩
  | yield event hops carries verified events exit =>
    refine .inr ⟨m, event, ⟨ha, carries, verified, events⟩, fun b hb => ⟨hops, ?_⟩⟩
    rw [exit] at hb
    obtain rfl := List.mem_singleton.mp hb
    rfl

theorem streams_exec {a : Action} {reply : Reply} {x : Exit Action}
    (h : exec rawKeyOf hashHex decodeManifest n a reply = some (n', x)) :
    Streams hashHex decodeManifest n n' a reply x.added := by
  have hquiet {added : List Action} (hnone : ∀ b ∈ added, b.receipt? = none ∨
    b.receipt? = a.receipt?)
      (hevents : n'.events = n.events) : Streams hashHex decodeManifest n n' a reply added :=
    .inl ⟨hevents, hnone⟩
  unfold exec at h
  split at h
  · obtain ⟨p, _, heq⟩ := Option.map_eq_some_iff.mp h
    cases heq
    refine hquiet (fun b hb => ?_) rfl
    obtain ⟨a', _, rfl⟩ := mem_added_map hb
    exact .inl rfl
  · obtain ⟨p, _, heq⟩ := Option.map_eq_some_iff.mp h
    cases heq
    refine hquiet (fun b hb => ?_) rfl
    obtain ⟨a', _, rfl⟩ := mem_added_map hb
    exact .inl rfl
  · rename_i envelope rawKey plaintext announcement
    unfold receiveOpened at h
    split at h
    · cases h
      exact hquiet (by simp [Exit.added]) rfl
    · split at h
      · have hpass := (pass_dispatch hashHex decodeManifest n
          ⟨envelope, rawKey, plaintext⟩).streams (a := .openInbound envelope) (.inr ⟨rfl, rfl⟩)
        rw [Option.some.inj h] at hpass
        exact hpass
      · cases h
        refine hquiet (fun b hb => ?_) rfl
        rcases List.mem_cons.mp hb with rfl | hb
        · exact .inl rfl
        · obtain rfl := List.mem_singleton.mp hb
          exact .inl rfl
  · cases h
    exact hquiet (by simp [Exit.added]) rfl
  · rename_i m
    have hpass := (pass_dispatch hashHex decodeManifest n m).streams (a := .dispatch m)
      (.inl ⟨rfl, rfl⟩)
    rw [Option.some.inj h] at hpass
    exact hpass
  · cases h
    exact hquiet (by simp [Exit.added]) rfl
  · rename_i receipt nostrRecipient envelope
    cases h
    refine hquiet (fun b hb => .inr ?_) rfl
    unfold sendDeliveryAck at hb
    split at hb
    · obtain rfl := List.mem_singleton.mp hb
      rfl
    · split at hb
      · obtain rfl := List.mem_singleton.mp hb
        rfl
      · cases hb
  · cases h
    exact hquiet (by simp [Exit.added]) rfl
  · obtain ⟨p, _, heq⟩ := Option.map_eq_some_iff.mp h
    cases heq
    refine hquiet (fun b hb => .inr ?_) rfl
    obtain ⟨a', _, rfl⟩ := mem_added_map hb
    rfl
  · cases h

theorem Acked.mono {events more : List SessionEvent} {a : Action} (h : Acked events a) :
    Acked (events ++ more) a := by
  intro receipt hreceipt
  obtain ⟨event, hmem, hevent⟩ := h receipt hreceipt
  exact ⟨event, List.mem_append_left _ hmem, hevent⟩

theorem acked_of_receipt {events : List SessionEvent} {a b : Action} (h : Acked events a)
    (hb : b.receipt? = none ∨ b.receipt? = a.receipt?) : Acked events b := by
  intro receipt hreceipt
  rcases hb with hnone | hsame
  · rw [hnone] at hreceipt
    cases hreceipt
  · exact h receipt (hsame ▸ hreceipt)

/-- What an action brings in acknowledges events that are in the stream, if the action does. -/
theorem Streams.acked {a : Action} {reply : Reply} {added : List Action}
    (h : Streams hashHex decodeManifest n n' a reply added) (ha : Acked n.events a) :
    ∀ b ∈ added, Acked n'.events b := by
  intro b hb
  rcases h with ⟨hevents, hreceipts⟩ | ⟨m, event, hyields, hreceipts⟩
  · rw [hevents]
    exact acked_of_receipt ha (hreceipts b hb)
  · obtain ⟨hops, hsome⟩ := hreceipts b hb
    intro receipt hreceipt
    obtain rfl := Option.some.inj (hsome.symm.trans hreceipt)
    refine ⟨event, ?_, hyields.carries.peerKey, rfl⟩
    rw [hyields.events]
    exact List.mem_append_right _ (List.mem_singleton_self event)

theorem acked_start (events : List SessionEvent) (call : Call) :
    ∀ a ∈ ((machine rawKeyOf hashHex decodeManifest).thread call).todo ++
      ((machine rawKeyOf hashHex decodeManifest).thread call).onThrow, Acked events a := by
  intro a ha receipt hreceipt
  have hnone : a.receipt? = none := by
    cases call with
    | send announcement m =>
      simp only [machine, List.append_nil] at ha
      obtain ⟨b, _, rfl⟩ := List.mem_map.mp ha
      rfl
    | router call => simp_all [machine, Action.receipt?]
    | presence call => simp_all [machine, Action.receipt?]
    | receive envelope => simp_all [machine, Action.receipt?]
  rw [hnone] at hreceipt
  cases hreceipt

/-- What one step of a node does to the stream. -/
theorem events_step {c c' : Config Node Action} {e : Event Call Reply}
    (h : (machine rawKeyOf hashHex decodeManifest).step c e = some c') :
    c'.shared.events = c.shared.events ∨
    ∃ a reply m event, c.acts e = some (a, reply) ∧
      Yields hashHex decodeManifest c.shared c'.shared a reply m event := by
  rcases Machine.step_cases h with ⟨call, _, rfl⟩ | ⟨i, reply, a, rest, handler, n', x, _, _, hx,
    hacts, rfl⟩
  · exact .inl rfl
  · rcases streams_exec hx with ⟨hevents, _⟩ | ⟨m, event, hyields, _⟩
    · exact .inl hevents
    · exact .inr ⟨a, reply, m, event, hacts, hyields⟩

/-- Every acknowledgement on its way is of an event in the stream. -/
theorem acked_step {c c' : Config Node Action} {e : Event Call Reply}
    (h : (machine rawKeyOf hashHex decodeManifest).step c e = some c')
    (hacked : ∀ t ∈ c.threads, ∀ a ∈ t.todo ++ t.onThrow, Acked c.shared.events a) :
    ∀ t ∈ c'.threads, ∀ a ∈ t.todo ++ t.onThrow, Acked c'.shared.events a := by
  have hold : ∀ t ∈ c.threads, ∀ a ∈ t.todo ++ t.onThrow, Acked c'.shared.events a := by
    intro t ht a ha
    rcases events_step h with hsame | ⟨_, _, _, event, _, hyields⟩
    · rw [hsame]
      exact hacked t ht a ha
    · rw [hyields.events]
      exact (hacked t ht a ha).mono
  refine Machine.todo_step h hold (acked_start _) fun a reply x _ hx hpending => ?_
  obtain ⟨t, ht, ha⟩ := hpending
  exact (streams_exec hx).acked (hacked t ht a (List.mem_append_left _ ha))

end Node

namespace Receiver

open Interleave

variable {rawKeyOf : Data → Option Data} {hashHex : Data → String}
  {decodeManifest : Data → Option MediaManifest} {launch : Node} {s s' : Receiver}

/-- The step opens content of a verified contact and puts `event` into the stream. -/
def Step.Yields (hashHex : Data → String) (decodeManifest : Data → Option MediaManifest)
    (event : SessionEvent) (u : Step) : Prop :=
  ∃ e a reply m, u.event = .node e ∧ u.pre.node.acts e = some (a, reply) ∧
    Node.Yields hashHex decodeManifest u.pre.node.shared u.post.node.shared a reply m event

/-- What a step does to the node. -/
theorem step_node {e : Event} (h : step rawKeyOf hashHex decodeManifest launch s e = some s') :
    (∃ e', e = .node e' ∧
      (Node.machine rawKeyOf hashHex decodeManifest).step s.node e' = some s'.node) ∨
    s'.node = s.node ∨ s'.node = ⟨launch, []⟩ := by
  have hinsert {t : Receiver} {row : UUID} {m : Message} (h : t.insert row m = some s') :
      s'.node = t.node := by
    rw [(insert_eq_some h).2]
  cases e with
  | node e' =>
    obtain ⟨node, hnode, rfl⟩ := Option.map_eq_some_iff.mp h
    exact .inl ⟨e', rfl, hnode⟩
  | take row now counted =>
    obtain ⟨event, _, hhandle⟩ := Option.bind_eq_some_iff.mp h
    rcases handle_cases hhandle with ⟨_, rfl⟩ | ⟨_, _, rfl⟩
    · exact .inr (.inl rfl)
    · exact .inr (.inl rfl)
  | recordMissedCall row peer now => exact .inr (.inl (hinsert h))
  | writeOutbound row m =>
    simp only [step] at h
    split at h
    · rw [← Option.some.inj h]
      exact .inr (.inl rfl)
    · cases h
  | save | mark row isRead listenedAt | delete row | reap row =>
    rw [← Option.some.inj h]
    exact .inr (.inl rfl)
  | relaunch | wipe =>
    rw [← Option.some.inj h]
    exact .inr (.inr rfl)

/-- What is in the stream of the present launch was opened, and what is being acknowledged is in
the stream. -/
structure Backed (hashHex : Data → String) (decodeManifest : Data → Option MediaManifest)
    (past : List Step) (s : Receiver) : Prop where
  yielded : ∀ event ∈ s.node.shared.events, ∃ u ∈ past, u.Yields hashHex decodeManifest event
  acked : ∀ t ∈ s.node.threads, ∀ a ∈ t.todo ++ t.onThrow, Node.Acked s.node.shared.events a

theorem backed_launch (past : List Step) {node : Config Node Node.Action} (store context : Rows)
    (taken : Nat) (hempty : node.shared.events = []) (hnone : node.threads = []) :
    Backed hashHex decodeManifest past ⟨node, taken, context, store⟩ := by
  constructor
  · simp [hempty]
  · simp [hnone]

theorem backed_step {past : List Step} {t : Step} (hlaunch : launch.events = [])
    (ht : step rawKeyOf hashHex decodeManifest launch t.pre t.event = some t.post)
    (h : Backed hashHex decodeManifest past t.pre) :
    Backed hashHex decodeManifest (past ++ [t]) t.post := by
  have hold : ∀ event ∈ t.pre.node.shared.events,
      ∃ u ∈ past ++ [t], u.Yields hashHex decodeManifest event := by
    intro event hevent
    obtain ⟨u, hu, hyields⟩ := h.yielded event hevent
    exact ⟨u, List.mem_append_left _ hu, hyields⟩
  rcases step_node ht with ⟨e, he, hnode⟩ | hsame | hnew
  · refine ⟨?_, Node.acked_step hnode h.acked⟩
    rcases Node.events_step hnode with hsame | ⟨a, reply, m, event, hacts, hyields⟩
    · rw [hsame]
      exact hold
    · rw [hyields.events]
      intro other hother
      rcases List.mem_append.mp hother with hother | hother
      · exact hold other hother
      · obtain rfl := List.mem_singleton.mp hother
        exact ⟨t, List.mem_append_right _ (List.mem_singleton_self t), e, a, reply, m, he, hacts,
          hyields⟩
  · exact ⟨hsame ▸ hold, hsame ▸ h.acked⟩
  · exact ⟨by simp [hnew, hlaunch], by simp [hnew]⟩

/-! ### Rows -/

/-- The row of a content event, as the inbox inserted it. -/
structure Holds (rows : Rows) (row : UUID) (event : SessionEvent) (m : Message) : Prop where
  found : rows.lookup row = some m
  inbound : m.isOutbound = false
  wireID : m.wireID = some event.wireID
  peer : m.peer = some event.peerKey
  content : m.content = event.text
  media : m.mediaData = event.media

/-- The rows hold the content of the event. -/
def Stored (row : UUID) (event : SessionEvent) (rows : Rows) : Prop :=
  ∃ m, Holds rows row event m

theorem stored_message (rows : Rows) (row : UUID) (event : SessionEvent) (now : Date) :
    Stored row event (AList.insert row (event.message now) rows) := by
  refine ⟨event.message now, by simp, ?_, ?_, ?_, ?_, ?_⟩ <;> cases event <;> rfl

/-- Only the row itself matters, and what a transcript marks on it does not. -/
theorem Stored.of_lookup {rows rows' : Rows} {row : UUID} {event : SessionEvent}
    (h : Stored row event rows) (hsame : rows'.lookup row = rows.lookup row) :
    Stored row event rows' := by
  obtain ⟨m, hm⟩ := h
  exact ⟨m, { hm with found := hsame.trans hm.found }⟩

theorem Stored.mark {rows : Rows} {row other : UUID} {event : SessionEvent} {isRead : Bool}
    {listenedAt : Option Date} (h : Stored row event rows) :
    Stored row event (rows.modify other ({ · with isRead, listenedAt })) := by
  obtain ⟨m, hm⟩ := h
  by_cases hrow : row = other
  · subst hrow
    exact ⟨{ m with isRead, listenedAt },
      ⟨by simp [hm.found], hm.inbound, hm.wireID, hm.peer, hm.content, hm.media⟩⟩
  · exact ⟨m, { hm with found := by simp [hrow, hm.found] }⟩

/-- An insertion takes a fresh row. -/
theorem Stored.insert {rows : Rows} {row other : UUID} {event : SessionEvent} {m : Message}
    (h : Stored row event rows) (hfresh : rows.lookup other = none) :
    Stored row event (AList.insert other m rows) := by
  obtain ⟨mine, hm⟩ := h
  have hne : row ≠ other := by
    rintro rfl
    rw [hm.found] at hfresh
    cases hfresh
  exact Stored.of_lookup ⟨mine, hm⟩ (by simp [hne])

/-- A step that spares the row keeps it in the context, if the app goes on. -/
theorem stored_context {e : Event} {row : UUID} {event : SessionEvent}
    (h : step rawKeyOf hashHex decodeManifest launch s e = some s') (hspares : e.Spares row)
    (hgoes : e ≠ .relaunch) (hstored : Stored row event s.context) :
    Stored row event s'.context := by
  cases e with
  | node e' =>
    obtain ⟨node, _, rfl⟩ := Option.map_eq_some_iff.mp h
    exact hstored
  | take other now counted =>
    obtain ⟨taken, _, hhandle⟩ := Option.bind_eq_some_iff.mp h
    rcases handle_cases hhandle with ⟨_, rfl⟩ | ⟨_, hfresh, rfl⟩
    · exact hstored
    · exact hstored.insert hfresh
  | recordMissedCall other peer now =>
    obtain ⟨hfresh, rfl⟩ := insert_eq_some h
    exact hstored.insert hfresh
  | writeOutbound other m =>
    simp only [step] at h
    split at h
    · rename_i hout
      have hne : row ≠ other := by
        rintro rfl
        obtain ⟨mine, hm⟩ := hstored
        simp [hm.found, hm.inbound] at hout
      rw [← Option.some.inj h]
      exact hstored.of_lookup (by simp [hne])
    · cases h
  | save =>
    rw [← Option.some.inj h]
    exact hstored
  | mark other isRead listenedAt =>
    rw [← Option.some.inj h]
    exact hstored.mark
  | delete other | reap other =>
    have hne : row ≠ other := Ne.symm hspares
    rw [← Option.some.inj h]
    exact hstored.of_lookup (by simp [hne])
  | relaunch => exact absurd rfl hgoes
  | wipe => exact absurd hspares id

/-- Only a save and a wipe write the store. -/
theorem store_step {e : Event} (h : step rawKeyOf hashHex decodeManifest launch s e = some s')
    (hsave : e ≠ .save) (hwipe : e ≠ .wipe) : s'.store = s.store := by
  have hinsert {t : Receiver} {row : UUID} {m : Message} (h : t.insert row m = some s') :
      s'.store = t.store := by
    rw [(insert_eq_some h).2]
  cases e with
  | node e' =>
    obtain ⟨node, _, rfl⟩ := Option.map_eq_some_iff.mp h
    rfl
  | take other now counted =>
    obtain ⟨taken, _, hhandle⟩ := Option.bind_eq_some_iff.mp h
    rcases handle_cases hhandle with ⟨_, rfl⟩ | ⟨_, _, rfl⟩
    · rfl
    · rfl
  | recordMissedCall other peer now => exact hinsert h
  | writeOutbound other m =>
    simp only [step] at h
    split at h
    · rw [← Option.some.inj h]
    · cases h
  | mark other isRead listenedAt | delete other | reap other =>
    rw [← Option.some.inj h]
  | relaunch =>
    rw [← Option.some.inj h]
    rfl
  | save => exact absurd rfl hsave
  | wipe => exact absurd rfl hwipe

/-- A step that spares the row keeps it in the store and in the context, once it is in both. -/
theorem stored_both {e : Event} {row : UUID} {event : SessionEvent}
    (h : step rawKeyOf hashHex decodeManifest launch s e = some s') (hspares : e.Spares row)
    (hstored : Stored row event s.store ∧ Stored row event s.context) :
    Stored row event s'.store ∧ Stored row event s'.context := by
  have hwipe : e ≠ .wipe := by
    rintro rfl
    exact hspares
  by_cases hsave : e = .save
  · subst hsave
    rw [← Option.some.inj h]
    exact ⟨hstored.2, hstored.2⟩
  · have hstore : Stored row event s'.store := store_step h hsave hwipe ▸ hstored.1
    by_cases hgoes : e = .relaunch
    · subst hgoes
      rw [← Option.some.inj h]
      exact ⟨hstored.1, hstored.1⟩
    · exact ⟨hstore, stored_context h hspares hgoes hstored.2⟩

/-- A row that is in the context when a save succeeds, in the same launch, is in the store from then
on. -/
theorem stored_run {row : UUID} {event : SessionEvent} {before after : List Event}
    (hrun : run (step rawKeyOf hashHex decodeManifest launch) s (before ++ .save :: after) =
      some s')
    (hgoes : ∀ e ∈ before, e ≠ .relaunch) (hspares : ∀ e ∈ before ++ .save :: after, e.Spares row)
    (hstored : Stored row event s.context) : Stored row event s'.store := by
  obtain ⟨m, hbefore, hrest⟩ := run_append.mp hrun
  obtain ⟨saved, hsave, hafter⟩ := run_cons.mp hrest
  have hcontext : Stored row event m.context :=
    run_invariant (fun s => Stored row event s.context)
      (fun t => t.event ≠ .relaunch ∧ t.event.Spares row)
      (fun t ht hmeets h => stored_context ht hmeets.2 hmeets.1 h) hstored
      (fun t ht => ⟨hgoes _ (event_mem ht), hspares _ (List.mem_append_left _ (event_mem ht))⟩)
      hbefore
  have hboth : Stored row event saved.store ∧ Stored row event saved.context := by
    rw [← Option.some.inj hsave]
    exact ⟨hcontext, hcontext⟩
  have hlast := run_invariant (fun s => Stored row event s.store ∧ Stored row event s.context)
    (fun t => t.event.Spares row)
    (fun t ht hmeets h => stored_both ht hmeets h) hboth
    (fun t ht => hspares _ (List.mem_append_right _ (List.mem_cons_of_mem _ (event_mem ht)))) hafter
  exact hlast.1

/-- In every run over any number of launches, an acknowledgement that is handed over stands for
content that opened under a session of that verified contact, and is in the present launch's stream
to the inbox.  When the inbox takes an event and finds no row with its identifier, and a save of
that launch succeeds, the store holds the content from then on, in that launch and all later ones,
as long as nobody deletes the row or wipes its blob. -/
theorem acknowledged_stored (rawKeyOf : Data → Option Data) (hashHex : Data → String)
    (decodeManifest : Data → Option MediaManifest) (localIdentity : Data)
    (transports : List MeshTransport) (seenCapacity : Nat) (store : Rows) (events : List Event)
    (s : Receiver)
    (hrun : run (step rawKeyOf hashHex decodeManifest
        (Node.launch localIdentity transports seenCapacity))
      (start (Node.launch localIdentity transports seenCapacity) store) events = some s) :
    (∀ e receipt, s.HandsOver e receipt →
      ∃ event ∈ s.node.shared.events, event.peerKey = receipt.peer ∧
        event.wireID = receipt.wireID ∧
        ∃ u ∈ steps rawKeyOf hashHex decodeManifest
            (Node.launch localIdentity transports seenCapacity) store events,
          u.Yields hashHex decodeManifest event) ∧
    ∀ event row now counted (before after : List Event) s',
      s.node.shared.events[s.taken]? = some event →
      (counted && s.context.alreadyStored event.wireID) = false →
      run (step rawKeyOf hashHex decodeManifest
        (Node.launch localIdentity transports seenCapacity)) s
        (.take row now counted :: before ++ .save :: after) = some s' →
      (∀ e ∈ before, e ≠ .relaunch) →
      (∀ e ∈ before ++ .save :: after, e.Spares row) → Stored row event s'.store := by
  have hbacked := run_history (Backed hashHex decodeManifest)
    (fun past t ht h => backed_step rfl ht h) (backed_launch [] store store 0 rfl rfl) hrun
  constructor
  · rintro e receipt ⟨e', a, reply, rfl, hacts⟩
    obtain ⟨t, ht, ha⟩ := Config.pending_of_acts hacts
    obtain ⟨event, hmem, hpeer, hid⟩ :=
      hbacked.acked t ht _ (List.mem_append_left _ ha) receipt rfl
    exact ⟨event, hmem, hpeer, hid, hbacked.yielded event hmem⟩
  · intro event row now counted before after s' htaken hnew hlater hgoes hspares
    rw [List.cons_append] at hlater
    obtain ⟨m, htake, hrest⟩ := run_cons.mp hlater
    refine stored_run hrest hgoes hspares ?_
    have hinsert : Receiver.insert { s with taken := s.taken + 1 } row (event.message now) =
        some m := by
      simpa [step, htaken, handle, hnew] using htake
    rw [(insert_eq_some hinsert).2]
    exact stored_message s.context row event now

/-! ### An acknowledgement that outruns its row -/

/-- Stand-ins for the bundle parser, the digest and the manifest decoder, which the runs below never
call. -/
abbrev bare (launch : Node) : Receiver → Event → Option Receiver :=
  step (fun _ => none) (fun _ => "") (fun _ => none) launch

/-- A launch with one relay. -/
def online : Node := Node.launch [] [⟨.internet, true⟩] 1

/-- A verified contact sends a text, and its acknowledgement is sealed. -/
def opened : List Event :=
  [.node (.start (.presence (.enableReconnect [.replicate 32 5] [.replicate 32 5]))),
    .node (.step 0 (.presence ⟨false, none⟩)), .node (.start (.receive (.new (.filled 1) []))),
    .node (.step 1 (.opened (.replicate 32 5)
      (MessagePayload.sealedPlaintext ⟨.text, [104, 105]⟩) none)),
    .node (.step 1 (.sealed (some (.replicate 32 9)) (.new (.filled 2) [])))]

set_option maxRecDepth 8192 in
theorem acknowledged_stored_opened : ∃ s s', run (bare online) (start online ∅) opened = some s ∧
    s.HandsOver (.node (.step 1 (.router .ok))) ⟨.replicate 32 5, .filled 1, 0⟩ ∧
    (∃ event ∈ s.node.shared.events, event.peerKey = .replicate 32 5 ∧
      event.wireID = .filled 1 ∧
      ∃ u ∈ steps (fun _ => none) (fun _ => "") (fun _ => none) online ∅ opened,
        u.Yields (fun _ => "") (fun _ => none) event) ∧
    run (bare online) s (.take 7 0 true :: [] ++ .save :: [.relaunch]) = some s' ∧
    Stored 7 (.received (.replicate 32 5) [104, 105] (.filled 1)) s'.store := by
  refine ⟨_, _, rfl, ⟨_, _, _, rfl, rfl⟩, ?_, rfl, ?_⟩
  · exact (acknowledged_stored (fun _ => none) (fun _ => "") (fun _ => none) []
      [⟨.internet, true⟩] 1 ∅ opened _ rfl).1
      (.node (.step 1 (.router .ok))) ⟨.replicate 32 5, .filled 1, 0⟩ ⟨_, _, _, rfl, rfl⟩
  · exact (acknowledged_stored (fun _ => none) (fun _ => "") (fun _ => none) []
      [⟨.internet, true⟩] 1 ∅ opened _ rfl).2
      (.received (.replicate 32 5) [104, 105] (.filled 1)) 7 0 true [] [.relaunch] _ rfl rfl rfl
      (by simp) (by simp [Event.Spares])

set_option maxRecDepth 8192 in
/-- The app stops between the acknowledgement and the row. -/
theorem acknowledged_lost : ¬∀ events s, run (bare online) (start online ∅) events = some s →
    s.taken = s.node.shared.events.length → s.node.Idle →
    (∀ e ∈ events, ∀ row, e.Spares row) →
    ∀ receipt, (∃ u ∈ steps (fun _ => none) (fun _ => "") (fun _ => none) online ∅ events,
      u.pre.HandsOver u.event receipt) →
    ∃ row m, s.store.lookup row = some m ∧ m.isOutbound = false ∧
      m.wireID = some receipt.wireID ∧ m.peer = some receipt.peer := by
  intro hkept
  have hands : ∃ u ∈ steps (fun _ => none) (fun _ => "") (fun _ => none) online ∅
      (opened ++ [.node (.step 1 (.router .ok)), .relaunch]),
      u.pre.HandsOver u.event ⟨.replicate 32 5, .filled 1, 0⟩ :=
    ⟨_, List.mem_of_getElem? (i := 5) rfl, _, _, _, rfl, rfl⟩
  obtain ⟨row, m, hrow, _⟩ := hkept (opened ++ [.node (.step 1 (.router .ok)), .relaunch]) _ rfl rfl
    (by simp [Config.Idle, start]) (by simp [opened, Event.Spares]) _ hands
  cases hrow

end Receiver

end AeroNyra
