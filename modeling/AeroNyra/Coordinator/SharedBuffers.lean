import AeroNyra.Coordinator.Receive
import AeroNyra.Media.Completion
import AeroNyra.Transport.Deliverable

/-! Transfers of different peers in the one reassembler of a node.  Its buffers are keyed by the
media identifier alone, which the sender chooses, and the peer whose item completes a transfer is
the one it is attributed to.  So what is emitted for a peer is what its own manifests and chunks
give, as long as they meet no other peer's in the buffers of an identifier. -/

namespace AeroNyra

namespace MediaReassembler

open MediaChunker

def isInFlight (r : MediaReassembler) (mediaID : String) : Bool :=
  (r.manifests.lookup mediaID).isSome || !(r.buffered mediaID).isEmpty

/-- The identifier that an item is buffered under, unless it is ignored. -/
def Item.buffer : Item → Option String
  | .manifest m => if manifestWithinBounds m then some m.mediaID else none
  | .chunk bytes =>
    match parse bytes with
    | .error _ => none
    | .ok p => some (hex p.mediaID)

/-- What the buffers of an identifier hold. -/
def held (r : MediaReassembler) (id : String) : Option MediaManifest × List Data :=
  (r.manifests.lookup id, r.buffered id)

variable {hashHex : Data → String} {r r' : MediaReassembler} {id : String} {item : Item}

theorem isInFlight_eq_false : r.isInFlight id = false ↔ r.held id = (none, []) := by
  simp [isInFlight, held]

theorem held_new : held new id = (none, []) := by
  simp [held, new, buffered]

theorem held_insert_manifest (m : MediaManifest) :
    held { r with manifests := AList.insert id m r.manifests } id = (some m, (r.held id).2) := by
  simp [held, buffered]

theorem held_insert_chunk (bytes : Data) :
    held { r with chunks := AList.insert id (r.buffered id ++ [bytes]) r.chunks } id =
      ((r.held id).1, (r.held id).2 ++ [bytes]) := by
  simp [held, buffered]

/-- An ignored item. -/
theorem ingest_of_ignored (h : item.buffer = none) : ingest hashHex r item = (r, none) := by
  cases item with
  | manifest m =>
    have hbounds : ¬manifestWithinBounds m := by
      intro hbounds
      simp [Item.buffer, hbounds] at h
    exact if_neg hbounds
  | chunk bytes =>
    cases hparse : parse bytes with
    | error e => simp [ingest, ingestChunk, hparse]
    | ok p => simp [Item.buffer, hparse] at h

/-- The buffers of other identifiers than an item's own. -/
theorem held_ingest_ne (h : item.buffer ≠ some id) :
    (ingest hashHex r item).1.held id = r.held id := by
  suffices hapart : Apart id r (ingest hashHex r item) by
    rw [held, hapart.manifest, hapart.buffered, held]
  cases item with
  | manifest m =>
    show Apart id r (ingestManifest hashHex r m)
    unfold ingestManifest
    split
    · rename_i hbounds
      have hne : m.mediaID ≠ id := by simpa [Item.buffer, hbounds] using h
      exact apart_tryComplete hne (AList.lookup_insert_ne hne.symm) rfl
    · exact Apart.rfl
  | chunk bytes =>
    show Apart id r (ingestChunk hashHex r bytes)
    unfold ingestChunk
    split
    · exact Apart.rfl
    · rename_i p hp
      have hne : hex p.mediaID ≠ id := by simpa [Item.buffer, hp] using h
      refine apart_tryComplete hne rfl ?_
      rw [buffered, AList.lookup_insert_ne hne.symm]
      rfl

/-- Whether a transfer completes, and with what, is up to what its own buffers hold. -/
theorem tryComplete_congr (h : r.held id = r'.held id) :
    (tryComplete hashHex r id).2 = (tryComplete hashHex r' id).2 ∧
      (tryComplete hashHex r id).1.held id = (tryComplete hashHex r' id).1.held id := by
  obtain ⟨hmanifest, hbuffered⟩ := Prod.mk.inj h
  unfold tryComplete
  rw [hmanifest, hbuffered]
  split
  · exact ⟨rfl, h⟩
  · split
    · split
      · exact ⟨rfl, by simp [held, buffered]⟩
      · exact ⟨rfl, h⟩
    · exact ⟨rfl, h⟩

theorem ingest_congr (hbuffer : item.buffer = some id) (h : r.held id = r'.held id) :
    (ingest hashHex r item).2 = (ingest hashHex r' item).2 ∧
      (ingest hashHex r item).1.held id = (ingest hashHex r' item).1.held id := by
  cases item with
  | manifest m =>
    by_cases hbounds : manifestWithinBounds m
    · have hid : m.mediaID = id := by simpa [Item.buffer, hbounds] using hbuffer
      subst hid
      simp only [ingest, ingestManifest, hbounds, if_true]
      apply tryComplete_congr
      rw [held_insert_manifest, held_insert_manifest, h]
    · simp [Item.buffer, hbounds] at hbuffer
  | chunk bytes =>
    cases hparse : parse bytes with
    | error e => simp [Item.buffer, hparse] at hbuffer
    | ok p =>
      have hid : hex p.mediaID = id := by simpa [Item.buffer, hparse] using hbuffer
      subst hid
      simp only [ingest, ingestChunk, hparse]
      apply tryComplete_congr
      rw [held_insert_chunk, held_insert_chunk, h]

end MediaReassembler

namespace Node

open Interleave MediaReassembler

/-- What can happen to a node, as far as transfers go. -/
inductive Happening
  | dispatch (m : Opened)
  /-- Whatever leaves the transfers alone. -/
  | other (coordinator : FirstContactCoordinator) (router : MessageRouter)

/-- The happening is not a payload that another peer sent. -/
def Happening.concerns (p : Data) : Happening → Bool
  | .dispatch m => m.rawKey = p
  | .other _ _ => true

variable (hashHex : Data → String) (decodeManifest : Data → Option MediaManifest) (n : Node)

def hear : Happening → Node
  | .dispatch m => (n.dispatch hashHex decodeManifest m).1
  | .other coordinator router => { n with coordinator, router }

def heard (events : List Happening) : Node := events.foldl (hear hashHex decodeManifest) n

def hearStep (n : Node) (e : Happening) : Option Node := some (n.hear hashHex decodeManifest e)

/-- The events that yielded media of a peer to the inbox. -/
def receivedMedia (p : Data) : List SessionEvent :=
  n.events.filter fun
    | .received .. => false
    | .receivedMedia peerKey .. => peerKey = p

/-- The manifest or chunk that an opened payload brings, once the gate has let it through. -/
def item (m : Opened) : Option Item :=
  if m.rawKey ∈ n.coordinator.verifiedIdentities then
    match MessagePayload.decodeSealed m.plaintext with
    | some ⟨.mediaManifest, json⟩ => (decodeManifest json).map .manifest
    | some ⟨.mediaChunk, chunk⟩ => some (.chunk chunk)
    | _ => none
  else none

/-- The sender of an event, and the identifier that what it brings is buffered under. -/
def buffers : Happening → Option (Data × String)
  | .dispatch m => ((n.item decodeManifest m).bind Item.buffer).map fun id => (m.rawKey, id)
  | .other _ _ => none

/-- Whose items the buffers of each identifier hold. -/
abbrev Holders := String → List Data

/-- The holders after an event: its sender joins those of the identifier that its item is buffered
under, and nobody is left where a transfer has completed. -/
def hold (holders : Holders) (n : Node) (e : Happening) (n' : Node) : Holders := fun id =>
  if n'.reassembler.isInFlight id then
    match n.buffers decodeManifest e with
    | some (sender, own) => if own = id then holders id ++ [sender] else holders id
    | none => holders id
  else []

/-- An item is buffered where an item of another peer is held, one of the two being of peer `p`. -/
def Crosses (p : Data) (t : Transition (Node × Holders) Happening) : Prop :=
  ∃ sender id, t.pre.1.buffers decodeManifest t.event = some (sender, id) ∧
    ∃ holder ∈ t.pre.2 id, holder ≠ sender ∧ (holder = p ∨ sender = p)

instance (p : Data) (t : Transition (Node × Holders) Happening) :
    Decidable (Crosses decodeManifest p t) :=
  decidable_of_iff (∃ own ∈ t.pre.1.buffers decodeManifest t.event,
      ∃ holder ∈ t.pre.2 own.2, holder ≠ own.1 ∧ (holder = p ∨ own.1 = p))
    ⟨fun ⟨own, hown, h⟩ => ⟨own.1, own.2, hown, h⟩, fun ⟨sender, id, hown, h⟩ =>
    ⟨(sender, id), hown, h⟩⟩

/-- The steps of a run, each with the holders before and after it. -/
def hearings (events : List Happening) : List (Transition (Node × Holders) Happening) :=
  trace (recorded (hearStep hashHex decodeManifest) (hold decodeManifest)) (n, fun _ => []) events

variable {hashHex decodeManifest n}

/-! ### The runs of a node -/

theorem hear_of_exec {rawKeyOf : Data → Option Data} {a : Action} {reply : Reply} {n' : Node}
    {x : Exit Action} (h : exec rawKeyOf hashHex decodeManifest n a reply = some (n', x)) :
    ∃ e, n' = n.hear hashHex decodeManifest e := by
  have hleft : n = n.hear hashHex decodeManifest (.other n.coordinator n.router) := rfl
  unfold exec at h
  split at h
  · obtain ⟨q, _, heq⟩ := Option.map_eq_some_iff.mp h
    cases heq
    exact ⟨.other n.coordinator q.1, rfl⟩
  · obtain ⟨q, _, heq⟩ := Option.map_eq_some_iff.mp h
    cases heq
    exact ⟨.other q.1 n.router, rfl⟩
  · rename_i envelope rawKey plaintext announcement
    have hopened := congrArg Prod.fst (Option.some.inj h)
    unfold receiveOpened at hopened
    split at hopened
    · exact ⟨_, hopened.symm.trans hleft⟩
    · split at hopened
      · exact ⟨.dispatch ⟨envelope, rawKey, plaintext⟩, hopened.symm⟩
      · exact ⟨_, hopened.symm.trans hleft⟩
  · cases h
    exact ⟨_, hleft⟩
  · rename_i m
    exact ⟨.dispatch m, (congrArg Prod.fst (Option.some.inj h)).symm⟩
  · cases h
    exact ⟨.other n.coordinator _, rfl⟩
  · cases h
    exact ⟨_, hleft⟩
  · cases h
    exact ⟨_, hleft⟩
  · obtain ⟨q, _, heq⟩ := Option.map_eq_some_iff.mp h
    cases heq
    exact ⟨.other n.coordinator q.1, rfl⟩
  · cases h

/-- However the calls of a node interleave, it hears one payload after another. -/
theorem heard_of_run {rawKeyOf : Data → Option Data} {ts : List (Thread Action)}
    {events : List (Event Call Reply)} {c : Config Node Action}
    (h : run (machine rawKeyOf hashHex decodeManifest).step ⟨n, ts⟩ events = some c) :
    ∃ happenings, c.shared = n.heard hashHex decodeManifest happenings := by
  refine run_invariant (fun c : Config Node Action =>
    ∃ happenings, c.shared = n.heard hashHex decodeManifest happenings) (fun _ => True)
    (fun t hstep _ hold => ?_) ⟨[], rfl⟩ (fun _ _ => trivial) h
  obtain ⟨happenings, hheard⟩ := hold
  rcases Machine.step_shared hstep with ⟨hsame, _⟩ | ⟨a, reply, x, hexec, _⟩
  · exact ⟨happenings, hsame.trans hheard⟩
  · obtain ⟨e, he⟩ := hear_of_exec hexec
    refine ⟨happenings ++ [e], ?_⟩
    rw [he, hheard, heard, heard, List.foldl_append]
    rfl

/-! ### One payload -/

/-- What a completed transfer yields. -/
def emission (rawKey : Data) : Option Completed → List SessionEvent
  | none => []
  | some done =>
    match (hexToBytes done.mediaID).bind MessageID.ofBytes? with
    | none => []
    | some wireID => [.receivedMedia rawKey done wireID]

theorem finishMedia_node (m : Opened) (ingested : MediaReassembler × Option Completed) :
    (n.finishMedia m ingested).1 = { n with
      reassembler := ingested.1
      events := n.events ++ emission m.rawKey ingested.2 } := by
  obtain ⟨r, done⟩ := ingested
  cases done with
  | none => simp [finishMedia, emission]
  | some done =>
    cases hid : (hexToBytes done.mediaID).bind MessageID.ofBytes? with
    | none => simp [finishMedia, emitMedia, emission, hid]
    | some wireID => simp [finishMedia, emitMedia, emission, hid]

theorem hear_item {m : Opened} {i : Item} (h : n.item decodeManifest m = some i) :
    n.hear hashHex decodeManifest (.dispatch m) = { n with
      reassembler := (ingest hashHex n.reassembler i).1
      events := n.events ++ emission m.rawKey (ingest hashHex n.reassembler i).2 } := by
  show (n.dispatch hashHex decodeManifest m).1 = _
  unfold item at h
  split at h
  · rename_i hverified
    split at h
    · rename_i json hdecode
      obtain ⟨manifest, hmanifest, rfl⟩ := Option.map_eq_some_iff.mp h
      simp only [dispatch, hdecode, hverified, if_true, hmanifest]
      exact finishMedia_node m _
    · rename_i chunk hdecode
      obtain rfl := Option.some.inj h
      simp only [dispatch, hdecode, hverified, if_true]
      exact finishMedia_node m _
    · cases h
  · cases h

/-- A payload that brings nothing to the reassembler. -/
theorem hear_none {m : Opened} (h : n.item decodeManifest m = none) :
    (n.hear hashHex decodeManifest (.dispatch m)).coordinator = n.coordinator ∧
      (n.hear hashHex decodeManifest (.dispatch m)).reassembler = n.reassembler ∧
      ∀ p, (n.hear hashHex decodeManifest (.dispatch m)).receivedMedia p = n.receivedMedia p := by
  show (n.dispatch hashHex decodeManifest m).1.coordinator = _ ∧
    (n.dispatch hashHex decodeManifest m).1.reassembler = _ ∧
    ∀ p, (n.dispatch hashHex decodeManifest m).1.receivedMedia p = _
  unfold item at h
  unfold dispatch
  split
  · exact ⟨rfl, rfl, fun _ => rfl⟩
  · split
    · exact ⟨rfl, rfl, fun p => by simp [receivedMedia]⟩
    · exact ⟨rfl, rfl, fun _ => rfl⟩
  · rename_i json hdecode
    split
    · rename_i hverified
      have hmanifest : decodeManifest json = none := by simpa [hdecode, hverified] using h
      rw [hmanifest]
      exact ⟨rfl, rfl, fun _ => rfl⟩
    · exact ⟨rfl, rfl, fun _ => rfl⟩
  · rename_i chunk hdecode
    split
    · rename_i hverified
      simp [hdecode, hverified] at h
    · exact ⟨rfl, rfl, fun _ => rfl⟩
  · split
    · exact ⟨rfl, rfl, fun _ => rfl⟩
    · exact ⟨rfl, rfl, fun _ => rfl⟩
  · exact ⟨rfl, rfl, fun _ => rfl⟩

/-! ### One peer among others -/

/-- The buffers of an identifier in a run, by their holders, beside those in the run of `p` alone:
`p`'s own, which are the same, or others', which `p` alone has nothing of. -/
inductive Share (p : Data) : List Data → Option MediaManifest × List Data →
    Option MediaManifest × List Data → Prop
  | own {holders held} (mine : p ∈ holders) (only : ∀ q ∈ holders, q = p) :
      Share p holders held held
  | others {holders held} (absent : p ∉ holders) (free : holders = [] → held = (none, [])) :
    Share p holders held (none, [])

namespace Share

variable {p : Data} {holders : List Data} {r : MediaReassembler} {id : String}
  {alone : Option MediaManifest × List Data}

theorem free : Share p [] (none, []) (none, []) :=
  .others List.not_mem_nil fun _ => rfl

/-- A buffer that nothing is left in has no holders. -/
theorem settle (h : Share p holders (r.held id) alone) :
    Share p (if r.isInFlight id then holders else []) (r.held id) alone := by
  by_cases hflight : r.isInFlight id = true
  · rw [if_pos hflight]
    exact h
  · rw [if_neg hflight]
    have hempty : r.held id = (none, []) := isInFlight_eq_false.mp (Bool.eq_false_iff.mpr hflight)
    have halone : alone = (none, []) := by
      cases h with
      | own _ _ => exact hempty
      | others _ _ => rfl
    rw [hempty, halone]
    exact free

/-- Where nobody but `p` holds anything, the buffers are the same. -/
theorem eq_of_only {x y : Option MediaManifest × List Data} (h : Share p holders x y)
    (honly : ∀ q ∈ holders, q = p) : x = y := by
  cases h with
  | own _ _ => rfl
  | others absent hfree =>
    apply hfree
    cases holders with
    | nil => rfl
    | cons q holders => exact absurd (honly q List.mem_cons_self ▸ List.mem_cons_self) absent

theorem join_own (x : Option MediaManifest × List Data) (honly : ∀ q ∈ holders, q = p) :
    Share p (holders ++ [p]) x x := by
  refine .own (by simp) fun q hq => ?_
  rcases List.mem_append.mp hq with hold | hnew
  · exact honly q hold
  · exact List.mem_singleton.mp hnew

theorem join_other {x y y' : Option MediaManifest × List Data} {q : Data} (h : Share p holders x y)
    (habsent : p ∉ holders) (hne : q ≠ p) : Share p (holders ++ [q]) y' y := by
  cases h with
  | own mine _ => exact absurd mine habsent
  | others _ _ =>
    refine .others (fun hmem => ?_) (by simp)
    rcases List.mem_append.mp hmem with hold | hnew
    · exact habsent hold
    · exact hne (List.mem_singleton.mp hnew).symm

end Share

/-- A run with its holders, beside the run of `p` alone. -/
structure Alike (p : Data) (s : Node × Holders) (own : Node) : Prop where
  coordinator : s.1.coordinator = own.coordinator
  media : s.1.receivedMedia p = own.receivedMedia p
  shares : ∀ id, Share p (s.2 id) (s.1.reassembler.held id) (own.reassembler.held id)

theorem hold_apply {holders : Holders} {e : Happening} {n' : Node} {id : String}
    (h : ∀ sender, n.buffers decodeManifest e ≠ some (sender, id)) :
    hold decodeManifest holders n e n' id =
      if n'.reassembler.isInFlight id then holders id else [] := by
  cases hbuffers : n.buffers decodeManifest e with
  | none => simp [hold, hbuffers]
  | some own =>
    obtain ⟨sender, own⟩ := own
    have hne : own ≠ id := by
      rintro rfl
      exact h sender hbuffers
    simp [hold, hbuffers, hne]

theorem hold_own {holders : Holders} {e : Happening} {n' : Node} {id : String} {sender : Data}
    (h : n.buffers decodeManifest e = some (sender, id)) :
    hold decodeManifest holders n e n' id =
      if n'.reassembler.isInFlight id then holders id ++ [sender] else [] := by
  simp [hold, h]

theorem buffers_dispatch {m : Opened} {sender : Data} {id : String}
    (h : n.buffers decodeManifest (.dispatch m) = some (sender, id)) : sender = m.rawKey ∧
      ∃ i, n.item decodeManifest m = some i ∧ i.buffer = some id := by
  obtain ⟨own, hown, heq⟩ := Option.map_eq_some_iff.mp h
  obtain ⟨i, hi, hbuffer⟩ := Option.bind_eq_some_iff.mp hown
  cases heq
  exact ⟨rfl, i, hi, hbuffer⟩

/-- The buffers of the identifiers that an event brings nothing for. -/
theorem held_hear {e : Happening} {id : String}
    (h : ∀ sender, n.buffers decodeManifest e ≠ some (sender, id)) :
    (n.hear hashHex decodeManifest e).reassembler.held id = n.reassembler.held id := by
  cases e with
  | other coordinator router => rfl
  | dispatch m =>
    cases hitem : n.item decodeManifest m with
    | none => rw [(hear_none hitem).2.1]
    | some i =>
      rw [hear_item hitem]
      apply held_ingest_ne
      intro hbuffer
      exact h m.rawKey (by simp [buffers, hitem, hbuffer])

theorem coordinator_hear_dispatch (m : Opened) :
    (n.hear hashHex decodeManifest (.dispatch m)).coordinator = n.coordinator := by
  cases hitem : n.item decodeManifest m with
  | none => exact (hear_none hitem).1
  | some i => rw [hear_item hitem]

theorem mem_emission {rawKey : Data} {done : Option Completed} {e : SessionEvent}
    (h : e ∈ emission rawKey done) : e.peerKey = rawKey := by
  unfold emission at h
  split at h
  · cases h
  · split at h
    · cases h
    · rw [List.mem_singleton.mp h]
      rfl

/-- The media events of `p` after a payload of another peer. -/
theorem receivedMedia_hear_other {m : Opened} {p : Data} (hne : m.rawKey ≠ p) :
    (n.hear hashHex decodeManifest (.dispatch m)).receivedMedia p = n.receivedMedia p := by
  cases hitem : n.item decodeManifest m with
  | none => exact (hear_none hitem).2.2 p
  | some i =>
    rw [hear_item hitem]
    show (n.events ++ _).filter _ = n.receivedMedia p
    rw [List.filter_append, receivedMedia, List.append_right_eq_self, List.filter_eq_nil_iff]
    intro e he
    have hpeer := mem_emission he
    cases e with
    | received => simp
    | receivedMedia peerKey done wireID =>
      have hpeer : peerKey = m.rawKey := hpeer
      simp [hpeer, hne]

theorem buffers_congr {n' : Node} (h : n.coordinator = n'.coordinator) (e : Happening) :
    n.buffers decodeManifest e = n'.buffers decodeManifest e := by
  cases e with
  | other coordinator router => rfl
  | dispatch m =>
    show ((n.item decodeManifest m).bind _).map _ = ((n'.item decodeManifest m).bind _).map _
    unfold item
    rw [h]

section Steps

variable {p : Data} {s : Node × Holders} {own : Node}

/-- The media events of `p` after one of its own payloads, in the run and in the one of `p`
alone. -/
theorem receivedMedia_hear_own {m : Opened} (h : Alike p s own)
    (honly : ∀ id, s.1.buffers decodeManifest (.dispatch m) = some (p, id) → ∀ q ∈ s.2 id, q = p)
    (hpeer : m.rawKey = p) :
    (s.1.hear hashHex decodeManifest (.dispatch m)).receivedMedia p =
      (own.hear hashHex decodeManifest (.dispatch m)).receivedMedia p := by
  have hsame : own.item decodeManifest m = s.1.item decodeManifest m := by
    unfold item
    rw [h.coordinator]
  cases hitem : s.1.item decodeManifest m with
  | none => rw [(hear_none hitem).2.2, (hear_none (hsame.trans hitem)).2.2, h.media]
  | some i =>
    have hdone : (ingest hashHex s.1.reassembler i).2 = (ingest hashHex own.reassembler i).2 := by
      cases hbuffer : i.buffer with
      | none => rw [ingest_of_ignored hbuffer, ingest_of_ignored hbuffer]
      | some id =>
        have hbuffers : s.1.buffers decodeManifest (.dispatch m) = some (p, id) := by
          simp [buffers, hitem, hbuffer, hpeer]
        exact (ingest_congr hbuffer ((h.shares id).eq_of_only (honly id hbuffers))).1
    have hmedia := h.media
    unfold receivedMedia at hmedia
    rw [hear_item hitem, hear_item (hsame.trans hitem), hdone]
    simp only [receivedMedia, List.filter_append, hmedia]

/-- An identifier that an event of `p` brings something for. -/
theorem Share.hear_own {m : Opened} {id : String} (h : Alike p s own)
    (hbuffers : s.1.buffers decodeManifest (.dispatch m) = some (p, id))
    (honly : ∀ q ∈ s.2 id, q = p) :
    (s.1.hear hashHex decodeManifest (.dispatch m)).reassembler.held id =
      (own.hear hashHex decodeManifest (.dispatch m)).reassembler.held id := by
  obtain ⟨_, i, hitem, hbuffer⟩ := buffers_dispatch hbuffers
  have hsame : own.item decodeManifest m = s.1.item decodeManifest m := by
    unfold item
    rw [h.coordinator]
  rw [hear_item hitem, hear_item (hsame.trans hitem)]
  exact (ingest_congr hbuffer ((h.shares id).eq_of_only honly)).2

/-- An identifier that an event brings nothing for, in the run alone or in both. -/
theorem Share.hear_away {e : Happening} {id : String} (h : Alike p s own)
    (haway : ∀ sender, s.1.buffers decodeManifest e ≠ some (sender, id)) :
    Share p (hold decodeManifest s.2 s.1 e (s.1.hear hashHex decodeManifest e) id)
      ((s.1.hear hashHex decodeManifest e).reassembler.held id) (own.reassembler.held id) := by
  rw [hold_apply haway]
  apply Share.settle
  rw [held_hear haway]
  exact h.shares id

/-- A payload of another peer, which only the run hears. -/
theorem Alike.hear_first {m : Opened} (h : Alike p s own) (hpeer : m.rawKey ≠ p)
    (hcross : ∀ id, s.1.buffers decodeManifest (.dispatch m) = some (m.rawKey, id) → p ∉ s.2 id) :
    Alike p (s.1.hear hashHex decodeManifest (.dispatch m), hold decodeManifest s.2 s.1
      (.dispatch m) (s.1.hear hashHex decodeManifest (.dispatch m))) own where
  coordinator := (coordinator_hear_dispatch m).trans h.coordinator
  media := (receivedMedia_hear_other hpeer).trans h.media
  shares := by
    intro id
    by_cases hbuffers : s.1.buffers decodeManifest (.dispatch m) = some (m.rawKey, id)
    · show Share p (hold _ _ _ _ _ id) _ _
      rw [hold_own hbuffers]
      exact ((h.shares id).join_other (hcross id hbuffers) hpeer).settle
    · apply Share.hear_away h
      intro sender hsender
      obtain ⟨rfl, _⟩ := buffers_dispatch hsender
      exact hbuffers hsender

/-- An event of `p`, or one that leaves the transfers alone: both runs hear it. -/
theorem Alike.hear_both {e : Happening} (h : Alike p s own) (hpeer : e.concerns p = true)
    (honly : ∀ id, s.1.buffers decodeManifest e = some (p, id) → ∀ q ∈ s.2 id, q = p) :
    Alike p (s.1.hear hashHex decodeManifest e,
      hold decodeManifest s.2 s.1 e (s.1.hear hashHex decodeManifest e))
      (own.hear hashHex decodeManifest e) := by
  cases e with
  | other coordinator router =>
    refine ⟨rfl, h.media, fun id => ?_⟩
    show Share p _ _ (own.reassembler.held id)
    exact Share.hear_away h fun sender hsender => by cases hsender
  | dispatch m =>
    have hpeer : m.rawKey = p := of_decide_eq_true hpeer
    refine ⟨?_, receivedMedia_hear_own h honly hpeer, fun id => ?_⟩
    · rw [coordinator_hear_dispatch, coordinator_hear_dispatch, h.coordinator]
    · by_cases hbuffers : s.1.buffers decodeManifest (.dispatch m) = some (p, id)
      · show Share p (hold _ _ _ _ _ id) _ _
        rw [hold_own hbuffers, ← Share.hear_own h hbuffers (honly id hbuffers)]
        exact (Share.join_own _ (honly id hbuffers)).settle
      · have haway : ∀ sender, s.1.buffers decodeManifest (.dispatch m) ≠ some (sender, id) := by
          intro sender hsender
          obtain ⟨rfl, _⟩ := buffers_dispatch hsender
          exact hbuffers (hpeer ▸ hsender)
        have haway' : ∀ sender, own.buffers decodeManifest (.dispatch m) ≠ some (sender, id) := by
          rw [← buffers_congr h.coordinator]
          exact haway
        rw [held_hear haway']
        exact Share.hear_away h haway

end Steps

/-! ### Runs -/

theorem run_hearStep (n : Node) (events : List Happening) :
    run (hearStep hashHex decodeManifest) n events = some
      (n.heard hashHex decodeManifest events) := by
  induction events generalizing n with
  | nil => rfl
  | cons e events ih => exact ih _

theorem run_hearings (s : Node × Holders) (events : List Happening) :
    ∃ holders, run (recorded (hearStep hashHex decodeManifest) (hold decodeManifest)) s events =
      some (s.1.heard hashHex decodeManifest events, holders) := by
  induction events generalizing s with
  | nil => exact ⟨s.2, rfl⟩
  | cons e events ih => exact ih (s.1.hear hashHex decodeManifest e, _)

/-- Where nothing crosses, the holders of an identifier that `p` brings something for are `p`
alone. -/
theorem only_of_not_crosses {p : Data} {t : Transition (Node × Holders) Happening}
    (h : ¬Crosses decodeManifest p t) {id : String}
    (hbuffers : t.pre.1.buffers decodeManifest t.event = some (p, id)) :
    ∀ q ∈ t.pre.2 id, q = p := by
  intro q hq
  by_contra hne
  exact h ⟨p, id, hbuffers, q, hq, hne, .inr rfl⟩

section Steps

variable {p : Data} {t : Transition (Node × Holders) Happening} {own : Node}

theorem Alike.kept
    (hstep : recorded (hearStep hashHex decodeManifest) (hold decodeManifest) t.pre t.event =
      some t.post)
    (hcross : ¬Crosses decodeManifest p t) (hkeep : t.event.concerns p = true)
    (h : Alike p t.pre own) :
    ∃ own', hearStep hashHex decodeManifest own t.event = some own' ∧ Alike p t.post own' := by
  obtain ⟨hpost, hholders⟩ := step_of_recorded hstep
  refine ⟨own.hear hashHex decodeManifest t.event, rfl, ?_⟩
  have hboth : Alike p (t.pre.1.hear hashHex decodeManifest t.event, _) _ :=
    h.hear_both hkeep fun id => only_of_not_crosses hcross
  rw [Option.some.inj hpost, ← hholders] at hboth
  exact hboth

theorem Alike.dropped
    (hstep : recorded (hearStep hashHex decodeManifest) (hold decodeManifest) t.pre t.event =
      some t.post)
    (hcross : ¬Crosses decodeManifest p t) (hdrop : t.event.concerns p = false)
    (h : Alike p t.pre own) :
    Alike p t.post own := by
  obtain ⟨pre, event, post⟩ := t
  obtain ⟨hpost, hholders⟩ := step_of_recorded hstep
  cases event with
  | other coordinator router => cases hdrop
  | dispatch m =>
    have hpeer : m.rawKey ≠ p := of_decide_eq_false hdrop
    have hfirst : Alike p (pre.1.hear hashHex decodeManifest (.dispatch m), _) own :=
      h.hear_first hpeer fun id hbuffers hmem =>
        hcross ⟨m.rawKey, id, hbuffers, p, hmem, Ne.symm hpeer, .inl rfl⟩
    rw [Option.some.inj hpost, ← hholders] at hfirst
    exact hfirst

end Steps

/-- What is emitted for a peer is what its own payloads alone give, in a run in which nothing of its
own is buffered where another peer's is, nor the other way round. -/
theorem media_isolated (hashHex : Data → String) (decodeManifest : Data → Option MediaManifest)
    (n : Node) (hnew : n.reassembler = .new) (p : Data) (events : List Happening)
    (hapart : ∀ t ∈ n.hearings hashHex decodeManifest events, ¬Crosses decodeManifest p t) :
    (n.heard hashHex decodeManifest events).receivedMedia p =
      (n.heard hashHex decodeManifest (events.filter (·.concerns p))).receivedMedia p := by
  obtain ⟨holders, hrun⟩ := @run_hearings hashHex decodeManifest (n, fun _ => []) events
  have hstart : Alike p (n, fun _ => []) n := by
    refine ⟨rfl, rfl, fun id => ?_⟩
    rw [hnew, held_new]
    exact Share.free
  obtain ⟨own, hown, halike⟩ := run_filter (Alike p) (fun t => ¬Crosses decodeManifest p t)
    (fun t own hstep hcross hkeep h => Alike.kept hstep hcross hkeep h)
    (fun t own hstep hcross hdrop h => Alike.dropped hstep hcross hdrop h) hstart hapart hrun
  rw [run_hearStep] at hown
  rw [Option.some.inj hown]
  exact halike.media

/-- The payloads of a transfer, opened under the identity of a sender. -/
def opening (sender : Data) (m : MediaManifest) (chunks : List Data) : List Happening :=
  (BLEMeshTransport.transfer (fun _ => "0") m chunks).map fun payload =>
    .dispatch ⟨.new (.filled 1) [], sender, payload.sealedPlaintext⟩

/-- A node with two verified peers. -/
def meeting (alice mallory : Data) : Node :=
  ⟨{ FirstContactCoordinator.new [] with verifiedIdentities := {alice, mallory} },
  .new [] 1, .new, []⟩

/-- Two transfers of the same bytes under different identifiers, one within the other. -/
theorem media_isolated_apart :
    let alice : Data := .replicate 32 1
    let mallory : Data := .replicate 32 2
    let m (b : UInt8) : MediaManifest :=
      ⟨hex (.replicate 16 b), .jpeg, 3, 2, tripleHash, none, false, false⟩
    let decode (json : Data) : Option MediaManifest :=
      [m 8, m 9].find? fun m => utf8 (m.json fun _ => "0") = json
    let first b := MediaChunker.chunk (.replicate 16 b) 0 2 [1, 2]
    let second b := MediaChunker.chunk (.replicate 16 b) 1 2 [3]
    let events := opening alice (m 9) [first 9] ++ opening mallory (m 8) [first 8, second 8] ++
      opening alice (m 9) [second 9]
    ((meeting alice mallory).heard (fun _ => tripleHash) decode events).receivedMedia alice =
      ((meeting alice mallory).heard (fun _ => tripleHash) decode
        (events.filter (·.concerns alice))).receivedMedia alice := by
  intro alice mallory m decode first second events
  exact media_isolated _ decode _ rfl alice events (by decide +kernel)

/-- One chunk of another peer under the identifier of a transfer, and it never completes. -/
theorem media_crosses :
    let alice : Data := .replicate 32 1
    let mallory : Data := .replicate 32 2
    let id : MessageID := .filled 9
    let m : MediaManifest := ⟨hex id.bytes, .jpeg, 3, 2, tripleHash, none, false, false⟩
    let decode (json : Data) : Option MediaManifest := if utf8 (m.json fun _ => "0") =
      json then some m else none
    let first := MediaChunker.chunk id.bytes 0 2 [1, 2]
    let second := MediaChunker.chunk id.bytes 1 2 [3]
    let stray : MessagePayload := ⟨.mediaChunk, MediaChunker.chunk id.bytes 1 3 [4]⟩
    let events := Happening.dispatch ⟨.new (.filled 1) [], mallory, stray.sealedPlaintext⟩ ::
      opening alice m [first, second]
    ((meeting alice mallory).heard (fun _ => tripleHash) decode events).receivedMedia alice = [] ∧
      ((meeting alice mallory).heard (fun _ => tripleHash) decode
        (events.filter (·.concerns alice))).receivedMedia alice =
        [.receivedMedia alice ⟨hex id.bytes, .jpeg, [1, 2, 3], none, false, false⟩ id] := by
  decide +kernel

end Node

end AeroNyra
