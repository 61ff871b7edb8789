import AeroNyra.Transport.Reachable

/-! Frames for one link.  A write goes to one peripheral, but a notification goes to every central
that subscribes to the mailbox when it goes out, which may be long after the frame was sent. -/

namespace AeroNyra

namespace BLEMeshTransport

open Interleave

namespace Links

/-- The link that the frame of the event is for, if it is for one. -/
def addressee : Event → Option UUID
  | .sendBundle _ toLink _ | .sendReconnect _ toLink _ => some toLink
  | _ => none

/-- The slices that go out. -/
def updates (effects : List Effect) : List Data :=
  effects.filterMap fun effect => match effect with
    | .update slice => some slice
    | .reachable _ | .write _ _ => none

/-- The frames that join queues, with the peripherals that they are written to. -/
def writes (effects : List Effect) : List (Finset UUID × Data) :=
  effects.filterMap fun effect => match effect with
    | .write ids frame => some (ids, frame)
    | .reachable _ | .update _ => none

end Links

/-- Bytes that were handed out: to whom, and whom they are for. -/
structure Handed where
  receivers : Finset UUID
  addressee : Option UUID
  bytes : Data
  deriving DecidableEq

/-- Whom each slice that waits is for, and what was handed out. -/
structure Outgoing where
  waiting : List (Option UUID) := []
  handed : List Handed := []
  deriving DecidableEq

namespace Outgoing

open Links

/-- Effects of an event with an addressee or none that adds slices to the queue: those that go out
are the first ones that wait, and all receivers get them. -/
def send (o : Outgoing) (receivers : Finset UUID) (addressee : Option UUID) (added : Nat)
    (effects : List Effect) : Outgoing :=
  let waiting := o.waiting ++ List.replicate added addressee
  let written := (writes effects).map fun w => ⟨w.1, addressee, w.2⟩
  let notified := (waiting.zip (updates effects)).map fun w => ⟨receivers, w.1, w.2⟩
  { waiting := waiting.drop (updates effects).length
    handed := o.handed ++ written ++ notified }

/-- With the radio off, nothing waits. -/
def note (o : Outgoing) (p : Presence) (e : Event) (p' : Presence) : Outgoing :=
  match e with
  | .peripheralManagerDidUpdateState false => { o with waiting := [] }
  | _ =>
    let effects := ((p.links.react e).map Prod.snd).getD []
    let added := (updates effects).length + p'.links.notify.pendingNotifications.length -
      p.links.notify.pendingNotifications.length
    o.send p.radio.mailboxSubscribers (addressee e) added effects

/-- What is for one link was handed to nobody else. -/
def LinkLocal (o : Outgoing) : Prop :=
  ∀ h ∈ o.handed, ∀ id, h.addressee = some id → h.receivers ⊆ {id}

end Outgoing

abbrev LinkStep := Transition (Presence × Outgoing) Links.Event

/-- A frame for a subscriber is sent when nobody else subscribes to the mailbox, and nobody else
subscribes to it while such a frame waits. -/
def LinkStep.Alone (t : LinkStep) : Prop :=
  match t.event with
  | .sendBundle _ toLink _ | .sendReconnect _ toLink _ =>
    toLink ∈ t.pre.1.links.writeTargets ∨ toLink ∉ t.pre.1.links.subscribedCentrals ∨
      t.pre.1.radio.mailboxSubscribers ⊆ {toLink}
  | .didSubscribeTo central char =>
    char = characteristicUUID → ∀ id, some id ∈ t.pre.2.waiting → id = central
  | _ => True

namespace Links

variable {l : Links} {e : Event} {out : Links × List Effect}

/-- What an event sends: it takes slices off the front of the queue, and adds some only behind it;
with an addressee, these are for a subscriber that is no write target, and frames are written to
nobody else. -/
structure Sends (l : Links) (addressee : Option UUID) (out : Links × List Effect) : Prop where
  fifo : ∃ added, l.notify.pendingNotifications ++ added =
      updates out.2 ++ out.1.notify.pendingNotifications ∧
    (added ≠ [] → ∀ id, addressee = some id → id ∉ l.writeTargets ∧ id ∈ l.subscribedCentrals)
  written : ∀ w ∈ writes out.2, ∀ id, addressee = some id → w.1 ⊆ {id}

theorem Sends.nothing {addressee : Option UUID} {l' : Links} {effects : List Effect}
    (hnotify : l'.notify.pendingNotifications = l.notify.pendingNotifications)
    (hupdates : updates effects = []) (hwrites : writes effects = []) :
    Sends l addressee (l', effects) := by
  refine ⟨⟨[], ?_, fun h => absurd rfl h⟩, fun w hw => ?_⟩
  · rw [hupdates, hnotify, List.append_nil]
    rfl
  · rw [hwrites] at hw
    cases hw

theorem updates_notified (l : Links) (sent : NotifyQueue × List Data) :
    updates (l.notified sent).2 = sent.2 := by
  show (sent.2.map Effect.update).filterMap _ = sent.2
  rw [List.filterMap_map]
  exact List.filterMap_some

theorem writes_notified (l : Links) (sent : NotifyQueue × List Data) :
    writes (l.notified sent).2 = [] := by
  show (sent.2.map Effect.update).filterMap _ = []
  rw [List.filterMap_map]
  exact List.filterMap_eq_nil_iff.mpr fun _ _ => rfl

/-- Without a mailbox, nothing is queued. -/
theorem sends_notified {addressee : Option UUID} (e : NotifyQueue.Event)
    (hslices : e.slices ≠ [] → ∀ id, addressee = some id → id ∉ l.writeTargets ∧
      id ∈ l.subscribedCentrals) :
    Sends l addressee (l.notified (l.notify.react e)) := by
  by_cases hmailbox : l.notify.mailbox = true
  · refine ⟨⟨e.slices, ?_, hslices⟩, fun w hw => ?_⟩
    · rw [updates_notified]
      exact NotifyQueue.react_conserves hmailbox e
    · rw [writes_notified] at hw
      cases hw
  · have hsame : l.notify.react e = (l.notify, []) := by
      cases e with
      | notifySubscribers frame updateValue => exact if_neg hmailbox
      | peripheralManagerIsReady updateValue => exact if_neg hmailbox
    rw [hsame]
    exact Sends.nothing rfl rfl rfl

theorem Sends.write {addressee : Option UUID} {l' : Links} {effects : List Effect}
    (h : Sends l addressee (l', effects)) {ids : Finset UUID} (frame : Data)
    (hids : ∀ id, addressee = some id → ids ⊆ {id}) :
    Sends l addressee (l', .write ids frame :: effects) := by
  refine ⟨h.fifo, fun w hw => ?_⟩
  rcases List.mem_cons.mp hw with rfl | hw
  · exact hids
  · exact h.written w hw

theorem sends_sendFrameToLink (l : Links) (frame : Data) (id : UUID) (updateValue : Nat → Bool) :
    Sends l (some id) (l.sendFrameToLink frame id updateValue).2 := by
  unfold sendFrameToLink
  split
  · unfold writeFrameToPeer
    split
    · refine (Sends.nothing rfl rfl rfl).write frame fun other hother => ?_
      rw [Option.some.inj hother]
    · exact Sends.nothing rfl rfl rfl
  · rename_i htarget
    split
    · rename_i hcentral
      refine sends_notified (.notifySubscribers frame updateValue) fun _ other hother => ?_
      rw [← Option.some.inj hother]
      exact ⟨htarget, hcentral⟩
    · exact Sends.nothing rfl rfl rfl

/-- A frame for everybody. -/
theorem sends_all (l : Links) (frame : Data) (updateValue : Nat → Bool) (excluded : Finset UUID) :
    Sends l none ((l.notifySubscribers frame updateValue).1,
      l.writeToAll frame excluded :: (l.notifySubscribers frame updateValue).2) :=
  (sends_notified (.notifySubscribers frame updateValue) fun _ _ h => by cases h).write frame
    fun _ h => by cases h

/-- Discovering sends nothing. -/
theorem silent_discovered (id : UUID) (chars : List CBUUID) (s : Links × List Effect) :
    updates (chars.foldl (discovered id) s).2 = updates s.2 ∧
      writes (chars.foldl (discovered id) s).2 = writes s.2 := by
  induction chars generalizing s with
  | nil => exact ⟨rfl, rfl⟩
  | cons char chars ih =>
    obtain ⟨hupdates, hwrites⟩ := ih (discovered id s char)
    rw [List.foldl_cons, hupdates, hwrites]
    unfold discovered
    split
    · simp [updates, writes, emitReachable]
    · exact ⟨rfl, rfl⟩

theorem sends_react (hon : e ≠ .peripheralManagerDidUpdateState false) (h : l.react e = some out) :
    Sends l (addressee e) out := by
  cases e with
  | didDiscover id heldOff =>
    obtain rfl := Option.some.inj h
    unfold didDiscover
    split
    · exact Sends.nothing rfl rfl rfl
    · exact Sends.nothing rfl rfl rfl
  | didConnect id | didFailToConnect id | didDisconnectPeripheral id | dropDeadLink id
  | didSubscribeTo central char | didUnsubscribeFrom central char =>
    obtain rfl := Option.some.inj h
    exact Sends.nothing rfl rfl rfl
  | didDiscoverCharacteristicsFor id chars =>
    obtain rfl := Option.some.inj h
    cases chars with
    | none => exact Sends.nothing rfl rfl rfl
    | some chars =>
      obtain ⟨hupdates, hwrites⟩ := silent_discovered id chars (l, [])
      have hlinks := links_discovered id chars (l, [])
      exact Sends.nothing (congrArg (·.notify.pendingNotifications) hlinks) hupdates hwrites
  | centralManagerDidUpdateState poweredOn =>
    obtain rfl := Option.some.inj h
    cases poweredOn with
    | false => exact Sends.nothing rfl rfl rfl
    | true => exact Sends.nothing rfl rfl rfl
  | peripheralManagerDidUpdateState poweredOn =>
    obtain rfl := Option.some.inj h
    cases poweredOn with
    | false => exact absurd rfl hon
    | true => exact Sends.nothing rfl rfl rfl
  | peripheralManagerIsReady updateValue =>
    obtain rfl := Option.some.inj h
    exact sends_notified (.peripheralManagerIsReady updateValue) fun h => absurd rfl h
  | send envelope updateValue =>
    obtain ⟨frame, _, rfl⟩ := Option.map_eq_some_iff.mp h
    show Sends l none (l.broadcast frame updateValue).2
    unfold broadcast
    split
    · exact Sends.nothing rfl rfl rfl
    · split
      · exact (Sends.nothing rfl rfl rfl).write frame fun _ h => by cases h
      · exact sends_all l frame updateValue ∅
  | relay envelope excludingLinks updateValue =>
    obtain ⟨frame, _, rfl⟩ := Option.map_eq_some_iff.mp h
    show Sends l none (l.relay frame excludingLinks updateValue)
    unfold relay
    split
    · exact (Sends.nothing rfl rfl rfl).write frame fun _ h => by cases h
    · exact sends_all l frame updateValue excludingLinks
  | sendBundle data toLink updateValue | sendReconnect data toLink updateValue =>
    obtain ⟨frame, _, rfl⟩ := Option.map_eq_some_iff.mp h
    exact sends_sendFrameToLink l frame toLink updateValue

end Links

/-- Each slice that waits has an addressee or none, one that waits for a link has no other
subscriber, and what was handed out is link-local. -/
structure Private (s : Presence × Outgoing) : Prop where
  lengths : s.2.waiting.length = s.1.links.notify.pendingNotifications.length
  alone : ∀ id, some id ∈ s.2.waiting → s.1.radio.mailboxSubscribers ⊆ {id}
  linkLocal : s.2.LinkLocal

/-- Subscribers to the mailbox come by subscribing. -/
theorem Radio.subscribers_step {r r' : Radio} {e : Links.Event} (h : r.step e = some r') :
    r'.mailboxSubscribers ⊆ r.mailboxSubscribers ∨
      ∃ central, e = .didSubscribeTo central characteristicUUID ∧
        r'.mailboxSubscribers = insert central r.mailboxSubscribers := by
  cases e with
  | didSubscribeTo central char =>
    by_cases hchar : char = characteristicUUID
    · subst hchar
      obtain rfl := Option.some.inj h
      exact .inr ⟨central, rfl, rfl⟩
    · obtain rfl : r = r' := Option.some.inj ((if_neg hchar).symm.trans h)
      exact .inl (Finset.Subset.refl _)
  | didUnsubscribeFrom central char =>
    left
    by_cases hchar : char = characteristicUUID
    · subst hchar
      obtain rfl := Option.some.inj h
      exact Finset.erase_subset _ _
    · obtain rfl : r = r' := Option.some.inj ((if_neg hchar).symm.trans h)
      exact Finset.Subset.refl _
  | peripheralManagerDidUpdateState poweredOn =>
    left
    cases poweredOn with
    | false =>
      obtain rfl := Option.some.inj h
      exact Finset.empty_subset _
    | true =>
      obtain rfl := Option.some.inj h
      exact Finset.Subset.refl _
  | centralManagerDidUpdateState poweredOn =>
    left
    cases poweredOn with
    | false =>
      obtain rfl := Option.some.inj h
      exact Finset.Subset.refl _
    | true =>
      obtain rfl := Option.some.inj h
      exact Finset.Subset.refl _
  | didConnect id =>
    obtain ⟨_, h⟩ := Option.ite_none_left_eq_some.mp h
    obtain rfl := Option.some.inj h
    exact .inl (Finset.Subset.refl _)
  | didDiscoverCharacteristicsFor id chars =>
    left
    obtain ⟨_, h⟩ := Option.ite_none_right_eq_some.mp h
    split at h
    · obtain rfl := Option.some.inj h
      exact Finset.Subset.refl _
    · obtain rfl := Option.some.inj h
      exact Finset.Subset.refl _
  | didDiscover id heldOff | didFailToConnect id | didDisconnectPeripheral id | dropDeadLink id
  | peripheralManagerIsReady updateValue | send envelope updateValue
  | relay envelope excludingLinks updateValue | sendBundle data toLink updateValue
  | sendReconnect data toLink updateValue =>
    obtain rfl := Option.some.inj h
    exact .inl (Finset.Subset.refl _)

theorem LinkStep.Alone.addressee {t : LinkStep} (h : t.Alone) {id : UUID}
    (hid : Links.addressee t.event = some id) (htarget : id ∉ t.pre.1.links.writeTargets)
    (hcentral : id ∈ t.pre.1.links.subscribedCentrals) :
    t.pre.1.radio.mailboxSubscribers ⊆ {id} := by
  obtain ⟨s, e, s'⟩ := t
  cases e with
  | sendBundle data toLink updateValue | sendReconnect data toLink updateValue =>
    obtain rfl := Option.some.inj hid
    exact (h.resolve_left htarget).resolve_left (not_not_intro hcentral)
  | _ => cases hid

theorem Outgoing.note_of_on {o : Outgoing} {p p' : Presence} {e : Links.Event}
    (hon : e ≠ .peripheralManagerDidUpdateState false) {out : Links × List Effect}
    (hout : p.links.react e = some out) :
    o.note p e p' = o.send p.radio.mailboxSubscribers (Links.addressee e)
      ((Links.updates out.2).length + p'.links.notify.pendingNotifications.length -
        p.links.notify.pendingNotifications.length) out.2 := by
  unfold Outgoing.note
  split
  · exact absurd rfl hon
  · rw [hout]
    rfl

/-- Bytes that go out when nobody but the addressee is there to get them. -/
theorem Outgoing.LinkLocal.send {o : Outgoing} (h : o.LinkLocal) {receivers : Finset UUID}
    {addressee : Option UUID} {added : Nat} {effects : List Effect}
    (hwritten : ∀ w ∈ Links.writes effects, ∀ id, addressee = some id → w.1 ⊆ {id})
    (hsole : ∀ id, some id ∈ o.waiting ++ List.replicate added addressee → receivers ⊆ {id}) :
    (o.send receivers addressee added effects).LinkLocal := by
  intro handed hhanded id hid
  rcases List.mem_append.mp hhanded with hhanded | hnotified
  · rcases List.mem_append.mp hhanded with hold | hwrite
    · exact h handed hold id hid
    · obtain ⟨w, hw, rfl⟩ := List.mem_map.mp hwrite
      exact hwritten w hw id hid
  · obtain ⟨⟨other, slice⟩, hw, rfl⟩ := List.mem_map.mp hnotified
    have hother : other = some id := hid
    subst hother
    exact hsole id (List.of_mem_zip hw).1

theorem private_step (t : LinkStep)
    (ht : recorded Presence.step Outgoing.note t.pre t.event = some t.post)
    (halone : t.Alone) (h : Private t.pre) : Private t.post := by
  obtain ⟨⟨p, o⟩, e, ⟨p', o'⟩⟩ := t
  obtain ⟨hstep, hnote⟩ := step_of_recorded ht
  dsimp only at h hstep hnote ⊢
  subst hnote
  obtain ⟨radio, hradio, hreact⟩ := Option.bind_eq_some_iff.mp hstep
  obtain ⟨out, hout, rfl⟩ := Option.map_eq_some_iff.mp hreact
  by_cases hoff : e = .peripheralManagerDidUpdateState false
  · subst hoff
    obtain rfl := Option.some.inj hout
    exact ⟨rfl, fun id hid => absurd hid List.not_mem_nil, h.linkLocal⟩
  · obtain ⟨⟨added, hfifo, hadded⟩, hwritten⟩ := Links.sends_react hoff hout
    have hlengths := congrArg List.length hfifo
    simp only [List.length_append] at hlengths
    have hcount : (Links.updates out.2).length + out.1.notify.pendingNotifications.length -
        p.links.notify.pendingNotifications.length = added.length := by omega
    rw [Outgoing.note_of_on hoff hout, hcount]
    have hsole : ∀ id, some id ∈ o.waiting ++ List.replicate added.length (Links.addressee e) →
        p.radio.mailboxSubscribers ⊆ {id} := by
      intro id hid
      rcases List.mem_append.mp hid with hold | hnew
      · exact h.alone id hold
      · obtain ⟨hpos, haddressee⟩ := List.mem_replicate.mp hnew
        have hne : added ≠ [] := List.ne_nil_of_length_pos (Nat.pos_of_ne_zero hpos)
        obtain ⟨htarget, hcentral⟩ := hadded hne id haddressee.symm
        exact halone.addressee haddressee.symm htarget hcentral
    refine ⟨?_, fun id hid => ?_, h.linkLocal.send hwritten hsole⟩
    · have hbefore := h.lengths
      simp only [Outgoing.send, List.length_drop, List.length_append, List.length_replicate]
      dsimp only at hbefore
      omega
    · have hid := List.mem_of_mem_drop hid
      rcases Radio.subscribers_step hradio with hfewer | ⟨central, rfl, hmore⟩
      · exact hfewer.trans (hsole id hid)
      · have hsubset := hsole id hid
        rcases List.mem_append.mp hid with hold | hnew
        · obtain rfl : id = central := halone rfl id hold
          show radio.mailboxSubscribers ⊆ {id}
          rw [hmore]
          exact Finset.insert_subset (Finset.mem_singleton_self id) hsubset
        · have hnone := (List.mem_replicate.mp hnew).2
          cases hnone

/-- In every run in which each frame for a subscriber is sent when it is the only one, and no other
central subscribes to the mailbox while the frame waits, the bytes for a link go to nobody else. -/
theorem link_local {es : List Links.Event} {s : Presence × Outgoing}
    (halone : ∀ t ∈ trace (recorded Presence.step Outgoing.note) ({}, {}) es, LinkStep.Alone t)
    (hrun : run (recorded Presence.step Outgoing.note) ({}, {}) es = some s) : s.2.LinkLocal := by
  have hstart : Private ({}, {}) :=
    ⟨rfl, fun id hid => absurd hid List.not_mem_nil, fun h hh => absurd hh List.not_mem_nil⟩
  exact (run_invariant Private _ private_step hstart halone hrun).linkLocal

def LinkStep.alone (t : LinkStep) : Bool :=
  match t.event with
  | .sendBundle _ toLink _ | .sendReconnect _ toLink _ =>
    toLink ∈ t.pre.1.links.writeTargets ∨ toLink ∉ t.pre.1.links.subscribedCentrals ∨
      t.pre.1.radio.mailboxSubscribers ⊆ {toLink}
  | .didSubscribeTo central char =>
    char ≠ characteristicUUID ∨ t.pre.2.waiting.all fun addressee => addressee = none ∨
      addressee = some central
  | _ => true

theorem LinkStep.alone_of {t : LinkStep} (h : t.alone = true) : t.Alone := by
  unfold alone at h
  unfold Alone
  split at h
  · exact of_decide_eq_true h
  · exact of_decide_eq_true h
  · intro hchar id hid
    have hall := List.all_eq_true.mp ((of_decide_eq_true h).resolve_left (not_not_intro hchar))
    exact Option.some.inj ((of_decide_eq_true (hall _ hid)).resolve_left (Option.some_ne_none id))
  · trivial

/-- Central 2 gets a reconnect frame that waits for the ready callback, and peripheral 1 gets one;
central 3 subscribes when the first one is out. -/
def oneByOne : List Links.Event :=
  [.didDiscover 1 false, .didConnect 1, .didDiscoverCharacteristicsFor 1
    (some [characteristicUUID]),
    .peripheralManagerDidUpdateState true, .didSubscribeTo 2 characteristicUUID,
    .sendReconnect [7] 2 fun _ => false, .sendReconnect [8] 1 fun _ => true,
    .peripheralManagerIsReady fun _ => true, .didSubscribeTo 3 characteristicUUID]

theorem link_local_oneByOne :
    ∃ s, run (recorded Presence.step Outgoing.note) ({}, {}) oneByOne = some s ∧ s.2.LinkLocal ∧
      s.2.handed = [⟨{1}, some 1, [3, 0, 0, 0, 1, 8]⟩, ⟨{2}, some 2, [3, 0, 0, 0, 1, 7]⟩] := by
  have halone : ∀ t ∈ trace (recorded Presence.step Outgoing.note) ({}, {}) oneByOne,
    LinkStep.Alone t := by
    intro t ht
    refine LinkStep.alone_of (List.all_eq_true.mp ?_ t ht)
    decide +kernel
  exact ⟨_, rfl, link_local halone rfl, by decide⟩

/-- A frame for central 2 goes to central 3 as well when both subscribe; and when it waits, to
central 3 alone, which subscribes after central 2 has gone. -/
theorem link_frame_broadcast :
    (∃ s, run (recorded Presence.step Outgoing.note) ({}, {})
      [.peripheralManagerDidUpdateState true,
        .didSubscribeTo 2 characteristicUUID, .didSubscribeTo 3 characteristicUUID,
        .sendReconnect [7] 2 fun _ => true] = some s ∧
      s.2.handed = [⟨{3, 2}, some 2, [3, 0, 0, 0, 1, 7]⟩] ∧ ¬s.2.LinkLocal) ∧
    ∃ s, run (recorded Presence.step Outgoing.note) ({}, {}) [.peripheralManagerDidUpdateState true,
        .didSubscribeTo 2 characteristicUUID, .sendReconnect [7] 2 fun _ => false,
        .didUnsubscribeFrom 2 characteristicUUID, .didSubscribeTo 3 characteristicUUID,
        .peripheralManagerIsReady fun _ => true] = some s ∧
      s.2.handed = [⟨{3}, some 2, [3, 0, 0, 0, 1, 7]⟩] ∧ ¬s.2.LinkLocal := by
  refine ⟨⟨_, rfl, rfl, fun hlocal => ?_⟩, _, rfl, rfl, fun hlocal => ?_⟩
  · have hsubset := hlocal _ List.mem_cons_self 2 rfl
    revert hsubset
    decide
  · have hsubset := hlocal _ List.mem_cons_self 2 rfl
    revert hsubset
    decide

end BLEMeshTransport

end AeroNyra
