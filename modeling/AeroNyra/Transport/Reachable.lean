import AeroNyra.Transport.Links

/-! The links that the transport reports as reachable, against those whose mailbox is at hand: the
peripherals on whose connection it was discovered, and the centrals that subscribe to it. -/

namespace AeroNyra

namespace BLEMeshTransport

open Interleave

/-- The radio's own state. -/
structure Radio where
  connected : Finset UUID := ∅
  /-- The peripherals whose mailbox was discovered on their connection. -/
  discovered : Finset UUID := ∅
  /-- The centrals that subscribe to the mailbox. -/
  mailboxSubscribers : Finset UUID := ∅
  deriving DecidableEq

namespace Radio

open Links

/-- The radio discovers characteristics on a connection, and connects what is not connected; a link
that the transport drops is cancelled. -/
def step (r : Radio) : Event → Option Radio
  | .didConnect id => if id ∈ r.connected then none else some
      { r with connected := insert id r.connected }
  | .didDisconnectPeripheral id =>
    some { r with
      connected := r.connected.erase id
      discovered := r.discovered.erase id }
  | .didDiscoverCharacteristicsFor id chars =>
    if id ∈ r.connected then
      if characteristicUUID ∈ chars.getD []
        then some { r with discovered := insert id r.discovered }
      else some r
    else none
  | .dropDeadLink id => some { r with discovered := r.discovered.erase id }
  | .centralManagerDidUpdateState poweredOn =>
    if poweredOn then some r
    else
      some { r with
        connected := ∅
        discovered := ∅ }
  | .peripheralManagerDidUpdateState poweredOn =>
    if poweredOn then some r else some { r with mailboxSubscribers := ∅ }
  | .didSubscribeTo central char =>
    if char = characteristicUUID then
      some { r with mailboxSubscribers := insert central r.mailboxSubscribers }
    else some r
  | .didUnsubscribeFrom central char =>
    if char = characteristicUUID then
      some { r with mailboxSubscribers := r.mailboxSubscribers.erase central }
    else some r
  | .didDiscover _ _ | .didFailToConnect _ | .peripheralManagerIsReady _ | .send _ _ | .relay _ _ _
  | .sendBundle _ _ _ | .sendReconnect _ _ _ => some r

/-- The links whose mailbox is at hand. -/
def reachable (r : Radio) : Finset UUID := r.discovered ∪ r.mailboxSubscribers

end Radio

/-- The ids that were reported last. -/
def lastReachable (before : Finset UUID) (effects : List Effect) : Finset UUID :=
  effects.foldl (fun ids effect => match effect with
    | .reachable ids' => ids'
    | .write _ _ | .update _ => ids) before

/-- The transport with its radio, and what it reported last. -/
structure Presence where
  links : Links := {}
  radio : Radio := {}
  reported : Finset UUID := ∅

namespace Presence

open Links

def step (p : Presence) (e : Event) : Option Presence :=
  (p.radio.step e).bind fun radio =>
    (p.links.react e).map fun out => ⟨out.1, radio, lastReachable p.reported out.2⟩

end Presence

abbrev PresenceStep := Transition Presence Links.Event

/-- The step is no subscription of a central to another characteristic than the mailbox without one
to the mailbox, and no end of such a subscription while there is one to the mailbox. -/
def PresenceStep.MailboxOnly (t : PresenceStep) : Prop :=
  match t.event with
  | .didSubscribeTo central char =>
    char = characteristicUUID ∨ central ∈ t.pre.radio.mailboxSubscribers
  | .didUnsubscribeFrom central char =>
    char = characteristicUUID ∨ central ∉ t.pre.radio.mailboxSubscribers
  | _ => True

namespace Links

variable {l l' : Links} {effects : List Effect}

/-- The links keep who is linked, and nothing is reported. -/
structure Quiet (l l' : Links) (effects : List Effect) : Prop where
  writeTargets : l'.writeTargets = l.writeTargets
  subscribedCentrals : l'.subscribedCentrals = l.subscribedCentrals
  silent : ∀ before, lastReachable before effects = before

theorem quiet_notified (l : Links) (sent : NotifyQueue × List Data) :
    Quiet l (l.notified sent).1 (l.notified sent).2 := by
  refine ⟨rfl, rfl, fun before => ?_⟩
  show lastReachable before (sent.2.map .update) = before
  induction sent.2 with
  | nil => rfl
  | cons slice slices ih => exact ih

theorem Quiet.write (h : Quiet l l' effects) (ids : Finset UUID) (frame : Data) :
    Quiet l l' (.write ids frame :: effects) :=
  ⟨h.writeTargets, h.subscribedCentrals, h.silent⟩

theorem Quiet.refl (l : Links) : Quiet l l [] := ⟨rfl, rfl, fun _ => rfl⟩

theorem quiet_sendFrameToLink (l : Links) (frame : Data) (id : UUID) (updateValue : Nat → Bool) :
    Quiet l (l.sendFrameToLink frame id updateValue).2.1
      (l.sendFrameToLink frame id updateValue).2.2 := by
  unfold sendFrameToLink
  split
  · unfold writeFrameToPeer
    split
    · exact (Quiet.refl l).write _ _
    · exact Quiet.refl l
  · split
    · exact quiet_notified l _
    · exact Quiet.refl l

theorem quiet_broadcast (l : Links) (frame : Data) (updateValue : Nat → Bool) :
    Quiet l (l.broadcast frame updateValue).2.1 (l.broadcast frame updateValue).2.2 := by
  unfold broadcast
  split
  · exact Quiet.refl l
  · split
    · exact (Quiet.refl l).write _ _
    · exact (quiet_notified l _).write _ _

theorem quiet_relay (l : Links) (frame : Data) (excluded : Finset UUID) (updateValue : Nat → Bool) :
    Quiet l (l.relay frame excluded updateValue).1 (l.relay frame excluded updateValue).2 := by
  unfold relay
  split
  · exact (Quiet.refl l).write _ _
  · exact (quiet_notified l _).write _ _

theorem lastReachable_append (before : Finset UUID) (effects effects' : List Effect) :
    lastReachable before (effects ++ effects') = lastReachable
      (lastReachable before effects) effects' :=
  List.foldl_append

/-- The link is a write target if the mailbox is one of the characteristics. -/
theorem links_discovered (id : UUID) (chars : List CBUUID) (s : Links × List Effect) :
    (chars.foldl (discovered id) s).1 =
      { s.1 with
        writeTargets :=
          if characteristicUUID ∈ chars then insert id s.1.writeTargets
            else s.1.writeTargets } := by
  induction chars generalizing s with
  | nil => rfl
  | cons char chars ih =>
    rw [List.foldl_cons, ih]
    unfold discovered
    by_cases hchar : char = characteristicUUID
    · subst hchar
      rw [if_pos rfl, if_pos List.mem_cons_self]
      simp
    · rw [if_neg hchar]
      simp [List.mem_cons, Ne.symm hchar]

/-- What is reported of the links is what they are. -/
def Reports (before : Finset UUID) (s : Links × List Effect) : Prop :=
  lastReachable before s.2 = s.1.writeTargets ∪ s.1.subscribedCentrals

theorem Reports.discovered {before : Finset UUID} {s : Links × List Effect} (h : Reports before s)
    (id : UUID) (chars : List CBUUID) : Reports before (chars.foldl (discovered id) s) := by
  induction chars generalizing s with
  | nil => exact h
  | cons char chars ih =>
    apply ih
    unfold Links.discovered
    split
    · show lastReachable before (s.2 ++ [_]) = _
      rw [lastReachable_append]
      rfl
    · exact h

theorem Quiet.reports {before : Finset UUID} (h : Quiet l l' effects)
    (hbefore : before = l.writeTargets ∪ l.subscribedCentrals) : Reports before (l', effects) := by
  show lastReachable before effects = l'.writeTargets ∪ l'.subscribedCentrals
  rw [h.silent, h.writeTargets, h.subscribedCentrals, hbefore]

/-- Every callback that changes who is linked reports it. -/
theorem reports_react {before : Finset UUID} {e : Event} {out : Links × List Effect}
    (hbefore : before = l.writeTargets ∪ l.subscribedCentrals) (h : l.react e = some out) :
    Reports before out := by
  cases e with
  | didDiscover id heldOff =>
    obtain rfl := Option.some.inj h
    unfold didDiscover
    split
    · exact hbefore
    · exact hbefore
  | didConnect id | didFailToConnect id =>
    obtain rfl := Option.some.inj h
    exact hbefore
  | didDisconnectPeripheral id | dropDeadLink id | didSubscribeTo central char
  | didUnsubscribeFrom central char =>
    obtain rfl := Option.some.inj h
    rfl
  | didDiscoverCharacteristicsFor id chars =>
    obtain rfl := Option.some.inj h
    cases chars with
    | none => exact hbefore
    | some chars =>
      have hstart : Reports before (l, []) := hbefore
      exact hstart.discovered id chars
  | centralManagerDidUpdateState poweredOn =>
    obtain rfl := Option.some.inj h
    cases poweredOn with
    | false => rfl
    | true => exact hbefore
  | peripheralManagerDidUpdateState poweredOn =>
    obtain rfl := Option.some.inj h
    cases poweredOn with
    | false => rfl
    | true => exact hbefore
  | peripheralManagerIsReady updateValue =>
    obtain rfl := Option.some.inj h
    exact (quiet_notified l _).reports hbefore
  | send envelope updateValue =>
    obtain ⟨frame, _, rfl⟩ := Option.map_eq_some_iff.mp h
    exact (quiet_broadcast l frame updateValue).reports hbefore
  | relay envelope excludingLinks updateValue =>
    obtain ⟨frame, _, rfl⟩ := Option.map_eq_some_iff.mp h
    exact (quiet_relay l frame excludingLinks updateValue).reports hbefore
  | sendBundle data toLink updateValue | sendReconnect data toLink updateValue =>
    obtain ⟨frame, _, rfl⟩ := Option.map_eq_some_iff.mp h
    exact (quiet_sendFrameToLink l frame toLink updateValue).reports hbefore

end Links

/-- The transport has the links whose mailbox the radio has at hand. -/
structure Agrees (l : Links) (r : Radio) : Prop where
  writeTargets : l.writeTargets = r.discovered
  subscribedCentrals : l.subscribedCentrals = r.mailboxSubscribers

theorem agrees_step {t : PresenceStep} (ht : t.pre.step t.event = some t.post)
    (hmailbox : t.MailboxOnly)
    (h : Agrees t.pre.links t.pre.radio) : Agrees t.post.links t.post.radio := by
  obtain ⟨⟨l, r, reported⟩, e, p'⟩ := t
  obtain ⟨htargets, hcentrals⟩ := h
  dsimp only at ht htargets hcentrals ⊢
  obtain ⟨r', hradio, hreact⟩ := Option.bind_eq_some_iff.mp ht
  obtain ⟨out, hout, rfl⟩ := Option.map_eq_some_iff.mp hreact
  dsimp only at hradio hout ⊢
  have quiet : ∀ {l' : Links} {effects : List Effect}, Links.Quiet l l' effects → Agrees l' r :=
    fun hquiet => ⟨hquiet.writeTargets.trans htargets, hquiet.subscribedCentrals.trans hcentrals⟩
  cases e with
  | didDiscover id heldOff =>
    obtain rfl := Option.some.inj hradio
    obtain rfl := Option.some.inj hout
    unfold Links.didDiscover
    split
    · exact ⟨htargets, hcentrals⟩
    · exact ⟨htargets, hcentrals⟩
  | didConnect id =>
    obtain ⟨_, hradio⟩ := Option.ite_none_left_eq_some.mp hradio
    obtain rfl := Option.some.inj hradio
    obtain rfl := Option.some.inj hout
    exact ⟨htargets, hcentrals⟩
  | didFailToConnect id =>
    obtain rfl := Option.some.inj hradio
    obtain rfl := Option.some.inj hout
    exact ⟨htargets, hcentrals⟩
  | didDisconnectPeripheral id | dropDeadLink id =>
    obtain rfl := Option.some.inj hradio
    obtain rfl := Option.some.inj hout
    exact ⟨congrArg (Finset.erase · id) htargets, hcentrals⟩
  | didDiscoverCharacteristicsFor id chars =>
    obtain ⟨_, hradio⟩ := Option.ite_none_right_eq_some.mp hradio
    obtain rfl := Option.some.inj hout
    have hlinks : (l.didDiscoverCharacteristicsFor id chars).1 =
        { l with
          writeTargets :=
            if characteristicUUID ∈ chars.getD [] then insert id l.writeTargets
              else l.writeTargets } := by
      cases chars with
      | none => simp [Links.didDiscoverCharacteristicsFor]
      | some chars => exact Links.links_discovered id chars (l, [])
    rw [hlinks]
    split at hradio
    · rename_i hmem
      obtain rfl := Option.some.inj hradio
      refine ⟨?_, hcentrals⟩
      dsimp only
      rw [if_pos hmem, htargets]
    · rename_i hmem
      obtain rfl := Option.some.inj hradio
      refine ⟨?_, hcentrals⟩
      dsimp only
      rw [if_neg hmem, htargets]
  | centralManagerDidUpdateState poweredOn =>
    obtain rfl := Option.some.inj hout
    cases poweredOn with
    | false =>
      obtain rfl := Option.some.inj hradio
      exact ⟨rfl, hcentrals⟩
    | true =>
      obtain rfl := Option.some.inj hradio
      exact ⟨htargets, hcentrals⟩
  | peripheralManagerDidUpdateState poweredOn =>
    obtain rfl := Option.some.inj hout
    cases poweredOn with
    | false =>
      obtain rfl := Option.some.inj hradio
      exact ⟨htargets, rfl⟩
    | true =>
      obtain rfl := Option.some.inj hradio
      exact ⟨htargets, hcentrals⟩
  | didSubscribeTo central char =>
    obtain rfl := Option.some.inj hout
    by_cases hchar : char = characteristicUUID
    · obtain rfl : _ = r' := Option.some.inj ((if_pos hchar).symm.trans hradio)
      exact ⟨htargets, congrArg (insert central) hcentrals⟩
    · obtain rfl : _ = r' := Option.some.inj ((if_neg hchar).symm.trans hradio)
      have hmem : central ∈ r.mailboxSubscribers := hmailbox.resolve_left hchar
      refine ⟨htargets, ?_⟩
      show insert central l.subscribedCentrals = r.mailboxSubscribers
      rw [hcentrals, Finset.insert_eq_of_mem hmem]
  | didUnsubscribeFrom central char =>
    obtain rfl := Option.some.inj hout
    by_cases hchar : char = characteristicUUID
    · obtain rfl : _ = r' := Option.some.inj ((if_pos hchar).symm.trans hradio)
      exact ⟨htargets, congrArg (Finset.erase · central) hcentrals⟩
    · obtain rfl : _ = r' := Option.some.inj ((if_neg hchar).symm.trans hradio)
      have hmem : central ∉ r.mailboxSubscribers := hmailbox.resolve_left hchar
      refine ⟨htargets, ?_⟩
      show l.subscribedCentrals.erase central = r.mailboxSubscribers
      rw [hcentrals, Finset.erase_eq_of_notMem hmem]
  | peripheralManagerIsReady updateValue =>
    obtain rfl := Option.some.inj hradio
    obtain rfl := Option.some.inj hout
    exact quiet (Links.quiet_notified l _)
  | send envelope updateValue =>
    obtain rfl := Option.some.inj hradio
    obtain ⟨frame, _, rfl⟩ := Option.map_eq_some_iff.mp hout
    exact quiet (Links.quiet_broadcast l frame updateValue)
  | relay envelope excludingLinks updateValue =>
    obtain rfl := Option.some.inj hradio
    obtain ⟨frame, _, rfl⟩ := Option.map_eq_some_iff.mp hout
    exact quiet (Links.quiet_relay l frame excludingLinks updateValue)
  | sendBundle data toLink updateValue | sendReconnect data toLink updateValue =>
    obtain rfl := Option.some.inj hradio
    obtain ⟨frame, _, rfl⟩ := Option.map_eq_some_iff.mp hout
    exact quiet (Links.quiet_sendFrameToLink l frame toLink updateValue)

/-- What was reported last is what the transport has, and that is what the radio has at hand. -/
structure Gated (p : Presence) : Prop where
  reported : p.reported = p.links.writeTargets ∪ p.links.subscribedCentrals
  agrees : Agrees p.links p.radio

theorem gated_step (t : PresenceStep) (ht : t.pre.step t.event = some t.post)
    (hmailbox : t.MailboxOnly) (h : Gated t.pre) : Gated t.post := by
  refine ⟨?_, agrees_step ht hmailbox h.agrees⟩
  obtain ⟨radio, _, hreact⟩ := Option.bind_eq_some_iff.mp ht
  obtain ⟨out, hout, hpost⟩ := Option.map_eq_some_iff.mp hreact
  rw [← hpost]
  exact Links.reports_react h.reported hout

/-- In every run in which a central subscribes to another characteristic only while it subscribes
to the mailbox, and unsubscribes from one only while it does not, the ids that were reported last
are the links whose mailbox is at hand. -/
theorem reachable_gated {es : List Links.Event} {p : Presence}
    (hmailbox : ∀ t ∈ trace Presence.step {} es, PresenceStep.MailboxOnly t)
    (hrun : run Presence.step {} es = some p) : p.reported = p.radio.reachable := by
  have hstart : Gated {} := ⟨rfl, rfl, rfl⟩
  obtain ⟨hreported, htargets, hcentrals⟩ := run_invariant Gated _ gated_step hstart hmailbox hrun
  rw [hreported, htargets, hcentrals]
  rfl

def PresenceStep.mailboxOnly (t : PresenceStep) : Bool :=
  match t.event with
  | .didSubscribeTo central char => char = characteristicUUID ∨
      central ∈ t.pre.radio.mailboxSubscribers
  | .didUnsubscribeFrom central char =>
    char = characteristicUUID ∨ central ∉ t.pre.radio.mailboxSubscribers
  | _ => true

theorem PresenceStep.mailboxOnly_iff {t : PresenceStep} : t.mailboxOnly = true ↔ t.MailboxOnly := by
  unfold mailboxOnly MailboxOnly
  split
  · exact decide_eq_true_iff
  · exact decide_eq_true_iff
  · exact iff_of_true rfl trivial

/-- The mailbox is found on peripheral 1, and central 2 subscribes to the mailbox and to audio, and
ends both in this order. -/
def mailboxFirst : List Links.Event :=
  [.didDiscover 1 false, .didConnect 1,
    .didDiscoverCharacteristicsFor 1 (some [characteristicUUID, audioCharacteristicUUID]),
    .peripheralManagerDidUpdateState true, .didSubscribeTo 2 characteristicUUID,
    .didSubscribeTo 2 audioCharacteristicUUID, .didUnsubscribeFrom 2 characteristicUUID,
    .didUnsubscribeFrom 2 audioCharacteristicUUID]

theorem reachable_gated_mailboxFirst :
    ∃ p, run Presence.step {} mailboxFirst = some p ∧ p.reported = p.radio.reachable ∧
      p.reported = {1} := by
  have hmailbox : ∀ t ∈ trace Presence.step {} mailboxFirst, PresenceStep.MailboxOnly t := by
    intro t ht
    refine PresenceStep.mailboxOnly_iff.mp (List.all_eq_true.mp ?_ t ht)
    decide
  exact ⟨_, rfl, reachable_gated hmailbox rfl, by decide⟩

/-- A subscription to audio alone adds a link, and the end of one takes away a link whose mailbox
is at hand. -/
theorem audio_gates :
    (∃ p, run Presence.step {} [.peripheralManagerDidUpdateState true,
        .didSubscribeTo 2 audioCharacteristicUUID] = some p ∧
      p.reported = {2} ∧ p.radio.reachable = ∅ ∧ p.reported ≠ p.radio.reachable) ∧
    ∃ p, run Presence.step {}
    [.peripheralManagerDidUpdateState true, .didSubscribeTo 2 characteristicUUID,
        .didSubscribeTo 2 audioCharacteristicUUID,
        .didUnsubscribeFrom 2 audioCharacteristicUUID] = some p ∧
      p.reported = ∅ ∧ p.radio.reachable = {2} ∧ p.reported ≠ p.radio.reachable :=
  ⟨⟨_, rfl, by decide, by decide, by decide⟩, _, rfl, by decide, by decide, by decide⟩

end BLEMeshTransport

end AeroNyra
