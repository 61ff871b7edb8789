import AeroNyra.Router.LoopFree
import Mathlib.Logic.Relation

/-! Flooding arrives: once all that is on the air with an identifier has come to the other end of
the links that it went to, every device that can be reached from one that had it has had it too.
It stops only at a device to which it came with its hops used up, or over the internet, or that
sent it itself and not by radio. -/

namespace AeroNyra

/-! ### Where a frame goes -/

namespace BLEMeshTransport

/-- What is put into the queue of notifications goes out or waits. -/
theorem NotifyQueue.notifySubscribers_changes {q : NotifyQueue} {frame : Data}
    (updateValue : Nat → Bool) (hmailbox : q.mailbox = true) (hframe : frame ≠ []) :
    (q.notifySubscribers frame updateValue).1 ≠ q ∨ (q.notifySubscribers frame updateValue).2 ≠
    [] := by
  by_contra hnothing
  obtain ⟨hsame, hnone⟩ := not_or.mp hnothing
  have hconserved := notifySubscribers_conserves hmailbox frame updateValue
  rw [not_not.mp hsame, not_not.mp hnone, List.nil_append, List.append_right_eq_self] at hconserved
  exact Pieces.cut_ne_nil (by decide) hframe hconserved

namespace Links

/-- The links that take a frame that is for all. -/
def targets (l : Links) : Finset UUID :=
  (l.writeTargets ∩ l.peers) ∪ if l.notify.mailbox then l.subscribedCentrals else ∅

variable {l : Links} {frame : Data} {updateValue : Nat → Bool} {excluded : Finset UUID}

theorem mem_audience {sent : Links × List Effect} {link : UUID} : link ∈ (l.audience sent).links ↔
    (∃ e ∈ sent.2, link ∈ e.writes) ∨ (l.audience sent).notified = true ∧
    link ∈ l.subscribedCentrals := by
  have hunion (effects : List Effect) (base : Finset UUID) :
      link ∈ (effects.map Effect.writes).foldr (· ∪ ·) base ↔ (∃ e ∈ effects, link ∈ e.writes) ∨
        link ∈ base := by
    induction effects with
    | nil => simp
    | cons e effects ih => simp [ih, or_assoc]
  have hlinks := hunion sent.2 (if (l.audience sent).notified then l.subscribedCentrals else ∅)
  refine hlinks.trans (or_congr_right ?_)
  split
  · rename_i hnotified
    exact (and_iff_right hnotified).symm
  · rename_i hnotified
    exact iff_of_false (Finset.notMem_empty _) fun h => hnotified h.1

/-- Subscribers that are notified of a frame are among those that it goes to. -/
theorem mem_audience_of_notify {link : UUID} {written : Effect} (hmailbox : l.notify.mailbox = true)
    (hframe : frame ≠ []) (hlink : link ∈ l.subscribedCentrals) :
    link ∈ (l.audience ((l.notifySubscribers frame updateValue).1,
      written :: (l.notifySubscribers frame updateValue).2)).links := by
  refine mem_audience.mpr (.inr ⟨?_, hlink⟩)
  rcases NotifyQueue.notifySubscribers_changes updateValue hmailbox hframe with hqueued | hout
  · exact Bool.or_eq_true_iff.mpr (.inl (decide_eq_true hqueued))
  · obtain ⟨slice, hslice⟩ := List.exists_mem_of_ne_nil _ hout
    refine Bool.or_eq_true_iff.mpr (.inr (List.any_eq_true.mpr ⟨.update slice, ?_, rfl⟩))
    exact List.mem_cons_of_mem _ (List.mem_map_of_mem hslice)

theorem mem_targets {link : UUID} : link ∈ l.targets ↔
    link ∈ l.writeTargets ∧ link ∈ l.peers ∨ l.notify.mailbox = true ∧
      link ∈ l.subscribedCentrals := by
  unfold targets
  cases l.notify.mailbox <;> simp

/-- A relay goes to all links but the excluded ones. -/
theorem targets_relay (hframe : frame ≠ []) :
    l.targets \ excluded ⊆ (l.audience (l.relay frame excluded updateValue)).links := by
  intro link hlink
  obtain ⟨htarget, hspared⟩ := Finset.mem_sdiff.mp hlink
  have hwritten (hwrites : link ∈ l.writeTargets ∧ link ∈ l.peers) :
      link ∈ (l.writeToAll frame excluded).writes := by
    simpa [writeToAll, Effect.writes, hspared] using hwrites
  unfold relay
  split
  · rename_i hnobody
    refine mem_audience.mpr (.inl ⟨_, List.mem_singleton_self _, hwritten ?_⟩)
    refine (mem_targets.mp htarget).resolve_right fun hboth => ?_
    have hleft := Finset.mem_sdiff.mpr ⟨hboth.2, hspared⟩
    rw [hnobody] at hleft
    cases hleft
  · rcases mem_targets.mp htarget with hwrites | ⟨hmailbox, hsubscribed⟩
    · exact mem_audience.mpr (.inl ⟨_, List.mem_cons_self, hwritten hwrites⟩)
    · exact mem_audience_of_notify hmailbox hframe hsubscribed

/-- A broadcast goes to all links. -/
theorem targets_broadcast (hframe : frame ≠ []) :
    l.targets ⊆ (l.audience (l.broadcast frame updateValue).2).links := by
  intro link htarget
  have hwritten (hwrites : link ∈ l.writeTargets ∧ link ∈ l.peers) : link ∈
    (l.writeToAll frame ∅).writes := by
    simpa [writeToAll, Effect.writes] using hwrites
  unfold broadcast
  split
  · rename_i hnobody
    exfalso
    rcases mem_targets.mp htarget with ⟨hwrites, _⟩ | ⟨_, hsubscribed⟩
    · rw [hnobody.1] at hwrites
      cases hwrites
    · rw [hnobody.2] at hsubscribed
      cases hsubscribed
  · split
    · rename_i hnone
      refine mem_audience.mpr (.inl ⟨_, List.mem_singleton_self _, hwritten ?_⟩)
      refine (mem_targets.mp htarget).resolve_right fun hboth => ?_
      have hsubscribed := hboth.2
      rw [hnone] at hsubscribed
      cases hsubscribed
    · rcases mem_targets.mp htarget with hwrites | ⟨hmailbox, hsubscribed⟩
      · exact mem_audience.mpr (.inl ⟨_, List.mem_cons_self, hwritten hwrites⟩)
      · exact mem_audience_of_notify hmailbox hframe hsubscribed

end Links

end BLEMeshTransport

namespace Flooding

open BLEMeshTransport Interleave

variable {ν : Type}

/-! ### What becomes of an envelope -/

/-- The packet carries an envelope with the identifier. -/
def Packet.carries (p : Packet ν) (id : MessageID) : Bool :=
    (Envelope.ofWire? p.bytes).any (·.id == id)

theorem Packet.Carries.carries {p : Packet ν} {e : Envelope} (h : p.Carries e) :
    p.carries e.id := by
  simp [Packet.carries, h.ofWire?]

theorem Packet.sender_mem (p : Packet ν) : p.sender ∈ p.origin :: p.path := by
  unfold Packet.sender
  cases hlast : p.path.getLast? with
  | none => exact List.mem_cons_self
  | some n => exact List.mem_cons_of_mem _ (List.mem_of_getLast? hlast)

/-- `handleInbound` does not relay it: it came over the internet, or its hops are used up. -/
def Handling.Spent (h : Handling ν) : Prop := h.packet.kind = .internet ∨
    h.envelope.forwarded = none

namespace Station

variable (s : Station ν)

/-- All that was let through the dedup. -/
def taken : List (Handling ν) := s.received ++ s.handling

/-- How often the receiver was handed an envelope with the identifier. -/
def timesReceived (id : MessageID) : Nat := (s.received.map (·.envelope.id)).count id

def Sent (id : MessageID) : Prop := ∃ x ∈ s.sent, x.id = id

def Relayed (id : MessageID) : Prop := ∃ r ∈ s.relayed, r.forwarded.id = id

variable {s}

/-- What is let through and not relayed at once is spent. -/
theorem spent_of_afterDedup {p : Packet ν} {e : Envelope} {link : UUID}
    (h : afterDedup p.kind e = .receiving) :
    Handling.Spent ⟨link, e, p, afterDedup p.kind e⟩ := by
  unfold afterDedup at h
  split at h
  · split at h
    · cases h
    · rename_i hnone
      exact .inr hnone
  · rename_i hradio
    refine .inl ?_
    show p.kind = .internet
    cases hkind : p.kind with
    | ble => simp [Inbound.shouldRelay, hkind] at hradio
    | internet => rfl

/-- The calls other than the one that goes on are still there. -/
theorem eq_or_mem_setStage {i : Nat} {h h' : Handling ν} (hi : s.handling[i]? = some h)
    (stage : Stage) (hmem : h' ∈ s.taken) : h' = h ∨ h' ∈ s.received ++ s.setStage i h stage := by
  rcases List.mem_append.mp hmem with hreceived | hhandling
  · exact .inr (List.mem_append_left _ hreceived)
  · obtain ⟨j, hj⟩ := List.getElem?_of_mem hhandling
    by_cases hij : i = j
    · subst hij
      exact .inl (Option.some.inj (hj.symm.trans hi))
    · refine .inr (List.mem_append_right _ (List.mem_of_getElem? (i := j) ?_))
      rw [setStage, List.getElem?_set_ne hij]
      exact hj

end Station

/-- What a relay puts on the air carries the envelope that was forwarded. -/
theorem carries_relay {relay : Relay ν} {n : ν} (h : relay.Sound n) (audience : Audience) :
    Packet.Carries ⟨.ble, relay.forwarded.wireData, relay.source.packet.origin,
      relay.source.packet.path ++ [n], audience⟩ relay.forwarded := by
  obtain ⟨honward, httl⟩ := Station.of_forwarded h.forwarded
  have hhops := h.source.carries.hops
  refine ⟨rfl, ?_, ?_⟩
  · rw [honward]
    exact h.source.carries.version
  · show relay.forwarded.ttl.toNat + (relay.source.packet.path ++ [n]).length = _
    rw [List.length_append, List.length_singleton]
    omega

namespace Network

variable (net : Network ν)

/-- The device has put the envelope on the air, towards these links at least. -/
def Aired (n : ν) (id : MessageID) (links : Finset UUID) : Prop :=
  ∃ p ∈ net.air, p.sender = n ∧ p.carries id ∧ links ⊆ p.audience.links

/-- Where what has passed through the device `n` comes from, and what became of it: it was sent
there, or it is relayed unless it is spent, and what the radio sends or relays goes to the links
that there are then. -/
structure AccountsFor (peer : ν → UUID → ν) (n : ν) (s : Station ν) : Prop where
  received : ∀ h ∈ s.received, h.stage = .receiving
  links : ∀ h ∈ s.taken, h.packet.kind = .ble → peer n h.link = h.packet.sender
  passed : ∀ id ∈ s.passed, s.Sent id ∨
    ∃ h ∈ s.taken, h.envelope.id = id ∧ (h.stage = .receiving → h.Spent ∨ s.Relayed id)
  sent : ∀ x ∈ s.sent, x.carrier = some .ble → net.Aired n x.id x.links.targets
  relayed : ∀ r ∈ s.relayed, r.forwarded.id ∈ (net.stations (peer n r.source.link)).passed ∧
    net.Aired n r.forwarded.id (r.links.targets \ r.asked.relayExclusions r.source.link)

variable {net} {peer : ν → UUID → ν} {n : ν} {s : Station ν} {packets : List (Packet ν)}

theorem accountsFor_launch (peer : ν → UUID → ν) (capacity : ν → Nat) (n : ν) :
    (launch capacity).AccountsFor peer n ((launch capacity).stations n) :=
  ⟨nofun, nofun, nofun, nofun, nofun⟩

/-- A call goes on to another stage: to its end only once it has been relayed. -/
theorem AccountsFor.setStage {s' : Station ν} (h : net.AccountsFor peer n s) {i : Nat}
    {c : Handling ν} {stage : Stage} (hi : s.handling[i]? = some c) (hpassed : s'.passed = s.passed)
    (hsent : s'.sent = s.sent)
    (hreceived : s'.received = s.received) (hhandling : s'.handling = s.setStage i c stage)
    (hrelayed : s.relayed ⊆ s'.relayed) (hgoes : stage ≠ .receiving ∨ s'.Relayed c.envelope.id)
    (hnew : ∀ r ∈ s'.relayed, r ∉ s.relayed →
      r.forwarded.id ∈ (net.stations (peer n r.source.link)).passed ∧
      net.Aired n r.forwarded.id (r.links.targets \ r.asked.relayExclusions r.source.link)) :
    net.AccountsFor peer n s' := by
  have hmem : c ∈ s.taken := List.mem_append_right _ (List.mem_of_getElem? hi)
  have htaken : s'.taken = s.received ++ s.setStage i c stage := by
    rw [Station.taken, hreceived, hhandling]
  refine ⟨by rw [hreceived]; exact h.received, fun c' hc' => ?_, fun id hid => ?_,
    by rw [hsent]; exact h.sent,
    fun r hr => ?_⟩
  · rw [htaken] at hc'
    rcases Station.mem_setStage hc' with hold | rfl
    · exact h.links c' hold
    · exact h.links c hmem
  · rw [hpassed] at hid
    rcases h.passed id hid with ⟨x, hx, hxid⟩ | ⟨c', hc', hid', hstage⟩
    · exact .inl ⟨x, hsent ▸ hx, hxid⟩
    · rw [htaken]
      rcases Station.eq_or_mem_setStage hi stage hc' with rfl | hstays
      · refine .inr ⟨_, List.mem_append_right _ (Station.mem_setStage_self hi stage), hid',
          fun hreceiving => ?_⟩
        exact .inr (hid' ▸ hgoes.resolve_left fun hnot => hnot hreceiving)
      · refine .inr ⟨c', hstays, hid', fun hreceiving => (hstage hreceiving).imp_right ?_⟩
        exact fun ⟨r, hr, hrid⟩ => ⟨r, hrelayed hr, hrid⟩
  · by_cases hold : r ∈ s.relayed
    · exact h.relayed r hold
    · exact hnew r hr hold

section Steps

variable [DecidableEq ν]

theorem Aired.put {m : ν} {id : MessageID} {links : Finset UUID} (h : net.Aired m id links) :
    (net.put n s packets).Aired m id links := by
  obtain ⟨p, hp, hrest⟩ := h
  exact ⟨p, List.mem_append_left _ hp, hrest⟩

/-- What a device accounts for stays so while others go on. -/
theorem AccountsFor.put {m : ν} {s' : Station ν} (h : net.AccountsFor peer m s')
    (hgrows : (net.stations n).Grows s) : (net.put n s packets).AccountsFor peer m s' := by
  refine ⟨h.received, h.links, h.passed, fun x hx hradio => (h.sent x hx hradio).put,
    fun r hr => ?_⟩
  obtain ⟨hpassed, haired⟩ := h.relayed r hr
  exact ⟨(grows_put hgrows _).passed hpassed, haired.put⟩

/-! ### What each event accounts for -/

/-- A new envelope is sent. -/
theorem accounts_send (hnet : net.AccountsFor peer n (net.stations n)) {id : MessageID}
    {ciphertext : Data} {carrier : Option TransportKind} {updateValue : Nat → Bool}
    (hsend : (net.stations n).send n id ciphertext carrier updateValue = some (s, packets)) :
    (net.put n s packets).AccountsFor peer n s := by
  have hold : (net.put n s packets).AccountsFor peer n (net.stations n) :=
    hnet.put (keeps_send hsend).grows
  obtain ⟨⟨links, hstation⟩, _⟩ := Station.sends hsend
  have hstation : s = _ := hstation
  have hsent : s.sent = (net.stations n).sent ++ [⟨id, carrier, (net.stations n).links⟩] := by
    rw [hstation]
  refine ⟨by rw [hstation]; exact hold.received, by rw [hstation]; exact hold.links,
    fun other hother => ?_,
    fun x hx hradio => ?_, fun r hr => hold.relayed r (by rw [hstation] at hr; exact hr)⟩
  · have hpassed : s.passed = (net.stations n).passed ++ [id] := by rw [hstation]; rfl
    rw [hpassed] at hother
    rcases List.mem_append.mp hother with hbefore | hnew
    · rcases hold.passed other hbefore with ⟨x, hx, hid⟩ | htaken
      · exact .inl ⟨x, hsent ▸ List.mem_append_left _ hx, hid⟩
      · rw [hstation]
        exact .inr htaken
    · exact .inl
        ⟨_, hsent ▸ List.mem_append_right _ List.mem_cons_self, (List.mem_singleton.mp hnew).symm⟩
  · rw [hsent] at hx
    rcases List.mem_append.mp hx with hbefore | hnew
    · exact hold.sent x hbefore hradio
    · obtain rfl := List.mem_singleton.mp hnew
      rcases Station.send_cases hsend with ⟨hother, _⟩ | ⟨_, bytes, hbytes, _, _, hpackets⟩
      · exact absurd hradio hother
      · have hpackets : packets = _ := hpackets
        refine ⟨_, List.mem_append_right _ (hpackets ▸ List.mem_cons_self), rfl,
          (Packet.carries_new .ble id ciphertext n _).carries, ?_⟩
        exact Links.targets_broadcast (by rw [eq_of_frame hbytes]; exact List.cons_ne_nil _ _)

/-- A packet arrives over a link to the device that put it on the air. -/
theorem accounts_arrive (hnet : net.AccountsFor peer n (net.stations n))
    (hremembers : (net.stations n).Remembers)
    {p : Packet ν} {e : Envelope} {link : UUID} (hlink : p.kind = .ble → peer n link = p.sender) :
    (net.put n ((net.stations n).handleInbound p link e) packets).AccountsFor peer n
      ((net.stations n).handleInbound p link e) := by
  have hold : (net.put n ((net.stations n).handleInbound p link e) packets).AccountsFor peer n
    (net.stations n) :=
    hnet.put (Station.grows_handleInbound p link e)
  revert hold
  generalize net.put n _ packets = net'
  intro hold
  unfold Station.handleInbound
  split
  · rename_i hseen
    have hmarked : e.id ∈ (net.stations n).passed := (hremembers e.id).mp
      (SeenCache.containsOrInsert_fst.mp hseen)
    refine ⟨hold.received, hold.links, fun id hid => ?_, hold.sent, hold.relayed⟩
    refine hold.passed id ((List.mem_append.mp hid).elim (fun hbefore => hbefore) fun hnew => ?_)
    rwa [List.mem_singleton.mp hnew]
  · have htaken {c : Handling ν}
      (hc : c ∈ (net.stations n).received ++ ((net.stations n).handling ++
        [⟨link, e, p, Station.afterDedup p.kind e⟩])) :
        c ∈ (net.stations n).taken ∨ c = ⟨link, e, p, Station.afterDedup p.kind e⟩ := by
      rw [← List.append_assoc] at hc
      exact (List.mem_append.mp hc).imp_right List.mem_singleton.mp
    have hmem {c : Handling ν} (hc : c ∈ (net.stations n).taken) : c ∈ (net.stations n).received ++
        ((net.stations n).handling ++ [⟨link, e, p, Station.afterDedup p.kind e⟩]) := by
      rw [← List.append_assoc]
      exact List.mem_append_left _ hc
    refine ⟨hold.received, fun c hc => ?_, fun id hid => ?_, hold.sent, hold.relayed⟩
    · rcases htaken hc with hbefore | rfl
      · exact hold.links c hbefore
      · exact hlink
    · rcases List.mem_append.mp hid with hbefore | hnew
      · exact (hold.passed id hbefore).imp_right fun ⟨c, hc, hrest⟩ => ⟨c, hmem hc, hrest⟩
      · refine .inr
          ⟨⟨link, e, p, Station.afterDedup p.kind e⟩, ?_, (List.mem_singleton.mp hnew).symm,
          fun hreceiving => .inl (Station.spent_of_afterDedup hreceiving)⟩
        exact List.mem_append_right _ (List.mem_append_right _ List.mem_cons_self)

theorem accounts_exclusions (hnet : net.AccountsFor peer n (net.stations n)) {i : Nat}
    (hstep : (net.stations n).exclusions i = some s) : (net.put n s []).AccountsFor peer n s := by
  obtain ⟨h, forwarded, hi, _, rfl⟩ := Station.exclusions_cases hstep
  exact (hnet.put (keeps_exclusions hstep).grows).setStage hi rfl rfl rfl rfl (List.Subset.refl _)
    (.inl nofun)
    fun r hr hnot => absurd hr hnot

/-- The radio relays to all links but those of the peer that the envelope came from, who had it. -/
theorem accounts_relay (hnet : net.AccountsFor peer n (net.stations n))
    (hsound : net.Sound) {i : Nat} {updateValue : Nat → Bool} {relay : Relay ν}
    (hstep : (net.stations n).relay i updateValue = some (s, relay)) :
    (net.put n s
      [⟨.ble, relay.forwarded.wireData, relay.source.packet.origin, relay.source.packet.path ++ [n],
      relay.links.audience (s.links, relay.effects)⟩]).AccountsFor peer n s := by
  have hrelays : relay.Sound n := ((hsound.stations n).relay hstep).2
  have hgrows := (keeps_relay hstep).grows
  obtain ⟨h, forwarded, asked, bytes, hi, _, hbytes, hrelay, hnext⟩ := Station.relay_cases hstep
  have hrelay : relay = _ := hrelay
  have hnext : s = _ := hnext
  have hid : relay.forwarded.id = h.envelope.id := by
    rw [(Station.of_forwarded hrelays.forwarded).1, hrelay]
  have hmem : h ∈ (net.stations n).handling := List.mem_of_getElem? hi
  have hrelayed : s.relayed = (net.stations n).relayed ++ [relay] := by rw [hnext]
  refine (hnet.put hgrows).setStage hi (by rw [hnext]) (by rw [hnext]) (by rw [hnext])
    (by rw [hnext]) (by rw [hrelayed]; exact List.subset_append_left _ _)
    (.inr ⟨relay, hrelayed ▸ List.mem_append_right _ List.mem_cons_self, hid⟩) fun r hr hnot => ?_
  rw [hrelayed] at hr
  obtain rfl := List.mem_singleton.mp ((List.mem_append.mp hr).resolve_left hnot)
  constructor
  · have hsource : r.source = h := by rw [hrelay]
    have hback : peer n r.source.link = r.source.packet.sender :=
      hnet.links r.source (hsource ▸ List.mem_append_right _ hmem) hrelays.radio
    rw [hback, hid, hsource]
    exact (grows_put hgrows _).passed (hsound.known n h hmem _ h.packet.sender_mem)
  · refine ⟨_, List.mem_append_right _ List.mem_cons_self, by simp [Packet.sender],
      (carries_relay hrelays _).carries, ?_⟩
    rw [hnext, hrelay]
    exact Links.targets_relay (by rw [eq_of_frame hbytes]; exact List.cons_ne_nil _ _)

theorem accounts_receive (hnet : net.AccountsFor peer n (net.stations n)) {i : Nat}
    (hstep : (net.stations n).receive i = some s) : (net.put n s []).AccountsFor peer n s := by
  have hold : (net.put n s []).AccountsFor peer n (net.stations n) :=
    hnet.put (keeps_receive hstep).grows
  obtain ⟨h, hi, hstage, hnext⟩ := Station.receive_cases hstep
  have hperm := Station.perm_receive hi
  have htaken : s.taken.Perm (net.stations n).taken := by rw [Station.taken, hnext]; exact hperm
  refine ⟨fun c hc => ?_, fun c hc => hold.links c (htaken.mem_iff.mp hc), fun id hid => ?_,
    by rw [hnext]; exact hold.sent, fun r hr => hold.relayed r (by rw [hnext] at hr; exact hr)⟩
  · rw [hnext] at hc
    rcases List.mem_append.mp hc with hbefore | hnew
    · exact hold.received c hbefore
    · rw [List.mem_singleton.mp hnew]
      exact hstage
  · have hpassed : s.passed = (net.stations n).passed := by rw [hnext]
    rcases hold.passed id (hpassed ▸ hid) with ⟨x, hx, hxid⟩ | ⟨c, hc, hid, hend⟩
    · exact .inl ⟨x, by rw [hnext]; exact hx, hxid⟩
    · refine .inr ⟨c, htaken.mem_iff.mpr hc, hid, fun hreceiving => (hend hreceiving).imp_right ?_⟩
      exact fun ⟨r, hr, hrid⟩ => ⟨r, by rw [hnext]; exact hr, hrid⟩

/-- One step keeps account of every device. -/
theorem accounts_step {event : Event ν} {net' : Network ν} (hstep : net.step peer event = some net')
    (hsound : net.Sound) (hnet : ∀ m, net.AccountsFor peer m (net.stations m)) :
    ∀ m, net'.AccountsFor peer m (net'.stations m) := by
  have hput {k : ν} {s : Station ν} {packets : List (Packet ν)} (hgrows : (net.stations k).Grows s)
      (hself : (net.put k s packets).AccountsFor peer k s) (m : ν) :
      (net.put k s packets).AccountsFor peer m ((net.put k s packets).stations m) := by
    by_cases hm : m = k
    · subst hm
      rwa [stations_put_self]
    · rw [stations_put_of_ne hm]
      exact (hnet m).put hgrows
  cases event with
  | send n id ciphertext carrier updateValue =>
    obtain ⟨⟨s, packets⟩, hsend, rfl⟩ := Option.map_eq_some_iff.mp hstep
    exact hput (keeps_send hsend).grows (accounts_send (hnet n) hsend)
  | publishOverNostr n id ciphertext =>
    simp only [step] at hstep
    obtain ⟨⟨s, packets⟩, hsend, rfl⟩ := Option.map_eq_some_iff.mp hstep
    exact hput (keeps_send hsend).grows (accounts_send (hnet n) hsend)
  | rerouteToNostr n k =>
    obtain ⟨p, hp, hrest⟩ := Option.bind_eq_some_iff.mp hstep
    split at hrest
    · obtain rfl := Option.some.inj hrest
      exact hput .rfl ((hnet n).put .rfl)
    · cases hrest
  | arrive n k link onto =>
    obtain ⟨p, hp, hrest⟩ := Option.bind_eq_some_iff.mp hstep
    split at hrest
    · rename_i hcomes
      have hlink : p.kind = .ble → peer n link = p.sender := by
        intro hradio
        rcases hcomes with hinternet | ⟨_, hback, _⟩
        · cases hradio.symm.trans hinternet
        · exact hback
      split at hrest
      · obtain rfl := Option.some.inj hrest
        exact hput (Station.grows_handleInbound ..)
          (accounts_arrive (hnet n) (hsound.stations n).remembers hlink)
      · obtain rfl := Option.some.inj hrest
        exact hnet
    · cases hrest
  | exclusions n i =>
    obtain ⟨s, hs, rfl⟩ := Option.map_eq_some_iff.mp hstep
    exact hput (keeps_exclusions hs).grows (accounts_exclusions (hnet n) hs)
  | relay n i updateValue =>
    obtain ⟨⟨s, relay⟩, hs, rfl⟩ := Option.map_eq_some_iff.mp hstep
    exact hput (keeps_relay hs).grows (accounts_relay (hnet n) hsound hs)
  | receive n i =>
    obtain ⟨s, hs, rfl⟩ := Option.map_eq_some_iff.mp hstep
    exact hput (keeps_receive hs).grows (accounts_receive (hnet n) hs)
  | coordinator n c =>
    obtain rfl := Option.some.inj hstep
    have hold : (net.put n { net.stations n with coordinator := c } []).AccountsFor peer n
      (net.stations n) :=
      (hnet n).put ⟨fun _ hid => hid, rfl⟩
    exact hput ⟨fun _ hid => hid, rfl⟩
      ⟨hold.received, hold.links, hold.passed, hold.sent, hold.relayed⟩
  | links n l =>
    obtain rfl := Option.some.inj hstep
    have hold : (net.put n { net.stations n with links := l } []).AccountsFor peer n
      (net.stations n) :=
      (hnet n).put ⟨fun _ hid => hid, rfl⟩
    exact hput ⟨fun _ hid => hid, rfl⟩
      ⟨hold.received, hold.links, hold.passed, hold.sent, hold.relayed⟩

theorem accounts_of_run {capacity : ν → Nat} {events : List (Event ν)}
    (hrun : run (fun net => net.step peer) (launch capacity) events = some net) (hfits : net.Fits) :
    net.Sound ∧ ∀ m, net.AccountsFor peer m (net.stations m) := by
  refine run_invariant (fun net => net.Fits → net.Sound ∧
    ∀ m, net.AccountsFor peer m (net.stations m)) (fun _ => True) (fun t hstep _ hpre hpost => ?_)
    (fun _ => ⟨sound_launch capacity, accountsFor_launch peer capacity⟩)
    (fun _ _ => trivial) hrun hfits
  have hfitted : t.pre.Fits ∧ (t.pre.Sound → t.post.Sound) := by
    rcases keeps_of_step hstep with hsame | ⟨n, s, packets, hput, hkeeps⟩
    · rw [hsame] at hpost ⊢
      exact ⟨hpost, fun hsound => hsound⟩
    · rw [hput] at hpost ⊢
      exact ⟨hkeeps.fits_of_put hpost, fun hsound => hkeeps.put hsound hpost⟩
  obtain ⟨hsound, haccounts⟩ := hpre hfitted.1
  exact ⟨hfitted.2 hsound, accounts_step hstep hsound haccounts⟩

end Steps

/-! ### A network that has settled -/

/-- All that is on the air with the identifier has come to the other end of each link that it went
to, and no call of `handleInbound` is under way with it. -/
structure Settled (peer : ν → UUID → ν) (id : MessageID) (net : Network ν) : Prop where
  arrived : ∀ p ∈ net.air, p.carries id → ∀ link ∈ p.audience.links,
    id ∈ (net.stations (peer p.sender link)).passed
  handled : ∀ n, ∀ h ∈ (net.stations n).handling, h.envelope.id ≠ id

/-- Whenever `m` sent the envelope by radio or relayed it, it had a link to `n` that took frames;
as it relayed, one that the coordinator did not take for a link of another device, the one that it
had the envelope from. -/
structure Neighbour (peer : ν → UUID → ν) (id : MessageID) (net : Network ν) (m n : ν) : Prop where
  sent : ∀ x ∈ (net.stations m).sent, x.id = id → x.carrier = some .ble →
    ∃ link ∈ x.links.targets, peer m link = n
  relayed : ∀ r ∈ (net.stations m).relayed, r.forwarded.id = id → ∃ link ∈ r.links.targets,
    peer m link = n ∧ (r.asked.SamePeer r.source.link link → peer m r.source.link = n)

def Reaches (peer : ν → UUID → ν) (id : MessageID) (net : Network ν) : ν → ν → Prop :=
  Relation.ReflTransGen (Neighbour peer id net)

/-- The device was handed the envelope with all its hops used up. -/
def LastHop (net : Network ν) (id : MessageID) (n : ν) : Prop :=
  ∃ h ∈ (net.stations n).received, h.envelope.id = id ∧
  h.packet.path.length = Envelope.maxHops.toNat

/-- The device was handed the envelope over the internet, or sent it itself and not by radio. -/
def OffRadio (net : Network ν) (id : MessageID) (n : ν) : Prop :=
  (∃ h ∈ (net.stations n).received, h.envelope.id = id ∧ h.packet.kind = .internet) ∨
    (net.stations n).Sent id ∧ ∀ x ∈ (net.stations n).sent, x.id = id → x.carrier ≠ some .ble

variable {id : MessageID}

/-- Whoever had it has sent it by radio or relayed it, or it stops there. -/
theorem emitted_or_stops (hnet : net.AccountsFor peer n (net.stations n)) (hsound : net.Sound)
    (hsettled : net.Settled peer id) (hn : id ∈ (net.stations n).passed) :
    (∃ x ∈ (net.stations n).sent, x.id = id ∧ x.carrier = some .ble) ∨ (net.stations n).Relayed id ∨
      net.LastHop id n ∨ net.OffRadio id n := by
  rcases hnet.passed id hn with hsent | ⟨h, hh, hid, hstage⟩
  · by_cases hradio : ∃ x ∈ (net.stations n).sent, x.id = id ∧ x.carrier = some .ble
    · exact .inl hradio
    · exact .inr (.inr (.inr (.inr ⟨hsent, fun x hx hxid hble => hradio ⟨x, hx, hxid, hble⟩⟩)))
  · have hcall := (hsound.stations n).handling h hh
    have hreceived : h ∈ (net.stations n).received :=
      (List.mem_append.mp hh).resolve_right fun hhandling => hsettled.handled n h hhandling hid
    rcases hstage (hnet.received h hreceived) with (hinternet | hnone) | hrelayed
    · exact .inr (.inr (.inr (.inl ⟨h, hreceived, hid, hinternet⟩)))
    · have hhops := hcall.carries.hops
      have hzero : h.envelope.ttl.toNat = 0 := by
        unfold Envelope.forwarded at hnone
        split at hnone
        · cases hnone
        · rename_i hpos
          have hle : h.envelope.ttl ≤ 0 := UInt8.not_lt.mp hpos
          exact Nat.le_zero.mp (UInt8.le_iff_toNat_le.mp hle)
      exact .inr (.inr (.inl ⟨h, hreceived, hid, by omega⟩))
    · exact .inr (.inl hrelayed)

/-- What was put on the air towards a link has come to its other end. -/
theorem Aired.passed {links : Finset UUID} {link : UUID} (haired : net.Aired n id links)
    (hsettled : net.Settled peer id) (hlink : link ∈ links) :
    id ∈ (net.stations (peer n link)).passed := by
  obtain ⟨p, hp, rfl, hcarries, hlinks⟩ := haired
  exact hsettled.arrived p hp hcarries link (hlinks hlink)

/-- The neighbours of whoever had it have had it, unless it stops there. -/
theorem passed_of_neighbour {m : ν} (hnet : net.AccountsFor peer m (net.stations m))
    (hsound : net.Sound)
    (hsettled : net.Settled peer id) (hm : id ∈ (net.stations m).passed)
    (hnext : Neighbour peer id net m n) :
    id ∈ (net.stations n).passed ∨ net.LastHop id m ∨ net.OffRadio id m := by
  rcases emitted_or_stops hnet hsound hsettled hm with ⟨x, hx, hid, hradio⟩ | ⟨r, hr, hid⟩ | hstops
  · obtain ⟨link, hlink, rfl⟩ := hnext.sent x hx hid hradio
    exact .inl ((hid ▸ hnet.sent x hx hradio).passed hsettled hlink)
  · obtain ⟨hsource, haired⟩ := hnet.relayed r hr
    obtain ⟨link, hlink, rfl, hpeer⟩ := hnext.relayed r hr hid
    by_cases hspared : link ∈ r.asked.relayExclusions r.source.link
    · rw [← hpeer (FirstContactCoordinator.mem_relayExclusions.mp hspared)]
      exact .inl (hid ▸ hsource)
    · exact .inl ((hid ▸ haired).passed hsettled (Finset.mem_sdiff.mpr ⟨hlink, hspared⟩))
  · exact .inr hstops

/-- An envelope that came to a device on its last hop has been with as many others as it has hops,
and with its origin. -/
theorem LastHop.length_lt [Fintype ν] (h : net.LastHop id n) (hsound : net.Sound) :
    Envelope.maxHops.toNat + 1 < Fintype.card ν := by
  obtain ⟨h, hh, _, hlength⟩ := h
  have hcall := (hsound.stations n).handling h (List.mem_append_left _ hh)
  have hsimple : (n :: h.packet.origin :: h.packet.path).Nodup :=
    List.nodup_cons.mpr ⟨hcall.foreign, hcall.simple⟩
  have hle := hsimple.length_le_card
  simp only [List.length_cons] at hle
  omega

theorem timesReceived_eq_one (hnet : net.AccountsFor peer n (net.stations n)) (hsound : net.Sound)
    (hsettled : net.Settled peer id) (hn : id ∈ (net.stations n).passed)
    (hforeign : ¬(net.stations n).Sent id) :
    (net.stations n).timesReceived id = 1 := by
  obtain ⟨h, hh, hid, _⟩ := (hnet.passed id hn).resolve_left hforeign
  have hreceived : h ∈ (net.stations n).received :=
    (List.mem_append.mp hh).resolve_right fun hhandling => hsettled.handled n h hhandling hid
  have honce := (hsound.stations n).once
  rw [List.map_append] at honce
  exact List.count_eq_one_of_mem honce.of_append_left (hid ▸ List.mem_map_of_mem hreceived)

/-- Whoever can be reached from a device that had the envelope has had it, unless it stopped at a
device on the way; it stops on its last hop only where there are more devices than it has hops; and
each but its sender was handed it once. -/
structure Covered [Fintype ν] (peer : ν → UUID → ν) (id : MessageID) (net : Network ν) : Prop where
  reached : ∀ m n, id ∈ (net.stations m).passed → Reaches peer id net m n →
    id ∈ (net.stations n).passed ∨
    ∃ k, Reaches peer id net m k ∧ Reaches peer id net k n ∧ (net.LastHop id k ∨ net.OffRadio id k)
  everyone : Fintype.card ν ≤ Envelope.maxHops.toNat + 1 → (∀ k, ¬net.OffRadio id k) → ∀ m n,
    id ∈ (net.stations m).passed → Reaches peer id net m n → id ∈ (net.stations n).passed
  once : ∀ n, id ∈ (net.stations n).passed → ¬(net.stations n).Sent id →
    (net.stations n).timesReceived id = 1

theorem flooding_covers [DecidableEq ν] [Fintype ν] (peer : ν → UUID → ν) (capacity : ν → Nat)
    (events : List (Event ν)) (id : MessageID)
    (hrun : run (fun net => net.step peer) (launch capacity) events = some net) (hfits : net.Fits)
    (hsettled : net.Settled peer id) : net.Covered peer id := by
  obtain ⟨hsound, hnet⟩ := accounts_of_run hrun hfits
  have hreached : ∀ m n, id ∈ (net.stations m).passed → Reaches peer id net m n →
    id ∈ (net.stations n).passed ∨
      ∃ k, Reaches peer id net m k ∧ Reaches peer id net k n ∧
      (net.LastHop id k ∨ net.OffRadio id k) := by
    intro m n hm hreach
    induction hreach with
    | refl => exact .inl hm
    | tail hreach hnext ih =>
      rcases ih with hpassed | ⟨k, hto, hfrom, hstops⟩
      · exact (passed_of_neighbour (hnet _) hsound hsettled hpassed hnext).imp_right fun hstops =>
          ⟨_, hreach, .single hnext, hstops⟩
      · exact .inr ⟨k, hto, hfrom.tail hnext, hstops⟩
  refine ⟨hreached, fun hcard hradio m n hm hreach => ?_, fun n hn => timesReceived_eq_one
    (hnet n) hsound hsettled hn⟩
  refine (hreached m n hm hreach).resolve_right fun ⟨k, _, _, hstops⟩ => ?_
  have hlt := (hstops.resolve_right (hradio k)).length_lt hsound
  omega

/-- In `echoes` all three devices have heard of the envelope, and the two that did not send it
received it. -/
theorem flooding_covers_echoes :
    ∃ net, run (fun net => net.step ring) (launch fun _ => 4) echoes = some net ∧
      net.Covered ring ⟨List.replicate 16 7, by decide⟩ := by
  have hsome : (run (fun net => net.step ring) (launch fun _ => 4) echoes).map (fun net =>
      decide ((∀ n, (net.stations n).Fits) ∧
        (∀ n, (⟨List.replicate 16 7, by decide⟩ : MessageID) ∈ (net.stations n).passed) ∧
        ∀ n, (net.stations n).handling.length = 0)) = some true := by decide +kernel
  obtain ⟨net, hrun, hnet⟩ := Option.map_eq_some_iff.mp hsome
  obtain ⟨hfits, hpassed, hhandling⟩ := of_decide_eq_true hnet
  refine ⟨net, hrun, flooding_covers _ _ _ _ hrun hfits
    ⟨fun p _ _ link _ => hpassed _, fun n h hh => ?_⟩⟩
  rw [List.length_eq_zero_iff.mp (hhandling n)] at hh
  cases hh

end Network

end Flooding

end AeroNyra
