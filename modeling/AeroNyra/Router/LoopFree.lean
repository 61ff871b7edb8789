import AeroNyra.Lib.Window
import AeroNyra.Router.Flooding

/-! Flooding ends: as long as fewer identifiers pass through a device than its dedup cache holds,
it relays an envelope once and hands it over once, never one of its own, and no path of relays
comes to a device twice or is longer than the hops that an envelope has. -/

namespace AeroNyra

/-- A link is another one, or both are of one peer. -/
def FirstContactCoordinator.SamePeer (c : FirstContactCoordinator) (link other : UUID) : Prop :=
  other = link ∨ ∃ peer, c.linkPeers.lookup link = some peer ∧ c.linkPeers.lookup other = some peer

theorem FirstContactCoordinator.mem_relayExclusions {c : FirstContactCoordinator}
    {link other : UUID} :
    other ∈ c.relayExclusions link ↔ c.SamePeer link other := by
  unfold relayExclusions SamePeer
  cases hlink : c.linkPeers.lookup link with
  | none => simp
  | some peer =>
    have hpairs : other ∈ (c.linkPeers.pairs.filter (·.2 == peer)).map (·.1) ↔
        c.linkPeers.lookup other = some peer := by
      rw [← Dict.mem_pairs]
      simp
    simp [hpairs]

namespace BLEMeshTransport.Links

variable {l : Links} {frame : Data} {excluded : Finset UUID} {updateValue : Nat → Bool}

theorem eq_of_write_relay {ids : Finset UUID} {bytes : Data}
    (h : .write ids bytes ∈ (l.relay frame excluded updateValue).2) :
    ids = (l.writeTargets \ excluded) ∩ l.peers := by
  unfold relay at h
  split at h
  · simp only [writeToAll, List.mem_singleton, Effect.write.injEq] at h
    exact h.1
  · simp only [notifySubscribers, notified, writeToAll, List.mem_cons, Effect.write.injEq,
      List.mem_map, reduceCtorEq, and_false, exists_false, or_false] at h
    exact h.1

theorem nonempty_of_update_relay {slice : Data}
    (h : .update slice ∈ (l.relay frame excluded updateValue).2) :
    (l.subscribedCentrals \ excluded).Nonempty := by
  unfold relay at h
  split at h
  · simp [writeToAll] at h
  · rename_i hsubscribed
    exact Finset.nonempty_iff_ne_empty.mpr hsubscribed

end BLEMeshTransport.Links

namespace Flooding

open BLEMeshTransport Interleave

variable {ν : Type}

/-! ### What passes through a device -/

namespace Station

variable {s : Station ν} {id : MessageID}

/-- Fewer identifiers have passed through than the cache can hold. -/
def Fits (s : Station ν) : Prop := s.passed.toFinset.card < s.seen.capacity

instance (s : Station ν) : Decidable s.Fits := inferInstanceAs (Decidable (_ < _))

/-- The cache holds all that has passed through. -/
def Remembers (s : Station ν) : Prop := ∀ id, id ∈ s.seen.present ↔ id ∈ s.passed

theorem Remembers.mark (h : s.Remembers) (hfits : (s.mark id).Fits) : (s.mark id).Remembers := by
  have hpresent : s.seen.present = s.passed.toFinset := by
    ext other
    rw [h, List.mem_toFinset]
  have hcapacity : (s.mark id).seen.capacity = s.seen.capacity :=
    s.seen.containsOrInsert_capacity id
  have hroom : s.seen.order.length < s.seen.capacity := by
    have hle : s.passed.toFinset.card ≤ (s.mark id).passed.toFinset.card :=
      Finset.card_le_card fun other hother => by
        simp only [List.mem_toFinset] at hother ⊢
        exact List.mem_append_left _ hother
    unfold Fits at hfits
    rw [← s.seen.card_present, hpresent]
    omega
  intro other
  show other ∈ (s.seen.containsOrInsert id).2.present ↔ other ∈ s.passed ++ [id]
  rw [SeenCache.present_of_room hroom, Finset.mem_insert, h, List.mem_append, List.mem_singleton]
  tauto

end Station

/-! ### What a device does with an envelope -/

/-- The envelope is as it was sent by the packet's origin, less a hop for each relay. -/
structure Packet.Carries (p : Packet ν) (e : Envelope) : Prop where
  bytes : p.bytes = e.wireData
  version : e.version = Envelope.currentVersion
  hops : e.ttl.toNat + p.path.length = Envelope.maxHops.toNat

/-- A call of `handleInbound` at the device `n`: it came by a packet that `n` neither sent nor
relayed, and is to be relayed only if that came over the radio. -/
structure Handling.Sound (n : ν) (h : Handling ν) : Prop where
  carries : h.packet.Carries h.envelope
  simple : (h.packet.origin :: h.packet.path).Nodup
  foreign : n ∉ h.packet.origin :: h.packet.path
  internet : h.packet.kind = .internet → h.packet.path = []
  stage : ∀ forwarded, h.stage = .excluding forwarded ∨
    (∃ asked, h.stage = .relaying forwarded asked) →
    h.packet.kind = .ble ∧ h.envelope.forwarded = some forwarded

/-- A relay at the device `n`, of what came over the radio. -/
structure Relay.Sound (n : ν) (r : Relay ν) : Prop where
  source : r.source.Sound n
  radio : r.source.packet.kind = .ble
  forwarded : r.source.envelope.forwarded = some r.forwarded
  effects : ∃ bytes updateValue, r.effects =
    (r.links.relay bytes (r.asked.relayExclusions r.source.link) updateValue).2

namespace Station

/-- The identifiers of what was let through are distinct and in the cache, and what was relayed is
among them. -/
structure Sound (n : ν) (s : Station ν) : Prop where
  remembers : s.Remembers
  once : ((s.received ++ s.handling).map (·.envelope.id)).Nodup
  marked : ∀ h ∈ s.received ++ s.handling, h.envelope.id ∈ s.passed
  handling : ∀ h ∈ s.received ++ s.handling, h.Sound n
  relayedOnce : (s.relayed.map (·.forwarded.id)).Nodup
  relayed : ∀ r ∈ s.relayed, r.Sound n ∧
    ∃ h ∈ s.received ++ s.handling, h.envelope.id = r.forwarded.id ∧ h.stage = .receiving

variable {s : Station ν} {n : ν} {i : Nat} {h : Handling ν}

theorem Sound.mark (hs : s.Sound n) {id : MessageID} (hfits : (s.mark id).Fits) :
    (s.mark id).Sound n :=
  ⟨hs.remembers.mark hfits, hs.once, fun h hh => List.mem_append_left _ (hs.marked h hh),
  hs.handling,
    hs.relayedOnce, hs.relayed⟩

/-- A new envelope is sent: by the radio, or else over the internet or not at all. -/
theorem send_cases {id : MessageID} {ciphertext : Data} {carrier : Option TransportKind}
    {updateValue : Nat → Bool} {result : Station ν × List (Packet ν)}
    (hsend : s.send n id ciphertext carrier updateValue = some result) :
    carrier ≠ some .ble ∧ result.1 = { s.mark id with sent := s.sent ++ [⟨id, carrier, s.links⟩] } ∧
        (∀ p ∈ result.2, p = ⟨.internet, (Envelope.new id ciphertext).wireData, n, [], {}⟩) ∨
      carrier = some .ble ∧ ∃ bytes, frame .envelope (Envelope.new id ciphertext).wireData = some
        bytes ∧ (s.links.broadcast bytes updateValue).1 = true ∧
        result.1 = { s.mark id with
          links := (s.links.broadcast bytes updateValue).2.1
          sent := s.sent ++ [⟨id, carrier, s.links⟩] } ∧
        result.2 = [⟨.ble, (Envelope.new id ciphertext).wireData, n, [],
          s.links.audience (s.links.broadcast bytes updateValue).2⟩] := by
  cases carrier with
  | none =>
    obtain rfl := Option.some.inj hsend
    exact .inl ⟨nofun, rfl, nofun⟩
  | some kind =>
    cases kind with
    | internet =>
      obtain rfl := Option.some.inj hsend
      exact .inl ⟨nofun, rfl, fun p hp => List.mem_singleton.mp hp⟩
    | ble =>
      obtain ⟨bytes, hbytes, hrest⟩ := Option.bind_eq_some_iff.mp hsend
      dsimp only at hrest
      split at hrest
      · rename_i htakes
        obtain rfl := Option.some.inj hrest
        exact .inr ⟨rfl, bytes, hbytes, htakes, rfl, rfl⟩
      · cases hrest

/-- The device has sent the envelope, and what it puts on the air is the envelope. -/
theorem sends {id : MessageID} {ciphertext : Data} {carrier : Option TransportKind}
    {updateValue : Nat → Bool} {result : Station ν × List (Packet ν)}
    (hsend : s.send n id ciphertext carrier updateValue = some result) :
    (∃ links, result.1 = { s.mark id with links, sent := s.sent ++ [⟨id, carrier, s.links⟩] }) ∧
      ∀ p ∈ result.2, ∃ kind audience,
        p = ⟨kind, (Envelope.new id ciphertext).wireData, n, [], audience⟩ := by
  rcases send_cases hsend with ⟨_, hstation, hpackets⟩ | ⟨_, bytes, _, _, hstation, hpackets⟩
  · exact ⟨⟨s.links, hstation⟩, fun p hp => ⟨_, _, hpackets p hp⟩⟩
  · refine ⟨⟨_, hstation⟩, fun p hp => ?_⟩
    rw [hpackets] at hp
    exact ⟨_, _, List.mem_singleton.mp hp⟩

/-- Only what came over the radio with hops left is to be relayed. -/
theorem of_afterDedup {kind : TransportKind} {e forwarded : Envelope}
    (hstage : afterDedup kind e = .excluding forwarded ∨ ∃ asked, afterDedup kind e =
      .relaying forwarded asked) :
    kind = .ble ∧ e.forwarded = some forwarded := by
  cases kind with
  | internet => simp [afterDedup, Inbound.shouldRelay] at hstage
  | ble =>
    cases hforwarded : e.forwarded with
    | none => simp [afterDedup, Inbound.shouldRelay, hforwarded] at hstage
    | some onward =>
      simp only [afterDedup, Inbound.shouldRelay, hforwarded] at hstage
      rcases hstage with hstage | ⟨asked, hstage⟩
      · cases hstage
        exact ⟨rfl, rfl⟩
      · cases hstage

/-- An envelope arrives by a packet: if it is let through, the device neither sent nor relayed
it. -/
theorem Sound.handleInbound (hs : s.Sound n) {p : Packet ν} {e : Envelope} {link : UUID}
    (hcarries : p.Carries e) (hsimple : (p.origin :: p.path).Nodup)
    (hinternet : p.kind = .internet → p.path = [])
    (hpassed : n ∈ p.origin :: p.path → e.id ∈ s.passed)
    (hfits : (s.handleInbound p link e).Fits) : (s.handleInbound p link e).Sound n := by
  unfold Station.handleInbound at hfits ⊢
  split
  · rename_i hseen
    rw [if_pos hseen] at hfits
    exact hs.mark hfits
  · rename_i hseen
    rw [if_neg hseen] at hfits
    rw [SeenCache.containsOrInsert_fst, hs.remembers] at hseen
    have hmark : (s.mark e.id).Sound n := hs.mark hfits
    let h : Handling ν := ⟨link, e, p, afterDedup p.kind e⟩
    have hmem : ∀ h' ∈ s.received ++ (s.handling ++ [h]), h' ∈ s.received ++ s.handling ∨
      h' = h := by
      intro h' hh'
      simpa [or_assoc] using hh'
    have hsound : h.Sound n :=
      ⟨hcarries, hsimple, fun hn => hseen (hpassed hn), hinternet, fun _ hstage =>
      of_afterDedup hstage⟩
    refine ⟨hmark.remembers, ?_, fun h' hh' => ?_, fun h' hh' => ?_, hs.relayedOnce, fun r hr => ?_⟩
    · show ((s.received ++ (s.handling ++ [h])).map (·.envelope.id)).Nodup
      rw [← List.append_assoc, List.map_append]
      refine Window.nodup_snoc hs.once fun hid => ?_
      obtain ⟨h', hh', hsame⟩ := List.mem_map.mp hid
      have hsame : h'.envelope.id = e.id := hsame
      exact hseen (hsame ▸ hs.marked h' hh')
    · rcases hmem h' hh' with hold | rfl
      · exact List.mem_append_left _ (hs.marked h' hold)
      · exact List.mem_append_right _ List.mem_cons_self
    · rcases hmem h' hh' with hold | rfl
      · exact hs.handling h' hold
      · exact hsound
    · obtain ⟨hrelay, h', hh', hid, hstage⟩ := hs.relayed r hr
      refine ⟨hrelay, h', ?_, hid, hstage⟩
      show h' ∈ s.received ++ (s.handling ++ [h])
      rw [← List.append_assoc]
      exact List.mem_append_left _ hh'

/-- The calls under way after one of them goes on to another stage. -/
theorem map_id_setStage (hi : s.handling[i]? = some h) (stage : Stage) :
    (s.received ++ s.setStage i h stage).map (·.envelope.id) =
      (s.received ++ s.handling).map (·.envelope.id) := by
  have hset : (s.setStage i h stage).map (·.envelope.id) = s.handling.map (·.envelope.id) := by
    apply List.ext_getElem?
    intro j
    rw [setStage, List.getElem?_map, List.getElem?_map]
    by_cases hij : i = j
    · subst hij
      obtain ⟨hlt, _⟩ := List.getElem?_eq_some_iff.mp hi
      rw [List.getElem?_set_self hlt, hi]
      rfl
    · rw [List.getElem?_set_ne hij]
  rw [List.map_append, List.map_append, hset]

theorem mem_setStage {stage : Stage} {h' : Handling ν}
    (hmem : h' ∈ s.received ++ s.setStage i h stage) :
    h' ∈ s.received ++ s.handling ∨ h' = { h with stage } := by
  rcases List.mem_append.mp hmem with hreceived | hset
  · exact .inl (List.mem_append_left _ hreceived)
  · rcases List.mem_or_eq_of_mem_set hset with hold | hnew
    · exact .inl (List.mem_append_right _ hold)
    · exact .inr hnew

/-- A call in another stage than the one that goes on is still there. -/
theorem mem_setStage_of_ne (hi : s.handling[i]? = some h) (stage : Stage) {h' : Handling ν}
    (hmem : h' ∈ s.received ++ s.handling) (hne : h'.stage ≠ h.stage) :
    h' ∈ s.received ++ s.setStage i h stage := by
  rcases List.mem_append.mp hmem with hreceived | hhandling
  · exact List.mem_append_left _ hreceived
  · obtain ⟨j, hj⟩ := List.getElem?_of_mem hhandling
    have hij : i ≠ j := by
      rintro rfl
      rw [hi] at hj
      exact hne (Option.some.inj hj ▸ rfl)
    refine List.mem_append_right _ (List.mem_of_getElem? (i := j) ?_)
    rw [setStage, List.getElem?_set_ne hij]
    exact hj

/-- A call goes on to another stage, at which it is still sound. -/
theorem Sound.setStage (hs : s.Sound n) (hi : s.handling[i]? = some h) (stage : Stage)
    (hbefore : h.stage ≠ .receiving)
    (hafter : ∀ forwarded, stage = .excluding forwarded ∨ (∃ asked, stage =
      .relaying forwarded asked) → h.packet.kind = .ble ∧ h.envelope.forwarded = some forwarded)
    (links : Links) : Sound n { s with links, handling := s.setStage i h stage } := by
  have hmem : h ∈ s.received ++ s.handling := List.mem_append_right _ (List.mem_of_getElem? hi)
  have hsound := hs.handling h hmem
  refine ⟨hs.remembers, ?_, fun h' hh' => ?_, fun h' hh' => ?_, hs.relayedOnce, fun r hr => ?_⟩
  · show ((s.received ++ s.setStage i h stage).map (·.envelope.id)).Nodup
    rw [map_id_setStage hi]
    exact hs.once
  · have hh' : h' ∈ s.received ++ s.setStage i h stage := hh'
    rcases mem_setStage hh' with hold | rfl
    · exact hs.marked h' hold
    · exact hs.marked h hmem
  · have hh' : h' ∈ s.received ++ s.setStage i h stage := hh'
    rcases mem_setStage hh' with hold | rfl
    · exact hs.handling h' hold
    · exact ⟨hsound.carries, hsound.simple, hsound.foreign, hsound.internet, hafter⟩
  · obtain ⟨hrelay, h', hh', hid, hstage⟩ := hs.relayed r hr
    exact ⟨hrelay, h', mem_setStage_of_ne hi stage hh' (hstage ▸ hbefore.symm), hid, hstage⟩

/-- The call that goes on is there in its new stage. -/
theorem mem_setStage_self (hi : s.handling[i]? = some h) (stage : Stage) :
    { h with stage } ∈ s.setStage i h stage := by
  obtain ⟨hlt, _⟩ := List.getElem?_eq_some_iff.mp hi
  exact List.mem_set hlt _

theorem exclusions_cases {s' : Station ν} (hstep : s.exclusions i = some s') :
    ∃ h forwarded, s.handling[i]? = some h ∧ h.stage = .excluding forwarded ∧
      s' = { s with handling := s.setStage i h (.relaying forwarded s.coordinator) } := by
  obtain ⟨h, hi, hrest⟩ := Option.bind_eq_some_iff.mp hstep
  cases hstage : h.stage with
  | excluding forwarded =>
    rw [hstage] at hrest
    exact ⟨h, forwarded, hi, hstage, (Option.some.inj hrest).symm⟩
  | relaying | receiving =>
    rw [hstage] at hrest
    cases hrest

theorem Sound.exclusions (hs : s.Sound n) {forwarded : Envelope} (hi : s.handling[i]? = some h)
    (hstage : h.stage = .excluding forwarded) :
    Sound n { s with handling := s.setStage i h (.relaying forwarded s.coordinator) } := by
  have hsound := hs.handling h (List.mem_append_right _ (List.mem_of_getElem? hi))
  refine hs.setStage hi _ (by rw [hstage]; exact nofun) (fun onward hafter => ?_) s.links
  have honward : onward = forwarded := by
    rcases hafter with hafter | ⟨asked, hafter⟩
    · cases hafter
    · cases hafter
      rfl
  subst honward
  exact hsound.stage onward (.inl hstage)

theorem relay_cases {updateValue : Nat → Bool} {p : Station ν × Relay ν}
    (hstep : s.relay i updateValue = some p) :
    ∃ h forwarded asked bytes, s.handling[i]? = some h ∧ h.stage = .relaying forwarded asked ∧
      frame .envelope forwarded.wireData = some bytes ∧
      p.2 = ⟨h, forwarded, asked, s.links,
        (s.links.relay bytes (asked.relayExclusions h.link) updateValue).2⟩ ∧
      p.1 = { s with
        links := (s.links.relay bytes (asked.relayExclusions h.link) updateValue).1
        handling := s.setStage i h .receiving
        relayed := s.relayed ++ [p.2] } := by
  obtain ⟨h, hi, hrest⟩ := Option.bind_eq_some_iff.mp hstep
  cases hstage : h.stage with
  | relaying forwarded asked =>
    rw [hstage] at hrest
    obtain ⟨bytes, hbytes, rfl⟩ := Option.map_eq_some_iff.mp hrest
    exact ⟨h, forwarded, asked, bytes, hi, hstage, hbytes, rfl, rfl⟩
  | excluding | receiving =>
    rw [hstage] at hrest
    cases hrest

/-- What is forwarded is the envelope with one hop less. -/
theorem of_forwarded {e forwarded : Envelope} (h : e.forwarded = some forwarded) :
    forwarded = { e with ttl := e.ttl - 1 } ∧ forwarded.ttl.toNat + 1 = e.ttl.toNat := by
  unfold Envelope.forwarded at h
  split at h
  · rename_i hpos
    obtain rfl := Option.some.inj h
    refine ⟨rfl, ?_⟩
    have hone : (1 : UInt8) ≤ e.ttl := UInt8.le_iff_toNat_le.mpr (UInt8.lt_iff_toNat_lt.mp hpos)
    have hpos' : 0 < e.ttl.toNat := UInt8.lt_iff_toNat_lt.mp hpos
    rw [UInt8.toNat_sub_of_le _ _ hone]
    show e.ttl.toNat - 1 + 1 = e.ttl.toNat
    omega
  · cases h

theorem Sound.relay (hs : s.Sound n) {updateValue : Nat → Bool} {p : Station ν × Relay ν}
    (hstep : s.relay i updateValue = some p) : p.1.Sound n ∧ p.2.Sound n := by
  obtain ⟨h, forwarded, asked, bytes, hi, hstage, _, hrelay, hnext⟩ := relay_cases hstep
  have hmem : h ∈ s.received ++ s.handling := List.mem_append_right _ (List.mem_of_getElem? hi)
  have hsound := hs.handling h hmem
  obtain ⟨hradio, hforwarded⟩ := hsound.stage forwarded (.inr ⟨asked, hstage⟩)
  have hid : forwarded.id = h.envelope.id := by rw [(of_forwarded hforwarded).1]
  have hp : p.2.Sound n := by
    rw [hrelay]
    exact ⟨hsound, hradio, hforwarded, bytes, updateValue, rfl⟩
  refine ⟨?_, hp⟩
  have hset := hs.setStage hi .receiving (by rw [hstage]; exact nofun)
    (fun onward hafter => by rcases hafter with hafter | ⟨asked, hafter⟩ <;> cases hafter) p.1.links
  have hnew : p.2.forwarded.id ∉ s.relayed.map (·.forwarded.id) := by
    intro hrelayed
    obtain ⟨r, hr, hsame⟩ := List.mem_map.mp hrelayed
    obtain ⟨_, h', hh', hid', hstage'⟩ := hs.relayed r hr
    have hsame : r.forwarded.id = p.2.forwarded.id := hsame
    have heq : h' = h := by
      refine List.inj_on_of_nodup_map hs.once hh' hmem ?_
      show h'.envelope.id = h.envelope.id
      rw [hid', hsame, hrelay, hid]
    rw [heq, hstage] at hstage'
    cases hstage'
  have hself : { h with stage := .receiving } ∈ s.received ++ s.setStage i h .receiving :=
    List.mem_append_right _ (mem_setStage_self hi _)
  rw [hnext]
  refine ⟨hset.remembers, hset.once, hset.marked, hset.handling, ?_, fun r hr => ?_⟩
  · show ((s.relayed ++ [p.2]).map (·.forwarded.id)).Nodup
    rw [List.map_append]
    exact Window.nodup_snoc hs.relayedOnce hnew
  · rcases List.mem_append.mp hr with hold | hlast
    · exact hset.relayed r hold
    · obtain rfl := List.mem_singleton.mp hlast
      exact ⟨hp, _, hself, by rw [hrelay]; exact hid.symm, rfl⟩

theorem receive_cases {s' : Station ν} (hstep : s.receive i = some s') :
    ∃ h, s.handling[i]? = some h ∧ h.stage = .receiving ∧
      s' = { s with handling := s.handling.eraseIdx i, received := s.received ++ [h] } := by
  obtain ⟨h, hi, hrest⟩ := Option.bind_eq_some_iff.mp hstep
  cases hstage : h.stage with
  | receiving =>
    rw [hstage] at hrest
    exact ⟨h, hi, hstage, (Option.some.inj hrest).symm⟩
  | excluding | relaying =>
    rw [hstage] at hrest
    cases hrest

/-- Handing over moves an envelope from the calls under way to what was received. -/
theorem perm_receive (hi : s.handling[i]? = some h) :
    List.Perm ((s.received ++ [h]) ++ s.handling.eraseIdx i) (s.received ++ s.handling) := by
  obtain ⟨hlt, rfl⟩ := List.getElem?_eq_some_iff.mp hi
  rw [List.append_assoc]
  exact (List.getElem_cons_eraseIdx_perm hlt).append_left _

theorem Sound.receive (hs : s.Sound n) (hi : s.handling[i]? = some h) :
    Sound n { s with handling := s.handling.eraseIdx i, received := s.received ++ [h] } := by
  have hperm := perm_receive hi
  refine ⟨hs.remembers, (hperm.map _).nodup_iff.mpr hs.once, fun h' hh' =>
    hs.marked h' (hperm.mem_iff.mp hh'),
    fun h' hh' => hs.handling h' (hperm.mem_iff.mp hh'), hs.relayedOnce, fun r hr => ?_⟩
  obtain ⟨hrelay, h', hh', hid, hstage⟩ := hs.relayed r hr
  exact ⟨hrelay, h', hperm.mem_iff.mpr hh', hid, hstage⟩

/-- The device stays itself and forgets nothing of what passed through it. -/
structure Grows (s s' : Station ν) : Prop where
  passed : s.passed ⊆ s'.passed
  capacity : s'.seen.capacity = s.seen.capacity

theorem Grows.rfl : s.Grows s := ⟨fun _ hid => hid, by rfl⟩

theorem Grows.fits {s' : Station ν} (hgrows : s.Grows s') (hfits : s'.Fits) : s.Fits := by
  have hle : s.passed.toFinset.card ≤ s'.passed.toFinset.card :=
    Finset.card_le_card fun id hid => List.mem_toFinset.mpr
      (hgrows.passed (List.mem_toFinset.mp hid))
  have hcapacity := hgrows.capacity
  unfold Fits at hfits ⊢
  omega

theorem grows_mark (id : MessageID) : s.Grows (s.mark id) :=
  ⟨fun _ hother => List.mem_append_left _ hother, s.seen.containsOrInsert_capacity id⟩

theorem grows_handleInbound (p : Packet ν) (link : UUID) (e : Envelope) :
    s.Grows (s.handleInbound p link e) := by
  unfold Station.handleInbound
  split
  · exact grows_mark e.id
  · exact ⟨(grows_mark e.id).passed, (grows_mark e.id).capacity⟩

end Station

/-! ### The network -/

theorem Packet.carries_new (kind : TransportKind) (id : MessageID) (ciphertext : Data) (n : ν)
    (audience : Audience) :
    Packet.Carries ⟨kind, (Envelope.new id ciphertext).wireData, n, [], audience⟩
      (Envelope.new id ciphertext) :=
  ⟨rfl, rfl, rfl⟩

/-- What a packet carries is what is read from it. -/
theorem Packet.Carries.ofWire? {p : Packet ν} {e : Envelope} (h : p.Carries e) :
    Envelope.ofWire? p.bytes = some e := by
  have hhops := h.hops
  have hle : e.ttl ≤ Envelope.maxHops := UInt8.le_iff_toNat_le.mpr (by omega)
  rw [h.bytes, Envelope.ofWire?_wireData h.version hle]

theorem Packet.Carries.toNat_hops {p : Packet ν} {e : Envelope} (h : p.Carries e) :
    (Node.hops e).toNat = p.path.length := by
  have hhops := h.hops
  have hmax : Envelope.maxHops.toNat = 7 := rfl
  show (UInt8.ofNat (Envelope.maxHops.toNat - e.ttl.toNat)).toNat = p.path.length
  rw [UInt8.toNat_ofNat']
  omega

/-- The relay is kept from the links that, when the coordinator was asked, were of the peer that
the envelope came from: it writes to none of them, and it notifies only if somebody else
subscribes. -/
structure Relay.Spares (r : Relay ν) : Prop where
  writes : ∀ ids bytes, .write ids bytes ∈ r.effects → ∀ u ∈ ids, ¬ r.asked.SamePeer r.source.link u
  updates : ∀ slice, .update slice ∈ r.effects →
    ∃ u ∈ r.links.subscribedCentrals, ¬ r.asked.SamePeer r.source.link u

theorem Relay.Sound.spares {n : ν} {r : Relay ν} (h : r.Sound n) : r.Spares := by
  obtain ⟨bytes, updateValue, heffects⟩ := h.effects
  refine ⟨fun ids frame hwrite u hu => ?_, fun slice hupdate => ?_⟩
  · rw [heffects] at hwrite
    obtain rfl := Links.eq_of_write_relay hwrite
    obtain ⟨⟨_, hspared⟩, _⟩ := by simpa only [Finset.mem_inter, Finset.mem_sdiff] using hu
    rwa [FirstContactCoordinator.mem_relayExclusions] at hspared
  · rw [heffects] at hupdate
    obtain ⟨u, hu⟩ := Links.nonempty_of_update_relay hupdate
    obtain ⟨hsubscribed, hspared⟩ := Finset.mem_sdiff.mp hu
    rw [FirstContactCoordinator.mem_relayExclusions] at hspared
    exact ⟨u, hsubscribed, hspared⟩

namespace Network

variable {net net' : Network ν} {n : ν} {s : Station ν} {packets : List (Packet ν)} {p : Packet ν}
  {e : Envelope}

/-- All devices that the packet has been with have had the identifier. -/
def Knows (net : Network ν) (p : Packet ν) (id : MessageID) : Prop :=
  ∀ m ∈ p.origin :: p.path, id ∈ (net.stations m).passed

/-- A packet on the air: it carries an envelope over a path that comes to no device twice. -/
structure Flies (net : Network ν) (p : Packet ν) (e : Envelope) : Prop where
  carries : p.Carries e
  simple : (p.origin :: p.path).Nodup
  internet : p.kind = .internet → p.path = []
  known : net.Knows p e.id

structure Sound (net : Network ν) : Prop where
  stations : ∀ n, (net.stations n).Sound n
  known : ∀ n, ∀ h ∈ (net.stations n).handling, net.Knows h.packet h.envelope.id
  air : ∀ p ∈ net.air, ∃ e, net.Flies p e

def Fits (net : Network ν) : Prop := ∀ n, (net.stations n).Fits

theorem sound_launch (capacity : ν → Nat) : (launch capacity).Sound :=
  ⟨fun _ => ⟨fun _ => by simp [launch, SeenCache.new], List.nodup_nil, nofun, nofun,
  List.nodup_nil, nofun⟩,
    nofun, nofun⟩

variable [DecidableEq ν]

/-- What a step makes of a device, and what it puts on the air. -/
structure Keeps (net : Network ν) (n : ν) (s : Station ν) (packets : List (Packet ν)) : Prop where
  grows : (net.stations n).Grows s
  sound : net.Sound → s.Fits → s.Sound n
  known : net.Sound → ∀ h ∈ s.handling, (net.put n s packets).Knows h.packet h.envelope.id
  air : net.Sound → ∀ p ∈ packets, ∃ e, (net.put n s packets).Flies p e

theorem stations_put_self : (net.put n s packets).stations n = s := by
  simp [Network.put]

theorem stations_put_of_ne {m : ν} (h : m ≠ n) :
    (net.put n s packets).stations m = net.stations m := by
  simp [Network.put, h]

theorem grows_put (h : (net.stations n).Grows s) (m : ν) :
    (net.stations m).Grows ((net.put n s packets).stations m) := by
  by_cases hm : m = n
  · subst hm
    rw [stations_put_self]
    exact h
  · rw [stations_put_of_ne hm]
    exact .rfl

theorem Knows.put {id : MessageID} (hknown : net.Knows p id) (h : (net.stations n).Grows s) :
    (net.put n s packets).Knows p id :=
  fun m hm => (grows_put h m).passed (hknown m hm)

theorem Keeps.fits_of_put (h : net.Keeps n s packets) (hfits : (net.put n s packets).Fits) :
    net.Fits :=
  fun m => (grows_put h.grows m).fits (hfits m)

theorem Keeps.put (h : net.Keeps n s packets) (hnet : net.Sound)
    (hfits : (net.put n s packets).Fits) :
    (net.put n s packets).Sound := by
  have hs : s.Sound n := by
    have hfits := hfits n
    rw [stations_put_self] at hfits
    exact h.sound hnet hfits
  refine ⟨fun m => ?_, fun m c hc => ?_, fun p hp => ?_⟩
  · by_cases hm : m = n
    · subst hm
      rw [stations_put_self]
      exact hs
    · rw [stations_put_of_ne hm]
      exact hnet.stations m
  · by_cases hm : m = n
    · subst hm
      rw [stations_put_self] at hc
      exact h.known hnet c hc
    · rw [stations_put_of_ne hm] at hc
      exact (hnet.known m c hc).put h.grows
  · rcases List.mem_append.mp hp with hold | hnew
    · obtain ⟨e, he⟩ := hnet.air p hold
      exact ⟨e, he.carries, he.simple, he.internet, he.known.put h.grows⟩
    · exact h.air hnet p hnew

/-! ### What each event keeps -/

/-- A new envelope is sent, over whatever there is. -/
theorem keeps_send {id : MessageID} {ciphertext : Data} {carrier : Option TransportKind}
    {updateValue : Nat → Bool}
    (hsend : (net.stations n).send n id ciphertext carrier updateValue = some (s, packets)) :
    net.Keeps n s packets := by
  obtain ⟨⟨links, hstation⟩, hpackets⟩ := Station.sends hsend
  obtain rfl : s = _ := hstation
  have hgrows := Station.grows_mark (s := net.stations n) id
  refine ⟨⟨hgrows.passed, hgrows.capacity⟩, fun hnet hfits => ?_,
    fun hnet h hh => (hnet.known n h hh).put ⟨hgrows.passed, hgrows.capacity⟩, fun _ p hp => ?_⟩
  · have hs : ((net.stations n).mark id).Sound n := (hnet.stations n).mark hfits
    exact ⟨hs.remembers, hs.once, hs.marked, hs.handling, hs.relayedOnce, hs.relayed⟩
  · obtain ⟨kind, audience, rfl⟩ := hpackets p hp
    refine ⟨Envelope.new id ciphertext, Packet.carries_new kind id ciphertext n audience,
      List.nodup_singleton n,
      fun _ => rfl, fun m hm => ?_⟩
    obtain rfl : m = n := List.mem_singleton.mp hm
    rw [stations_put_self]
    exact List.mem_append_right _ List.mem_cons_self

/-- A device does nothing with its calls. -/
theorem keeps_of_same (hgrows : (net.stations n).Grows s) (hsound : net.Sound → s.Sound n)
    (hsame : ∀ h ∈ s.handling, ∃ h' ∈ (net.stations n).handling,
      h'.packet = h.packet ∧ h'.envelope = h.envelope) : net.Keeps n s [] := by
  refine ⟨hgrows, fun hnet _ => hsound hnet, fun hnet h hh => ?_, fun _ p hp => by cases hp⟩
  obtain ⟨h', hh', hpacket, henvelope⟩ := hsame h hh
  rw [← hpacket, ← henvelope]
  exact (hnet.known n h' hh').put hgrows

/-- What was sent before goes out again. -/
theorem keeps_rerouteToNostr (hp : p ∈ net.air) (horigin : p.origin = n) (hpath : p.path = []) :
    net.Keeps n (net.stations n) [⟨.internet, p.bytes, n, [], {}⟩] := by
  refine ⟨.rfl, fun hnet _ => hnet.stations n, fun hnet h hh => (hnet.known n h hh).put .rfl,
    fun hnet q hq => ?_⟩
  obtain rfl := List.mem_singleton.mp hq
  obtain ⟨e, he⟩ := hnet.air p hp
  have hhops := he.carries.hops
  rw [hpath] at hhops
  refine ⟨e, ⟨he.carries.bytes, he.carries.version, hhops⟩, List.nodup_singleton n, fun _ => rfl,
    fun m hm => ?_⟩
  obtain rfl : m = n := List.mem_singleton.mp hm
  rw [stations_put_self]
  exact he.known m (horigin ▸ List.mem_cons_self)

theorem keeps_arrive {link : UUID} (hp : p ∈ net.air) (he : Envelope.ofWire? p.bytes = some e) :
    net.Keeps n ((net.stations n).handleInbound p link e) [] := by
  have hgrows : (net.stations n).Grows ((net.stations n).handleInbound p link e) :=
    Station.grows_handleInbound p link e
  have hflies : net.Sound → net.Flies p e := fun hnet => by
    obtain ⟨e', he'⟩ := hnet.air p hp
    obtain rfl : e = e' := Option.some.inj (he.symm.trans he'.carries.ofWire?)
    exact he'
  refine ⟨hgrows, fun hnet hfits => ?_, fun hnet h hh => ?_, fun _ q hq => by cases hq⟩
  · have hp := hflies hnet
    exact (hnet.stations n).handleInbound hp.carries hp.simple hp.internet
      (fun hn => hp.known n hn) hfits
  · have hcall : h ∈ (net.stations n).handling ∨ h.packet = p ∧ h.envelope = e := by
      unfold Station.handleInbound at hh
      split at hh
      · exact .inl hh
      · rcases List.mem_append.mp hh with hold | hnew
        · exact .inl hold
        · obtain rfl := List.mem_singleton.mp hnew
          exact .inr ⟨rfl, rfl⟩
    rcases hcall with hold | ⟨rfl, rfl⟩
    · exact (hnet.known n h hold).put hgrows
    · exact (hflies hnet).known.put hgrows

theorem keeps_exclusions {i : Nat} (hstep : (net.stations n).exclusions i = some s) :
    net.Keeps n s [] := by
  obtain ⟨h, forwarded, hi, hstage, rfl⟩ := Station.exclusions_cases hstep
  refine keeps_of_same ⟨fun _ hid => hid, rfl⟩ (fun hnet => (hnet.stations n).exclusions hi hstage)
    fun h' hh' => ?_
  rcases List.mem_or_eq_of_mem_set hh' with hold | rfl
  · exact ⟨h', hold, rfl, rfl⟩
  · exact ⟨h, List.mem_of_getElem? hi, rfl, rfl⟩

/-- A relay puts the envelope on the air with a hop less, and the device behind the others. -/
theorem keeps_relay {i : Nat} {updateValue : Nat → Bool} {relay : Relay ν}
    (hstep : (net.stations n).relay i updateValue = some (s, relay)) :
    net.Keeps n s [⟨.ble, relay.forwarded.wireData, relay.source.packet.origin,
      relay.source.packet.path ++ [n], relay.links.audience (s.links, relay.effects)⟩] := by
  obtain ⟨h, forwarded, asked, bytes, hi, hstage, _, hrelay, hnext⟩ := Station.relay_cases hstep
  have hgrows : (net.stations n).Grows s := by
    rw [show s = _ from hnext]
    exact ⟨fun _ hid => hid, rfl⟩
  have hsource : relay.source = h := by rw [show relay = _ from hrelay]
  have hmem : h ∈ (net.stations n).handling := List.mem_of_getElem? hi
  refine ⟨hgrows, fun hnet _ => ((hnet.stations n).relay hstep).1, fun hnet h' hh' => ?_,
    fun hnet q hq => ?_⟩
  · rw [show s = _ from hnext] at hh'
    rcases List.mem_or_eq_of_mem_set hh' with hold | rfl
    · exact (hnet.known n h' hold).put hgrows
    · exact (hnet.known n h hmem).put hgrows
  · obtain rfl := List.mem_singleton.mp hq
    have hsound : relay.Sound n := ((hnet.stations n).relay hstep).2
    obtain ⟨honward, httl⟩ := Station.of_forwarded hsound.forwarded
    have hid : relay.forwarded.id = h.envelope.id := by rw [honward, hsource]
    have hhops := hsound.source.carries.hops
    refine ⟨relay.forwarded, ⟨rfl, ?_, ?_⟩, ?_, nofun, fun m hm => ?_⟩
    · rw [honward]
      exact hsound.source.carries.version
    · show relay.forwarded.ttl.toNat + (relay.source.packet.path ++ [n]).length = _
      rw [List.length_append, List.length_singleton]
      omega
    · exact Window.nodup_snoc hsound.source.simple hsound.source.foreign
    · have hm : m ∈ (h.packet.origin :: h.packet.path) ++ [n] := hsource ▸ hm
      rw [hid]
      rcases List.mem_append.mp hm with hold | hself
      · exact ((hnet.known n h hmem).put hgrows) m hold
      · obtain rfl := List.mem_singleton.mp hself
        rw [stations_put_self]
        exact hgrows.passed ((hnet.stations m).marked h (List.mem_append_right _ hmem))

theorem keeps_receive {i : Nat} (hstep : (net.stations n).receive i = some s) :
    net.Keeps n s [] := by
  obtain ⟨h, hi, _, rfl⟩ := Station.receive_cases hstep
  exact keeps_of_same ⟨fun _ hid => hid, rfl⟩ (fun hnet => (hnet.stations n).receive hi)
    fun h' hh' => ⟨h', List.mem_of_mem_eraseIdx hh', rfl, rfl⟩

/-- A step is that of one device, or of none. -/
theorem keeps_of_step {peer : ν → UUID → ν} {event : Event ν}
    (hstep : net.step peer event = some net') :
    net' = net ∨ ∃ n s packets, net' = net.put n s packets ∧ net.Keeps n s packets := by
  cases event with
  | send n id ciphertext carrier updateValue =>
    obtain ⟨⟨s, packets⟩, hsend, rfl⟩ := Option.map_eq_some_iff.mp hstep
    exact .inr ⟨n, s, packets, rfl, keeps_send hsend⟩
  | publishOverNostr n id ciphertext =>
    simp only [step] at hstep
    obtain ⟨⟨s, packets⟩, hsend, rfl⟩ := Option.map_eq_some_iff.mp hstep
    exact .inr ⟨n, s, packets, rfl, keeps_send hsend⟩
  | rerouteToNostr n k =>
    obtain ⟨p, hp, hrest⟩ := Option.bind_eq_some_iff.mp hstep
    split at hrest
    · rename_i hown
      exact .inr ⟨n, _, _, (Option.some.inj hrest).symm,
        keeps_rerouteToNostr (List.mem_of_getElem? hp) hown.1 hown.2⟩
    · cases hrest
  | arrive n k link onto =>
    obtain ⟨p, hp, hrest⟩ := Option.bind_eq_some_iff.mp hstep
    split at hrest
    · split at hrest
      · rename_i e he
        exact .inr ⟨n, _, _, (Option.some.inj hrest).symm,
          keeps_arrive (List.mem_of_getElem? hp) he⟩
      · exact .inl (Option.some.inj hrest).symm
    · cases hrest
  | exclusions n i =>
    obtain ⟨s, hs, rfl⟩ := Option.map_eq_some_iff.mp hstep
    exact .inr ⟨n, s, [], rfl, keeps_exclusions hs⟩
  | relay n i updateValue =>
    obtain ⟨⟨s, relay⟩, hs, rfl⟩ := Option.map_eq_some_iff.mp hstep
    exact .inr ⟨n, s, _, rfl, keeps_relay hs⟩
  | receive n i =>
    obtain ⟨s, hs, rfl⟩ := Option.map_eq_some_iff.mp hstep
    exact .inr ⟨n, s, [], rfl, keeps_receive hs⟩
  | coordinator n c =>
    refine .inr ⟨n, _, [], (Option.some.inj hstep).symm, keeps_of_same ⟨fun _ hid => hid, rfl⟩
      (fun hnet => ?_) fun h hh => ⟨h, hh, rfl, rfl⟩⟩
    have hs := hnet.stations n
    exact ⟨hs.remembers, hs.once, hs.marked, hs.handling, hs.relayedOnce, hs.relayed⟩
  | links n l =>
    refine .inr ⟨n, _, [], (Option.some.inj hstep).symm, keeps_of_same ⟨fun _ hid => hid, rfl⟩
      (fun hnet => ?_) fun h hh => ⟨h, hh, rfl, rfl⟩⟩
    have hs := hnet.stations n
    exact ⟨hs.remembers, hs.once, hs.marked, hs.handling, hs.relayedOnce, hs.relayed⟩

/-- A network in which no device has had more identifiers than it can hold is sound. -/
theorem sound_of_run {peer : ν → UUID → ν} {capacity : ν → Nat} {events : List (Event ν)}
    (hrun : run (fun net => net.step peer) (launch capacity) events = some net) (hfits : net.Fits) :
    net.Sound := by
  refine run_invariant (fun net => net.Fits → net.Sound) (fun _ => True)
    (fun t hstep _ hpre hpost => ?_)
    (fun _ => sound_launch capacity) (fun _ _ => trivial) hrun hfits
  rcases keeps_of_step hstep with hsame | ⟨n, s, packets, hput, hkeeps⟩
  · rw [hsame] at hpost ⊢
    exact hpre hpost
  · rw [hput] at hpost ⊢
    exact hkeeps.put (hpre (hkeeps.fits_of_put hpost)) hpost

/-- No device relays an envelope twice or receives it twice, its origin not at all; the hops that
it has left are those that it was sent with less those of its path, which comes to no device twice;
and it is relayed only when it came over the radio, with one hop less, away from the peer that it
came from. -/
structure LoopFree (net : Network ν) : Prop where
  receivedOnce : ∀ n, ((net.stations n).received.map (·.envelope.id)).Nodup
  relayedOnce : ∀ n, ((net.stations n).relayed.map (·.forwarded.id)).Nodup
  received : ∀ n, ∀ h ∈ (net.stations n).received,
    h.packet.origin ≠ n ∧ (Node.hops h.envelope).toNat = h.packet.path.length
  air : ∀ p ∈ net.air, (p.origin :: p.path).Nodup ∧ p.path.length ≤ Envelope.maxHops.toNat ∧
    ∃ e, Envelope.ofWire? p.bytes = some e ∧ (Node.hops e).toNat = p.path.length
  relayed : ∀ n, ∀ r ∈ (net.stations n).relayed, r.source.packet.kind = .ble ∧
    r.source.packet.origin ≠ n ∧ r.forwarded.ttl.toNat + 1 = r.source.envelope.ttl.toNat ∧ r.Spares

theorem loop_free (peer : ν → UUID → ν) (capacity : ν → Nat) (events : List (Event ν))
    (hrun : run (fun net => net.step peer) (launch capacity) events = some net) (hfits : net.Fits) :
    net.LoopFree := by
  have hnet := sound_of_run hrun hfits
  refine ⟨fun n => ?_, fun n => (hnet.stations n).relayedOnce, fun n h hh => ?_, fun p hp => ?_,
    fun n r hr => ?_⟩
  · have honce := (hnet.stations n).once
    rw [List.map_append] at honce
    exact honce.of_append_left
  · have hsound := (hnet.stations n).handling h (List.mem_append_left _ hh)
    exact ⟨fun horigin => hsound.foreign (horigin ▸ List.mem_cons_self), hsound.carries.toNat_hops⟩
  · obtain ⟨e, he⟩ := hnet.air p hp
    have hhops := he.carries.hops
    exact ⟨he.simple, by omega, e, he.carries.ofWire?, he.carries.toNat_hops⟩
  · have hsound := ((hnet.stations n).relayed r hr).1
    exact ⟨hsound.radio, fun horigin => hsound.source.foreign (horigin ▸ List.mem_cons_self),
      (Station.of_forwarded hsound.forwarded).2, hsound.spares⟩

/-- Three devices in a ring: link `3` leads to the next one, every other link to the one before. -/
def ring (n : Fin 3) (link : UUID) : Fin 3 := if link = 3 then n + 1 else n - 1

/-- An envelope goes from one device over a second to a third, and its echoes come back to all of
them: the second and the third notify all that subscribe, the device that they have it from among
them. -/
def echoes : List (Event (Fin 3)) :=
  let id : MessageID := ⟨List.replicate 16 7, by decide⟩
  let links : Links :=
    { peers := {3}, writeTargets := {3}, subscribedCentrals := {5, 3}, notify.mailbox := true }
  [.links 0 { peers := {3}, writeTargets := {3} }, .links 1 links, .links 2 links,
    .send 0 id [1, 2] (some .ble) fun _ => true, .arrive 1 0 5 3, .exclusions 1 0,
    .relay 1 0 fun _ => true, .arrive 0 1 3 5, .arrive 2 1 5 3, .exclusions 2 0,
    .relay 2 0 fun _ => true, .arrive 0 2 5 3, .receive 1 0, .arrive 1 2 3 5, .receive 2 0]

theorem loop_free_echoes :
    ∃ net, run (fun net => net.step ring) (launch fun _ => 4) echoes = some net ∧
      net.air.map (·.path) = [[], [1], [1, 2]] ∧ net.LoopFree := by
  have hsome : (run (fun net => net.step ring) (launch fun _ => 4) echoes).map
      (fun net => (net.air.map (·.path), decide (∀ n, (net.stations n).Fits))) =
        some ([[], [1], [1, 2]], true) := by decide +kernel
  obtain ⟨net, hrun, hnet⟩ := Option.map_eq_some_iff.mp hsome
  obtain ⟨hair, hfits⟩ := Prod.mk.injEq .. ▸ hnet
  have hfits : ∀ n, (net.stations n).Fits := of_decide_eq_true hfits
  exact ⟨net, hrun, hair, loop_free _ _ _ hrun hfits⟩

/-- A device is asked for the links to keep out of, and learns only then that link `9` is of the
peer that the envelope came from; a third device subscribes, and so does that peer. -/
def lateLink : List (Event (Fin 3)) :=
  let id : MessageID := ⟨List.replicate 16 7, by decide⟩
  let early := { FirstContactCoordinator.new [] with linkPeers := AList.insert 5 [1] ∅ }
  [.links 0 { peers := {3}, writeTargets := {3} }, .send 0 id [1, 2] (some .ble) fun _ => true,
    .coordinator 1 early, .arrive 1 0 5 3, .exclusions 1 0,
    .coordinator 1 { early with linkPeers := AList.insert 9 [1] early.linkPeers },
    .links 1 { peers := {9}, writeTargets := {9}, subscribedCentrals := {5, 3}, notify.mailbox :=
      true }]

/-- The relay then writes to link `9`, and it notifies the link that the envelope came over. -/
theorem relay_to_source : ∃ (net net' : Network (Fin 3)) (r : Relay (Fin 3)) (bytes : Data),
    run (fun net => net.step ring) (launch fun _ => 4) lateLink = some net ∧
      net.step ring (.relay 1 0 fun _ => true) = some net' ∧ net'.Fits ∧
      (net'.stations 1).relayed = [r] ∧ r.source.link = 5 ∧
      (net.stations 1).coordinator.linkPeers.lookup 5 = some [1] ∧
      (net.stations 1).coordinator.linkPeers.lookup 9 = some [1] ∧
      r.effects = [.write {9} bytes, .update bytes] ∧ 5 ∈ r.links.subscribedCentrals := by
  let bytes : Data := [1, 0, 0, 0, 20, 1, 6] ++ List.replicate 16 7 ++ [1, 2]
  have hsome : (run (fun net => net.step ring) (launch fun _ => 4) lateLink).bind (fun net =>
      (net.step ring (.relay 1 0 fun _ => true)).map fun net' =>
        (decide ((∀ n, (net'.stations n).Fits) ∧
            (net.stations 1).coordinator.linkPeers.lookup 5 = some [1] ∧
            (net.stations 1).coordinator.linkPeers.lookup 9 = some [1]),
          (net'.stations 1).relayed.map fun r =>
            (decide (r.source.link = 5 ∧ 5 ∈ r.links.subscribedCentrals), r.effects))) =
      some (true, [(true, [.write {9} bytes, .update bytes])]) := by decide +kernel
  obtain ⟨net, hrun, hrest⟩ := Option.bind_eq_some_iff.mp hsome
  obtain ⟨net', hstep, hnet⟩ := Option.map_eq_some_iff.mp hrest
  simp only [Prod.mk.injEq, List.map_eq_singleton_iff] at hnet
  obtain ⟨hstate, r, hrelayed, hlinks, heffects⟩ := hnet
  obtain ⟨hfits, hsource, hlate⟩ := of_decide_eq_true hstate
  obtain ⟨hlink, hsubscribed⟩ := of_decide_eq_true hlinks
  exact ⟨net, net', r, bytes, hrun, hstep, hfits, hrelayed, hlink, hsource, hlate, heffects,
    hsubscribed⟩

end Network

end Flooding

end AeroNyra
