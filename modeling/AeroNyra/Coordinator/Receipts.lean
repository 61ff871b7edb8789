import AeroNyra.Coordinator.Receive

/-! What makes a delivery confirmed.  Only `confirmDelivery` records a confirmed state, only the
acknowledgement arm of `receive` calls it, and that arm is reached only from an envelope that opened
under an identity that was not blocked. -/

namespace AeroNyra

namespace MessageRouter

variable {r : MessageRouter} {id : MessageID} {a : Segment} {reply : Reply}

/-- A segment that resumes a call. -/
def Segment.isResumed : Segment → Bool
  | .call _ => false
  | _ => true

/-- What a segment suspends to is never the first segment of a call. -/
theorem resumed_of_suspend {p : MessageRouter × Outcome} {next : Segment}
    (h : r.exec a reply = some p) (hp : p.2 = .suspend next) : next.isResumed := by
  cases exec_resumes h hp with
  | send | resend | fallBack | publish | reroute | timer => rfl

def Segment.isConfirm : Segment → Bool
  | .call (.confirmDelivery _ _) => true
  | _ => false

theorem isConfirm_of_isResumed (h : a.isResumed) : a.isConfirm = false := by
  cases a with
  | call call => cases h
  | bleReplied | nostrReplied | publishReplied | rerouteReplied | timeoutFired => rfl

/-- No entry is created with a confirmed state. -/
theorem stateOf_of_opens {s : MessageDeliveryState} (h : a.opens r id = some s)
    (hs : s.isConfirmed) : r.stateOf id = some s := by
  have hsent : s ≠ .sent := by
    rintro rfl
    cases hs
  unfold Segment.opens at h
  split at h
  · split at h
    · exact absurd (Option.some.inj h).symm hsent
    · exact h
  · split at h
    · rename_i j
      split at h
      · rename_i hj
        subst hj
        cases hstate : r.stateOf id with
        | none =>
          rw [hstate] at h
          exact absurd (Option.some.inj h).symm hsent
        | some s' =>
          rw [hstate] at h
          exact h
      · exact h
    · exact h

/-- Only `confirmDelivery` records a confirmed state. -/
theorem confirmDelivery_of_records {p : MessageRouter × Outcome} {u : DeliveryUpdate}
    (h : r.exec a reply = some p) (hu : a.records r reply = some u) (hs : u.state.isConfirmed) :
    ∃ hops, a = .call (.confirmDelivery u.id hops) := by
  have htracked {j : MessageID} {s : MessageDeliveryState} (h : r.tracked j s = some u) :
      u = ⟨j, s⟩ := by
    obtain ⟨_, _, rfl⟩ := Option.map_eq_some_iff.mp h
    rfl
  cases hsend : a.sends r with
  | some envelope =>
    rw [Segment.records_of_sends reply hsend] at hu
    split at hu
    · cases hu
    · cases hu
      cases hs
  | none =>
    unfold Segment.records at hu
    rw [hsend] at hu
    dsimp only at hu
    split at hu
    · rw [htracked hu] at hs
      cases hs
    · rename_i j hops
      rw [htracked hu]
      exact ⟨hops, rfl⟩
    · rw [htracked hu] at hs
      cases hs
    · rw [htracked hu] at hs
      cases hs
    · cases hu
      cases hs
    · cases hu
      cases hs
    · split at hu
      · cases hu
      · cases hu
        cases hs
    · obtain ⟨s, hpub, rfl⟩ := Option.map_eq_some_iff.mp hu
      rw [publishResult_unconfirmed hpub] at hs
      cases hs
    · rw [htracked hu] at hs
      cases hs
    · split at hu
      · cases hu
        cases hs
      · cases hu
    · cases hu

/-- A message becomes confirmed only in a `confirmDelivery` of it. -/
theorem confirmDelivery_of_confirms {p : MessageRouter × Outcome} {s : MessageDeliveryState}
    (h : r.exec a reply = some p) (hpost : p.1.stateOf id = some s) (hs : s.isConfirmed)
    (hpre : r.stateOf id ≠ some s) : ∃ hops, a = .call (.confirmDelivery id hops) := by
  rw [(exec_effect h).stateOf id] at hpost
  cases hrec : a.records r reply with
  | none =>
    rw [hrec] at hpost
    exact absurd (stateOf_of_opens hpost hs) hpre
  | some u =>
    rw [hrec] at hpost
    dsimp only [Option.elim] at hpost
    split at hpost
    · rename_i hid
      obtain ⟨_, _, hu⟩ := Option.map_eq_some_iff.mp hpost
      obtain ⟨hops, ha⟩ := confirmDelivery_of_records h hrec (hu ▸ hs)
      exact ⟨hops, hid ▸ ha⟩
    · exact absurd (stateOf_of_opens hpost hs) hpre

/-! ### What a confirmation changes -/

/-- The entry of `id` and its timer are the same. -/
structure SameFor (r : MessageRouter) (id : MessageID) (s : MessageRouter) : Prop where
  entry : r.outbox.lookup id = s.outbox.lookup id
  timer : r.timeouts.lookup id = s.timeouts.lookup id

theorem SameFor.stateOf {s : MessageRouter} (h : r.SameFor id s) : r.stateOf id = s.stateOf id := by
  simp only [MessageRouter.stateOf, h.entry]

/-- The state that an acknowledgement with these hops gives. -/
def confirmedBy (hops : Int) : MessageDeliveryState := if hops ≤ 0 then .delivered
    else .relayed hops

theorem isTerminal_confirmedBy (hops : Int) : (confirmedBy hops).isTerminal := by
  unfold confirmedBy
  split <;> rfl

/-- The message is tracked, and not yet in the state that the acknowledgement gives, or timed. -/
def Awaits (r : MessageRouter) (id : MessageID) (hops : Int) : Prop :=
  ∃ s, r.stateOf id = some s ∧ (s ≠ confirmedBy hops ∨ r.timeouts.lookup id ≠ none)

theorem timeouts_update_of_terminal {s : MessageDeliveryState} (h : s.isTerminal) :
    (r.update id s).timeouts.lookup id = none := by
  simp [update, h, cancelTimeout]

/-- An acknowledgement changes something exactly for a message that awaits one. -/
theorem sameFor_confirmDelivery_iff {hops : Int} :
    (r.confirmDelivery id hops).SameFor id r ↔ ¬r.Awaits id hops := by
  show (r.updateTracked id (confirmedBy hops)).SameFor id r ↔ _
  unfold updateTracked
  split
  · rename_i hnone
    refine iff_of_true ⟨rfl, rfl⟩ ?_
    rintro ⟨s, hs, _⟩
    simp [stateOf, hnone] at hs
  · rename_i e he
    have hstate : r.stateOf id = some e.state := by simp [stateOf, he]
    have hentry : (r.update id (confirmedBy hops)).outbox.lookup id =
        some { e with state := confirmedBy hops } := by
      simp [he]
    have htimer : (r.update id (confirmedBy hops)).timeouts.lookup id = none :=
      timeouts_update_of_terminal (isTerminal_confirmedBy hops)
    constructor
    · rintro hsame ⟨s, hs, hchanges⟩
      obtain rfl := Option.some.inj (hstate.symm.trans hs)
      rcases hchanges with hstate | htimed
      · have heq := Option.some.inj (hentry.symm.trans (hsame.entry.trans he))
        exact hstate (congrArg (·.state) heq).symm
      · exact htimed (hsame.timer.symm.trans htimer)
    · intro hsettled
      have hsame : e.state = confirmedBy hops := by
        by_contra hne
        exact hsettled ⟨_, hstate, .inl hne⟩
      have huntimed : r.timeouts.lookup id = none := by
        by_contra hne
        exact hsettled ⟨_, hstate, .inr hne⟩
      refine ⟨?_, htimer.trans huntimed.symm⟩
      rw [hentry, he, ← hsame]

end MessageRouter

namespace Outbound

open Interleave MessageRouter

/-- The action runs `confirmDelivery`. -/
def Action.confirms (a : Action) : Bool := a.segment?.any (·.isConfirm)

theorem not_confirms_of_mem_script {m : Outgoing} {isReachable : Bool} {script : List Action}
    (h : m.script isReachable = some script) {b : Action} (hb : b ∈ script) :
    b.confirms = false := by
  have hfinish (overBLE : Bool) (id : MessageID) : (Action.finish overBLE id).confirms = false := by
    cases overBLE <;> rfl
  cases m with
  | text id ciphertext rawKey nostrRecipient =>
    simp only [Outgoing.script, send] at h
    split at h
    · obtain rfl := Option.some.inj h
      obtain rfl := List.mem_singleton.mp hb
      rfl
    · obtain ⟨recipient, _, rfl⟩ := Option.map_eq_some_iff.mp h
      simp only [castOverNostr, List.mem_cons, List.not_mem_nil, or_false] at hb
      rcases hb with rfl | rfl | rfl
      · rfl
      · rfl
      · exact hfinish _ _
  | media id payloads rawKey nostrRecipient redrive =>
    obtain rfl := Option.some.inj h
    rcases List.mem_cons.mp hb with rfl | hb
    · rfl
    · generalize goingOverBLE redrive isReachable = leg at hb
      cases leg with
      | true =>
        rcases List.mem_append.mp hb with hb | hb
        · obtain ⟨envelope, _, hb⟩ := List.mem_flatMap.mp hb
          simp only [emitOverBLE, routeOut, List.mem_cons, List.not_mem_nil, or_false] at hb
          rcases hb with rfl | rfl <;> rfl
        · obtain rfl := List.mem_singleton.mp hb
          exact hfinish _ _
      | false =>
        cases nostrRecipient with
        | none =>
          obtain rfl := List.mem_singleton.mp hb
          rfl
        | some recipient =>
          rcases List.mem_append.mp hb with hb | hb
          · obtain ⟨envelope, _, hb⟩ := List.mem_flatMap.mp hb
            simp only [emitOverNostr, List.mem_cons, List.not_mem_nil, or_false] at hb
            rcases hb with rfl | rfl <;> rfl
          · obtain rfl := List.mem_singleton.mp hb
            exact hfinish _ _

theorem failed_of_handedOver {fails : Option MessageID} {s : MessageDeliveryState} {b : Action}
    (hb : b ∈ (handedOver fails (.returned s)).added) : ∃ id, b ∈ failed id := by
  simp only [handedOver] at hb
  split at hb
  · cases hb
  · cases fails with
    | none => cases hb
    | some id => exact ⟨id, hb⟩

/-- No action brings in a `confirmDelivery`. -/
theorem not_confirms_of_added {r s : MessageRouter} {a : Action} {reply : Reply} {x : Exit Action}
    (h : exec r a reply = some (s, x)) {b : Action} (hb : b ∈ x.added) : b.confirms = false := by
  have hfailed (id : MessageID) (hb : b ∈ failed id) : b.confirms = false := by
    obtain rfl := List.mem_singleton.mp hb
    rfl
  unfold exec at h
  split at h
  · obtain ⟨⟨s', outcome⟩, hr, hp⟩ := Option.map_eq_some_iff.mp h
    cases hp
    cases outcome with
    | suspend next =>
      obtain rfl := List.mem_singleton.mp hb
      exact isConfirm_of_isResumed (resumed_of_suspend hr rfl)
    | returned state => cases hb
    | rerouted count => cases hb
    | finished => cases hb
  · cases h
    cases hb
  · cases h
    cases hb
  · rename_i m isReachable
    cases hs : m.script isReachable with
    | none =>
      rw [hs] at h
      cases h
      cases hb
    | some script =>
      rw [hs] at h
      cases h
      exact not_confirms_of_mem_script hs hb
  · cases h
    cases hb
  · cases h
    cases hb
  · cases h
    exact hfailed _ hb
  · obtain ⟨⟨s', outcome⟩, hr, hp⟩ := Option.map_eq_some_iff.mp h
    cases hp
    cases outcome with
    | suspend next =>
      obtain rfl := List.mem_singleton.mp hb
      exact isConfirm_of_isResumed (resumed_of_suspend hr rfl)
    | returned state =>
      obtain ⟨j, hj⟩ := failed_of_handedOver hb
      exact hfailed j hj
    | rerouted count => cases hb
    | finished => cases hb
  · cases h
    exact hfailed _ hb
  · cases h
    cases hb
  · obtain ⟨q, _, hp⟩ := Option.map_eq_some_iff.mp h
    cases hp
    cases hb
  · cases h

end Outbound

namespace Node

open Interleave

variable {rawKeyOf : Data → Option Data} {hashHex : Data → String}
  {decodeManifest : Data → Option MediaManifest} {n : Node}

/-- The plaintext of `m` is an acknowledgement of `wireID`. -/
def Opened.Acknowledges (m : Opened) (wireID : MessageID) (hops : UInt8) : Prop :=
  ∃ body, MessagePayload.decodeSealed m.plaintext = some ⟨.ack, body⟩ ∧
    MessagePayload.parseDeliveryAck body = some (wireID, hops)

/-- The step opens `m` under the session of an identity that is not blocked. -/
def Step.Opens (m : Opened) (t : Step) : Prop :=
  ∃ announcement, t.pre.acts t.event =
      some (.openInbound m.envelope, .opened m.rawKey m.plaintext announcement) ∧
    m.rawKey ∉ t.pre.shared.coordinator.blockedIdentities

/-- Where an action of a call comes from, as far as confirmations go. -/
def Sourced (past : List Step) : Action → Prop
  | .outbound a => a.confirms = false
  | .dispatch m => ∃ u ∈ past, u.Opens m
  | .confirm m wireID hops => (∃ u ∈ past, u.Opens m) ∧ m.Acknowledges wireID hops
  | .carryAck _ a => a.isConfirm = false
  | .presence _ | .openInbound _ | .sendDeliveryAck _ => True

theorem sourced_mono (past : List Step) (t : Step) (a : Action) (h : Sourced past a) :
    Sourced (past ++ [t]) a := by
  have hmono {m : Opened} : (∃ u ∈ past, u.Opens m) → ∃ u ∈ past ++ [t], u.Opens m := by
    rintro ⟨u, hu, hm⟩
    exact ⟨u, List.mem_append_left _ hu, hm⟩
  cases a with
  | outbound a => exact h
  | presence a => trivial
  | openInbound envelope => trivial
  | dispatch m => exact hmono h
  | confirm m wireID hops => exact ⟨hmono h.1, h.2⟩
  | sendDeliveryAck receipt => trivial
  | carryAck receipt a => exact h

theorem finishMedia_added {m : Opened}
    {ingested : MediaReassembler × Option MediaReassembler.Completed} {b : Action}
    (hb : b ∈ (n.finishMedia m ingested).2.added) : ∃ receipt, b = .sendDeliveryAck receipt := by
  unfold finishMedia at hb
  dsimp only at hb
  split at hb
  · cases hb
  · split at hb
    · exact ⟨_, List.mem_singleton.mp hb⟩
    · cases hb

/-- `receive` goes on with an acknowledgement of its own, or with the confirmation that the payload
asks for. -/
theorem dispatch_added {m : Opened} {b : Action}
    (hb : b ∈ (n.dispatch hashHex decodeManifest m).2.added) :
    (∃ receipt, b = .sendDeliveryAck receipt) ∨
    ∃ wireID hops, b = .confirm m wireID hops ∧ m.Acknowledges wireID hops := by
  unfold dispatch at hb
  split at hb
  · cases hb
  · split at hb
    · exact .inl ⟨_, List.mem_singleton.mp hb⟩
    · cases hb
  · split at hb
    · split at hb
      · cases hb
      · exact .inl (finishMedia_added hb)
    · cases hb
  · split at hb
    · exact .inl (finishMedia_added hb)
    · cases hb
  · rename_i body hbody
    split at hb
    · cases hb
    · rename_i wireID hops hparse
      exact .inr ⟨wireID, hops, List.mem_singleton.mp hb, body, hbody, hparse⟩
  · cases hb

theorem sourced_of_dispatch {past : List Step} {m : Opened} (hm : ∃ u ∈ past, u.Opens m)
    {b : Action} (hb : b ∈ (n.dispatch hashHex decodeManifest m).2.added) : Sourced past b := by
  rcases dispatch_added hb with ⟨receipt, rfl⟩ | ⟨wireID, hops, rfl, hack⟩
  · trivial
  · exact ⟨hm, hack⟩

/-- What an action brings in comes from where it should. -/
theorem sourced_added {past : List Step} {t : Step} {a : Action} {reply : Reply} {n' : Node}
    {x : Exit Action} (hacts : t.pre.acts t.event = some (a, reply))
    (hx : exec rawKeyOf hashHex decodeManifest t.pre.shared a reply = some (n', x))
    (h : Sourced past a) : ∀ b ∈ x.added, Sourced (past ++ [t]) b := by
  intro b hb
  unfold exec at hx
  split at hx
  · obtain ⟨p, hp, heq⟩ := Option.map_eq_some_iff.mp hx
    cases heq
    obtain ⟨a', ha', rfl⟩ := mem_added_map hb
    exact Outbound.not_confirms_of_added hp ha'
  · obtain ⟨p, _, heq⟩ := Option.map_eq_some_iff.mp hx
    cases heq
    obtain ⟨a', _, rfl⟩ := mem_added_map hb
    trivial
  · rename_i envelope rawKey plaintext announcement
    have hp := congrArg Prod.snd (Option.some.inj hx)
    have hopens (hfree : rawKey ∉ t.pre.shared.coordinator.blockedIdentities) :
        ∃ u ∈ past ++ [t], u.Opens ⟨envelope, rawKey, plaintext⟩ :=
      ⟨t, List.mem_append_right _ (List.mem_singleton_self t), announcement, hacts, hfree⟩
    dsimp only at hp
    subst hp
    unfold receiveOpened at hb
    split at hb
    · cases hb
    · rename_i hfree
      split at hb
      · exact sourced_of_dispatch (hopens hfree) hb
      · rcases List.mem_cons.mp hb with rfl | hb
        · rfl
        · obtain rfl := List.mem_singleton.mp hb
          exact hopens hfree
  · cases hx
    cases hb
  · have hp := congrArg Prod.snd (Option.some.inj hx)
    dsimp only at hp
    subst hp
    exact sourced_of_dispatch (sourced_mono past t _ h) hb
  · cases hx
    cases hb
  · cases hx
    unfold sendDeliveryAck at hb
    split at hb
    · obtain rfl := List.mem_singleton.mp hb
      rfl
    · split at hb
      · obtain rfl := List.mem_singleton.mp hb
        rfl
      · cases hb
  · cases hx
    cases hb
  · obtain ⟨⟨s, outcome⟩, hp, heq⟩ := Option.map_eq_some_iff.mp hx
    cases heq
    obtain ⟨a', ha', rfl⟩ := mem_added_map hb
    cases outcome with
    | suspend next =>
      obtain rfl := List.mem_singleton.mp ha'
      exact MessageRouter.isConfirm_of_isResumed (MessageRouter.resumed_of_suspend hp rfl)
    | returned state => cases ha'
    | rerouted count => cases ha'
    | finished => cases ha'
  · cases hx

theorem sourced_start (past : List Step) (call : Call) :
    ∀ a ∈ ((machine rawKeyOf hashHex decodeManifest).thread call).todo ++
      ((machine rawKeyOf hashHex decodeManifest).thread call).onThrow, Sourced past a := by
  intro a ha
  rw [List.mem_append] at ha
  cases call with
  | send announcement m =>
    simp only [machine, List.not_mem_nil, or_false] at ha
    obtain ⟨b, hb, rfl⟩ := List.mem_map.mp ha
    simp only [Outbound.actions, List.cons_append, List.mem_cons, List.mem_append, List.mem_map,
      List.not_mem_nil, or_false] at hb
    rcases hb with rfl | ⟨announced, _, rfl⟩ | rfl <;> rfl
  | router call =>
    simp only [machine, List.mem_singleton, List.not_mem_nil, or_false] at ha
    subst ha
    cases hcall : call.call with
    | confirmDelivery id hops => exact absurd hcall (call.other id hops)
    | send | publishOverNostr | rerouteToNostr | beginTracking | startDeliveryTimeout
    | extendTimeout | resend | markFindingPath | confirmFailure | commitToRelay | timer => rfl
  | presence call =>
    simp only [machine, List.mem_singleton, List.not_mem_nil, or_false] at ha
    subst ha
    trivial
  | receive envelope =>
    simp only [machine, List.mem_singleton, List.not_mem_nil, or_false] at ha
    subst ha
    trivial

theorem finishMedia_router {m : Opened}
    {ingested : MediaReassembler × Option MediaReassembler.Completed} :
    (n.finishMedia m ingested).1.router = n.router := by
  unfold finishMedia emitMedia
  dsimp only
  split
  · rfl
  · split <;> rename_i hmatch <;> split at hmatch <;> cases hmatch <;> rfl

/-- Only the confirmation that `receive` goes on with touches the router. -/
theorem dispatch_router {m : Opened} :
    (n.dispatch hashHex decodeManifest m).1.router = n.router := by
  unfold dispatch
  split
  · rfl
  · split <;> rfl
  · split
    · split
      · rfl
      · exact finishMedia_router
    · rfl
  · split
    · exact finishMedia_router
    · rfl
  · split <;> rfl
  · rfl

theorem receiveOpened_router {m : Opened} {announcement : Option Outbound.Announcement} :
    (n.receiveOpened hashHex decodeManifest m announcement).1.router = n.router := by
  unfold receiveOpened
  split
  · rfl
  · cases announcement with
    | none => exact dispatch_router
    | some announcement => rfl

/-- An action that comes from where it should confirms a message only as a confirmation. -/
theorem confirm_of_confirms {past : List Step} {a : Action} {reply : Reply} {n' : Node}
    {x : Exit Action} {id : MessageID} {s : MessageDeliveryState} (hsourced : Sourced past a)
    (h : exec rawKeyOf hashHex decodeManifest n a reply = some (n', x))
    (hpost : n'.router.stateOf id = some s) (hs : s.isConfirmed)
    (hpre : n.router.stateOf id ≠ some s) : ∃ m hops, a = .confirm m id hops := by
  have hsame (hrouter : n'.router = n.router) : False := hpre (hrouter ▸ hpost)
  have hsegment {segment : MessageRouter.Segment} {answer : MessageRouter.Reply}
      {q : MessageRouter × MessageRouter.Outcome} (hq : n.router.exec segment answer = some q)
      (hrouter : n'.router = q.1) (hno : segment.isConfirm = false) : False := by
    obtain ⟨hops, rfl⟩ := MessageRouter.confirmDelivery_of_confirms hq (hrouter ▸ hpost) hs hpre
    cases hno
  unfold exec at h
  split at h
  · rename_i a reply
    obtain ⟨p, hp, heq⟩ := Option.map_eq_some_iff.mp h
    cases heq
    rcases Outbound.exec_router hp with ⟨_, hr⟩ | ⟨segment, q, hseg, hq, hr⟩
    · exact (hsame hr).elim
    · refine (hsegment hq hr ?_).elim
      have hsourced : a.confirms = false := hsourced
      rw [Outbound.Action.confirms, hseg] at hsourced
      exact hsourced
  · obtain ⟨p, _, heq⟩ := Option.map_eq_some_iff.mp h
    cases heq
    exact (hsame rfl).elim
  · rename_i envelope rawKey plaintext announcement
    have hn : (n.receiveOpened hashHex decodeManifest ⟨envelope, rawKey, plaintext⟩
        announcement).1 = n' := congrArg Prod.fst (Option.some.inj h)
    exact (hsame (hn ▸ receiveOpened_router)).elim
  · cases h
    exact (hsame rfl).elim
  · have hn : (n.dispatch hashHex decodeManifest _).1 = n' := congrArg Prod.fst (Option.some.inj h)
    exact (hsame (hn ▸ dispatch_router)).elim
  · rename_i m wireID hops
    cases h
    have hconfirm : (n.router.confirmDelivery wireID hops.toNat).stateOf id = some s := hpost
    have hq : n.router.exec (.call (.confirmDelivery wireID hops.toNat)) .ok =
        some (n.router.confirmDelivery wireID hops.toNat, .finished) := rfl
    obtain ⟨_, heq⟩ := MessageRouter.confirmDelivery_of_confirms hq hconfirm hs hpre
    cases heq
    exact ⟨m, hops, rfl⟩
  · cases h
    exact (hsame rfl).elim
  · cases h
    exact (hsame rfl).elim
  · obtain ⟨p, hp, heq⟩ := Option.map_eq_some_iff.mp h
    cases heq
    exact (hsegment hp rfl hsourced).elim
  · cases h

/-! ### Confirmed deliveries -/

/-- What an envelope of a blocked identity does. -/
theorem receiveOpened_blocked {m : Opened} {announcement : Option Outbound.Announcement}
    (h : m.rawKey ∈ n.coordinator.blockedIdentities) :
    n.receiveOpened hashHex decodeManifest m announcement = (n, .goOn []) := if_pos h

/-- In every run, a delivery becomes confirmed only in the confirmation that an acknowledgement of
that message asks for, opened under an identity that was not blocked; and an envelope opened under
a blocked identity changes nothing. -/
theorem confirmed_by_receipt (localIdentity : Data) (transports : List MeshTransport)
    (seenCapacity : Nat) (events : List (Event Call Reply)) (c c' : Config Node Action)
    (event : Event Call Reply)
    (hrun : run (machine rawKeyOf hashHex decodeManifest).step
      ⟨launch localIdentity transports seenCapacity, []⟩ events = some c)
    (hstep : (machine rawKeyOf hashHex decodeManifest).step c event = some c') :
    (∀ id s, c'.shared.router.stateOf id = some s → s.isConfirmed →
      c.shared.router.stateOf id ≠ some s →
      ∃ m hops reply, c.acts event = some (.confirm m id hops, reply) ∧ m.Acknowledges id hops ∧
        ∃ u ∈ steps rawKeyOf hashHex decodeManifest localIdentity transports seenCapacity events,
          u.Opens m) ∧
    (∀ envelope rawKey plaintext announcement,
      c.acts event = some (.openInbound envelope, .opened rawKey plaintext announcement) →
      rawKey ∈ c.shared.coordinator.blockedIdentities → c'.shared = c.shared) := by
  have hsources := Machine.todo_history (J := Sourced) sourced_mono sourced_start
    (fun past t a reply x hacts hx h => sourced_added hacts hx h) hrun
  rcases Machine.step_cases hstep with ⟨call, rfl, rfl⟩ | ⟨i, reply, a, rest, handler, n', x, rfl,
    hi, hx, hacts, rfl⟩
  · exact ⟨fun id s hpost _ hpre => absurd hpost hpre, fun _ _ _ _ _ _ => rfl⟩
  · have hsource := hsources _ (List.mem_of_getElem? hi) a
      (List.mem_append_left _ List.mem_cons_self)
    constructor
    · intro id s hpost hs hpre
      obtain ⟨m, hops, rfl⟩ := confirm_of_confirms hsource hx hpost hs hpre
      exact ⟨m, hops, reply, hacts, hsource.2, hsource.1⟩
    · intro envelope rawKey plaintext announcement hopens hblocked
      cases hacts.symm.trans hopens
      have hsame : (c.shared.receiveOpened hashHex decodeManifest ⟨envelope, rawKey, plaintext⟩
          announcement).1 = n' := congrArg Prod.fst (Option.some.inj hx)
      rw [receiveOpened_blocked hblocked] at hsame
      exact hsame.symm

/-! ### Receipts of the addressee -/

/-- The step commits a message with the identifier `id` to the identity `k`. -/
def Step.SendsTo (id : MessageID) (k : Data) (t : Step) : Prop :=
  ∃ m isReachable, t.pre.acts t.event =
      some (.outbound (.commit m), .outbound (.reachable isReachable)) ∧ m.id = id ∧ m.rawKey = k

/-- The step acts on the acknowledgement of `id` that `m` carries. -/
def Step.Confirms (m : Opened) (id : MessageID) (hops : UInt8) (t : Step) : Prop :=
  ∃ reply, t.pre.acts t.event = some (.confirm m id hops, reply)

/-- A message is confirmed only by an acknowledgement that opened under the session of the identity
that it was sent to, and any other one leaves its entry and its timer as they were. -/
structure Step.Authentic (past : List Step) (t : Step) : Prop where
  confirms : ∀ id k s, (∃ u ∈ past, u.SendsTo id k) → t.post.shared.router.stateOf id = some s →
    s.isConfirmed → t.pre.shared.router.stateOf id ≠ some s →
    ∃ m hops, t.Confirms m id hops ∧ m.Acknowledges id hops ∧ (∃ u ∈ past, u.Opens m) ∧ m.rawKey = k
  ignores : ∀ id k m hops, (∃ u ∈ past, u.SendsTo id k) → t.Confirms m id hops → m.rawKey ≠ k →
    t.post.shared.router.SameFor id t.pre.shared.router

/-- The step acts on an acknowledgement that opened under another session than that of the identity
the message was sent to, while the message still awaits one. -/
def Step.Forges (past : List Step) (t : Step) : Prop :=
  ∃ id k m hops, (∃ u ∈ past, u.SendsTo id k) ∧ t.Confirms m id hops ∧ m.rawKey ≠ k ∧
    t.pre.shared.router.Awaits id hops.toNat

theorem Step.Confirms.router {t : Step} {m : Opened} {id : MessageID} {hops : UInt8}
    (ht : (machine rawKeyOf hashHex decodeManifest).step t.pre t.event = some t.post)
    (h : t.Confirms m id hops) :
    t.post.shared.router = t.pre.shared.router.confirmDelivery id hops.toNat := by
  obtain ⟨reply, hacts⟩ := h
  rcases Machine.step_cases ht with ⟨call, he, _⟩ | ⟨i, reply', a, rest, handler, n', x, _, _, hx,
    hacts', hpost⟩
  · rw [he] at hacts
    cases hacts
  · cases hacts.symm.trans hacts'
    rw [hpost]
    cases reply with
    | done =>
      cases hx
      rfl
    | outbound | presence | opened | sealed | router | threw => cases hx

/-- Over every run, the acknowledgements are authentic at each step exactly when no step acts on one
from another identity for a message that awaits one. -/
theorem receipts_authentic_iff (localIdentity : Data) (transports : List MeshTransport)
    (seenCapacity : Nat) (events : List (Event Call Reply)) :
    (∀ past t rest, steps rawKeyOf hashHex decodeManifest localIdentity transports seenCapacity
      events = past ++ t :: rest → t.Authentic past) ↔
    ∀ past t rest, steps rawKeyOf hashHex decodeManifest localIdentity transports seenCapacity
      events = past ++ t :: rest → ¬t.Forges past := by
  have hstep {past : List Step} {t : Step} {rest : List Step}
      (h : steps rawKeyOf hashHex decodeManifest localIdentity transports seenCapacity events =
        past ++ t :: rest) :
      (machine rawKeyOf hashHex decodeManifest).step t.pre t.event = some t.post := by
    have hmem : t ∈ steps rawKeyOf hashHex decodeManifest localIdentity transports seenCapacity
        events := h ▸ List.mem_append_right _ List.mem_cons_self
    exact step_of_mem_trace hmem
  constructor
  · rintro hauthentic past t rest h ⟨id, k, m, hops, hsent, hconfirms, hother, hawaits⟩
    have hsame := (hauthentic past t rest h).ignores id k m hops hsent hconfirms hother
    rw [hconfirms.router (hstep h)] at hsame
    exact MessageRouter.sameFor_confirmDelivery_iff.mp hsame hawaits
  · intro hfree past t rest h
    refine ⟨fun id k s hsent hpost hs hpre => ?_, fun id k m hops hsent hconfirms hother => ?_⟩
    · obtain ⟨fs, hrun, hpast⟩ := run_of_trace_eq h
      obtain ⟨m, hops, reply, hacts, hack, hopens⟩ :=
        (confirmed_by_receipt localIdentity transports seenCapacity fs t.pre t.post t.event hrun
          (hstep h)).1 id s hpost hs hpre
      refine ⟨m, hops, ⟨reply, hacts⟩, hack, hpast ▸ hopens, ?_⟩
      by_contra hother
      refine hfree past t rest h ⟨id, k, m, hops, hsent, ⟨reply, hacts⟩, hother, ?_⟩
      by_contra hsettled
      have hsame := MessageRouter.sameFor_confirmDelivery_iff.mpr hsettled
      rw [← Step.Confirms.router (hstep h) ⟨reply, hacts⟩] at hsame
      exact hpre (hsame.stateOf ▸ hpost)
    · rw [hconfirms.router (hstep h)]
      refine MessageRouter.sameFor_confirmDelivery_iff.mpr fun hawaits => ?_
      exact hfree past t rest h ⟨id, k, m, hops, hsent, hconfirms, hother, hawaits⟩

/-- A text goes out to one identity, and another one acknowledges it. -/
def forgedReceipt : List (Event Call Reply) :=
  [.start (.send none (.text (.filled 1) [] (.replicate 32 5) none)), .step 0 (.outbound .done),
    .step 0 (.outbound (.reachable true)), .step 0 (.outbound (.router .ok)),
    .step 0 (.outbound (.router .ok)), .start (.receive (.new (.filled 2) [])),
    .step 1 (.opened (.replicate 32 6) (MessagePayload.deliveryAck (.filled 1) 0).sealedPlaintext
      none)]

/-- The steps of a run whose bundle parser, digest and manifest decoder are never called. -/
abbrev bareSteps : List (Event Call Reply) → List Step :=
  steps (fun _ => none) (fun _ => "") (fun _ => none) [] [⟨.ble, false⟩] 1

set_option maxRecDepth 8192 in
/-- The acknowledgement need not come from the identity that the message was sent to. -/
theorem forged_receipt_confirms : ∃ t : Step,
    bareSteps (forgedReceipt ++ [.step 1 .done]) = bareSteps forgedReceipt ++ [t] ∧
      t.post.shared.router.stateOf (.filled 1) = some .delivered ∧
      ¬t.Authentic (bareSteps forgedReceipt) := by
  obtain ⟨c, c', hrun, hstep, hpre, hpost, hacts⟩ : ∃ c c',
      run (machine (fun _ => none) (fun _ => "") fun _ => none).step
        ⟨launch [] [⟨.ble, false⟩] 1, []⟩ forgedReceipt = some c ∧
      (machine (fun _ => none) (fun _ => "") fun _ => none).step c (.step 1 .done) = some c' ∧
      c.shared.router.stateOf (.filled 1) = some .sent ∧
      c'.shared.router.stateOf (.filled 1) = some .delivered ∧
      c.acts (.step 1 .done : Event Call Reply) = some (.confirm ⟨.new (.filled 2) [],
        .replicate 32 6, (MessagePayload.deliveryAck (.filled 1) 0).sealedPlaintext⟩ (.filled 1) 0,
        .done) := ⟨_, _, rfl, rfl, rfl, rfl, rfl⟩
  have htrace : bareSteps (forgedReceipt ++ [.step 1 .done]) =
      bareSteps forgedReceipt ++ [⟨c, .step 1 .done, c'⟩] := by
    refine (trace_append hrun).trans (congrArg _ ?_)
    rw [trace_cons hstep]
    rfl
  have hsent : ∃ u ∈ bareSteps forgedReceipt, u.SendsTo (.filled 1) (.replicate 32 5) :=
    ⟨_, List.mem_of_getElem? (i := 2) rfl, _, _, rfl, rfl, rfl⟩
  refine ⟨_, htrace, hpost, fun hauthentic => ?_⟩
  obtain ⟨m, hops, ⟨reply, hconfirms⟩, _, _, hkey⟩ :=
    hauthentic.confirms (.filled 1) (.replicate 32 5) .delivered hsent hpost rfl (by simp [hpre])
  cases hacts.symm.trans hconfirms
  revert hkey
  decide

end Node

end AeroNyra
