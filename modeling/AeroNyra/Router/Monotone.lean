import AeroNyra.Lib.Interleave
import AeroNyra.Router.Step

/-! Runs of the router actor, and when a confirmed message stays confirmed over them.  `update`
writes whatever it is given, and only `timeoutFired` looks at the entry first, so a message loses
its confirmation exactly when a segment that was already under way, or a failure or commit called
from above, reaches `update` after the acknowledgement. -/

namespace AeroNyra.MessageRouter

open Interleave

/-- How a segment's outcome leaves its call. -/
def Outcome.exit : Outcome → Exit Segment
  | .suspend next => .goOn [next]
  | .returned _ | .rerouted _ | .finished => .goOn []

/-- The router with its calls in progress. -/
def machine : Machine MessageRouter Segment Call Reply where
  thread call := ⟨[.call call], []⟩
  exec r a reply := (r.exec a reply).map fun p => (p.1, p.2.exit)

/-- A step of a run of the router. -/
abbrev Step := Transition (Config MessageRouter Segment) (Event Call Reply)

/-- The steps of a run from a new router. -/
def steps (transports : List MeshTransport) (seenCapacity : Nat)
    (events : List (Event Call Reply)) : List Step :=
  trace machine.step ⟨.new transports seenCapacity, []⟩ events

/-- An acknowledgement of `id` has been recorded. -/
def Confirmed (r : MessageRouter) (id : MessageID) : Prop :=
  (r.stateOf id).any (·.isConfirmed)

instance (r : MessageRouter) (id : MessageID) : Decidable (r.Confirmed id) :=
  inferInstanceAs (Decidable (_ = true))

/-- The segment begins a tracked send of `id`. -/
def Segment.StartsSend (id : MessageID) (r : MessageRouter) (a : Segment) (_ : Reply) : Prop :=
  ∃ envelope, a.sends r = some envelope ∧ envelope.id = id

/-- A confirmed `id` stays confirmed, unless the step begins a new send of it. -/
def Step.KeepsConfirmed (id : MessageID) (t : Step) : Prop :=
  ¬Config.Ran t (Segment.StartsSend id) → t.pre.shared.Confirmed id → t.post.shared.Confirmed id

/-- The segments that write a state for `id` whatever its entry holds: the end of a tracked send
that was suspended, the commit that ends a reroute, and the calls that mark a message as finding a
path, as failed or as committed to the relay. -/
def Segment.Overwrites (id : MessageID) (r : MessageRouter) : Segment → Reply → Prop
  | .bleReplied envelope true _, .ok => envelope.id = id
  | .bleReplied envelope true _, .failed => envelope.id = id
  | .bleReplied envelope true nostrRecipient, .noReachablePeers =>
    envelope.id = id ∧ ¬r.canPublish nostrRecipient
  | .nostrReplied envelope _ true, _ => envelope.id = id
  | .rerouteReplied j _ _ _ _ _, .ok => j = id
  | .call (.markFindingPath j), _ => j = id
  | .call (.confirmFailure j), _ => j = id
  | .call (.commitToRelay j), _ => j = id
  | _, _ => False

/-- A write that comes after the acknowledgement of `id`. -/
def Step.LateWrite (id : MessageID) (t : Step) : Prop :=
  t.pre.shared.Confirmed id ∧ Config.Ran t fun r a reply => a.Overwrites id r reply

variable {r : MessageRouter} {id : MessageID} {a : Segment} {reply : Reply}

theorem Confirmed.state (hc : r.Confirmed id) : ∃ s, r.stateOf id = some s ∧ s.isConfirmed := by
  unfold Confirmed at hc
  cases h : r.stateOf id with
  | none => simp [h] at hc
  | some s => exact ⟨s, rfl, by simpa [h] using hc⟩

theorem tracked_of_confirmed (hc : r.Confirmed id) (s : MessageDeliveryState) :
    r.tracked id s = some ⟨id, s⟩ := by
  obtain ⟨_, hs, _⟩ := hc.state
  simp [tracked, hs]

/-- A segment that does not begin a send leaves the entry of a confirmed message as it is, up to
the update that it records. -/
theorem opens_of_confirmed (hc : r.Confirmed id) (hnew : ¬Segment.StartsSend id r a reply) :
    a.opens r id = r.stateOf id := by
  unfold Segment.opens
  cases h : a.sends r with
  | some envelope =>
    have hne : id ≠ envelope.id := fun e => hnew ⟨envelope, h, e.symm⟩
    simp [hne]
  | none =>
    obtain ⟨s, hs, _⟩ := hc.state
    simp only
    split
    · split
      · rename_i hj
        simp [← hj, hs]
      · rfl
    · rfl

theorem publishResult_unconfirmed {s : MessageDeliveryState} (h : publishResult reply = some s) :
    s.isConfirmed = false := by
  cases reply <;> cases h <;> rfl

/-- For a confirmed message, `Overwrites` names the segments that record another state. -/
theorem overwrites_iff {p : MessageRouter × Outcome} (h : r.exec a reply = some p)
    (hc : r.Confirmed id) (hnew : ¬Segment.StartsSend id r a reply) :
    a.Overwrites id r reply ↔
      ∃ u, a.records r reply = some u ∧ u.id = id ∧ ¬u.state.isConfirmed := by
  have htracked (j : MessageID) (s : MessageDeliveryState) (hs : ¬s.isConfirmed) :
      j = id ↔ ∃ u, r.tracked j s = some u ∧ u.id = id ∧ ¬u.state.isConfirmed := by
    constructor
    · rintro rfl
      exact ⟨_, tracked_of_confirmed hc s, rfl, hs⟩
    · rintro ⟨u, hu, hid, _⟩
      obtain ⟨_, _, rfl⟩ := Option.map_eq_some_iff.mp hu
      exact hid
  cases hsend : a.sends r with
  | some envelope =>
    have hne : envelope.id ≠ id := fun e => hnew ⟨envelope, hsend, e⟩
    have hover : ¬a.Overwrites id r reply := by
      unfold Segment.sends at hsend
      split at hsend <;> simp_all [Segment.Overwrites]
    simp only [hover, Segment.records_of_sends reply hsend, false_iff]
    rintro ⟨u, hu, hid, _⟩
    split at hu
    · cases hu
    · cases hu
      exact hne hid
  | none =>
    have hdone : (∀ u, a.records r reply = some u → u.state.isConfirmed) →
        ¬a.Overwrites id r reply → (a.Overwrites id r reply ↔
          ∃ u, a.records r reply = some u ∧ u.id = id ∧ ¬u.state.isConfirmed) :=
      fun hrec hover => iff_of_false hover (by rintro ⟨u, hu, _, hn⟩; exact hn (hrec u hu))
    cases a with
    | call call =>
      cases call with
      | markFindingPath j => exact htracked j .findingPath (by decide)
      | confirmFailure j => exact htracked j .notDelivered (by decide)
      | commitToRelay j => exact htracked j .cast (by decide)
      | confirmDelivery j hops =>
        refine hdone (fun u hu => ?_) not_false
        obtain ⟨_, _, rfl⟩ := Option.map_eq_some_iff.mp hu
        dsimp only
        split <;> rfl
      | send envelope tracked peerKey nostrRecipient =>
        refine hdone (fun u hu => ?_) not_false
        simp only [Segment.records, hsend] at hu
        cases hu
      | resend j =>
        refine hdone (fun u hu => ?_) not_false
        simp only [Segment.records, hsend] at hu
        cases hu
      | publishOverNostr => exact hdone (fun u hu => by cases hu) not_false
      | rerouteToNostr => exact hdone (fun u hu => by cases hu) not_false
      | beginTracking => exact hdone (fun u hu => by cases hu) not_false
      | startDeliveryTimeout => exact hdone (fun u hu => by cases hu) not_false
      | extendTimeout => exact hdone (fun u hu => by cases hu) not_false
      | timer => exact hdone (fun u hu => by cases hu) not_false
    | bleReplied envelope tracked nostrRecipient =>
      cases tracked with
      | false =>
        exact hdone (fun u hu => by cases reply <;> cases hu) (by cases reply <;> exact not_false)
      | true =>
        cases reply with
        | ok => simp [Segment.Overwrites, Segment.records, Segment.sends,
            MessageDeliveryState.isConfirmed]
        | noReachablePeers =>
          cases hpub : r.canPublish nostrRecipient <;>
            simp [Segment.Overwrites, Segment.records, Segment.sends, hpub,
              MessageDeliveryState.isConfirmed]
        | failed =>
          simp [Segment.Overwrites, Segment.records, Segment.sends,
            MessageDeliveryState.isConfirmed]
        | order ids => cases h
    | nostrReplied envelope recipient tracked =>
      obtain ⟨s, hs, _⟩ := Option.map_eq_some_iff.mp h
      have hunconfirmed := publishResult_unconfirmed hs
      cases tracked <;>
        simp [Segment.Overwrites, Segment.records, Segment.sends, hs, hunconfirmed]
    | publishReplied => exact hdone (fun u hu => by cases hu) not_false
    | rerouteReplied j envelope recipient departed entries rerouted =>
      cases reply with
      | ok => exact htracked j .cast (by decide)
      | noReachablePeers => exact hdone (fun u hu => by cases hu) not_false
      | failed => exact hdone (fun u hu => by cases hu) not_false
      | order ids => cases h
    | timeoutFired j =>
      refine iff_of_false not_false ?_
      rintro ⟨u, hu, hid, _⟩
      simp only [Segment.records, Segment.sends, Option.ite_none_right_eq_some,
        Option.some.injEq] at hu
      obtain ⟨hopen, rfl⟩ := hu
      obtain ⟨s, hs, hconf⟩ := hc.state
      have hj : j = id := hid
      simp [hj, hs, MessageDeliveryState.isTerminal_of_isConfirmed hconf] at hopen

theorem exec_confirmed_iff {p : MessageRouter × Outcome} (h : r.exec a reply = some p)
    (hc : r.Confirmed id) (hnew : ¬Segment.StartsSend id r a reply) :
    p.1.Confirmed id ↔ ¬a.Overwrites id r reply := by
  have heffect := (exec_effect h).stateOf id
  rw [opens_of_confirmed hc hnew] at heffect
  obtain ⟨s, hs, hconf⟩ := hc.state
  rw [overwrites_iff h hc hnew, Confirmed, heffect]
  cases hrec : a.records r reply with
  | none => simp [hs, hconf]
  | some u =>
    by_cases hid : id = u.id
    · subst hid
      simp [hs]
    · simp [hs, hconf, hid, Ne.symm hid]

theorem not_startsSend_of_overwrites (h : a.Overwrites id r reply) :
    ¬Segment.StartsSend id r a reply := by
  rintro ⟨envelope, hsend, _⟩
  unfold Segment.sends at hsend
  split at hsend
  · exact h
  · exact h
  · cases hsend

/-- A step keeps a confirmation exactly when it is not a late write. -/
theorem keepsConfirmed_iff (id : MessageID) (t : Step)
    (ht : machine.step t.pre t.event = some t.post) :
    t.KeepsConfirmed id ↔ ¬t.LateWrite id := by
  rcases Machine.step_shared ht with ⟨hsame, hnone⟩ | ⟨a, reply, x, hexec, hran⟩
  · simp [Step.KeepsConfirmed, Step.LateWrite, hnone, hsame]
  · obtain ⟨p, hp, hpx⟩ := Option.map_eq_some_iff.mp hexec
    have hshared : t.post.shared = p.1 := (congrArg Prod.fst hpx).symm
    simp only [Step.KeepsConfirmed, Step.LateWrite, hran, hshared, not_and]
    constructor
    · intro hkeep hc hover
      have hnew := not_startsSend_of_overwrites hover
      exact (exec_confirmed_iff hp hc hnew).mp (hkeep hnew hc) hover
    · exact fun hlate hnew hc => (exec_confirmed_iff hp hc hnew).mpr (hlate hc)

/-- In every run, every confirmed message stays confirmed until a new send of it begins if and only
if no step writes over a confirmed message. -/
theorem confirmed_stays_iff (transports : List MeshTransport) (seenCapacity : Nat)
    (events : List (Event Call Reply)) :
    (∀ t ∈ steps transports seenCapacity events, ∀ id, t.KeepsConfirmed id) ↔
      ∀ t ∈ steps transports seenCapacity events, ∀ id, ¬t.LateWrite id :=
  forall_trace_iff fun t ht => forall_congr' fun id => keepsConfirmed_iff id t ht

/-- A send whose acknowledgement overtakes the end of `ble.send`: the resumed send puts the
confirmed message back to `sent`. -/
def lateSend : List (Event Call Reply) :=
  [.start (.send (.new (.filled 1) []) true none none), .step 0 .ok,
    .start (.confirmDelivery (.filled 1) 0), .step 1 .ok, .step 0 .ok]

/-- Not every run keeps every confirmed message confirmed. -/
theorem confirmed_lost : ¬∀ transports seenCapacity events,
    ∀ t ∈ steps transports seenCapacity events, ∀ id, t.KeepsConfirmed id := by
  intro hkeeps
  have hlast : ∃ t ∈ steps [⟨.ble, false⟩] 1 lateSend, t.event = .step 0 .ok ∧
      t.pre.acts t.event = some (.bleReplied (.new (.filled 1) []) true none, .ok) ∧
      t.pre.shared.Confirmed (.filled 1) ∧ ¬t.post.shared.Confirmed (.filled 1) :=
    ⟨_, List.mem_of_getElem? (i := 4) rfl, rfl, rfl, by decide, by decide⟩
  obtain ⟨t, hmem, _, hacts, hbefore, hafter⟩ := hlast
  refine hafter (hkeeps _ _ _ t hmem _ ?_ hbefore)
  rintro ⟨a, reply, ha, envelope, hsend, _⟩
  cases hacts.symm.trans ha
  cases hsend

end AeroNyra.MessageRouter
