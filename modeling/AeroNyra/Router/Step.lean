import AeroNyra.Router.State
import Mathlib.Data.List.Perm.Basic

/-! The router's methods as segments: the stretches of code between two suspension points.  The
router is an actor, so a segment runs without interruption, and between two segments of one call
any segments of other calls may run.  `records` and `opens` say once what a segment does to the
delivery states. -/

namespace AeroNyra.MessageRouter

/-- The calls of the router's methods, and the task of a stuck-send timer. -/
inductive Call
  | send (envelope : Envelope) (tracked : Bool) (peerKey nostrRecipient : Option Data)
  | publishOverNostr (envelope : Envelope) (recipient : Data)
  | rerouteToNostr (departed : List Data)
  | beginTracking (id : MessageID)
  | startDeliveryTimeout (id : MessageID) (duration : Duration)
  | extendTimeout (id : MessageID) (duration : Duration)
  | resend (id : MessageID)
  | markFindingPath (id : MessageID)
  | confirmDelivery (id : MessageID) (hops : Int)
  | confirmFailure (id : MessageID)
  | commitToRelay (id : MessageID)
  | timer (task : Nat)

/-- The segments: the first one of each call, and those that resume a call. -/
inductive Segment
  | call (call : Call)
  /-- `send` after `ble.send`. -/
  | bleReplied (envelope : Envelope) (tracked : Bool) (nostrRecipient : Option Data)
  /-- `send` after the publish of its envelope. -/
  | nostrReplied (envelope : Envelope) (recipient : Data) (tracked : Bool)
  /-- `publishOverNostr` after its publish. -/
  | publishReplied (envelope : Envelope) (recipient : Data)
  /-- `rerouteToNostr` after the publish of the entry of `id`, with the entries still to visit. -/
  | rerouteReplied (id : MessageID) (envelope : Envelope) (recipient : Data)
    (departed : List Data) (entries : List (MessageID × OutboxEntry)) (rerouted : Nat)
  /-- The part of a timer task that runs on the router. -/
  | timeoutFired (id : MessageID)

/-- What the environment answers: the outcome of a transport's `send` or `publish`, or the order
in which a dictionary is iterated. -/
inductive Reply
  | ok
  | noReachablePeers
  | failed
  | order (ids : List MessageID)

/-- How a segment ends. -/
inductive Outcome
  | suspend (next : Segment)
  | returned (state : MessageDeliveryState)
  | rerouted (count : Nat)
  | finished

variable (r : MessageRouter)

/-- A publish to `recipient` can be attempted. -/
def canPublish (recipient : Option Data) : Bool := recipient.isSome && r.hasAddressedTransport

/-- The end of `send`. -/
def finishSend (id : MessageID) (tracked : Bool) (resulting : MessageDeliveryState) :
    MessageRouter × Outcome :=
  if tracked then
    let r := r.update id resulting
    let r := if resulting == .sent then r.armTimeout id deliveryTimeout else r
    (r, .returned resulting)
  else (r, .returned resulting)

/-- `send` up to `ble.send`, or to its end when there is no such transport. -/
def send (envelope : Envelope) (tracked : Bool) (peerKey nostrRecipient : Option Data) :
    MessageRouter × Outcome :=
  let r := if tracked then
      { r with outbox :=
          AList.insert envelope.id ⟨some envelope, .sent, peerKey, nostrRecipient, false⟩ r.outbox }
    else r
  let r := r.markSeen envelope.id
  if r.hasTransport .ble then (r, .suspend (.bleReplied envelope tracked nostrRecipient))
  else r.finishSend envelope.id tracked .notDelivered

/-- `publishViaNostr` inside `send`. -/
def fallBackToNostr (envelope : Envelope) (tracked : Bool) (nostrRecipient : Option Data) :
    MessageRouter × Outcome :=
  match nostrRecipient with
  | some recipient =>
    if r.hasAddressedTransport then (r, .suspend (.nostrReplied envelope recipient tracked))
    else r.finishSend envelope.id tracked .waitingForRange
  | none => r.finishSend envelope.id tracked .waitingForRange

def publishOverNostr (envelope : Envelope) (recipient : Data) : MessageRouter × Outcome :=
  let r := r.markSeen envelope.id
  if r.hasAddressedTransport then (r, .suspend (.publishReplied envelope recipient))
  else (r, .returned .waitingForRange)

/-- What `publishViaNostr` returns for the transport's answer. -/
def publishResult : Reply → Option MessageDeliveryState
  | .ok => some .cast
  | .noReachablePeers | .failed => some .waitingForRange
  | .order _ => none

/-- The envelope and the recipient of an entry that `rerouteToNostr` does not skip. -/
def rerouteTarget (departed : List Data) (entry : OutboxEntry) : Option (Envelope × Data) :=
  if !entry.state.isTerminal && !entry.reroutedOverNostr then
    match entry.peerKey, entry.envelope, entry.nostrRecipient with
    | some peer, some envelope, some recipient =>
      if peer ∈ departed then some (envelope, recipient) else none
    | _, _, _ => none
  else none

/-- The loop of `rerouteToNostr` up to its next publish.  It reads the entries as they were when
the loop began. -/
def rerouteNext (departed : List Data) (rerouted : Nat) :
    List (MessageID × OutboxEntry) → MessageRouter × Outcome
  | [] => (r, .rerouted rerouted)
  | (id, entry) :: entries =>
    match rerouteTarget departed entry with
    | none => rerouteNext departed rerouted entries
    | some (envelope, recipient) =>
      ({ r with outbox := r.outbox.modify id ({ · with reroutedOverNostr := true }) },
        .suspend (.rerouteReplied id envelope recipient departed entries rerouted))

/-- The entries of the outbox in the order `ids`. -/
def snapshot (ids : List MessageID) : List (MessageID × OutboxEntry) :=
  ids.filterMap fun id => (r.outbox.lookup id).map fun entry => (id, entry)

def rerouteToNostr (departed : List Data) (ids : List MessageID) :
    Option (MessageRouter × Outcome) :=
  if departed.isEmpty || !r.hasAddressedTransport then some (r, .rerouted 0)
  else if ids.Perm r.outbox.keys then some (r.rerouteNext departed 0 (r.snapshot ids))
  else none

/-- The envelope that `resend` sends again. -/
def resendEnvelope (id : MessageID) : Option Envelope := (r.outbox.lookup id).bind (·.envelope)

def resend (id : MessageID) : MessageRouter × Outcome :=
  match r.resendEnvelope id with
  | some envelope => r.send envelope true none none
  | none => (r, .finished)

/-- The end of the sleep of a timer task that was not cancelled. -/
def elapse (task : Nat) : Option (MessageRouter × Outcome) :=
  (r.asleep.lookup task).map fun timer =>
    ({ r with asleep := AList.erase task r.asleep }, .suspend (.timeoutFired timer.id))

/-- The first segment of a call. -/
def begin : Call → Reply → Option (MessageRouter × Outcome)
  | .send envelope tracked peerKey nostrRecipient, _ =>
    some (r.send envelope tracked peerKey nostrRecipient)
  | .publishOverNostr envelope recipient, _ => some (r.publishOverNostr envelope recipient)
  | .rerouteToNostr departed, .order ids => r.rerouteToNostr departed ids
  | .rerouteToNostr _, _ => none
  | .beginTracking id, _ => some (r.beginTracking id, .finished)
  | .startDeliveryTimeout id duration, _ => some (r.startDeliveryTimeout id duration, .finished)
  | .extendTimeout id duration, _ => some (r.extendTimeout id duration, .finished)
  | .resend id, _ => some (r.resend id)
  | .markFindingPath id, _ => some (r.markFindingPath id, .finished)
  | .confirmDelivery id hops, _ => some (r.confirmDelivery id hops, .finished)
  | .confirmFailure id, _ => some (r.confirmFailure id, .finished)
  | .commitToRelay id, _ => some (r.commitToRelay id, .finished)
  | .timer task, _ => r.elapse task

/-- A segment under the environment's reply; `none` when the reply does not fit it. -/
def exec : Segment → Reply → Option (MessageRouter × Outcome)
  | .call call, reply => r.begin call reply
  | .bleReplied envelope tracked _, .ok => some (r.finishSend envelope.id tracked .sent)
  | .bleReplied envelope tracked nostrRecipient, .noReachablePeers =>
    some (r.fallBackToNostr envelope tracked nostrRecipient)
  | .bleReplied envelope tracked _, .failed => some (r.finishSend envelope.id tracked .notDelivered)
  | .bleReplied _ _ _, .order _ => none
  | .nostrReplied envelope _ tracked, reply =>
    (publishResult reply).map fun resulting => r.finishSend envelope.id tracked resulting
  | .publishReplied _ _, reply => (publishResult reply).map fun state => (r, .returned state)
  | .rerouteReplied id _ _ departed entries rerouted, reply =>
    (publishResult reply).map fun outcome =>
      (if outcome == .cast then r.commitToRelay id else r).rerouteNext departed (rerouted + 1)
        entries
  | .timeoutFired id, _ => some (r.timeoutFired id, .finished)

/-! ### What a segment does to the delivery states -/

/-- The envelope that a segment begins a tracked send of. -/
def Segment.sends : Segment → Option Envelope
  | .call (.send envelope true _ _) => some envelope
  | .call (.resend id) => r.resendEnvelope id
  | _ => none

/-- The state of `id` once a segment has created its entry, if it creates one. -/
def Segment.opens (a : Segment) (id : MessageID) : Option MessageDeliveryState :=
  match a.sends r with
  | some envelope => if id = envelope.id then some .sent else r.stateOf id
  | none =>
    match a with
    | .call (.beginTracking j) => if id = j then some ((r.stateOf j).getD .sent) else r.stateOf id
    | _ => r.stateOf id

/-- The update for `id` if `id` is tracked. -/
def tracked (id : MessageID) (state : MessageDeliveryState) : Option DeliveryUpdate :=
  (r.stateOf id).map fun _ => ⟨id, state⟩

/-- The delivery update that a segment yields. -/
def Segment.records (a : Segment) (reply : Reply) : Option DeliveryUpdate :=
  match a.sends r with
  | some envelope => if r.hasTransport .ble then none else some ⟨envelope.id, .notDelivered⟩
  | none =>
    match a, reply with
    | .call (.markFindingPath id), _ => r.tracked id .findingPath
    | .call (.confirmDelivery id hops), _ =>
      r.tracked id (if hops ≤ 0 then .delivered else .relayed hops)
    | .call (.confirmFailure id), _ => r.tracked id .notDelivered
    | .call (.commitToRelay id), _ => r.tracked id .cast
    | .bleReplied envelope true _, .ok => some ⟨envelope.id, .sent⟩
    | .bleReplied envelope true _, .failed => some ⟨envelope.id, .notDelivered⟩
    | .bleReplied envelope true nostrRecipient, .noReachablePeers =>
      if r.canPublish nostrRecipient then none else some ⟨envelope.id, .waitingForRange⟩
    | .nostrReplied envelope _ true, reply => (publishResult reply).map (⟨envelope.id, ·⟩)
    | .rerouteReplied id _ _ _ _ _, .ok => r.tracked id .cast
    | .timeoutFired id, _ =>
      if (r.stateOf id).any (!·.isTerminal) then some ⟨id, .notDelivered⟩ else none
    | _, _ => none

variable {r}

theorem Segment.opens_of_sends {a : Segment} {envelope : Envelope}
    (h : a.sends r = some envelope) :
    a.opens r = fun id => if id = envelope.id then some .sent else r.stateOf id := by
  funext id
  simp [Segment.opens, h]

theorem Segment.records_of_sends {a : Segment} {envelope : Envelope} (reply : Reply)
    (h : a.sends r = some envelope) : a.records r reply =
      if r.hasTransport .ble then none else some ⟨envelope.id, .notDelivered⟩ := by
  simp [Segment.records, h]

/-- What a step does to the delivery states and to the update stream: `opens` gives the states
once the step's entry is there, and `u` is the update that it records over them. -/
structure Effect (r r' : MessageRouter) (opens : MessageID → Option MessageDeliveryState)
    (u : Option DeliveryUpdate) : Prop where
  updates : r'.updates = r.updates ++ u.toList
  stateOf : ∀ id, r'.stateOf id = u.elim (opens id) fun u =>
    if id = u.id then (opens id).map fun _ => u.state else opens id

namespace Effect

variable {r r' r'' : MessageRouter} {opens : MessageID → Option MessageDeliveryState}
  {u : Option DeliveryUpdate}

/-- A step that changes neither. -/
theorem keep (hu : r'.updates = r.updates) (hs : ∀ id, r'.stateOf id = r.stateOf id) :
    Effect r r' r.stateOf none :=
  ⟨by simp [hu], fun id => hs id⟩

theorem then_keep (h : Effect r r' opens u) (hu : r''.updates = r'.updates)
    (hs : ∀ id, r''.stateOf id = r'.stateOf id) : Effect r r'' opens u :=
  ⟨by rw [hu, h.updates], fun id => by rw [hs, h.stateOf]⟩

/-- A step over a state that differs from `r` in its entries only. -/
theorem rebase (h : Effect r' r'' r'.stateOf u) (hu : r'.updates = r.updates)
    (hs : ∀ id, r'.stateOf id = opens id) : Effect r r'' opens u :=
  ⟨by rw [h.updates, hu], fun id => by rw [h.stateOf, hs]⟩

theorem update (id : MessageID) (s : MessageDeliveryState) :
    Effect r (r.update id s) r.stateOf (some ⟨id, s⟩) := by
  refine ⟨?_, fun j => ?_⟩
  · unfold MessageRouter.update
    cases s.isTerminal <;> rfl
  · rw [stateOf_update]
    by_cases hj : j = id
    · subst hj
      simp
    · simp [hj]

theorem updateTracked (id : MessageID) (s : MessageDeliveryState) :
    Effect r (r.updateTracked id s) r.stateOf (r.tracked id s) := by
  unfold MessageRouter.updateTracked tracked MessageRouter.stateOf
  cases h : r.outbox.lookup id with
  | none => exact keep rfl fun _ => rfl
  | some e => exact update id s

theorem commitToRelay (id : MessageID) :
    Effect r (r.commitToRelay id) r.stateOf (r.tracked id .cast) := by
  unfold MessageRouter.commitToRelay tracked MessageRouter.stateOf
  cases h : r.outbox.lookup id with
  | none => exact keep rfl fun _ => rfl
  | some e => exact (update id .cast).then_keep rfl fun _ => rfl

theorem finishSend (id : MessageID) (tracked : Bool) (s : MessageDeliveryState) :
    Effect r (r.finishSend id tracked s).1 r.stateOf (if tracked then some ⟨id, s⟩ else none) := by
  unfold MessageRouter.finishSend
  cases tracked with
  | false => exact keep rfl fun _ => rfl
  | true =>
    simp only [↓reduceIte]
    split
    · exact (update id s).then_keep rfl fun _ => rfl
    · exact update id s

theorem timeoutFired (id : MessageID) :
    Effect r (r.timeoutFired id) r.stateOf
      (if (r.stateOf id).any (!·.isTerminal) then some ⟨id, .notDelivered⟩ else none) := by
  have hkeep (k : MessageID) :
      MessageRouter.stateOf { r with timeouts := AList.erase id r.timeouts } k = r.stateOf k := rfl
  unfold MessageRouter.timeoutFired
  simp only [hkeep]
  split
  · rename_i s hs
    cases ht : s.isTerminal with
    | true =>
      simp only [hs, ht, Option.any_some, Bool.not_true, Bool.false_eq_true, ↓reduceIte]
      exact keep rfl hkeep
    | false =>
      simp only [hs, ht, Option.any_some, Bool.not_false, Bool.false_eq_true, ↓reduceIte]
      exact (update id .notDelivered).rebase rfl hkeep
  · rename_i hs
    simp only [hs, Option.any_none, Bool.false_eq_true, ↓reduceIte]
    exact keep rfl hkeep

theorem rerouteNext (departed : List Data) (rerouted : Nat)
    (entries : List (MessageID × OutboxEntry)) :
    Effect r (r.rerouteNext departed rerouted entries).1 r.stateOf none := by
  induction entries with
  | nil => exact keep rfl fun _ => rfl
  | cons e entries ih =>
    unfold MessageRouter.rerouteNext
    split
    · exact ih
    · refine keep rfl fun j => ?_
      simp only [MessageRouter.stateOf, Dict.lookup_modify]
      split
      · rename_i hj
        subst hj
        simp [Function.comp_def]
      · rfl

theorem send (envelope : Envelope) (peerKey nostrRecipient : Option Data) :
    Effect r (r.send envelope true peerKey nostrRecipient).1
      (fun id => if id = envelope.id then some .sent else r.stateOf id)
      (if r.hasTransport .ble then none else some ⟨envelope.id, .notDelivered⟩) := by
  have hopen (r' : MessageRouter) (h : r'.outbox = AList.insert envelope.id
      ⟨some envelope, .sent, peerKey, nostrRecipient, false⟩ r.outbox) (id : MessageID) :
      r'.stateOf id = if id = envelope.id then some .sent else r.stateOf id := by
    rw [MessageRouter.stateOf, h, Dict.lookup_insert]
    split <;> rfl
  unfold MessageRouter.send
  simp only [↓reduceIte]
  split
  · rename_i hble
    have hble' : r.hasTransport .ble = true := hble
    rw [if_pos hble']
    exact ⟨by simp [markSeen], fun id => hopen _ rfl id⟩
  · rename_i hble
    have hble' : ¬r.hasTransport .ble = true := hble
    rw [if_neg hble']
    exact (finishSend envelope.id true .notDelivered).rebase rfl (hopen _ rfl)

theorem resend (id : MessageID) :
    Effect r (r.resend id).1 ((Segment.call (.resend id)).opens r)
      ((Segment.call (.resend id)).records r .ok) := by
  have hsends : (Segment.call (.resend id)).sends r = r.resendEnvelope id := rfl
  unfold MessageRouter.resend
  cases h : r.resendEnvelope id with
  | none =>
    have hopens : (Segment.call (.resend id)).opens r = r.stateOf := by
      funext j
      simp [Segment.opens, hsends, h]
    simpa [hopens, Segment.records, hsends, h] using keep (r := r) rfl fun _ => rfl
  | some envelope =>
    rw [Segment.opens_of_sends (hsends.trans h), Segment.records_of_sends .ok (hsends.trans h)]
    exact send envelope none none

theorem fallBackToNostr (envelope : Envelope) (tracked : Bool) (nostrRecipient : Option Data) :
    Effect r (r.fallBackToNostr envelope tracked nostrRecipient).1 r.stateOf
      ((Segment.bleReplied envelope tracked nostrRecipient).records r .noReachablePeers) := by
  have hdone := finishSend (r := r) envelope.id tracked .waitingForRange
  have hkeep : Effect r r r.stateOf none := keep rfl fun _ => rfl
  unfold MessageRouter.fallBackToNostr
  cases nostrRecipient with
  | none => cases tracked <;> simpa [Segment.records, Segment.sends, canPublish] using hdone
  | some recipient =>
    cases hr : r.hasAddressedTransport <;> cases tracked <;>
      first
      | simpa [Segment.records, Segment.sends, canPublish, hr] using hdone
      | simpa [Segment.records, Segment.sends, canPublish, hr] using hkeep

end Effect

/-- What a segment does to the delivery states and to the update stream. -/
theorem exec_effect {a : Segment} {reply : Reply} {p : MessageRouter × Outcome}
    (h : r.exec a reply = some p) : Effect r p.1 (a.opens r) (a.records r reply) := by
  have hkeep : Effect r r r.stateOf none := .keep rfl fun _ => rfl
  cases a with
  | call call =>
    cases call with
    | send envelope tracked peerKey nostrRecipient =>
      obtain rfl := Option.some.inj h
      cases tracked with
      | true => exact Effect.send envelope peerKey nostrRecipient
      | false =>
        simp only [MessageRouter.send, Bool.false_eq_true, ↓reduceIte]
        split
        · exact .keep rfl fun _ => rfl
        · exact .keep rfl fun _ => rfl
    | publishOverNostr envelope recipient =>
      obtain rfl := Option.some.inj h
      simp only [MessageRouter.publishOverNostr]
      split
      · exact .keep rfl fun _ => rfl
      · exact .keep rfl fun _ => rfl
    | rerouteToNostr departed =>
      cases reply with
      | order ids =>
        simp only [exec, begin, rerouteToNostr] at h
        split at h
        · obtain rfl := Option.some.inj h
          exact hkeep
        · split at h
          · obtain rfl := Option.some.inj h
            exact Effect.rerouteNext ..
          · cases h
      | ok => cases h
      | noReachablePeers => cases h
      | failed => cases h
    | beginTracking id =>
      obtain rfl := Option.some.inj h
      refine ⟨?_, fun j => stateOf_beginTracking id j⟩
      unfold MessageRouter.beginTracking
      split <;> simp [Segment.records, Segment.sends]
    | startDeliveryTimeout id duration =>
      obtain rfl := Option.some.inj h
      refine .keep ?_ fun j => stateOf_startDeliveryTimeout id j duration
      unfold MessageRouter.startDeliveryTimeout
      split
      · split <;> rfl
      · rfl
    | extendTimeout id duration =>
      obtain rfl := Option.some.inj h
      refine .keep ?_ fun j => stateOf_extendTimeout id j duration
      unfold MessageRouter.extendTimeout
      split
      · split <;> rfl
      · rfl
    | resend id =>
      obtain rfl := Option.some.inj h
      exact Effect.resend id
    | markFindingPath id =>
      obtain rfl := Option.some.inj h
      exact Effect.updateTracked id .findingPath
    | confirmDelivery id hops =>
      obtain rfl := Option.some.inj h
      exact Effect.updateTracked id _
    | confirmFailure id =>
      obtain rfl := Option.some.inj h
      exact Effect.updateTracked id .notDelivered
    | commitToRelay id =>
      obtain rfl := Option.some.inj h
      exact Effect.commitToRelay id
    | timer task =>
      obtain ⟨timer, _, rfl⟩ := Option.map_eq_some_iff.mp h
      exact .keep rfl fun _ => rfl
  | bleReplied envelope tracked nostrRecipient =>
    cases reply with
    | ok =>
      obtain rfl := Option.some.inj h
      cases tracked <;> exact Effect.finishSend ..
    | noReachablePeers =>
      obtain rfl := Option.some.inj h
      exact Effect.fallBackToNostr ..
    | failed =>
      obtain rfl := Option.some.inj h
      cases tracked <;> exact Effect.finishSend ..
    | order ids => cases h
  | nostrReplied envelope recipient tracked =>
    obtain ⟨s, hs, rfl⟩ := Option.map_eq_some_iff.mp h
    cases tracked with
    | true =>
      have hrec : (Segment.nostrReplied envelope recipient true).records r reply =
          some ⟨envelope.id, s⟩ := by simp [Segment.records, Segment.sends, hs]
      rw [hrec]
      exact Effect.finishSend envelope.id true s
    | false => exact Effect.finishSend envelope.id false s
  | publishReplied envelope recipient =>
    obtain ⟨s, _, rfl⟩ := Option.map_eq_some_iff.mp h
    exact hkeep
  | rerouteReplied id envelope recipient departed entries rerouted =>
    obtain ⟨s, hs, rfl⟩ := Option.map_eq_some_iff.mp h
    have hrest (r₁ : MessageRouter) := Effect.rerouteNext (r := r₁) departed (rerouted + 1) entries
    cases reply with
    | ok =>
      cases hs
      exact (Effect.commitToRelay id).then_keep (by simpa using (hrest _).updates)
        fun j => (hrest _).stateOf j
    | noReachablePeers =>
      cases hs
      exact hrest r
    | failed =>
      cases hs
      exact hrest r
    | order ids => cases hs
  | timeoutFired id =>
    obtain rfl := Option.some.inj h
    exact Effect.timeoutFired id

/-! ### How a segment goes on -/

variable {a : Segment} {reply : Reply} {p : MessageRouter × Outcome}

/-- The segment that resumes a call, by the one that suspended. -/
inductive Resumes (r : MessageRouter) : Segment → Segment → Prop
  | send (envelope : Envelope) (tracked : Bool) (peerKey nostrRecipient : Option Data) :
    Resumes r (.call (.send envelope tracked peerKey nostrRecipient))
      (.bleReplied envelope tracked nostrRecipient)
  | resend (id : MessageID) (envelope : Envelope) (h : r.resendEnvelope id = some envelope) :
    Resumes r (.call (.resend id)) (.bleReplied envelope true none)
  | fallBack (envelope : Envelope) (tracked : Bool) (recipient : Data) :
    Resumes r (.bleReplied envelope tracked (some recipient))
      (.nostrReplied envelope recipient tracked)
  | publish (envelope : Envelope) (recipient : Data) :
    Resumes r (.call (.publishOverNostr envelope recipient)) (.publishReplied envelope recipient)
  | reroute (a : Segment) (id : MessageID) (envelope : Envelope) (recipient : Data)
    (departed : List Data) (entries : List (MessageID × OutboxEntry)) (rerouted : Nat) :
    Resumes r a (.rerouteReplied id envelope recipient departed entries rerouted)
  | timer (task : Nat) (id : MessageID) : Resumes r (.call (.timer task)) (.timeoutFired id)

theorem rerouteNext_suspends {departed : List Data} {rerouted : Nat}
    {entries : List (MessageID × OutboxEntry)} {next : Segment} (a : Segment)
    (h : (r.rerouteNext departed rerouted entries).2 = .suspend next) (s : MessageRouter) :
    Resumes s a next := by
  induction entries with
  | nil => cases h
  | cons e entries ih =>
    unfold rerouteNext at h
    split at h
    · exact ih h
    · cases h
      exact .reroute ..

theorem finishSend_returns (id : MessageID) (tracked : Bool) (resulting : MessageDeliveryState) :
    (r.finishSend id tracked resulting).2 = .returned resulting := by
  unfold finishSend
  split <;> rfl

theorem send_suspends {envelope : Envelope} {tracked : Bool} {peerKey nostrRecipient : Option Data}
    {next : Segment} (h : (r.send envelope tracked peerKey nostrRecipient).2 = .suspend next) :
    next = .bleReplied envelope tracked nostrRecipient := by
  have handsOver (r' : MessageRouter)
      (h : (if r'.hasTransport .ble
        then (r', .suspend (.bleReplied envelope tracked nostrRecipient))
        else r'.finishSend envelope.id tracked .notDelivered).2 = Outcome.suspend next) :
      next = .bleReplied envelope tracked nostrRecipient := by
    split at h
    · cases h
      rfl
    · cases h.symm.trans (finishSend_returns ..)
  exact handsOver _ h

/-- What a segment suspends for. -/
theorem exec_resumes {next : Segment} (h : r.exec a reply = some p) (hnext : p.2 = .suspend next) :
    Resumes r a next := by
  unfold exec at h
  split at h
  · unfold begin at h
    split at h
    · cases h
      rw [send_suspends hnext]
      exact .send ..
    · cases h
      unfold publishOverNostr at hnext
      dsimp only at hnext
      split at hnext
      · cases hnext
        exact .publish ..
      · cases hnext
    · unfold rerouteToNostr at h
      split at h
      · cases h
        cases hnext
      · split at h
        · cases h
          exact rerouteNext_suspends _ hnext r
        · cases h
    · cases h
    · cases h
      cases hnext
    · cases h
      cases hnext
    · cases h
      cases hnext
    · cases h
      unfold resend at hnext
      split at hnext
      · rename_i envelope henvelope
        rw [send_suspends hnext]
        exact .resend _ envelope henvelope
      · cases hnext
    · cases h
      cases hnext
    · cases h
      cases hnext
    · cases h
      cases hnext
    · cases h
      cases hnext
    · obtain ⟨timer, _, rfl⟩ := Option.map_eq_some_iff.mp h
      cases hnext
      exact .timer ..
  · cases h
    cases hnext.symm.trans (finishSend_returns ..)
  · cases h
    unfold fallBackToNostr at hnext
    split at hnext
    · split at hnext
      · cases hnext
        exact .fallBack ..
      · cases hnext.symm.trans (finishSend_returns ..)
    · cases hnext.symm.trans (finishSend_returns ..)
  · cases h
    cases hnext.symm.trans (finishSend_returns ..)
  · cases h
  · obtain ⟨resulting, _, rfl⟩ := Option.map_eq_some_iff.mp h
    cases hnext.symm.trans (finishSend_returns ..)
  · obtain ⟨state, _, rfl⟩ := Option.map_eq_some_iff.mp h
    cases hnext
  · obtain ⟨outcome, _, rfl⟩ := Option.map_eq_some_iff.mp h
    exact rerouteNext_suspends _ hnext r
  · cases h
    cases hnext

end AeroNyra.MessageRouter
