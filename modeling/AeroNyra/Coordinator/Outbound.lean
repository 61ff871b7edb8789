import AeroNyra.Router.Monotone

/-! The coordinator's outbound path over the router: `send` and `sendMedia` as the stretches of code
between two suspension points.  Each of them commits a whole message to one transport, by what is
reachable when its turn comes, and then hands over its envelopes one router call at a time. -/

namespace AeroNyra.Outbound

open Interleave MessageRouter

/-- A message on its way out, under a fresh identifier or the one of an earlier attempt. -/
inductive Outgoing
  | text (id : MessageID) (ciphertext : Data) (rawKey : Data) (nostrRecipient : Option Data)
  /-- The sealed manifest and chunks are given for either bucket. -/
  | media (id : MessageID) (payloads : Bool → List Envelope) (rawKey : Data)
    (nostrRecipient : Option Data) (redrive : Bool)

def Outgoing.id : Outgoing → MessageID
  | .text id .. => id
  | .media id .. => id

/-- The identity that it goes to. -/
def Outgoing.rawKey : Outgoing → Data
  | .text _ _ rawKey _ => rawKey
  | .media _ _ rawKey _ _ => rawKey

/-- The announcement of our Nostr identity that goes out before a peer's first message. -/
structure Announcement where
  envelope : Envelope
  rawKey : Data
  recipient : Option Data

inductive Action
  /-- A router segment whose result nobody looks at. -/
  | router (a : Segment)
  /-- The lookup of the session with the peer. -/
  | lookup
  /-- The choice of the transport. -/
  | commit (m : Outgoing)
  | beginTracking (id : MessageID)
  | seal (id : MessageID)
  /-- A router segment that hands over an envelope, with the message that a miss fails. -/
  | carry (fails : Option MessageID) (a : Segment)
  /-- The end of a transfer that no transport can carry. -/
  | strand (id : MessageID)
  /-- The last router call of a tracked transfer. -/
  | finish (overBLE : Bool) (id : MessageID)

inductive Reply
  | router (reply : MessageRouter.Reply)
  | done
  | threw
  /-- Whether the peer is among the keys last reported reachable. -/
  | reachable (isReachable : Bool)

/-- The calls of the coordinator, and those that others make of the router. -/
inductive Call
  | send (announcement : Option Announcement) (m : Outgoing)
  | router (call : MessageRouter.Call)

def announceNostrIdentity (n : Announcement) : Action :=
  .router (.call (.send n.envelope false (some n.rawKey) n.recipient))

def routeOut (envelope : Envelope) (tracked : Bool) (peerKey nostrRecipient : Option Data)
    (fails : Option MessageID) : Action :=
  .carry fails (.call (.send envelope tracked peerKey nostrRecipient))

def castOverNostr (envelope : Envelope) (recipient : Data) : List Action :=
  [.beginTracking envelope.id,
    .carry (some envelope.id) (.call (.publishOverNostr envelope recipient)),
    .finish false envelope.id]

def emitOverBLE (id : MessageID) (nostrRecipient : Option Data) (envelope : Envelope) :
    List Action :=
  [.seal id, routeOut envelope false none nostrRecipient (some id)]

def emitOverNostr (id : MessageID) (recipient : Data) (envelope : Envelope) : List Action :=
  [.seal id, .carry (some id) (.call (.publishOverNostr envelope recipient))]

/-- `send` from its choice of the transport on; `none` when it throws there. -/
def send (envelope : Envelope) (rawKey : Data) (nostrRecipient : Option Data)
    (isReachable : Bool) : Option (List Action) :=
  if isReachable then some [routeOut envelope true (some rawKey) nostrRecipient none]
  else nostrRecipient.map (castOverNostr envelope)

def goingOverBLE (redrive isReachable : Bool) : Bool := if redrive then false else isReachable

/-- The payloads of a transfer and its end, over the transport that it is committed to. -/
def burst (id : MessageID) (payloads : Bool → List Envelope) (nostrRecipient : Option Data) :
    Bool → List Action
  | true => (payloads true).flatMap (emitOverBLE id nostrRecipient) ++ [.finish true id]
  | false =>
    match nostrRecipient with
    | some recipient => (payloads false).flatMap (emitOverNostr id recipient) ++ [.finish false id]
    | none => [.strand id]

/-- `sendMedia` from its choice of the transport on. -/
def sendMedia (id : MessageID) (payloads : Bool → List Envelope) (nostrRecipient : Option Data)
    (redrive isReachable : Bool) : List Action :=
  .beginTracking id :: burst id payloads nostrRecipient (goingOverBLE redrive isReachable)

def Outgoing.script (m : Outgoing) (isReachable : Bool) : Option (List Action) :=
  match m with
  | .text id ciphertext rawKey nostrRecipient =>
    Outbound.send (.new id ciphertext) rawKey nostrRecipient isReachable
  | .media id payloads _ nostrRecipient redrive =>
    some (sendMedia id payloads nostrRecipient redrive isReachable)

/-- What follows the throw of a transfer that is tracked. -/
def failed (id : MessageID) : List Action := [.router (.call (.confirmFailure id))]

/-- How a call goes on after a router segment that hands over an envelope: a state other than
`sent` and `cast` means that no transport took it. -/
def handedOver (fails : Option MessageID) : Outcome → Exit Action
  | .suspend next => .goOn [.carry fails next]
  | .returned state =>
    if state = .sent ∨ state = .cast then .goOn [] else .throw (fails.elim [] failed)
  | .rerouted _ | .finished => .goOn []

/-- The router call that ends a transfer. -/
def finishing (overBLE : Bool) (id : MessageID) : MessageRouter.Call :=
  if overBLE then .startDeliveryTimeout id mediaDeliveryTimeout else .commitToRelay id

def exec (r : MessageRouter) : Action → Reply → Option (MessageRouter × Exit Action)
  | .router a, .router reply => (r.exec a reply).map fun p => (p.1, p.2.exit.map .router)
  | .lookup, .done => some (r, .goOn [])
  | .lookup, .threw => some (r, .throw [])
  | .commit m, .reachable isReachable => some (r, (m.script isReachable).elim (.throw []) .goOn)
  | .commit _, .threw => some (r, .throw [])
  | .seal _, .done => some (r, .goOn [])
  | .seal id, .threw => some (r, .throw (failed id))
  | .carry fails a, .router reply => (r.exec a reply).map fun p => (p.1, handedOver fails p.2)
  | .strand id, .done => some (r, .throw (failed id))
  | .beginTracking id, .done => some (r.beginTracking id, .goOn [])
  | .finish overBLE id, .done =>
    (r.begin (finishing overBLE id) .ok).map fun p => (p.1, .goOn [])
  | _, _ => none

/-- The actions of a send. -/
def actions (announcement : Option Announcement) (m : Outgoing) : List Action :=
  .lookup :: announcement.toList.map announceNostrIdentity ++ [.commit m]

def machine : Machine MessageRouter Action Call Reply where
  thread
    | .send announcement m => ⟨actions announcement m, []⟩
    | .router call => ⟨[.router (.call call)], []⟩
  exec := exec

abbrev Step := Transition (Config MessageRouter Action) (Event Call Reply)

/-- The router segment of an action. -/
def Action.segment? : Action → Option Segment
  | .router a | .carry _ a => some a
  | .beginTracking id => some (.call (.beginTracking id))
  | .finish overBLE id => some (.call (finishing overBLE id))
  | .lookup | .commit _ | .seal _ | .strand _ => none

/-- The transport's answer in a reply. -/
def Reply.answer : Reply → MessageRouter.Reply
  | .router reply => reply
  | .done | .threw | .reachable _ => .ok

/-- An action runs its router segment, if it has one, and leaves the router alone otherwise. -/
theorem exec_router {r : MessageRouter} {a : Action} {reply : Reply}
    {p : MessageRouter × Exit Action} (h : exec r a reply = some p) :
    (a.segment? = none ∧ p.1 = r) ∨
    ∃ segment q, a.segment? = some segment ∧ r.exec segment reply.answer = some q ∧ p.1 = q.1 := by
  have hkeep {x : Exit Action} (ha : a.segment? = none) (h : some (r, x) = some p) :
      a.segment? = none ∧ p.1 = r := ⟨ha, by rw [← Option.some.inj h]⟩
  unfold exec at h
  split at h
  · obtain ⟨q, hq, rfl⟩ := Option.map_eq_some_iff.mp h
    exact .inr ⟨_, q, rfl, hq, rfl⟩
  · exact .inl (hkeep rfl h)
  · exact .inl (hkeep rfl h)
  · exact .inl (hkeep rfl h)
  · exact .inl (hkeep rfl h)
  · exact .inl (hkeep rfl h)
  · exact .inl (hkeep rfl h)
  · obtain ⟨q, hq, rfl⟩ := Option.map_eq_some_iff.mp h
    exact .inr ⟨_, q, rfl, hq, rfl⟩
  · exact .inl (hkeep rfl h)
  · exact .inr ⟨_, _, rfl, rfl, by rw [← Option.some.inj h]⟩
  · obtain ⟨q, hq, rfl⟩ := Option.map_eq_some_iff.mp h
    exact .inr ⟨_, q, rfl, hq, rfl⟩
  · cases h

/-- Only the choice of the transport brings in the end of a transfer. -/
theorem commit_of_finish_mem {r s : MessageRouter} {a : Action} {reply : Reply} {x : Exit Action}
    (h : exec r a reply = some (s, x)) {overBLE : Bool} {id : MessageID}
    (hmem : .finish overBLE id ∈ x.added) :
    ∃ m isReachable script, a = .commit m ∧ m.script isReachable = some script ∧
      x = .goOn script := by
  unfold exec at h
  split at h
  · obtain ⟨⟨s', outcome⟩, _, hp⟩ := Option.map_eq_some_iff.mp h
    cases outcome <;> cases hp <;> simp [Outcome.exit, Exit.map, Exit.added] at hmem
  · cases h
    simp [Exit.added] at hmem
  · cases h
    simp [Exit.added] at hmem
  · rename_i m isReachable
    cases hs : m.script isReachable with
    | none =>
      rw [hs] at h
      cases h
      simp [Exit.added] at hmem
    | some script =>
      rw [hs] at h
      cases h
      exact ⟨m, isReachable, script, rfl, hs, rfl⟩
  · cases h
    simp [Exit.added] at hmem
  · cases h
    simp [Exit.added] at hmem
  · cases h
    simp [Exit.added, failed] at hmem
  · obtain ⟨⟨s', outcome⟩, _, hp⟩ := Option.map_eq_some_iff.mp h
    cases hp
    cases outcome with
    | returned state =>
      simp only [handedOver] at hmem
      split at hmem
      · simp [Exit.added] at hmem
      · rename_i fails _ _ _ _
        cases fails <;> simp [Exit.added, failed] at hmem
    | suspend next => simp [handedOver, Exit.added] at hmem
    | rerouted count => simp [handedOver, Exit.added] at hmem
    | finished => simp [handedOver, Exit.added] at hmem
  · cases h
    simp [Exit.added, failed] at hmem
  · cases h
    simp [Exit.added] at hmem
  · obtain ⟨q, _, hp⟩ := Option.map_eq_some_iff.mp h
    cases hp
    simp [Exit.added] at hmem
  · cases h

/-- A script that ends a transfer begins to track it first. -/
theorem beginTracking_mem_script {m : Outgoing} {isReachable : Bool} {script : List Action}
    (h : m.script isReachable = some script) {overBLE : Bool} {id : MessageID}
    (hend : .finish overBLE id ∈ script) : .beginTracking id ∈ script := by
  cases m with
  | text j ciphertext rawKey nostrRecipient =>
    simp only [Outgoing.script, send] at h
    split at h
    · cases h
      simp [routeOut] at hend
    · obtain ⟨recipient, _, rfl⟩ := Option.map_eq_some_iff.mp h
      simp only [castOverNostr, List.mem_cons, List.not_mem_nil, or_false, reduceCtorEq, false_or,
        Action.finish.injEq] at hend
      simp [castOverNostr, hend.2]
  | media j payloads rawKey nostrRecipient redrive =>
    obtain rfl := Option.some.inj h
    have hid : id = j := by
      simp only [sendMedia, List.mem_cons, reduceCtorEq, false_or] at hend
      generalize goingOverBLE redrive isReachable = leg at hend
      cases leg with
      | true =>
        have hlast : overBLE = true ∧ id = j := by
          simpa [burst, emitOverBLE, routeOut] using hend
        exact hlast.2
      | false =>
        cases nostrRecipient with
        | none => simp [burst] at hend
        | some recipient =>
          have hlast : overBLE = false ∧ id = j := by simpa [burst, emitOverNostr] using hend
          exact hlast.2
    simp [sendMedia, hid]

end AeroNyra.Outbound
