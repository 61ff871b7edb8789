import AeroNyra.Coordinator.SessionStack
import AeroNyra.Enrollment.Exclusion
import AeroNyra.Coordinator.Beacons
import AeroNyra.Transport.Acceptance

/-! What leaves the device for one identity, and what a block of it stops.  A block closes the
gates that sends, replies and beacons consult; announcements to all rows, calls and live audio
consult none, and what is on its way or in the ladder of the relays is not called back. -/

namespace AeroNyra

open Interleave

/-- The session stack with the recogniser's cache, the relay transport's publishing side, and the
blocks that are in force. -/
structure Outflow where
  stack : SessionStack
  /-- The identities of the recogniser's cache. -/
  reconnectRecognizerContacts : List Data
  ledger : NostrOutbound × NostrOutbound.History
  /-- Whom each published event is addressed to. -/
  addressees : Dict Text Data
  /-- The identities whose block has returned and whose unblock has not begun. -/
  shut : Finset Data

namespace Outflow

inductive Call
  | stack (call : SessionStack.Call)
  | reannounceNostrIdentityToAllContacts
  /-- A beacon set comes in on a link. -/
  | onReconnectBeacon (link : UUID)
  /-- Whatever happens to the relay transport but a publish. -/
  | relay (event : NostrOutbound.Event)

inductive Action
  | stack (a : SessionStack.Action)
  /-- The end of `block`. -/
  | blocked (rawKey : Data)
  | fetchPeers
  /-- One turn of the loop over all rows. -/
  | reannounceTo (rawKey : Data)
  | onReconnectBeacon (link : UUID)
  | itsMe (link : UUID) (rawKey : Data)
  | relay (event : NostrOutbound.Event)

inductive Reply
  /-- A reply of the stack, with the identifier of the event if it answers a publish. -/
  | stack (reply : SessionStack.Reply) (eventID : Text)
  /-- The rows of the peers, which a block keeps. -/
  | rows (rawKeys : List Data)
  | nostrKey (recipient : Option Data)
  /-- Whom the recogniser finds in a beacon set. -/
  | recognized (present : List Data)
  | sealed
  | done
  | threw

variable (rawKeyOf : Data → Option Data) (hashHex : Data → String)
  (decodeManifest : Data → Option MediaManifest) (crypto : PTTSessionCrypto)
  (derive : Data → Option Data) (relays : Nat) (o : Outflow)

/-! ### Publishes -/

/-- The router segment that hands something over for an identity. -/
def sends : SessionStack.Action → Option (Data × MessageRouter.Segment)
  | .carryAck receipt a => some (receipt.peer, a)
  | .announce _ k a | .outbound k (.carry _ a) | .outbound k (.router a) => some (k, a)
  | _ => none

/-- The router segment that waits for a transport, and for whom. -/
def waits : SessionStack.Action → Option (Data × MessageRouter.Segment)
  | .reroute peer a => peer.map fun k => (k, a)
  | a => sends a

/-- The envelope that a segment waits for the publish of. -/
def envelopeOf : MessageRouter.Segment → Option MessageID
  | .nostrReplied envelope _ _ | .publishReplied envelope _ | .rerouteReplied _ envelope _ _ _ _ =>
    some envelope.id
  | _ => none

/-- For whom an action waits for a publish, and of which envelope. -/
def publishing (a : SessionStack.Action) : Option (Data × MessageID) :=
  (waits a).bind fun w => (envelopeOf w.2).map fun id => (w.1, id)

/-- The router's answer in a reply. -/
def answer : SessionStack.Reply → Option MessageRouter.Reply
  | .router reply | .outbound (.router reply) => some reply
  | _ => none

/-- The ledger takes a published event in by the time that the publish is answered. -/
def published (a : SessionStack.Action) (reply : SessionStack.Reply) (eventID : Text) :
    Option ((NostrOutbound × NostrOutbound.History) × Dict Text Data) :=
  match publishing a, answer reply with
  | some (k, envelopeID), some .ok =>
    if o.ledger.1.live = [] then none
    else (NostrOutbound.step relays o.ledger (.publish eventID envelopeID)).map fun ledger =>
      (ledger, AList.insert eventID k o.addressees)
  | _, _ => some (o.ledger, o.addressees)

/-! ### Steps -/

/-- The cache is rebuilt whenever the enrolled identities change, unless the builder throws; none
where it traps. -/
def refreshRecognizerCache (stack : SessionStack) : Option (List Data) :=
  if stack.enrolled = o.stack.enrolled then some o.reconnectRecognizerContacts
  else if ReconnectEpochBuilder.Derivable derive stack.enrolled then
    if stack.enrolled.length ≤ ReconnectBeacon.emissionSetSize then some stack.enrolled else none
  else some o.reconnectRecognizerContacts

/-- The identity that an action begins to unblock. -/
def unblocking : SessionStack.Action → Option Data
  | .listener (.service (.unblock k)) => some k
  | _ => none

/-- A publish comes from the router alone. -/
def isPublish : NostrOutbound.Event → Bool
  | .publish .. => true
  | _ => false

def exec : Action → Reply → Option (Outflow × Exit Action)
  | .stack a, .stack reply eventID =>
    (o.stack.exec rawKeyOf hashHex decodeManifest crypto a reply).bind fun p =>
      (o.refreshRecognizerCache derive p.1).bind fun contacts =>
        (o.published relays a reply eventID).map fun published =>
          (⟨p.1, contacts, published.1, published.2, (unblocking a).elim o.shut o.shut.erase⟩,
            p.2.map .stack)
  | .blocked k, .done => some ({ o with shut := insert k o.shut }, .goOn [])
  | .fetchPeers, .rows rawKeys => some (o, .goOn (rawKeys.map .reannounceTo))
  | .reannounceTo k, .nostrKey recipient => some (o, .goOn [.stack (.reannounce k recipient)])
  | .onReconnectBeacon link, .recognized present =>
    if ∀ k ∈ present, k ∈ o.reconnectRecognizerContacts
      then some (o, .goOn (present.map (.itsMe link)))
    else none
  | .itsMe _ _, .sealed => some (o, .goOn [])
  | .itsMe _ _, .threw => some (o, .goOn [])
  | .relay event, .done =>
    if isPublish event then none
    else (NostrOutbound.step relays o.ledger event).map fun ledger => ({ o with ledger }, .goOn [])
  | _, _ => none

/-- What a call does after the stack's part of it. -/
def afterwards : SessionStack.Call → List Action
  | .listener (.service (.block k _)) => [.blocked k]
  | _ => []

def machine : Machine Outflow Action Call Reply where
  thread
    | .stack call =>
      let thread := (SessionStack.machine rawKeyOf hashHex decodeManifest crypto).thread call
      ⟨thread.todo.map .stack ++ afterwards call, thread.onThrow.map .stack⟩
    | .reannounceNostrIdentityToAllContacts => ⟨[.stack .clearNostrAnnounceState, .fetchPeers], []⟩
    | .onReconnectBeacon link => ⟨[.onReconnectBeacon link], []⟩
    | .relay event => ⟨[.relay event], []⟩
  exec := exec rawKeyOf hashHex decodeManifest crypto derive relays

abbrev Step := Transition (Config Outflow Action) (Event Call Reply)

/-! ### What goes out, and when it may -/

/-- An action hands something over for `k`: an envelope sealed for it to a transport, a reply to its
beacon to a link, or a gift wrap addressed to it to the relays. -/
inductive HandsOver (k : Data) (o : Outflow) : Action → Reply → Prop
  | envelope {a reply eventID segment by_ r next} (sends : sends a = some (k, segment))
      (answer : answer reply = some by_)
      (suspends : o.stack.router.exec segment by_ = some (r, .suspend next)) :
      HandsOver k o (.stack a) (.stack reply eventID)
  | reroute {peer segment by_ eventID r next}
      (suspends : o.stack.router.exec segment by_ = some (r, .suspend next))
      (reroutes : SessionStack.reroutes o.stack.router segment by_ = some k) :
      HandsOver k o (.stack (.reroute peer segment)) (.stack (.router by_) eventID)
  | itsMe {link} : HandsOver k o (.itsMe link k) .sealed
  | republish {block pending} (scheduled : o.ledger.1.scheduled[block]? = some (.republish pending))
      (started : o.ledger.1.started) (live : o.ledger.1.live ≠ [])
      (addressee : o.addressees.lookup pending.eventID = some k) :
      HandsOver k o (.relay (.fire block)) .done

/-- The peers that a segment of `rerouteToNostr` was called with. -/
def departed : MessageRouter.Segment → List Data
  | .call (.rerouteToNostr departed) | .rerouteReplied _ _ _ departed _ _ => departed
  | _ => []

/-- The action is part of something that goes on to `k` and consults no further gate. -/
def Toward (k : Data) : Action → Prop
  | .stack (.dispatch m) => m.rawKey = k
  | .stack (.sendDeliveryAck receipt) | .stack (.carryAck receipt _) => receipt.peer = k
  | .stack (.beginSend j _ _) | .stack (.resolved _ j _) | .stack (.announce _ j _)
  | .stack (.routeEcho j) | .stack (.outbound j _) | .itsMe _ j => j = k
  | .stack (.depart gone) => k ∈ gone
  | .stack (.reroute peer a) => peer = some k ∨ k ∈ departed a
  | _ => False

instance (k : Data) (a : Action) : Decidable (Toward k a) := by
  unfold Toward
  split <;> infer_instance

/-- The gates are closed to `k`, and the ladder holds nothing that is addressed to it. -/
structure Closed (k : Data) (o : Outflow) : Prop where
  shutsOut : o.stack.listener.services.ShutsOut k
  unrecognized : k ∉ o.reconnectRecognizerContacts
  settled : ∀ e ∈ o.ledger.1.held, o.addressees.lookup e ≠ some k

instance (k : Data) (o : Outflow) : Decidable (Closed k o) :=
  decidable_of_iff (o.stack.listener.services.ShutsOut k ∧ k ∉ o.reconnectRecognizerContacts ∧
      ∀ e ∈ o.ledger.1.held, o.addressees.lookup e ≠ some k)
    ⟨fun ⟨hs, hu, he⟩ => ⟨hs, hu, he⟩, fun h => ⟨h.shutsOut, h.unrecognized, h.settled⟩⟩

/-- The gates are closed to `k`, and nothing goes on to it. -/
def Quiet (k : Data) (c : Config Outflow Action) : Prop :=
  Closed k c.shared ∧ ¬∃ b, c.ToRun b ∧ Toward k b

instance (k : Data) (c : Config Outflow Action) : Decidable (Quiet k c) :=
  inferInstanceAs (Decidable (_ ∧ ¬_))

/-- The action lets `k` back in, or begins what consults no gate: an announcement to a row of `k`
that is due, or a control message. -/
def Reopens (k : Data) (o : Outflow) : Action → Reply → Prop
  | .stack (.listener (.service b)), .stack (.listener (.service reply)) _ => b.Readmits k reply
  | .stack (.reannounce j _), .stack (.announcement (some _)) _ => j = k ∧ o.stack.announcementDue k
  | .stack (.control _ j _), .stack (.sealed ..) _ => j = k
  | _, _ => False

instance (k : Data) (o : Outflow) (a : Action) (reply : Reply) :
    Decidable (Reopens k o a reply) := by
  unfold Reopens
  split <;> infer_instance

/-- A block returns while something goes on to its identity or a gate is open to it, or something
reopens what it has closed. -/
def Leaks (t : Step) : Prop :=
  ∃ k ∈ t.post.shared.shut,
    (k ∉ t.pre.shared.shut ∧ ¬Quiet k t.pre) ∨ (k ∈ t.pre.shared.shut ∧ Config.Ran t (Reopens k))

instance (t : Step) : Decidable (Leaks t) :=
  inferInstanceAs (Decidable (∃ k ∈ t.post.shared.shut, _ ∨ _))

/-! ### Closed gates stay closed -/

section Gates

variable {rawKeyOf : Data → Option Data} {hashHex : Data → String}
  {decodeManifest : Data → Option MediaManifest} {crypto : PTTSessionCrypto} {k : Data}

theorem shutsOut_listener {l : Listener} {a : Listener.Action} {reply : Listener.Reply}
    {p : Listener × Exit Listener.Action}
    (h : l.exec rawKeyOf hashHex decodeManifest crypto a reply = some p)
    (hr : ∀ b sreply, a = .service b → reply = .service sreply → ¬b.Readmits k sreply)
    (hs : l.services.ShutsOut k) : p.1.services.ShutsOut k := by
  have heffect := Listener.exec_effect h
  generalize p.1 = l' at heffect ⊢
  cases heffect with
  | service hexec => exact Pairing.shutsOut_exec hexec (hr _ _ rfl rfl) hs
  | presence hlinks hexec =>
    have hreports := FirstContactCoordinator.exec_reports
      (fun allowlist verified heq => by rw [heq] at hlinks; cases hlinks) hexec
    obtain ⟨_, _, _, keys, _, heq⟩ := Listener.presence_eq hlinks hexec
    rw [heq] at hreports ⊢
    refine ⟨hs.denied, hs.unlisted, hs.blocked, hs.unenrolled, hs.unverified, fun hk => ?_⟩
    rcases hreports with hsame | hverified
    · rw [hsame] at hk
      exact hs.unreachable hk
    · exact hs.unverified (hverified hk)
  | open_ =>
    rw [Listener.pttOpen_services]
    exact hs
  | burn hburn =>
    rename_i inviteID _ rawKey reply q
    have hexec : l.services.exec (.burn inviteID rawKey) reply = some q := hburn
    exact Pairing.shutsOut_exec hexec id hs
  | still _ _ _ hstill =>
    rw [hstill.services]
    exact hs
  | close | audio | tick | engineStopped | handle | interruption => exact hs

theorem shutsOut_stack {s : SessionStack} {a : SessionStack.Action} {reply : SessionStack.Reply}
    {p : SessionStack × Exit SessionStack.Action}
    (h : s.exec rawKeyOf hashHex decodeManifest crypto a reply = some p)
    (hr : ∀ b sreply, a = .listener (.service b) → reply = .listener (.service sreply) →
      ¬b.Readmits k sreply) (hs : s.listener.services.ShutsOut k) :
      p.1.listener.services.ShutsOut k := by
  rcases SessionStack.exec_listener h with hsame | ⟨c, creply, q, rfl, rfl, _, hq, hlistener⟩ |
    ⟨m, refused, _, hlistener⟩
  · rw [hsame]
    exact hs
  · rw [hlistener]
    refine shutsOut_listener hq ?_ hs
    rintro b sreply rfl rfl
    exact hr b sreply rfl rfl
  · rw [hlistener]
    have hexec : s.listener.exec rawKeyOf hashHex decodeManifest crypto (.dispatch m)
      (.decoders refused) =
        some (s.listener.dispatch hashHex decodeManifest crypto m refused) := rfl
    exact shutsOut_listener hexec (by simp) hs

/-! ### Nothing new goes on to whom the gates are closed -/

variable {o : Outflow} {a b : SessionStack.Action} {reply : SessionStack.Reply} {eventID : Text}

theorem toward_of_announces {by_ : SessionStack.Announcer} {rawKey : Data}
    {nostrRecipient : Option Data} {sealed : Option Envelope} {s : SessionStack}
    (hb : b ∈ s.announceNostrIdentity by_ rawKey nostrRecipient sealed) (hk : Toward k (.stack b)) :
    rawKey = k ∧ s.announcementDue rawKey ∧ ∃ envelope, sealed = some envelope := by
  unfold SessionStack.announceNostrIdentity at hb
  split at hb
  · rename_i hdue
    split at hb
    · cases hb
    · obtain rfl := List.mem_singleton.mp hb
      exact ⟨hk, hdue, _, rfl⟩
    · obtain rfl := List.mem_singleton.mp hb
      exact ⟨hk, hdue, _, rfl⟩
  · cases hb

/-- A dispatch goes on to whom `receive` was called for, or lets in who is not blocked. -/
theorem toward_of_dispatches {s : SessionStack} {m : Node.Opened} {refused : List UUID}
    (h : s.Dispatches a reply m refused) (hblocked : m.rawKey ∈ s.blocked) :
    Toward m.rawKey (.stack a) := by
  rcases h with ⟨rfl, _⟩ | ⟨_, _, _, hpassed, _⟩
  · exact rfl
  · exact absurd hblocked hpassed

/-- The listening side goes on to an echo alone, and only for a code that it admits. -/
theorem toward_listener {l : Listener} {c c' : Listener.Action} {creply : Listener.Reply}
    {q : Listener × Exit Listener.Action} (own : SessionStack.opensInbound c = false)
    (h : l.exec rawKeyOf hashHex decodeManifest crypto c creply = some q) (hc : c' ∈ q.2.added)
    (hk : Toward k (.stack (SessionStack.lift (SessionStack.inviter c) c'))) :
    k ∉ l.services.blockedKeys := by
  rcases SessionStack.added_listener own h hc with ⟨d, d', sreply, r, rfl, rfl, hexec, hadded⟩ |
    ⟨_, _, _, rfl⟩ | ⟨_, _, _, rfl, ⟨_, rfl⟩ | ⟨_, rfl⟩⟩
  · cases d' with
    | echoRouted =>
      cases d with
      | redeem code =>
        cases code with
        | none => cases hk
        | some code =>
          obtain rfl : code.rawKey = k := hk
          exact Pairing.admitted_of_redeem hexec hadded
      | _ => cases hk
    | _ => cases hk
  · cases hk
  · cases hk
  · cases hk

theorem suspended_of_added {x : MessageRouter.Outcome} {next : MessageRouter.Segment}
    (h : next ∈ x.exit.added) : x = .suspend next := by
  cases x with
  | suspend segment =>
    obtain rfl := List.mem_singleton.mp h
    rfl
  | returned | rerouted | finished => cases h

theorem departed_finishSend {r : MessageRouter} {id : MessageID} {tracked : Bool}
    {state : MessageDeliveryState} {next : MessageRouter.Segment} :
    (r.finishSend id tracked state).2 ≠ .suspend next := by
  unfold MessageRouter.finishSend
  split <;> simp

/-- Only the loop of `rerouteToNostr` goes on with peers that departed, and with those of its
call. -/
theorem departed_rerouteNext {r : MessageRouter} {gone : List Data} {rerouted : Nat}
    {entries : List (MessageID × OutboxEntry)} {next : MessageRouter.Segment}
    (h : (r.rerouteNext gone rerouted entries).2 = .suspend next) : departed next = gone := by
  induction entries with
  | nil => cases h
  | cons entry entries ih =>
    unfold MessageRouter.rerouteNext at h
    split at h
    · exact ih h
    · obtain rfl := MessageRouter.Outcome.suspend.inj h
      rfl

theorem departed_send {r : MessageRouter} {envelope : Envelope} {tracked : Bool}
    {peerKey nostrRecipient : Option Data} {next : MessageRouter.Segment}
    (h : (r.send envelope tracked peerKey nostrRecipient).2 = .suspend next) :
    departed next = [] := by
  have hend (r' : MessageRouter) (h : (if r'.hasTransport .ble then
      (r', .suspend (.bleReplied envelope tracked nostrRecipient))
      else r'.finishSend envelope.id tracked .notDelivered).2 = .suspend next) : departed next =
        [] := by
    split at h
    · obtain rfl := MessageRouter.Outcome.suspend.inj h
      rfl
    · exact absurd h departed_finishSend
  exact hend _ h

theorem departed_exec {r : MessageRouter} {segment next : MessageRouter.Segment}
    {by_ : MessageRouter.Reply} {q : MessageRouter × MessageRouter.Outcome}
    (h : r.exec segment by_ = some q) (hnext : q.2 = .suspend next) :
    departed next ⊆ departed segment := by
  have hnil (hnone : departed next = []) : departed next ⊆ departed segment := by
    rw [hnone]
    exact List.nil_subset _
  cases segment with
  | call call =>
    cases call with
    | send envelope tracked peerKey nostrRecipient =>
      obtain rfl := Option.some.inj h
      exact hnil (departed_send hnext)
    | resend id =>
      obtain rfl := Option.some.inj h
      dsimp only [MessageRouter.resend] at hnext
      split at hnext
      · exact hnil (departed_send hnext)
      · cases hnext
    | publishOverNostr envelope recipient =>
      obtain rfl := Option.some.inj h
      dsimp only [MessageRouter.publishOverNostr] at hnext
      split at hnext
      · obtain rfl := MessageRouter.Outcome.suspend.inj hnext
        exact hnil rfl
      · cases hnext
    | rerouteToNostr gone =>
      cases by_ with
      | order ids =>
        have h : r.rerouteToNostr gone ids = some q := h
        unfold MessageRouter.rerouteToNostr at h
        split at h
        · obtain rfl := Option.some.inj h
          cases hnext
        · obtain ⟨_, h⟩ := Option.ite_none_right_eq_some.mp h
          obtain rfl := Option.some.inj h
          rw [departed_rerouteNext hnext]
          exact List.Subset.refl _
      | ok | noReachablePeers | failed => cases h
    | timer task =>
      obtain ⟨timer, _, rfl⟩ := Option.map_eq_some_iff.mp h
      obtain rfl := MessageRouter.Outcome.suspend.inj hnext
      exact hnil rfl
    | beginTracking | startDeliveryTimeout | extendTimeout | markFindingPath | confirmDelivery
      | confirmFailure | commitToRelay =>
      obtain rfl := Option.some.inj h
      cases hnext
  | bleReplied envelope tracked nostrRecipient =>
    cases by_ with
    | ok | failed =>
      obtain rfl := Option.some.inj h
      exact absurd hnext departed_finishSend
    | noReachablePeers =>
      obtain rfl := Option.some.inj h
      dsimp only [MessageRouter.fallBackToNostr] at hnext
      split at hnext
      · split at hnext
        · obtain rfl := MessageRouter.Outcome.suspend.inj hnext
          exact hnil rfl
        · exact absurd hnext departed_finishSend
      · exact absurd hnext departed_finishSend
    | order ids => cases h
  | nostrReplied envelope recipient tracked =>
    obtain ⟨state, _, rfl⟩ := Option.map_eq_some_iff.mp h
    exact absurd hnext departed_finishSend
  | publishReplied envelope recipient =>
    obtain ⟨state, _, rfl⟩ := Option.map_eq_some_iff.mp h
    cases hnext
  | rerouteReplied id envelope recipient gone entries rerouted =>
    obtain ⟨state, _, rfl⟩ := Option.map_eq_some_iff.mp h
    rw [departed_rerouteNext hnext]
    exact List.Subset.refl _
  | timeoutFired id =>
    obtain rfl := Option.some.inj h
    cases hnext

theorem mem_of_reroutedPeer {gone : List Data} {entries : List (MessageID × OutboxEntry)}
    (h : SessionStack.reroutedPeer gone entries = some k) : k ∈ gone := by
  induction entries with
  | nil => cases h
  | cons entry entries ih =>
    unfold SessionStack.reroutedPeer at h
    split at h
    · exact ih h
    · rename_i target htarget
      unfold MessageRouter.rerouteTarget at htarget
      split at htarget
      · split at htarget
        · rename_i peer _ _ hpeer _ _
          obtain rfl := Option.some.inj (hpeer.symm.trans h)
          by_contra hout
          rw [if_neg hout] at htarget
          cases htarget
        · cases htarget
      · cases htarget

theorem mem_departed_of_reroutes {r : MessageRouter} {segment : MessageRouter.Segment}
    {by_ : MessageRouter.Reply} (h : SessionStack.reroutes r segment by_ = some k) :
    k ∈ departed segment := by
  unfold SessionStack.reroutes at h
  split at h
  · exact mem_of_reroutedPeer h
  · exact mem_of_reroutedPeer h
  · cases h

/-- Where the gates are closed to `k` and not reopened, what goes on to it has come from what went
on to it before. -/
theorem toward_added
    (h : SessionStack.Brings rawKeyOf hashHex decodeManifest crypto o.stack a reply b)
    (hs : o.stack.listener.services.ShutsOut k)
    (hr : ¬Reopens k o (.stack a) (.stack reply eventID))
    (hk : Toward k (.stack b)) : Toward k (.stack a) := by
  cases h with
  | listener own exec added => exact absurd hs.denied (toward_listener own exec added hk)
  | announcement passed announces =>
    obtain ⟨rfl, _⟩ := toward_of_announces announces hk
    exact absurd hs.blocked passed
  | afterwards passed =>
    obtain rfl := hk
    exact absurd hs.blocked passed
  | redeemEcho => cases hk
  | receipt by_ peer =>
    obtain rfl : _ = k := hk
    rw [peer] at hs ⊢
    exact toward_of_dispatches by_ hs.blocked
  | confirm => cases hk
  | ack => exact hk
  | carryAck => exact hk
  | gateSend verified =>
    obtain rfl : _ = k := hk
    have hlisted := ContactAllowlist.contains_of_isVerified _ verified
    rw [hs.unlisted] at hlisted
    cases hlisted
  | sendAnnouncement announces => exact (toward_of_announces announces hk).1
  | commit => exact hk
  | reannouncement announces =>
    obtain ⟨rfl, hdue, envelope, rfl⟩ := toward_of_announces announces hk
    exact absurd ⟨rfl, hdue⟩ hr
  | resolved => exact hk
  | announce => exact hk
  | announced => cases hk
  | control => exact absurd hk hr
  | routeEcho => exact hk
  | outbound => exact hk
  | departure _ departs =>
    obtain ⟨gone, rfl, hgone⟩ := SessionStack.depart_of_departures departs
    exact absurd (hgone hk) hs.unreachable
  | depart order =>
    rcases hk with hnone | hmem
    · cases hnone
    · rw [← order]
      exact List.mem_toFinset.mpr hmem
  | reroute exec added =>
    rcases hk with hpeer | hmem
    · exact .inr (mem_departed_of_reroutes hpeer)
    · exact .inr (departed_exec exec (suspended_of_added added) hmem)
  | router => cases hk

end Gates

/-! ### Runs -/

section Runs

variable {rawKeyOf : Data → Option Data} {hashHex : Data → String}
  {decodeManifest : Data → Option MediaManifest} {crypto : PTTSessionCrypto}
  {derive : Data → Option Data} {relays : Nat} {k : Data} {o : Outflow} {a b : Action}
  {reply : Reply}
  {p : Outflow × Exit Action}

theorem toward_of_sends {a : SessionStack.Action} {segment : MessageRouter.Segment}
    (h : sends a = some (k, segment)) : Toward k (.stack a) := by
  unfold sends at h
  split at h
  all_goals first
    | cases h; done
    | exact congrArg Prod.fst (Option.some.inj h)

theorem toward_of_publishing {a : SessionStack.Action} {id : MessageID}
    (h : publishing a = some (k, id)) : Toward k (.stack a) := by
  obtain ⟨⟨j, segment⟩, hwaits, h⟩ := Option.bind_eq_some_iff.mp h
  obtain ⟨_, _, heq⟩ := Option.map_eq_some_iff.mp h
  obtain rfl : j = k := congrArg Prod.fst heq
  unfold waits at hwaits
  split at hwaits
  · obtain ⟨_, hpeer, heq⟩ := Option.map_eq_some_iff.mp hwaits
    obtain rfl : _ = j := congrArg Prod.fst heq
    exact .inl hpeer
  · exact toward_of_sends hwaits

theorem held_ledger {ledger ledger' : NostrOutbound × NostrOutbound.History}
    {event : NostrOutbound.Event}
    {e : Text} (h : NostrOutbound.step relays ledger event = some ledger')
    (he : e ∈ ledger'.1.held) :
    e ∈ ledger.1.held ∨ ∃ id, event = .publish e id := by
  obtain ⟨s', hexec, rfl⟩ := Option.map_eq_some_iff.mp h
  exact NostrOutbound.held_exec hexec he

/-- A publish for others leaves nothing in the ladder that is addressed to `k`. -/
theorem settled_published {a : SessionStack.Action} {sreply : SessionStack.Reply} {eventID : Text}
    {q : (NostrOutbound × NostrOutbound.History) × Dict Text Data}
    (h : o.published relays a sreply eventID = some q) (ha : ¬Toward k (.stack a))
    (hold : ∀ e ∈ o.ledger.1.held, o.addressees.lookup e ≠ some k) :
    ∀ e ∈ q.1.1.held, q.2.lookup e ≠ some k := by
  unfold published at h
  split at h
  · rename_i j id hpublishing _
    obtain ⟨_, h⟩ := Option.ite_none_left_eq_some.mp h
    obtain ⟨ledger, hledger, rfl⟩ := Option.map_eq_some_iff.mp h
    intro e he haddressed
    rw [Dict.lookup_insert] at haddressed
    split at haddressed
    · obtain rfl := Option.some.inj haddressed
      exact ha (toward_of_publishing hpublishing)
    · rename_i hne
      rcases held_ledger hledger he with hheld | ⟨_, heq⟩
      · exact hold e hheld haddressed
      · obtain ⟨rfl, _⟩ := NostrOutbound.Event.publish.inj heq
        exact hne rfl
  · obtain rfl := Option.some.inj h
    exact hold

theorem unrecognized_refresh {stack : SessionStack} {contacts : List Data}
    (h : o.refreshRecognizerCache derive stack = some contacts) (hout : k ∉ stack.enrolled)
    (hold : k ∉ o.reconnectRecognizerContacts) : k ∉ contacts := by
  unfold refreshRecognizerCache at h
  split at h
  · obtain rfl := Option.some.inj h
    exact hold
  · split at h
    · obtain ⟨_, h⟩ := Option.ite_none_right_eq_some.mp h
      obtain rfl := Option.some.inj h
      exact hout
    · obtain rfl := Option.some.inj h
      exact hold

/-- What is closed to `k` stays closed, unless it is reopened or something goes on to `k`. -/
theorem closed_exec (h : o.exec rawKeyOf hashHex decodeManifest crypto derive relays a reply =
    some p) (hr : ¬Reopens k o a reply) (ha : ¬Toward k a) (hc : Closed k o) : Closed k p.1 := by
  unfold exec at h
  split at h
  case h_1 =>
    obtain ⟨q, hq, h⟩ := Option.bind_eq_some_iff.mp h
    obtain ⟨contacts, hcontacts, h⟩ := Option.bind_eq_some_iff.mp h
    obtain ⟨published, hpublished, rfl⟩ := Option.map_eq_some_iff.mp h
    have hshut : q.1.listener.services.ShutsOut k := by
      refine shutsOut_stack hq ?_ hc.shutsOut
      rintro b sreply rfl rfl
      exact hr
    exact ⟨hshut, unrecognized_refresh hcontacts hshut.unenrolled hc.unrecognized,
      settled_published hpublished ha hc.settled⟩
  case h_8 =>
    obtain ⟨hpublish, h⟩ := Option.ite_none_left_eq_some.mp h
    obtain ⟨ledger, hledger, rfl⟩ := Option.map_eq_some_iff.mp h
    refine ⟨hc.shutsOut, hc.unrecognized, fun e he => ?_⟩
    rcases held_ledger hledger he with hheld | ⟨id, rfl⟩
    · exact hc.settled e hheld
    · exact absurd rfl hpublish
  all_goals first
    | cases h; done
    | obtain rfl := Option.some.inj h
      exact ⟨hc.shutsOut, hc.unrecognized, hc.settled⟩
    | obtain ⟨_, h⟩ := Option.ite_none_right_eq_some.mp h
      obtain rfl := Option.some.inj h
      exact hc

/-- What goes on to `k` while everything is closed to it has come from what went on to it before. -/
theorem toward_exec
    (h : o.exec rawKeyOf hashHex decodeManifest crypto derive relays a reply = some p)
    (hr : ¬Reopens k o a reply) (hc : Closed k o) (hb : b ∈ p.2.added) (hk : Toward k b) :
    Toward k a := by
  unfold exec at h
  split at h
  case h_1 =>
    obtain ⟨q, hq, h⟩ := Option.bind_eq_some_iff.mp h
    obtain ⟨contacts, _, h⟩ := Option.bind_eq_some_iff.mp h
    obtain ⟨published, _, rfl⟩ := Option.map_eq_some_iff.mp h
    obtain ⟨c, hadded, rfl⟩ := mem_added_map hb
    exact toward_added (SessionStack.brings_of_exec hq hadded) hc.shutsOut hr hk
  case h_3 =>
    obtain rfl := Option.some.inj h
    obtain ⟨j, _, rfl⟩ := List.mem_map.mp hb
    cases hk
  case h_4 =>
    obtain rfl := Option.some.inj h
    obtain rfl := List.mem_singleton.mp hb
    cases hk
  case h_5 =>
    obtain ⟨hpresent, h⟩ := Option.ite_none_right_eq_some.mp h
    obtain rfl := Option.some.inj h
    obtain ⟨j, hj, rfl⟩ := List.mem_map.mp hb
    obtain rfl : j = k := hk
    exact absurd (hpresent j hj) hc.unrecognized
  case h_8 =>
    obtain ⟨_, h⟩ := Option.ite_none_left_eq_some.mp h
    obtain ⟨ledger, _, rfl⟩ := Option.map_eq_some_iff.mp h
    cases hb
  all_goals first
    | cases h; done
    | obtain rfl := Option.some.inj h
      cases hb

theorem mem_of_mem_elim {unblocked : Option Data} {shut : Finset Data}
    (hk : k ∈ unblocked.elim shut shut.erase) : k ∈ shut := by
  cases unblocked with
  | none => exact hk
  | some j => exact Finset.mem_of_mem_erase hk

/-- Only the end of a block shuts an identity out. -/
theorem mem_shut_exec (h : o.exec rawKeyOf hashHex decodeManifest crypto derive relays a reply =
    some p) (hk : k ∈ p.1.shut) : k ∈ o.shut ∨ a = .blocked k := by
  unfold exec at h
  split at h
  case h_1 =>
    obtain ⟨q, _, h⟩ := Option.bind_eq_some_iff.mp h
    obtain ⟨contacts, _, h⟩ := Option.bind_eq_some_iff.mp h
    obtain ⟨published, _, rfl⟩ := Option.map_eq_some_iff.mp h
    exact .inl (mem_of_mem_elim hk)
  case h_2 =>
    obtain rfl := Option.some.inj h
    rcases Finset.mem_insert.mp hk with rfl | hk
    · exact .inr rfl
    · exact .inl hk
  all_goals first
    | cases h; done
    | obtain rfl := Option.some.inj h
      exact .inl hk
    | obtain ⟨_, h⟩ := Option.ite_none_right_eq_some.mp h
      obtain rfl := Option.some.inj h
      exact .inl hk
    | obtain ⟨_, h⟩ := Option.ite_none_left_eq_some.mp h
      obtain ⟨_, _, rfl⟩ := Option.map_eq_some_iff.mp h
      exact .inl hk

theorem dispatch_of_toward_lift {c : Listener.Action}
    (h : Toward k (.stack (SessionStack.lift none c))) : ∃ m, c = .dispatch m := by
  cases c with
  | dispatch m => exact ⟨m, rfl⟩
  | service c => cases c <;> cases h
  | presence | openInbound | redeemEcho | surface | ingestPTTAudio | tick | engineStopped
    | handleEvent | interruptionBegan => cases h

theorem dispatch_not_mem_thread (call : Listener.Call) (m : Node.Opened) :
    .dispatch m ∉ ((Listener.machine rawKeyOf hashHex decodeManifest crypto).thread call).todo ++
      ((Listener.machine rawKeyOf hashHex decodeManifest crypto).thread call).onThrow := by
  cases call with
  | service call => simp [Listener.machine]
  | onReachable | onBundle | onReconnectFrame | receive | ingestPTTAudio | tick | engineStopped
    | handleEvent | interruptionBegan => simp [Listener.machine]

theorem not_toward_stackThread (call : SessionStack.Call) {c : SessionStack.Action}
    (hc : c ∈ ((SessionStack.machine rawKeyOf hashHex decodeManifest crypto).thread call).todo ++
      ((SessionStack.machine rawKeyOf hashHex decodeManifest crypto).thread call).onThrow) :
    ¬Toward k (.stack c) := by
  intro hk
  cases call with
  | listener call =>
    simp only [SessionStack.machine, ← List.map_append] at hc
    obtain ⟨d, hd, rfl⟩ := List.mem_map.mp hc
    obtain ⟨m, rfl⟩ := dispatch_of_toward_lift hk
    exact dispatch_not_mem_thread call m hd
  | send | reannounceNostrIdentity | clearNostrAnnounceState | setNostrPublicKey | control
    | timer =>
    obtain rfl := List.mem_singleton.mp hc
    cases hk

theorem blocked_of_mem_afterwards {call : SessionStack.Call} (hb : b ∈ afterwards call) :
    ∃ j, b = .blocked j := by
  unfold afterwards at hb
  split at hb
  · exact ⟨_, List.mem_singleton.mp hb⟩
  · cases hb

/-- A call begins with a gate, or with what consults none. -/
theorem not_toward_thread (call : Call)
    (hb : b ∈ ((machine rawKeyOf hashHex decodeManifest crypto derive relays).thread call).todo ++
      ((machine rawKeyOf hashHex decodeManifest crypto derive relays).thread call).onThrow) :
    ¬Toward k b := by
  intro hk
  cases call with
  | stack call =>
    rcases List.mem_append.mp hb with hb | hb
    · rcases List.mem_append.mp hb with hb | hb
      · obtain ⟨c, hc, rfl⟩ := List.mem_map.mp hb
        exact not_toward_stackThread call (List.mem_append_left _ hc) hk
      · obtain ⟨j, rfl⟩ := blocked_of_mem_afterwards hb
        cases hk
    · obtain ⟨c, hc, rfl⟩ := List.mem_map.mp hb
      exact not_toward_stackThread call (List.mem_append_right _ hc) hk
  | reannounceNostrIdentityToAllContacts =>
    rcases List.mem_cons.mp hb with rfl | hb
    · cases hk
    · obtain rfl := List.mem_singleton.mp hb
      cases hk
  | onReconnectBeacon | relay =>
    obtain rfl := List.mem_singleton.mp hb
    cases hk

/-- Whoever is shut out, everything is closed and quiet to him. -/
def Kept (c : Config Outflow Action) : Prop := ∀ k ∈ c.shared.shut, Quiet k c

/-- Where everything is closed and quiet to `k`, a step that does not reopen it leaves it so. -/
theorem quiet_step {t : Step}
    (ht : (machine rawKeyOf hashHex decodeManifest crypto derive relays).step t.pre t.event =
      some t.post)
    (hr : ¬Config.Ran t (Reopens k)) (h : Quiet k t.pre) : Quiet k t.post := by
  have hacting {a : Action} {reply : Reply} (hacts : t.pre.acts t.event = some (a, reply)) :
      ¬Reopens k t.pre.shared a reply ∧ ¬Toward k a :=
    ⟨fun hreopens => hr ⟨a, reply, hacts, hreopens⟩,
      fun hk => h.2 ⟨a, Config.toRun_of_acts hacts, hk⟩⟩
  refine ⟨?_, fun ⟨b, hb, hk⟩ => ?_⟩
  · rcases Machine.step_cases ht with ⟨call, _, hpost⟩ |
      ⟨i, reply, a, rest, handler, o, x, _, _, hexec, hacts, hpost⟩
    · rw [hpost]
      exact h.1
    · rw [hpost]
      obtain ⟨hreopens, htoward⟩ := hacting hacts
      exact closed_exec hexec hreopens htoward h.1
  · rcases Machine.toRun_step ht hb with hold | ⟨call, _, hnew⟩ |
      ⟨a, reply, x, hacts, hexec, hadded⟩
    · exact h.2 ⟨b, hold, hk⟩
    · exact not_toward_thread call hnew hk
    · obtain ⟨hreopens, htoward⟩ := hacting hacts
      exact htoward (toward_exec hexec hreopens h.1 hadded hk)

/-- A step keeps the invariant, unless it leaks. -/
theorem kept_step {t : Step}
    (ht : (machine rawKeyOf hashHex decodeManifest crypto derive relays).step t.pre t.event =
      some t.post)
    (hC : ¬Leaks t) (h : Kept t.pre) : Kept t.post := by
  intro k hk
  by_cases hold : k ∈ t.pre.shared.shut
  · exact quiet_step ht (fun hran => hC ⟨k, hk, .inr ⟨hold, hran⟩⟩) (h k hold)
  · have hquiet : Quiet k t.pre := by
      by_contra hnot
      exact hC ⟨k, hk, .inl ⟨hold, hnot⟩⟩
    refine quiet_step ht ?_ hquiet
    rintro ⟨a, reply, hacts, hreopens⟩
    rcases Machine.step_cases ht with ⟨call, _, hpost⟩ |
      ⟨i, reply', a', rest, handler, o, x, _, _, hexec, hacts', hpost⟩
    · rw [hpost] at hk
      exact hold hk
    · cases hacts.symm.trans hacts'
      rw [hpost] at hk
      rcases mem_shut_exec hexec hk with hk | rfl
      · exact hold hk
      · cases hreopens

/-- What hands something over for `k` is on its way to it, or in the ladder. -/
theorem not_quiet_of_handsOver {c : Config Outflow Action} (ha : c.ToRun a)
    (h : HandsOver k c.shared a reply) :
    ¬Quiet k c := by
  rintro ⟨hclosed, hquiet⟩
  cases h with
  | envelope sends => exact hquiet ⟨_, ha, toward_of_sends sends⟩
  | reroute _ reroutes => exact hquiet ⟨_, ha, .inr (mem_departed_of_reroutes reroutes)⟩
  | itsMe => exact hquiet ⟨_, ha, rfl⟩
  | republish scheduled _ _ addressee =>
    have hheld := NostrOutbound.mem_held.mpr (.inr ⟨_, List.mem_of_getElem? scheduled, rfl⟩)
    exact hclosed.settled _ hheld addressee

end Runs

/-- In every run in which no step leaks, nothing is handed over for an identity between the return
of its block and its unblock. -/
theorem nothing_to_shut (rawKeyOf : Data → Option Data) (hashHex : Data → String)
    (decodeManifest : Data → Option MediaManifest) (crypto : PTTSessionCrypto)
    (derive : Data → Option Data) (relays : Nat) (o : Outflow) (es : List (Event Call Reply))
    (hstart : ∀ k ∈ o.shut, Closed k o)
    (h : ∀ t ∈ trace (machine rawKeyOf hashHex decodeManifest crypto derive relays).step ⟨o, []⟩ es,
      ¬Leaks t) :
    ∀ t ∈ trace (machine rawKeyOf hashHex decodeManifest crypto derive relays).step ⟨o, []⟩ es,
      ∀ k, Config.Ran t (HandsOver k) → k ∉ t.pre.shared.shut := by
  intro t ht k ⟨a, reply, hacts, hhands⟩ hshut
  have hkept : Kept t.pre := trace_invariant_of Kept (fun t => ¬Leaks t)
    (fun t ht hC => kept_step ht hC)
    (fun k hk => ⟨hstart k hk, fun ⟨b, ⟨u, hu, _⟩, _⟩ => by cases hu⟩) h ht
  exact not_quiet_of_handsOver (Config.toRun_of_acts hacts) hhands (hkept k hshut)

/-! ### A block, and an announcement to all rows -/

open Listener (contact)
open SessionStack (service opening)

/-- A launch over stores that load, with what was blocked before. -/
def launch (derive : Data → Option Data) (services : Pairing) (transports : List MeshTransport)
    (seenCapacity : Nat) : Outflow where
  stack := .launch services transports seenCapacity
  reconnectRecognizerContacts :=
    if ReconnectEpochBuilder.Derivable derive services.coordinator.reconnectAllowlistIdentities then
      services.coordinator.reconnectAllowlistIdentities
    else []
  ledger := (.launch, ⟨[], ∅, []⟩)
  addressees := ∅
  shut := services.blockedKeys

/-- A verified contact, over Bluetooth and a relay. -/
def paired : Outflow :=
  launch some (.launch (.enroll .empty contact 0 true) .empty [] (List.replicate 32 1) 0)
    [⟨.ble, false⟩, ⟨.internet, true⟩] 8

def plainMachine : Machine Outflow Action Call Reply :=
  machine FirstContactCoordinator.prefixKey (fun _ => "")
    (fun _ => none) Listener.plainCrypto some 1

/-- The contact is blocked, as call `i`. -/
def blockContact (i : Nat) : List (Event Call Reply) :=
  (.start (.stack (.listener (.service (.block contact none)))) ::
    List.replicate 5 (.step i (.stack (service {}) [])) : List (Event Call Reply)) ++
    ([.step i .done] : List (Event Call Reply))

/-- After the block a message of the contact comes in, one is to go out, and its beacon is seen. -/
def blockedContact : List (Event Call Reply) :=
  blockContact 0 ++ ([.start (.stack (.listener (.receive (.new (.filled 2) [])))),
    .step 1 (.stack (opening contact ⟨.text, [104, 105]⟩) []),
    .start (.stack (.send contact none (.text (.filled 3) [1] contact none))),
    .step 2 (.stack .done []), .start (.onReconnectBeacon 7), .step 3 (.recognized [])] :
      List (Event Call Reply))

set_option maxRecDepth 8192 in
theorem nothing_to_blockedContact :
    ∃ c', run plainMachine.step ⟨paired, []⟩ blockedContact = some c' ∧ c'.shared.shut = {contact} ∧
      ∀ t ∈ trace plainMachine.step ⟨paired, []⟩ blockedContact,
        ∀ k, Config.Ran t (HandsOver k) → k ∉ t.pre.shared.shut :=
  ⟨_, rfl, by decide, nothing_to_shut _ _ _ _ _ _ paired blockedContact (by decide) (by decide)⟩

/-- Our Nostr key is set, the contact is blocked, and then the key is announced to all rows. -/
def announcedToAll : List (Event Call Reply) :=
  ([.start (.stack (.setNostrPublicKey (some (List.replicate 32 3)))),
    .step 0 (.stack .done [])] : List (Event Call Reply)) ++
    blockContact 1 ++ ([.start .reannounceNostrIdentityToAllContacts, .step 2 (.stack .done []),
      .step 2 (.rows [contact]), .step 2 (.nostrKey none),
      .step 2 (.stack (.announcement (some (.new (.filled 1) []))) []),
      .step 2 (.stack (.nostrKey none) []), .step 2 (.stack (.router .ok) [])] :
        List (Event Call Reply))

set_option maxRecDepth 8192 in
theorem announced_to_shut :
    ∃ c', run plainMachine.step ⟨paired, []⟩ announcedToAll = some c' ∧ contact ∈ c'.shared.shut ∧
      ¬∀ t ∈ trace plainMachine.step ⟨paired, []⟩ announcedToAll,
        ∀ k, Config.Ran t (HandsOver k) → k ∉ t.pre.shared.shut := by
  refine ⟨_, rfl, by decide, fun hall => ?_⟩
  have hlast := hall _ (List.mem_of_getLast? rfl) contact ⟨_, _, rfl, .envelope rfl rfl rfl⟩
  exact hlast (by decide)

end Outflow

end AeroNyra
