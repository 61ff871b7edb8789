import AeroNyra.Router.Dedup
import AeroNyra.Router.Monotone
import Mathlib.Data.Finset.Basic

/-! What the router does with an arriving envelope, and when its dedup swallows one that the
receiver could open.  The cleartext identifier enters the seen cache before anything is
authenticated, so until it is evicted it speaks for whoever brought it in first. -/

namespace AeroNyra

/-- A copy with one hop spent. -/
def Envelope.forwarded (e : Envelope) : Option Envelope :=
  if 0 < e.ttl then some { e with ttl := e.ttl - 1 } else none

/-- An envelope as it arrives from a transport. -/
structure Arrival where
  link : UUID
  envelope : Envelope
  kind : TransportKind
  /-- Whether the receiver's open would accept the envelope. -/
  opens : Bool
  deriving DecidableEq

/-- The router with what it relayed, each time with the links it kept it from, and what it handed to
the receiver. -/
structure Inbound where
  router : MessageRouter
  relayed : List (Envelope × List UUID)
  received : List Arrival

namespace Inbound

open Interleave

inductive Call
  | arrive (a : Arrival)
  | router (call : MessageRouter.Call)

inductive Action
  /-- `handleInbound` up to the question for the relay exclusions. -/
  | handleInbound (a : Arrival)
  | relay (forwarded : Envelope)
  | receive (a : Arrival)
  | router (a : MessageRouter.Segment)

inductive Reply
  | done
  | exclusions (links : List UUID)
  | router (reply : MessageRouter.Reply)

variable (s : Inbound)

/-- Only the radio mesh floods. -/
def shouldRelay (kind : TransportKind) : Bool := kind == .ble

def handleInbound (a : Arrival) : Inbound × Exit Action :=
  match s.router.seen.containsOrInsert a.envelope.id with
  | (true, _) => (s, .goOn [])
  | (false, seen) =>
    let s := { s with router := { s.router with seen } }
    if shouldRelay a.kind then
      match a.envelope.forwarded with
      | some forwarded => (s, .goOn [.relay forwarded, .receive a])
      | none => (s, .goOn [.receive a])
    else (s, .goOn [.receive a])

def exec : Action → Reply → Option (Inbound × Exit Action)
  | .handleInbound a, .done => some (s.handleInbound a)
  | .relay forwarded, .exclusions links =>
    some ({ s with relayed := s.relayed ++ [(forwarded, links)] }, .goOn [])
  | .receive a, .done => some ({ s with received := s.received ++ [a] }, .goOn [])
  | .router a, .router reply =>
    (s.router.exec a reply).map fun p => ({ s with router := p.1 }, p.2.exit.map .router)
  | _, _ => none

def machine : Machine Inbound Action Call Reply where
  thread
    | .arrive a => ⟨[.handleInbound a], []⟩
    | .router call => ⟨[.router (.call call)], []⟩
  exec := exec

def launch (transports : List MeshTransport) (seenCapacity : Nat) : Inbound :=
  ⟨.new transports seenCapacity, [], []⟩

/-! ### Who brought an identifier into the seen cache -/

/-- The arrival that last brought each identifier into the seen cache; none for one of our own
sends. -/
abbrev Sources := Dict MessageID (Option Arrival)

/-- The identifier that a segment of the router marks as seen. -/
def marks (r : MessageRouter) : MessageRouter.Segment → Option MessageID
  | .call (.send envelope _ _ _) | .call (.publishOverNostr envelope _) => some envelope.id
  | .call (.resend id) => (r.resendEnvelope id).map (·.id)
  | _ => none

/-- What an action inserts into the seen cache, on whose behalf. -/
def inserts (s : Inbound) : Action → Option (MessageID × Option Arrival)
  | .handleInbound a => some (a.envelope.id, some a)
  | .router a => (marks s.router a).map fun id => (id, none)
  | .relay _ | .receive _ => none

def note (sources : Sources) (s : Inbound) (a : Action) (_ : Reply) (_ : Inbound) : Sources :=
  match inserts s a with
  | some (id, source) =>
    if id ∈ s.router.seen.present then sources else AList.insert id source sources
  | none => sources

abbrev Step := Transition (Config (Inbound × Sources) Action) (Event Call Reply)

/-- The steps of a run from a launch. -/
def steps (transports : List MeshTransport) (seenCapacity : Nat)
    (events : List (Event Call Reply)) :
    List Step :=
  trace (machine.observed note).step ⟨(launch transports seenCapacity, ∅), []⟩ events

/-- The step is the arrival of `a`. -/
def Step.Arrives (t : Step) (a : Arrival) : Prop :=
  Config.Ran t fun _ b _ => b = .handleInbound a

/-- An arrival that opens finds, or leaves, its identifier in the cache on behalf of an envelope
that opens, which was handed to the receiver or is about to be. -/
def Step.HandsOpenable (t : Step) : Prop :=
  ∀ a, t.Arrives a → a.opens → ∃ b, t.post.shared.2.lookup a.envelope.id = some (some b) ∧
    b.envelope.id = a.envelope.id ∧ b.opens ∧
    (b ∈ t.post.shared.1.received ∨ t.post.Pending (.receive b))

/-- An arrival that opens finds its identifier in the cache, where one that does not open, or one of
our own sends, has put it. -/
def Step.FindsJunk (t : Step) : Prop :=
  ∃ a, t.Arrives a ∧ a.opens ∧ a.envelope.id ∈ t.pre.shared.1.router.seen.present ∧
    ∀ b, t.pre.shared.2.lookup a.envelope.id = some (some b) → ¬b.opens

end Inbound

namespace MessageRouter

variable {r : MessageRouter} {a : Segment} {reply : Reply} {p : MessageRouter × Outcome}

@[simp] theorem update_seen (id : MessageID) (s : MessageDeliveryState) :
    (r.update id s).seen = r.seen := by
  unfold update
  cases s.isTerminal <;> rfl

theorem updateTracked_seen (id : MessageID) (s : MessageDeliveryState) :
    (r.updateTracked id s).seen = r.seen := by
  unfold updateTracked
  split
  · rfl
  · exact update_seen id s

theorem finishSend_seen (id : MessageID) (tracked : Bool) (s : MessageDeliveryState) :
    (r.finishSend id tracked s).1.seen = r.seen := by
  unfold finishSend
  split
  · dsimp only
    split
    · exact update_seen id s
    · exact update_seen id s
  · rfl

theorem commitToRelay_seen (id : MessageID) : (r.commitToRelay id).seen = r.seen := by
  unfold commitToRelay
  split
  · rfl
  · exact update_seen id .cast

theorem rerouteNext_seen (departed : List Data) (rerouted : Nat)
    (entries : List (MessageID × OutboxEntry)) :
    (r.rerouteNext departed rerouted entries).1.seen = r.seen := by
  induction entries with
  | nil => rfl
  | cons e entries ih =>
    unfold rerouteNext
    split
    · exact ih
    · rfl

theorem send_seen (envelope : Envelope) (tracked : Bool) (peerKey nostrRecipient : Option Data) :
    (r.send envelope tracked peerKey nostrRecipient).1.seen =
      (r.seen.containsOrInsert envelope.id).2 := by
  have hover (r' : MessageRouter) : (if r'.hasTransport .ble then
      (r', Outcome.suspend (.bleReplied envelope tracked nostrRecipient))
      else r'.finishSend envelope.id tracked .notDelivered).1.seen = r'.seen := by
    split
    · rfl
    · exact finishSend_seen ..
  unfold send
  cases tracked with
  | true => exact hover _
  | false => exact hover _

/-- A segment marks its identifier as seen, and leaves the cache alone otherwise. -/
theorem exec_seen (h : r.exec a reply = some p) : p.1.seen =
    (Inbound.marks r a).elim r.seen fun id => (r.seen.containsOrInsert id).2 := by
  unfold exec at h
  split at h
  · unfold begin at h
    split at h
    · cases h
      exact send_seen ..
    · cases h
      unfold publishOverNostr
      dsimp only
      split
      · rfl
      · rfl
    · unfold rerouteToNostr at h
      split at h
      · cases h
        rfl
      · split at h
        · cases h
          exact rerouteNext_seen ..
        · cases h
    · cases h
    · cases h
      unfold beginTracking
      split
      · rfl
      · rfl
    · cases h
      unfold startDeliveryTimeout
      split
      · split <;> rfl
      · rfl
    · cases h
      unfold extendTimeout
      split
      · split <;> rfl
      · rfl
    · cases h
      unfold resend
      split
      · rename_i id _ envelope henvelope
        have hmarks : Inbound.marks r (.call (.resend id)) = some envelope.id := by
          simp [Inbound.marks, henvelope]
        rw [hmarks]
        exact send_seen ..
      · rename_i id _ hnone
        have hmarks : Inbound.marks r (.call (.resend id)) = none := by
          simp [Inbound.marks, hnone]
        rw [hmarks]
        rfl
    · cases h
      exact updateTracked_seen ..
    · cases h
      exact updateTracked_seen ..
    · cases h
      exact updateTracked_seen ..
    · cases h
      exact commitToRelay_seen ..
    · obtain ⟨timer, _, rfl⟩ := Option.map_eq_some_iff.mp h
      rfl
  · cases h
    exact finishSend_seen ..
  · cases h
    unfold fallBackToNostr
    split
    · split
      · rfl
      · exact finishSend_seen ..
    · exact finishSend_seen ..
  · cases h
    exact finishSend_seen ..
  · cases h
  · obtain ⟨resulting, _, rfl⟩ := Option.map_eq_some_iff.mp h
    exact finishSend_seen ..
  · obtain ⟨state, _, rfl⟩ := Option.map_eq_some_iff.mp h
    rfl
  · obtain ⟨outcome, _, rfl⟩ := Option.map_eq_some_iff.mp h
    rw [rerouteNext_seen]
    split
    · exact commitToRelay_seen ..
    · rfl
  · cases h
    unfold timeoutFired
    dsimp only
    split
    · split
      · rfl
      · exact update_seen ..
    · rfl

end MessageRouter

namespace Inbound

open Interleave

/-! ### Every insertion is on somebody's behalf -/

variable {s s' : Inbound} {sources : Sources} {x : Exit Action} {id : MessageID} {a : Action}
  {reply : Reply} {b : Arrival}

/-- An arrival that is a duplicate, or one that goes on to the receiver. -/
theorem handleInbound_cases (s : Inbound) (b : Arrival) :
    (b.envelope.id ∈ s.router.seen.present ∧ s.handleInbound b = (s, .goOn [])) ∨
    b.envelope.id ∉ s.router.seen.present ∧ ∃ first,
      s.handleInbound b = ({ s with router := { s.router with
        seen := (s.router.seen.containsOrInsert b.envelope.id).2 } },
        .goOn (first ++ [.receive b])) ∧ ∀ c, .receive c ∉ first := by
  unfold handleInbound
  by_cases hseen : b.envelope.id ∈ s.router.seen.present
  · exact .inl ⟨hseen, by rw [SeenCache.containsOrInsert_of_mem hseen]⟩
  · refine .inr ⟨hseen, ?_⟩
    have hnew := (SeenCache.containsOrInsert_of_not_mem hseen).1
    generalize s.router.seen.containsOrInsert b.envelope.id = q at hnew
    obtain ⟨found, seen⟩ := q
    obtain rfl : found = false := hnew
    dsimp only
    split
    · split
      · exact ⟨[.relay _], rfl, by simp⟩
      · exact ⟨[], rfl, by simp⟩
    · exact ⟨[], rfl, by simp⟩

/-- What is in the seen cache was there, or is inserted by the action. -/
theorem mem_present_of_exec (h : s.exec a reply = some (s', x))
    (hid : id ∈ s'.router.seen.present) :
    id ∈ s.router.seen.present ∨ ∃ source, inserts s a = some (id, source) := by
  have hinsert {c : SeenCache} {j : MessageID} (hmem : id ∈ (c.containsOrInsert j).2.present) :
      id = j ∨ id ∈ c.present := by
    by_cases hj : j ∈ c.present
    · rw [SeenCache.containsOrInsert_of_mem hj] at hmem
      exact .inr hmem
    · exact (SeenCache.containsOrInsert_of_not_mem hj).2 id hmem
  unfold exec at h
  split at h
  · rename_i b
    rw [Option.some.injEq] at h
    rcases handleInbound_cases s b with ⟨_, heq⟩ | ⟨_, first, heq, _⟩
    · cases heq.symm.trans h
      exact .inl hid
    · cases heq.symm.trans h
      rcases hinsert hid with rfl | hold
      · exact .inr ⟨some b, rfl⟩
      · exact .inl hold
  · cases h
    exact .inl hid
  · cases h
    exact .inl hid
  · obtain ⟨p, hp, heq⟩ := Option.map_eq_some_iff.mp h
    cases heq
    have hseen := MessageRouter.exec_seen hp
    dsimp only at hid
    rw [hseen] at hid
    rename_i segment _
    cases hmarks : marks s.router segment with
    | none =>
      rw [hmarks] at hid
      exact .inl hid
    | some j =>
      rw [hmarks] at hid
      rcases hinsert hid with rfl | hold
      · exact .inr ⟨none, by simp [inserts, hmarks]⟩
      · exact .inl hold
  · cases h

/-- An identifier in the cache has a source. -/
def Sourced (s : Inbound) (sources : Sources) : Prop :=
  ∀ id ∈ s.router.seen.present, (sources.lookup id).isSome

theorem sourced_exec (h : s.exec a reply = some (s', x)) (hs : Sourced s sources) :
    Sourced s' (note sources s a reply s') := by
  intro id hid
  unfold note
  rcases mem_present_of_exec h hid with hold | ⟨source, hnew⟩
  · have hsome := hs id hold
    split
    · split
      · exact hsome
      · rw [Dict.lookup_insert]
        split
        · rfl
        · exact hsome
    · exact hsome
  · rw [hnew]
    dsimp only
    split
    · exact hs id ‹_›
    · simp

theorem handleInbound_of_exec (h : s.exec (.handleInbound b) reply = some (s', x)) :
    s.handleInbound b = (s', x) := by
  cases reply with
  | done => exact Option.some.inj h
  | exclusions | router => cases h

/-- An arrival that is a source has been handed to the receiver, or is about to be. -/
def Accounted (c : Config (Inbound × Sources) Action) : Prop :=
  ∀ id b, c.shared.2.lookup id = some (some b) →
    b.envelope.id = id ∧ (b ∈ c.shared.1.received ∨ c.Pending (.receive b))

/-- What an action makes the source of an identifier, if it changes it. -/
theorem lookup_note (h : s.exec a reply = some (s', x))
    (hlookup : (note sources s a reply s').lookup id = some (some b)) :
    sources.lookup id = some (some b) ∨
      a = .handleInbound b ∧ id = b.envelope.id ∧ .receive b ∈ x.added := by
  unfold note at hlookup
  split at hlookup
  · rename_i j source hinserts
    split at hlookup
    · exact .inl hlookup
    · rename_i hnew
      rw [Dict.lookup_insert] at hlookup
      split at hlookup
      · rename_i hid
        subst hid
        cases hlookup
        unfold inserts at hinserts
        split at hinserts
        · cases hinserts
          refine .inr ⟨rfl, rfl, ?_⟩
          have heq := handleInbound_of_exec h
          rcases handleInbound_cases s b with ⟨hmem, _⟩ | ⟨_, first, hfirst, _⟩
          · exact absurd hmem hnew
          · cases hfirst.symm.trans heq
            exact List.mem_append_right _ (List.mem_singleton_self _)
        · obtain ⟨_, _, hnone⟩ := Option.map_eq_some_iff.mp hinserts
          cases hnone
        · cases hinserts
        · cases hinserts
      · exact .inl hlookup
  · exact .inl hlookup

theorem mem_received_of_exec (h : s.exec a reply = some (s', x)) :
    (b ∈ s.received → b ∈ s'.received) ∧ (a = .receive b → b ∈ s'.received) := by
  unfold exec at h
  split at h
  · rename_i c
    refine ⟨fun hb => ?_, fun ha => by cases ha⟩
    obtain heq := Option.some.inj h
    rcases handleInbound_cases s c with ⟨_, hsame⟩ | ⟨_, first, hfirst, _⟩
    · cases hsame.symm.trans heq
      exact hb
    · cases hfirst.symm.trans heq
      exact hb
  · cases h
    exact ⟨id, fun ha => by cases ha⟩
  · cases h
    refine ⟨fun hb => List.mem_append_left _ hb, fun ha => ?_⟩
    cases ha
    exact List.mem_append_right _ (List.mem_singleton_self _)
  · obtain ⟨p, _, heq⟩ := Option.map_eq_some_iff.mp h
    cases heq
    exact ⟨id, fun ha => by cases ha⟩
  · cases h

/-- No action throws. -/
theorem exec_goes_on (h : s.exec a reply = some (s', x)) : ∃ first, x = .goOn first := by
  unfold exec at h
  split at h
  · rename_i c
    obtain heq := Option.some.inj h
    rcases handleInbound_cases s c with ⟨_, hsame⟩ | ⟨_, first, hfirst, _⟩
    · cases hsame.symm.trans heq
      exact ⟨_, rfl⟩
    · cases hfirst.symm.trans heq
      exact ⟨_, rfl⟩
  · cases h
    exact ⟨_, rfl⟩
  · cases h
    exact ⟨_, rfl⟩
  · obtain ⟨p, _, heq⟩ := Option.map_eq_some_iff.mp h
    cases heq
    cases p.2 <;> exact ⟨_, rfl⟩
  · cases h

/-- The invariant. -/
structure Kept (c : Config (Inbound × Sources) Action) : Prop where
  sourced : Sourced c.shared.1 c.shared.2
  accounted : Accounted c

theorem kept_step {t : Step} (ht : (machine.observed note).step t.pre t.event = some t.post)
    (hkept : Kept t.pre) : Kept t.post := by
  rcases Machine.step_cases ht with ⟨call, _, hpost⟩ |
    ⟨i, reply, a, rest, handler, s, x, _, hi, hexec, _, hpost⟩
  · rw [hpost]
    refine ⟨hkept.sourced, fun id b hb => ?_⟩
    obtain ⟨hid, hdone⟩ := hkept.accounted id b hb
    exact ⟨hid, hdone.imp_right fun hp => Machine.pending_start hp⟩
  · obtain ⟨s', sources'⟩ := s
    obtain ⟨hs, hnote⟩ := Machine.observed_exec hexec
    dsimp only at hs hnote
    rw [hpost]
    subst hnote
    refine ⟨sourced_exec hs hkept.sourced, fun id b hb => ?_⟩
    have hmem := mem_received_of_exec (b := b) hs
    rcases lookup_note hs hb with hold | ⟨_, hid, hadded⟩
    · obtain ⟨hid, hdone | hp⟩ := hkept.accounted id b hold
      · exact ⟨hid, .inl (hmem.1 hdone)⟩
      · refine ⟨hid, ?_⟩
        rcases Machine.pending_step _ x hi hp with rfl | ⟨_, cleanup, hthrow⟩ | hpending
        · exact .inl (hmem.2 rfl)
        · obtain ⟨first, hfirst⟩ := exec_goes_on hs
          cases hfirst.symm.trans hthrow
        · exact .inr hpending
    · refine ⟨hid.symm, .inr ((Machine.pending_set hi _).mpr (.inr ?_))⟩
      obtain ⟨first, rfl⟩ := exec_goes_on hs
      exact List.mem_append_left _ hadded

theorem kept_launch (transports : List MeshTransport) (seenCapacity : Nat) :
    Kept ⟨(launch transports seenCapacity, ∅), []⟩ := by
  refine ⟨fun id hid => ?_, fun id b hb => ?_⟩
  · simp [launch, MessageRouter.new, SeenCache.new] at hid
  · simp at hb

/-- An arrival leaves the identifier in the cache on its own behalf, unless it finds it there. -/
theorem arrives_cases {t : Step} {a : Arrival}
    (ht : (machine.observed note).step t.pre t.event = some t.post) (ha : t.Arrives a) :
    (a.envelope.id ∈ t.pre.shared.1.router.seen.present ∧
      t.post.shared.2 = t.pre.shared.2) ∨
    a.envelope.id ∉ t.pre.shared.1.router.seen.present ∧
      t.post.shared.2.lookup a.envelope.id = some (some a) := by
  rcases Machine.step_shared ht with ⟨_, hnone⟩ | ⟨b, reply, x, hexec, hran⟩
  · exact absurd ha (hnone _)
  · obtain rfl := (hran _).mp ha
    obtain ⟨_, hnote⟩ := Machine.observed_exec hexec
    rw [hnote]
    simp only [note, inserts]
    split
    · exact .inl ⟨‹_›, rfl⟩
    · exact .inr ⟨‹_›, by simp⟩

/-- An arrival that opens is accounted for exactly when it does not find junk in its place. -/
theorem handsOpenable_step {t : Step}
    (ht : (machine.observed note).step t.pre t.event = some t.post) (hkept : Kept t.pre) :
    t.HandsOpenable ↔ ¬t.FindsJunk := by
  have hpost := (kept_step ht hkept).accounted
  constructor
  · rintro hhands ⟨a, ha, hopens, hseen, hjunk⟩
    obtain ⟨b, hb, _, hbopens, _⟩ := hhands a ha hopens
    rcases arrives_cases ht ha with ⟨_, hsame⟩ | ⟨hnew, _⟩
    · exact hjunk b (hsame ▸ hb) hbopens
    · exact hnew hseen
  · intro hmeets a ha hopens
    rcases arrives_cases ht ha with ⟨hseen, hsame⟩ | ⟨_, hsource⟩
    · obtain ⟨b, hb, hbopens⟩ : ∃ b, t.pre.shared.2.lookup a.envelope.id = some (some b) ∧
        b.opens := by
        by_contra hnone
        exact hmeets ⟨a, ha, hopens, hseen, fun b hb hbopens => hnone ⟨b, hb, hbopens⟩⟩
      have hb : t.post.shared.2.lookup a.envelope.id = some (some b) := hsame ▸ hb
      obtain ⟨hid, hdone⟩ := hpost _ b hb
      exact ⟨b, hb, hid, hbopens, hdone⟩
    · obtain ⟨hid, hdone⟩ := hpost _ a hsource
      exact ⟨a, hsource, hid, hopens, hdone⟩

/-- In every run, every arrival that opens has an openable envelope with its identifier handed to
the receiver within the window of the seen cache if and only if none finds its identifier in the
cache where something else has put it. -/
theorem openable_handed_iff (transports : List MeshTransport) (seenCapacity : Nat)
    (events : List (Event Call Reply)) :
    (∀ t ∈ steps transports seenCapacity events, t.HandsOpenable) ↔
      ∀ t ∈ steps transports seenCapacity events, ¬t.FindsJunk :=
  forall_trace_iff_of_invariant (fun _ ht hkept => kept_step ht hkept)
    (kept_launch transports seenCapacity) fun _ ht hkept => handsOpenable_step ht hkept

/-- Junk that arrives over a relay under the identifier of a message that the radio then brings. -/
def junkFirst : List (Event Call Reply) :=
  [.start (.arrive ⟨0, .new (.filled 1) [], .internet, false⟩), .step 0 .done, .step 0 .done,
    .start (.arrive ⟨7, .new (.filled 1) [5], .ble, true⟩), .step 1 .done]

/-- The message is swallowed: nothing that opens is ever handed to the receiver. -/
theorem openable_swallowed :
    ∃ t ∈ steps [⟨.ble, false⟩, ⟨.internet, true⟩] MessageRouter.defaultSeenCapacity junkFirst,
      t.Arrives ⟨7, .new (.filled 1) [5], .ble, true⟩ ∧ t.post.Idle ∧
        (∀ b ∈ t.post.shared.1.received, ¬b.opens) ∧ ¬t.HandsOpenable := by
  have hlast : ∃ t ∈ steps [⟨.ble, false⟩, ⟨.internet, true⟩]
    MessageRouter.defaultSeenCapacity junkFirst,
      t.Arrives ⟨7, .new (.filled 1) [5], .ble, true⟩ ∧ t.post.Idle ∧
        t.post.shared.1.received = [⟨0, .new (.filled 1) [], .internet, false⟩] :=
    ⟨_, List.mem_of_getElem? (i := 4) rfl, ⟨_, .done, rfl, rfl⟩, Config.idle_of_all rfl, rfl⟩
  obtain ⟨t, hmem, ha, hidle, hreceived⟩ := hlast
  have hjunk : ∀ b ∈ t.post.shared.1.received, ¬b.opens := by
    rw [hreceived]
    simp
  refine ⟨t, hmem, ha, hidle, hjunk, fun hhands => ?_⟩
  obtain ⟨b, _, _, hopens, hdone | hpending⟩ := hhands _ ha rfl
  · exact hjunk b hdone hopens
  · exact Config.not_pending_of_idle hidle _ hpending

end Inbound

end AeroNyra
