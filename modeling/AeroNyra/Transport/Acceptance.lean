import AeroNyra.Lib.Dict
import AeroNyra.Lib.Interleave
import AeroNyra.Transport.GiftWraps

/-! The acceptance ledger of the internet transport: a published event is handed to the live relays
again and again until one of them accepts it or the attempts are used up.  The verdicts of a round
are counted, not attributed, and those that come between two rounds are dropped. -/

namespace AeroNyra

/-! ### The ledger -/

structure PendingAcceptance where
  eventID : Text
  envelopeID : MessageID
  /-- How many live relays the event was handed to. -/
  relayCount : Nat
  /-- The attempt that the entry is about, from one on. -/
  attempt : Nat
  accepted : Nat
  rejected : Nat
  deriving DecidableEq

/-- The entry with one more verdict. -/
def PendingAcceptance.count (pending : PendingAcceptance) (accepted : Bool) : PendingAcceptance :=
  if accepted then { pending with accepted := pending.accepted + 1 }
  else { pending with rejected := pending.rejected + 1 }

inductive AcceptanceOutcome
  | settled
  | retry
  | giveUp

/-- A block that the transport's queue is to run later. -/
inductive Block
  | acceptanceDeadline (eventID : Text)
  | republish (pending : PendingAcceptance)
  deriving DecidableEq

/-- The event that a block hands to the relays again. -/
def Block.republished : Block → Option Text
  | .acceptanceDeadline _ => none
  | .republish pending => some pending.eventID

def Block.republishes (eventID : Text) : Block → Bool
  | .acceptanceDeadline _ => false
  | .republish pending => pending.eventID == eventID

/-- What the transport reads and writes when it publishes.  A relay is its place in the configured
list, and `conns` tells which of them have a socket. -/
structure NostrOutbound where
  started : Bool
  conns : List Bool
  pendingAcceptance : Dict Text PendingAcceptance
  /-- The blocks that are scheduled.  They may run in any order. -/
  scheduled : List Block
  hasFailureHandler : Bool
  /-- The envelopes that `onPublishFailed` was invoked for, each with its event. -/
  failures : List (Text × MessageID)

theorem PendingAcceptance.count_total (p : PendingAcceptance) (b : Bool) :
    (p.count b).accepted + (p.count b).rejected = p.accepted + p.rejected + 1 := by
  unfold PendingAcceptance.count
  cases b
  · rfl
  · show p.accepted + 1 + p.rejected = p.accepted + p.rejected + 1
    omega

@[simp] theorem PendingAcceptance.count_eventID (p : PendingAcceptance) (b : Bool) :
    (p.count b).eventID = p.eventID := by
  cases b <;> rfl

@[simp] theorem PendingAcceptance.count_relayCount (p : PendingAcceptance) (b : Bool) :
    (p.count b).relayCount = p.relayCount := by
  cases b <;> rfl

namespace NostrOutbound

open Interleave

def maxPublishAttempts : Nat := 3

def acceptanceOutcome (accepted attempt maxAttempts : Nat) : AcceptanceOutcome :=
  if 0 < accepted then .settled
  else if attempt < maxAttempts then .retry
  else .giveUp

variable (s : NostrOutbound)

/-- The relays with a socket. -/
def live : List Nat := (List.range s.conns.length).filter fun i => s.conns[i]?.getD false

def recordPublish (eventID : Text) (envelopeID : MessageID) (relayCount attempt : Nat) :
    NostrOutbound :=
  { s with
    pendingAcceptance :=
      AList.insert eventID ⟨eventID, envelopeID, relayCount, attempt, 0, 0⟩ s.pendingAcceptance
    scheduled := s.scheduled ++ [.acceptanceDeadline eventID] }

def finalizeAcceptance (eventID : Text) : NostrOutbound :=
  match s.pendingAcceptance.lookup eventID with
  | none => s
  | some pending =>
    let s := { s with pendingAcceptance := AList.erase eventID s.pendingAcceptance }
    match acceptanceOutcome pending.accepted pending.attempt maxPublishAttempts with
    | .settled => s
    | .retry => { s with scheduled := s.scheduled ++ [.republish pending] }
    | .giveUp =>
      if s.hasFailureHandler then
        { s with failures := s.failures ++ [(pending.eventID, pending.envelopeID)] }
      else s

def noteAcceptance (eventID : Text) (accepted : Bool) : NostrOutbound :=
  match s.pendingAcceptance.lookup eventID with
  | none => s
  | some pending =>
    let pending := pending.count accepted
    let s := { s with pendingAcceptance := AList.insert eventID pending s.pendingAcceptance }
    if pending.relayCount ≤ pending.accepted + pending.rejected then s.finalizeAcceptance eventID
    else s

def republish (pending : PendingAcceptance) : NostrOutbound :=
  if s.started then
    s.recordPublish pending.eventID pending.envelopeID s.live.length (pending.attempt + 1)
  else s

/-- `publish` from the moment that it has wrapped the envelope.  No live relay makes it throw. -/
def publish (eventID : Text) (envelopeID : MessageID) : NostrOutbound :=
  if s.live = [] then s else s.recordPublish eventID envelopeID s.live.length 1

def runBlock : Block → NostrOutbound
  | .acceptanceDeadline eventID => s.finalizeAcceptance eventID
  | .republish pending => s.republish pending

/-! ### Runs -/

inductive Event
  | setPublishFailureHandler
  | start
  | stop
  /-- A relay's socket is built, or torn down. -/
  | connect (relay : Nat)
  | disconnect (relay : Nat)
  | publish (eventID : Text) (envelopeID : MessageID)
  /-- A relay's verdict on an event, read from its socket. -/
  | ok (relay : Nat) (eventID : Text) (accepted : Bool)
  /-- The block at a place in `scheduled` runs. -/
  | fire (block : Nat)
  deriving DecidableEq

def launch : NostrOutbound := ⟨false, [], ∅, [], false, []⟩

/-- The relays that were handed an event in its last round, and those whose verdicts were counted in
that round. -/
structure Round where
  handed : List Nat
  counted : List Nat
  deriving DecidableEq

/-- What happened to the events so far; the transport reads none of it. -/
structure History where
  published : List Text
  rounds : Dict Text Round
  /-- Each verdict on a published event. -/
  verdicts : List (Text × Nat × Bool)

/-- The effect of an event on a transport for `relays` relays.  An event is published once, since a
wrap has a key and a nonce of its own. -/
def exec (relays : Nat) (h : History) : Event → Option NostrOutbound
  | .setPublishFailureHandler => some { s with hasFailureHandler := true }
  | .start =>
    some (if s.started then s else { s with started := true, conns := .replicate relays true })
  | .stop => some { s with started := false, conns := [], pendingAcceptance := ∅ }
  | .connect relay => some { s with conns := s.conns.set relay true }
  | .disconnect relay => some { s with conns := s.conns.set relay false }
  | .publish eventID envelopeID =>
    if eventID ∈ h.published then none else some (s.publish eventID envelopeID)
  | .ok relay eventID accepted =>
    if relay ∈ s.live then some (s.noteAcceptance eventID accepted) else none
  | .fire block => s.scheduled[block]?.map fun b =>
    ({ s with scheduled := s.scheduled.eraseIdx block } : NostrOutbound).runBlock b

def History.recordRound (h : History) (eventID : Text) (handed : List Nat) : History :=
  { h with rounds := AList.insert eventID ⟨handed, []⟩ h.rounds }

def History.note (h : History) (s : NostrOutbound) : Event → History
  | .publish eventID _ =>
    if s.live = [] then h
    else { h with published := eventID :: h.published }.recordRound eventID s.live
  | .ok relay eventID accepted =>
    if eventID ∈ h.published then
      { h with
        rounds := if (s.pendingAcceptance.lookup eventID).isSome then
            h.rounds.modify eventID fun r => { r with counted := relay :: r.counted }
          else h.rounds
        verdicts := (eventID, relay, accepted) :: h.verdicts }
    else h
  | .fire block =>
    match s.scheduled[block]? with
    | some (.republish pending) =>
      if s.started then h.recordRound pending.eventID s.live else h
    | _ => h
  | _ => h

def step (relays : Nat) (c : NostrOutbound × History) (e : Event) :
    Option (NostrOutbound × History) :=
  (c.1.exec relays c.2 e).map fun s => (s, c.2.note c.1 e)

abbrev Step := Transition (NostrOutbound × History) Event

/-- The steps of a run of a transport for `relays` relays. -/
def steps (relays : Nat) (events : List Event) : List Step :=
  trace (step relays) (launch, ⟨[], ∅, []⟩) events

/-- A relay has accepted the event since it was published. -/
def History.Accepted (h : History) (eventID : Text) : Prop :=
  ∃ relay, (eventID, relay, true) ∈ h.verdicts

/-- If the step reports that publishing failed, no relay has accepted the event. -/
def Step.FailsUnaccepted (t : Step) : Prop :=
  ∀ eventID envelopeID, t.post.1.failures = t.pre.1.failures ++ [(eventID, envelopeID)] →
    ¬t.post.2.Accepted eventID

/-- If the step ends a round before its deadline and no verdict of the round accepted the event,
every relay that the round handed the event to has rejected it. -/
def Step.EndsRejected (t : Step) : Prop :=
  ∀ relay eventID pending, t.event = .ok relay eventID false →
    t.pre.1.pendingAcceptance.lookup eventID = some pending → pending.accepted = 0 →
    t.post.1.pendingAcceptance.lookup eventID = none →
    ∃ round, t.post.2.rounds.lookup eventID = some round ∧
      ∀ r ∈ round.handed, (eventID, r, false) ∈ t.post.2.verdicts

/-- A relay accepts an event between two of its rounds. -/
def acceptsBetweenRounds (s : NostrOutbound) : Event → Bool
  | .ok _ eventID true =>
    (s.pendingAcceptance.lookup eventID).isNone && s.scheduled.any (Block.republishes eventID)
  | _ => false

/-- A verdict is counted in a round that did not hand its relay the event, or that has counted the
relay before. -/
def countsAmiss (s : NostrOutbound) (h : History) : Event → Bool
  | .ok relay eventID _ =>
    (s.pendingAcceptance.lookup eventID).isSome &&
      (h.rounds.lookup eventID).any fun r => relay ∉ r.handed || relay ∈ r.counted
  | _ => false

/-- The verdict that the step reads, if it reads one, is attributed to the right round. -/
def Step.Attributed (t : Step) : Prop :=
  ¬acceptsBetweenRounds t.pre.1 t.event ∧ ¬countsAmiss t.pre.1 t.pre.2 t.event

instance : DecidablePred Step.Attributed := fun _ => inferInstanceAs (Decidable (¬_ ∧ ¬_))

/-! ### What the operations do -/

variable {s : NostrOutbound} {h : History} {e e' : Text} {p : PendingAcceptance}

/-- How many rounds of an event are going on or scheduled. -/
def ongoing (s : NostrOutbound) (e : Text) : Nat :=
  (if (s.pendingAcceptance.lookup e).isSome then 1 else 0) +
    s.scheduled.countP (Block.republishes e)

/-- A round that is finalized settles, is followed by another one, or is the last. -/
theorem finalizeAcceptance_cases (hp : s.pendingAcceptance.lookup e = some p) :
    (s.finalizeAcceptance e).pendingAcceptance = AList.erase e s.pendingAcceptance ∧
    (((s.finalizeAcceptance e).scheduled = s.scheduled ∧
        (s.finalizeAcceptance e).failures = s.failures) ∨
      (p.accepted = 0 ∧ (s.finalizeAcceptance e).scheduled = s.scheduled ++ [.republish p] ∧
        (s.finalizeAcceptance e).failures = s.failures) ∨
      p.accepted = 0 ∧ (s.finalizeAcceptance e).scheduled = s.scheduled ∧
        (s.finalizeAcceptance e).failures = s.failures ++ [(p.eventID, p.envelopeID)]) := by
  unfold finalizeAcceptance acceptanceOutcome
  rw [hp]
  dsimp only
  by_cases haccepted : 0 < p.accepted
  · rw [if_pos haccepted]
    exact ⟨rfl, .inl ⟨rfl, rfl⟩⟩
  · have hnone : p.accepted = 0 := by omega
    rw [if_neg haccepted]
    by_cases hattempt : p.attempt < maxPublishAttempts
    · rw [if_pos hattempt]
      exact ⟨rfl, .inr (.inl ⟨hnone, rfl, rfl⟩)⟩
    · rw [if_neg hattempt]
      by_cases hhandler : s.hasFailureHandler
      · dsimp only
        rw [if_pos hhandler]
        exact ⟨rfl, .inr (.inr ⟨hnone, rfl, rfl⟩)⟩
      · dsimp only
        rw [if_neg hhandler]
        exact ⟨rfl, .inl ⟨rfl, rfl⟩⟩

theorem finalizeAcceptance_of_none (hp : s.pendingAcceptance.lookup e = none) :
    s.finalizeAcceptance e = s := by
  unfold finalizeAcceptance
  rw [hp]

/-! ### What the ladder holds -/

/-- The events that may be handed to the relays again. -/
def held (s : NostrOutbound) : List Text :=
  s.pendingAcceptance.pairs.map (·.2.eventID) ++ s.scheduled.filterMap Block.republished

theorem mem_held : e ∈ s.held ↔ (∃ j p, s.pendingAcceptance.lookup j = some p ∧ p.eventID = e) ∨
    ∃ p, .republish p ∈ s.scheduled ∧ p.eventID = e := by
  have hpairs : e ∈ s.pendingAcceptance.pairs.map (·.2.eventID) ↔
      ∃ j p, s.pendingAcceptance.lookup j = some p ∧ p.eventID = e := by
    simp only [List.mem_map, Prod.exists, Dict.mem_pairs]
  have hblocks : e ∈ s.scheduled.filterMap Block.republished ↔
      ∃ p, .republish p ∈ s.scheduled ∧ p.eventID = e := by
    rw [List.mem_filterMap]
    constructor
    · rintro ⟨b, hb, he⟩
      cases b with
      | acceptanceDeadline => cases he
      | republish p => exact ⟨p, hb, Option.some.inj he⟩
    · rintro ⟨p, hp, rfl⟩
      exact ⟨_, hp, rfl⟩
  rw [held, List.mem_append, hpairs, hblocks]

theorem held_recordPublish {eventID : Text} {envelopeID : MessageID} {relayCount attempt : Nat}
    (he : e ∈ (s.recordPublish eventID envelopeID relayCount attempt).held) :
    e ∈ s.held ∨ e = eventID := by
  rcases mem_held.mp he with ⟨j, p, hp, rfl⟩ | ⟨p, hp, rfl⟩
  · rw [recordPublish, Dict.lookup_insert] at hp
    split at hp
    · obtain rfl := Option.some.inj hp
      exact .inr rfl
    · exact .inl (mem_held.mpr (.inl ⟨j, p, hp, rfl⟩))
  · rcases List.mem_append.mp hp with hp | hp
    · exact .inl (mem_held.mpr (.inr ⟨p, hp, rfl⟩))
    · cases List.mem_singleton.mp hp

theorem held_finalizeAcceptance (he : e ∈ (s.finalizeAcceptance e').held) : e ∈ s.held := by
  cases hlookup : s.pendingAcceptance.lookup e' with
  | none => rwa [finalizeAcceptance_of_none hlookup] at he
  | some q =>
    obtain ⟨hpending, hscheduled⟩ := finalizeAcceptance_cases hlookup
    rcases mem_held.mp he with ⟨j, p, hp, rfl⟩ | ⟨p, hp, rfl⟩
    · rw [hpending, Dict.lookup_erase] at hp
      split at hp
      · cases hp
      · exact mem_held.mpr (.inl ⟨j, p, hp, rfl⟩)
    · rcases hscheduled with ⟨hsame, _⟩ | ⟨_, hsame, _⟩ | ⟨_, hsame, _⟩
      · rw [hsame] at hp
        exact mem_held.mpr (.inr ⟨p, hp, rfl⟩)
      · rw [hsame] at hp
        rcases List.mem_append.mp hp with hp | hp
        · exact mem_held.mpr (.inr ⟨p, hp, rfl⟩)
        · cases List.mem_singleton.mp hp
          exact mem_held.mpr (.inl ⟨e', q, hlookup, rfl⟩)
      · rw [hsame] at hp
        exact mem_held.mpr (.inr ⟨p, hp, rfl⟩)

theorem held_noteAcceptance {accepted : Bool} (he : e ∈ (s.noteAcceptance e' accepted).held) :
    e ∈ s.held := by
  unfold noteAcceptance at he
  split at he
  · exact he
  · rename_i q hlookup
    have hcounted (he : e ∈ NostrOutbound.held { s with
        pendingAcceptance := AList.insert e' (q.count accepted) s.pendingAcceptance }) : e ∈
          s.held := by
      rcases mem_held.mp he with ⟨j, p, hp, rfl⟩ | ⟨p, hp, rfl⟩
      · rw [Dict.lookup_insert] at hp
        split at hp
        · obtain rfl := Option.some.inj hp
          exact mem_held.mpr (.inl ⟨e', q, hlookup, by simp⟩)
        · exact mem_held.mpr (.inl ⟨j, p, hp, rfl⟩)
      · exact mem_held.mpr (.inr ⟨p, hp, rfl⟩)
    dsimp only at he
    split at he
    · exact hcounted (held_finalizeAcceptance he)
    · exact hcounted he

/-- Only a publish adds to what the ladder holds. -/
theorem held_exec {relays : Nat} {event : Event} {s' : NostrOutbound}
    (h : s.exec relays h' event = some s')
    (he : e ∈ s'.held) : e ∈ s.held ∨ ∃ envelopeID, event = .publish e envelopeID := by
  have hkept (hsame : s'.pendingAcceptance = s.pendingAcceptance)
    (hblocks : s'.scheduled = s.scheduled) :
      e ∈ s.held := by
    rw [held, hsame, hblocks] at he
    exact he
  cases event with
  | setPublishFailureHandler =>
    obtain rfl := Option.some.inj h
    exact .inl (hkept rfl rfl)
  | start =>
    obtain rfl := Option.some.inj h
    refine .inl (hkept ?_ ?_) <;> split <;> rfl
  | stop =>
    obtain rfl := Option.some.inj h
    rcases mem_held.mp he with ⟨j, p, hp, _⟩ | hblock
    · rw [Dict.lookup_empty] at hp
      cases hp
    · exact .inl (mem_held.mpr (.inr hblock))
  | connect relay =>
    obtain rfl := Option.some.inj h
    exact .inl (hkept rfl rfl)
  | disconnect relay =>
    obtain rfl := Option.some.inj h
    exact .inl (hkept rfl rfl)
  | publish eventID envelopeID =>
    obtain ⟨_, h⟩ := Option.ite_none_left_eq_some.mp h
    obtain rfl := Option.some.inj h
    unfold publish at he
    split at he
    · exact .inl he
    · rcases held_recordPublish he with hold | rfl
      · exact .inl hold
      · exact .inr ⟨envelopeID, rfl⟩
  | ok relay eventID accepted =>
    obtain ⟨_, h⟩ := Option.ite_none_right_eq_some.mp h
    obtain rfl := Option.some.inj h
    exact .inl (held_noteAcceptance he)
  | fire block =>
    obtain ⟨b, hb, rfl⟩ := Option.map_eq_some_iff.mp h
    have hrest (hrest : e ∈ NostrOutbound.held { s with scheduled := s.scheduled.eraseIdx block }) :
        e ∈ s.held := by
      rcases mem_held.mp hrest with hpending | ⟨p, hp, heq⟩
      · exact mem_held.mpr (.inl hpending)
      · exact mem_held.mpr (.inr ⟨p, List.mem_of_mem_eraseIdx hp, heq⟩)
    cases b with
    | acceptanceDeadline eventID => exact .inl (hrest (held_finalizeAcceptance he))
    | republish p =>
      simp only [runBlock, republish] at he
      split at he
      · rcases held_recordPublish he with hold | rfl
        · exact .inl (hrest hold)
        · exact .inl (mem_held.mpr (.inr ⟨p, List.mem_of_getElem? hb, rfl⟩))
      · exact .inl (hrest he)

/-! ### Every verdict is in the count of its round -/

/-- The counts of an entry are those of the verdicts of its round. -/
structure Tally (verdicts : List (Text × Nat × Bool)) (e : Text) (p : PendingAcceptance)
    (r : Round) : Prop where
  handed : p.relayCount = r.handed.length
  once : r.counted.Nodup
  inside : r.counted ⊆ r.handed
  total : r.counted.length = p.accepted + p.rejected
  rejected : p.accepted = 0 → ∀ i ∈ r.counted, (e, i, false) ∈ verdicts

/-- The invariant: an event has one round at a time, and what has been accepted has no further
one. -/
structure Sound (s : NostrOutbound) (h : History) : Prop where
  keyed : ∀ e p, s.pendingAcceptance.lookup e = some p → p.eventID = e
  single : ∀ e, s.ongoing e ≤ 1
  fresh : ∀ e, e ∉ h.published → s.ongoing e = 0
  known : ∀ v ∈ h.verdicts, v.1 ∈ h.published
  settles : ∀ e, h.Accepted e → s.scheduled.countP (Block.republishes e) = 0 ∧
    ∀ p, s.pendingAcceptance.lookup e = some p → 0 < p.accepted
  tallied : ∀ e p, s.pendingAcceptance.lookup e = some p →
    ∃ r, h.rounds.lookup e = some r ∧ Tally h.verdicts e p r

theorem Sound.quiet_of_pending (hs : Sound s h) (hp : s.pendingAcceptance.lookup e = some p) :
    s.scheduled.countP (Block.republishes e) = 0 := by
  have hsingle := hs.single e
  unfold ongoing at hsingle
  rw [hp] at hsingle
  simp only [Option.isSome_some, if_true] at hsingle
  omega

theorem Sound.published_of_pending (hs : Sound s h) (hp : s.pendingAcceptance.lookup e = some p) :
    e ∈ h.published := by
  by_contra hfresh
  have hnone := hs.fresh e hfresh
  unfold ongoing at hnone
  rw [hp] at hnone
  simp at hnone

theorem Sound.not_accepted (hs : Sound s h) (he : e ∉ h.published) : ¬h.Accepted e := by
  rintro ⟨relay, hverdict⟩
  exact he (hs.known _ hverdict)

theorem ongoing_of_lookup_none (hp : s.pendingAcceptance.lookup e = none) :
    s.ongoing e = s.scheduled.countP (Block.republishes e) := by
  unfold ongoing
  rw [hp]
  simp

/-- Ending a round keeps the invariant, and a failure that it reports is of an event that nobody
accepted. -/
theorem Sound.finalizeAcceptance (hs : Sound s h) (e : Text) :
    Sound (s.finalizeAcceptance e) h ∧
    ((s.finalizeAcceptance e).failures = s.failures ∨ ∃ f,
      (s.finalizeAcceptance e).failures = s.failures ++ [f] ∧ ¬h.Accepted f.1) := by
  cases hp : s.pendingAcceptance.lookup e with
  | none =>
    rw [finalizeAcceptance_of_none hp]
    exact ⟨hs, .inl rfl⟩
  | some p =>
    obtain ⟨hpending, hcases⟩ := finalizeAcceptance_cases hp
    have hkey := hs.keyed e p hp
    have hquiet := hs.quiet_of_pending hp
    have hscheduled : (s.finalizeAcceptance e).scheduled = s.scheduled ∨
        p.accepted = 0 ∧ (s.finalizeAcceptance e).scheduled = s.scheduled ++ [.republish p] := by
      rcases hcases with ⟨h, _⟩ | ⟨h₀, h, _⟩ | ⟨_, h, _⟩
      · exact .inl h
      · exact .inr ⟨h₀, h⟩
      · exact .inl h
    -- Only the event itself can have one more republish ahead, in place of its entry.
    have hcount (e' : Text) (hne : e' ≠ e) :
        (s.finalizeAcceptance e).scheduled.countP (Block.republishes e') =
          s.scheduled.countP (Block.republishes e') := by
      rcases hscheduled with h | ⟨_, h⟩
      · rw [h]
      · rw [h, List.countP_append]
        simp [Block.republishes, hkey, Ne.symm hne]
    have hlookup (e' : Text) : (s.finalizeAcceptance e).pendingAcceptance.lookup e' =
        if e' = e then none else s.pendingAcceptance.lookup e' := by
      rw [hpending, Dict.lookup_erase]
    have hold {e' : Text} {q : PendingAcceptance}
        (hq : (s.finalizeAcceptance e).pendingAcceptance.lookup e' = some q) :
        e' ≠ e ∧ s.pendingAcceptance.lookup e' = some q := by
      rw [hlookup] at hq
      by_cases he : e' = e
      · rw [if_pos he] at hq
        cases hq
      · rw [if_neg he] at hq
        exact ⟨he, hq⟩
    have hongoing (e' : Text) (hne : e' ≠ e) : (s.finalizeAcceptance e).ongoing e' =
      s.ongoing e' := by
      unfold ongoing
      rw [hcount e' hne, hlookup, if_neg hne]
    refine ⟨⟨fun e' q hq => hs.keyed e' q (hold hq).2, fun e' => ?_, fun e' he' => ?_, hs.known,
      fun e' haccepted => ?_, fun e' q hq => hs.tallied e' q (hold hq).2⟩, ?_⟩
    · by_cases he : e' = e
      · subst he
        rw [ongoing_of_lookup_none (by rw [hlookup, if_pos rfl])]
        rcases hscheduled with h | ⟨_, h⟩
        · rw [h]
          omega
        · rw [h, List.countP_append, hquiet]
          simp [Block.republishes, hkey]
      · rw [hongoing e' he]
        exact hs.single e'
    · have hne : e' ≠ e := fun he => he' (he ▸ hs.published_of_pending hp)
      rw [hongoing e' hne]
      exact hs.fresh e' he'
    · obtain ⟨hnone, hpositive⟩ := hs.settles e' haccepted
      refine ⟨?_, fun q hq => hpositive q (hold hq).2⟩
      by_cases he : e' = e
      · subst he
        rcases hscheduled with h | ⟨hzero, _⟩
        · rw [h]
          exact hnone
        · have := hpositive p hp
          omega
      · rw [hcount e' he]
        exact hnone
    · rcases hcases with ⟨_, hsame⟩ | ⟨_, _, hsame⟩ | ⟨hzero, _, hreport⟩
      · exact .inl hsame
      · exact .inl hsame
      · refine .inr ⟨_, hreport, fun haccepted => ?_⟩
        have := (hs.settles p.eventID haccepted).2 p (hkey ▸ hp)
        omega

/-- A scheduled block less keeps the invariant. -/
theorem Sound.unschedule (hs : Sound s h) (block : Nat) :
    Sound { s with scheduled := s.scheduled.eraseIdx block } h := by
  have hle (e : Text) : (s.scheduled.eraseIdx block).countP (Block.republishes e) ≤
      s.scheduled.countP (Block.republishes e) :=
    (List.eraseIdx_sublist _ _).countP_le
  refine ⟨hs.keyed, fun e => ?_, fun e he => ?_, hs.known, fun e haccepted => ?_, hs.tallied⟩
  · have hsingle := hs.single e
    have := hle e
    unfold ongoing at hsingle ⊢
    dsimp only
    omega
  · have hfresh := hs.fresh e he
    have := hle e
    unfold ongoing at hfresh ⊢
    dsimp only
    omega
  · obtain ⟨hnone, hpositive⟩ := hs.settles e haccepted
    refine ⟨?_, hpositive⟩
    have := hle e
    dsimp only
    omega

/-- A new round of an event that has none, and that nobody has accepted, keeps the invariant. -/
theorem Sound.recordPublish (hs : Sound s h) (e : Text) (envelopeID : MessageID) (attempt : Nat)
    (handed : List Nat) (hpublished : e ∈ h.published) (hquiet : s.ongoing e = 0)
    (hunaccepted : ¬h.Accepted e) :
    Sound (s.recordPublish e envelopeID handed.length attempt) (h.recordRound e handed) := by
  have hcount (e' : Text) : (s.recordPublish e envelopeID handed.length attempt).scheduled.countP
      (Block.republishes e') = s.scheduled.countP (Block.republishes e') := by
    show (s.scheduled ++ [Block.acceptanceDeadline e]).countP _ = _
    rw [List.countP_append]
    rfl
  have hlookup (e' : Text) :
    (s.recordPublish e envelopeID handed.length attempt).pendingAcceptance.lookup
      e' = if e' = e then some ⟨e, envelopeID, handed.length, attempt, 0, 0⟩
        else s.pendingAcceptance.lookup e' := Dict.lookup_insert _ _ _ _
  have hother (e' : Text) (hne : e' ≠ e) :
      (s.recordPublish e envelopeID handed.length attempt).ongoing e' = s.ongoing e' := by
    unfold ongoing
    rw [hcount, hlookup, if_neg hne]
  have hrounds (e' : Text) : (h.recordRound e handed).rounds.lookup e' =
      if e' = e then some ⟨handed, []⟩ else h.rounds.lookup e' := Dict.lookup_insert _ _ _ _
  refine ⟨fun e' q hq => ?_, fun e' => ?_, fun e' he' => ?_, hs.known, fun e' haccepted => ?_,
    fun e' q hq => ?_⟩
  · rw [hlookup] at hq
    by_cases he : e' = e
    · rw [if_pos he] at hq
      cases hq
      exact he.symm
    · rw [if_neg he] at hq
      exact hs.keyed e' q hq
  · by_cases he : e' = e
    · subst he
      unfold ongoing at hquiet ⊢
      rw [hcount, hlookup, if_pos rfl]
      simp only [Option.isSome_some, if_true]
      omega
    · rw [hother e' he]
      exact hs.single e'
  · have hne : e' ≠ e := fun he => he' (he ▸ hpublished)
    rw [hother e' hne]
    exact hs.fresh e' he'
  · have hne : e' ≠ e := fun he => hunaccepted (he ▸ haccepted)
    rw [hcount, hlookup, if_neg hne]
    exact hs.settles e' haccepted
  · rw [hlookup] at hq
    rw [hrounds]
    by_cases he : e' = e
    · rw [if_pos he] at hq ⊢
      cases hq
      exact ⟨_, rfl, rfl, List.nodup_nil, List.nil_subset _, rfl, fun _ i hi => by simp at hi⟩
    · rw [if_neg he] at hq ⊢
      exact hs.tallied e' q hq

theorem Tally.mono {verdicts : List (Text × Nat × Bool)} {r : Round} (htally : Tally verdicts e p r)
    (v : Text × Nat × Bool) : Tally (v :: verdicts) e p r :=
  { htally with
    rejected := fun hzero i hi => List.mem_cons_of_mem _ (htally.rejected hzero i hi) }

/-- A verdict on a published event that has no round going on and none ahead, if it accepts, keeps
the invariant. -/
theorem Sound.verdict (hs : Sound s h) (relay : Nat) (b : Bool) (hpublished : e ∈ h.published)
    (hnone : s.pendingAcceptance.lookup e = none)
    (hgap : b = true → s.scheduled.countP (Block.republishes e) = 0) :
    Sound s { h with verdicts := (e, relay, b) :: h.verdicts } := by
  refine ⟨hs.keyed, hs.single, hs.fresh, fun v hv => ?_, fun e' haccepted => ?_, fun e' q hq => ?_⟩
  · rcases List.mem_cons.mp hv with rfl | hv
    · exact hpublished
    · exact hs.known v hv
  · obtain ⟨i, hi⟩ := haccepted
    rcases List.mem_cons.mp hi with heq | hi
    · cases heq
      refine ⟨hgap rfl, fun p hp => ?_⟩
      cases hnone.symm.trans hp
    · exact hs.settles e' ⟨i, hi⟩
  · obtain ⟨r, hr, htally⟩ := hs.tallied e' q hq
    exact ⟨r, hr, htally.mono _⟩

/-- The tally after one more verdict, from a relay that was handed the event and has not been
counted yet. -/
theorem Tally.count {verdicts : List (Text × Nat × Bool)} {r : Round} {relay : Nat}
    (htally : Tally verdicts e p r) (b : Bool) (hhanded : relay ∈ r.handed)
    (hnew : relay ∉ r.counted) :
    Tally ((e, relay, b) :: verdicts) e (p.count b) { r with counted := relay :: r.counted } where
  handed := by
    rw [PendingAcceptance.count_relayCount]
    exact htally.handed
  once := List.nodup_cons.mpr ⟨hnew, htally.once⟩
  inside := List.cons_subset.mpr ⟨hhanded, htally.inside⟩
  total := by
    rw [PendingAcceptance.count_total, List.length_cons, htally.total]
  rejected hzero i hi := by
    cases b with
    | true =>
      have : p.accepted + 1 = 0 := hzero
      omega
    | false =>
      rcases List.mem_cons.mp hi with rfl | hi
      · exact List.mem_cons_self
      · exact List.mem_cons_of_mem _ (htally.rejected hzero i hi)

/-- Counting a verdict in the round that is going on keeps the invariant. -/
theorem Sound.count (hs : Sound s h) (relay : Nat) (b : Bool) {r : Round}
    (hp : s.pendingAcceptance.lookup e = some p) (hr : h.rounds.lookup e = some r)
    (hhanded : relay ∈ r.handed) (hnew : relay ∉ r.counted) :
    Sound { s with pendingAcceptance := AList.insert e (p.count b) s.pendingAcceptance }
      { h with
        rounds := h.rounds.modify e fun r => { r with counted := relay :: r.counted }
        verdicts := (e, relay, b) :: h.verdicts } := by
  have hpublished := hs.published_of_pending hp
  have hlookup (e' : Text) : AList.lookup e' (AList.insert e (p.count b) s.pendingAcceptance) =
      if e' = e then some (p.count b) else s.pendingAcceptance.lookup e' :=
        Dict.lookup_insert _ _ _ _
  have hongoing (e' : Text) : ongoing { s with
      pendingAcceptance := AList.insert e (p.count b) s.pendingAcceptance } e' = s.ongoing e' := by
    unfold ongoing
    dsimp only
    rw [hlookup]
    by_cases he : e' = e
    · rw [if_pos he, he, hp]
      rfl
    · rw [if_neg he]
  refine ⟨fun e' q hq => ?_, fun e' => ?_, fun e' he' => ?_, fun v hv => ?_, fun e' haccepted => ?_,
    fun e' q hq => ?_⟩
  · dsimp only at hq
    rw [hlookup] at hq
    by_cases he : e' = e
    · rw [if_pos he] at hq
      cases hq
      rw [PendingAcceptance.count_eventID, he]
      exact hs.keyed e p hp
    · rw [if_neg he] at hq
      exact hs.keyed e' q hq
  · rw [hongoing]
    exact hs.single e'
  · rw [hongoing]
    exact hs.fresh e' he'
  · rcases List.mem_cons.mp hv with rfl | hv
    · exact hpublished
    · exact hs.known v hv
  · dsimp only
    obtain ⟨i, hi⟩ := haccepted
    rcases List.mem_cons.mp hi with heq | hi
    · cases heq
      refine ⟨hs.quiet_of_pending hp, fun q hq => ?_⟩
      rw [hlookup, if_pos rfl] at hq
      cases hq
      exact Nat.succ_pos _
    · obtain ⟨hnone, hpositive⟩ := hs.settles e' ⟨i, hi⟩
      refine ⟨hnone, fun q hq => ?_⟩
      rw [hlookup] at hq
      by_cases he : e' = e
      · rw [if_pos he] at hq
        cases hq
        have hpositive := hpositive p (he ▸ hp)
        cases b with
        | true => exact Nat.succ_pos _
        | false => exact hpositive
      · rw [if_neg he] at hq
        exact hpositive q hq
  · dsimp only at hq ⊢
    rw [hlookup] at hq
    rw [Dict.lookup_modify]
    by_cases he : e' = e
    · subst he
      rw [if_pos rfl] at hq ⊢
      cases hq
      obtain ⟨r', hr', htally⟩ := hs.tallied e' p hp
      cases hr.symm.trans hr'
      exact ⟨_, by rw [hr]; rfl, htally.count b hhanded hnew⟩
    · rw [if_neg he] at hq ⊢
      obtain ⟨r', hr', htally⟩ := hs.tallied e' q hq
      exact ⟨r', hr', htally.mono _⟩

/-- A round with as many verdicts as relays, none of which accepts, has been rejected by all of
them. -/
theorem Tally.all_rejected {verdicts : List (Text × Nat × Bool)} {r : Round}
    (htally : Tally verdicts e p r) (hfull : p.relayCount ≤ p.accepted + p.rejected)
    (hzero : p.accepted = 0) : ∀ i ∈ r.handed, (e, i, false) ∈ verdicts := by
  intro i hi
  have hlength : r.handed.length ≤ r.counted.length := by
    rw [htally.total, ← htally.handed]
    exact hfull
  have hperm : r.counted.Perm r.handed :=
    (List.subperm_of_subset htally.once htally.inside).perm_of_length_le hlength
  exact htally.rejected hzero i (hperm.mem_iff.mpr hi)

/-- What a step must not do wrong: a failure that it reports is of an event that nobody accepted. -/
def Reports (s s' : NostrOutbound) (h : History) : Prop :=
  s'.failures = s.failures ∨ ∃ f, s'.failures = s.failures ++ [f] ∧ ¬h.Accepted f.1

/-- A verdict that belongs to its round keeps the invariant, and ends the round before its deadline
without an acceptance only when every relay has rejected the event. -/
theorem Sound.noteAcceptance (hs : Sound s h) {relay : Nat} {b : Bool}
    (hgap : ¬acceptsBetweenRounds s (.ok relay e b)) (hcount : ¬countsAmiss s h (.ok relay e b)) :
    Sound (s.noteAcceptance e b) (h.note s (.ok relay e b)) ∧
    Reports s (s.noteAcceptance e b) (h.note s (.ok relay e b)) ∧
    ∀ p, b = false → s.pendingAcceptance.lookup e = some p → p.accepted = 0 →
      (s.noteAcceptance e b).pendingAcceptance.lookup e = none →
      ∃ round, (h.note s (.ok relay e b)).rounds.lookup e = some round ∧
        ∀ r ∈ round.handed, (e, r, false) ∈ (h.note s (.ok relay e b)).verdicts := by
  unfold NostrOutbound.noteAcceptance History.note
  dsimp only
  cases hp : s.pendingAcceptance.lookup e with
  | none =>
    refine ⟨?_, .inl rfl, fun p _ hsome => by cases hsome⟩
    by_cases hpublished : e ∈ h.published
    · rw [if_pos hpublished]
      refine hs.verdict relay b hpublished hp fun hb => ?_
      subst hb
      unfold acceptsBetweenRounds at hgap
      dsimp only at hgap
      rw [hp] at hgap
      simpa [List.countP_eq_zero] using hgap
    · rw [if_neg hpublished]
      exact hs
  | some p =>
    obtain ⟨r, hr, htally⟩ := hs.tallied e p hp
    have hround : relay ∈ r.handed ∧ relay ∉ r.counted := by
      unfold countsAmiss at hcount
      dsimp only at hcount
      rw [hp, hr] at hcount
      simpa using hcount
    rw [if_pos (hs.published_of_pending hp), Option.isSome_some, if_pos rfl]
    have hcounted := hs.count relay b hp hr hround.1 hround.2
    dsimp only
    by_cases hfull : (p.count b).relayCount ≤ (p.count b).accepted + (p.count b).rejected
    · rw [if_pos hfull]
      obtain ⟨hsound, hreports⟩ := hcounted.finalizeAcceptance e
      refine ⟨hsound, hreports, fun q hb hq hzero _ => ?_⟩
      cases hq
      subst hb
      refine ⟨{ r with counted := relay :: r.counted }, ?_, ?_⟩
      · rw [Dict.lookup_modify, if_pos rfl, hr]
        rfl
      · exact (htally.count false hround.1 hround.2).all_rejected hfull hzero
    · rw [if_neg hfull]
      refine ⟨hcounted, .inl rfl, fun q _ _ _ hnone => ?_⟩
      rw [Dict.lookup_insert, if_pos rfl] at hnone
      cases hnone

theorem countP_eraseIdx {l : List Block} {k : Nat} {b : Block} (hb : l[k]? = some b)
    (f : Block → Bool) : l.countP f = (if f b then 1 else 0) + (l.eraseIdx k).countP f := by
  obtain ⟨hlength, hget⟩ := List.getElem?_eq_some_iff.mp hb
  have hperm := List.getElem_cons_eraseIdx_perm hlength
  rw [← hperm.countP_eq f, List.countP_cons, hget]
  omega

/-- A block that runs keeps the invariant. -/
theorem Sound.runBlock (hs : Sound s h) {k : Nat} {b : Block} (hb : s.scheduled[k]? = some b) :
    Sound (({ s with scheduled := s.scheduled.eraseIdx k } : NostrOutbound).runBlock b)
      (h.note s (.fire k)) ∧
    Reports s (({ s with scheduled := s.scheduled.eraseIdx k } : NostrOutbound).runBlock b)
      (h.note s (.fire k)) := by
  have hrest := hs.unschedule k
  unfold History.note
  dsimp only
  rw [hb]
  cases b with
  | acceptanceDeadline e => exact hrest.finalizeAcceptance e
  | republish p =>
    unfold NostrOutbound.runBlock republish
    dsimp only
    by_cases hstarted : s.started
    · rw [if_pos hstarted, if_pos hstarted]
      refine ⟨?_, .inl rfl⟩
      -- The block was the one round of its event.
      have hcount := countP_eraseIdx hb (Block.republishes p.eventID)
      have hself : Block.republishes p.eventID (.republish p) = true := by simp [Block.republishes]
      rw [hself, if_pos rfl] at hcount
      have hsingle := hs.single p.eventID
      have hpublished : p.eventID ∈ h.published := by
        by_contra hfresh
        have hnone := hs.fresh _ hfresh
        unfold ongoing at hnone
        omega
      refine hrest.recordPublish p.eventID p.envelopeID _ s.live hpublished ?_ fun haccepted => ?_
      · unfold ongoing at hsingle ⊢
        dsimp only
        omega
      · have := (hs.settles _ haccepted).1
        omega
    · rw [if_neg hstarted, if_neg hstarted]
      exact ⟨hrest, .inl rfl⟩

theorem Sound.publish (hs : Sound s h) (envelopeID : MessageID) (hfresh : e ∉ h.published) :
    Sound (s.publish e envelopeID) (h.note s (.publish e envelopeID)) := by
  unfold NostrOutbound.publish History.note
  dsimp only
  by_cases hlive : s.live = []
  · rw [if_pos hlive, if_pos hlive]
    exact hs
  · rw [if_neg hlive, if_neg hlive]
    have hknown : Sound s { h with published := e :: h.published } :=
      { hs with
        fresh := fun e' he' => hs.fresh e' fun hmem => he' (List.mem_cons_of_mem _ hmem)
        known := fun v hv => List.mem_cons_of_mem _ (hs.known v hv) }
    exact hknown.recordPublish e envelopeID 1 s.live List.mem_cons_self (hs.fresh e hfresh)
      (hs.not_accepted hfresh)

/-- The rounds that are going on are dropped with the sockets. -/
theorem Sound.stop (hs : Sound s h) :
    Sound { s with started := false, conns := [], pendingAcceptance := ∅ } h := by
  have hle (e : Text) : ongoing { s with started := false, conns := [], pendingAcceptance := ∅ } e ≤
      s.ongoing e := by
    rw [ongoing_of_lookup_none (Dict.lookup_empty e)]
    unfold ongoing
    exact Nat.le_add_left _ _
  refine ⟨fun e p hp => ?_, fun e => (hle e).trans (hs.single e), fun e he => ?_, hs.known,
    fun e haccepted => ⟨(hs.settles e haccepted).1, fun p hp => ?_⟩, fun e p hp => ?_⟩
  · simp at hp
  · exact Nat.le_zero.mp ((hle e).trans (hs.fresh e he).le)
  · simp at hp
  · simp at hp

/-! ### Every run -/

theorem failsUnaccepted_of_reports {t : Step} (hreports : Reports t.pre.1 t.post.1 t.post.2) :
    t.FailsUnaccepted := by
  intro eventID envelopeID hfailed
  rcases hreports with hsame | ⟨f, hnew, hunaccepted⟩
  · rw [hsame] at hfailed
    simp at hfailed
  · rw [hnew] at hfailed
    have heq : [f] = [(eventID, envelopeID)] := List.append_cancel_left hfailed
    cases heq
    exact hunaccepted

theorem sound_step {relays : Nat} {t : Step} (ht : step relays t.pre t.event = some t.post)
    (hc : t.Attributed) (hs : Sound t.pre.1 t.pre.2) :
    Sound t.post.1 t.post.2 ∧ t.FailsUnaccepted ∧ t.EndsRejected := by
  obtain ⟨⟨s, h⟩, event, post⟩ := t
  obtain ⟨s', hexec, hpost⟩ := Option.map_eq_some_iff.mp ht
  dsimp only at hexec hpost hs
  subst hpost
  dsimp only
  unfold exec at hexec
  have quiet {s' : NostrOutbound} {event : Event}
      (hsound : Sound s' (h.note s event)) (hreports : Reports s s' (h.note s event))
      (hok : ∀ relay e b, event ≠ .ok relay e b) :
      Sound s' (h.note s event) ∧ Step.FailsUnaccepted ⟨(s, h), event, (s', h.note s event)⟩ ∧
        Step.EndsRejected ⟨(s, h), event, (s', h.note s event)⟩ :=
    ⟨hsound, failsUnaccepted_of_reports hreports, fun _ _ _ he => absurd he (hok _ _ _)⟩
  cases event with
  | setPublishFailureHandler =>
    cases hexec
    exact quiet { hs with } (.inl rfl) (by simp)
  | start =>
    cases hexec
    by_cases hstarted : s.started
    · rw [if_pos hstarted]
      exact quiet hs (.inl rfl) (by simp)
    · rw [if_neg hstarted]
      exact quiet { hs with } (.inl rfl) (by simp)
  | stop =>
    cases hexec
    exact quiet hs.stop (.inl rfl) (by simp)
  | connect relay =>
    cases hexec
    exact quiet { hs with } (.inl rfl) (by simp)
  | disconnect relay =>
    cases hexec
    exact quiet { hs with } (.inl rfl) (by simp)
  | publish e envelopeID =>
    dsimp only at hexec
    by_cases hfresh : e ∈ h.published
    · rw [if_pos hfresh] at hexec
      cases hexec
    · rw [if_neg hfresh] at hexec
      cases hexec
      refine quiet (hs.publish envelopeID hfresh) (.inl ?_) (by simp)
      unfold NostrOutbound.publish
      split <;> rfl
  | ok relay e b =>
    dsimp only at hexec
    by_cases hlive : relay ∈ s.live
    · rw [if_pos hlive] at hexec
      cases hexec
      obtain ⟨hsound, hreports, hends⟩ := hs.noteAcceptance hc.1 hc.2
      refine ⟨hsound, failsUnaccepted_of_reports hreports, fun relay' e' p he hp hzero hnone => ?_⟩
      cases he
      exact hends p rfl hp hzero hnone
    · rw [if_neg hlive] at hexec
      cases hexec
  | fire k =>
    obtain ⟨b, hb, rfl⟩ := Option.map_eq_some_iff.mp hexec
    obtain ⟨hsound, hreports⟩ := hs.runBlock hb
    exact quiet hsound hreports (by simp)

theorem sound_launch : Sound launch ⟨[], ∅, []⟩ where
  keyed e p hp := by simp [launch] at hp
  single e := by simp [ongoing, launch]
  fresh e _ := by simp [ongoing, launch]
  known v hv := by simp at hv
  settles e haccepted := by simp [History.Accepted] at haccepted
  tallied e p hp := by simp [launch] at hp

/-- In every run in which each verdict falls into the round that it answers, a failure is reported
only for an event that no relay has accepted, and a round without an acceptance ends before its
deadline only when each of its relays has rejected the event. -/
theorem failure_unaccepted (relays : Nat) (events : List Event)
    (hattributed : ∀ t ∈ steps relays events, t.Attributed) :
    ∀ t ∈ steps relays events, t.FailsUnaccepted ∧ t.EndsRejected := by
  intro t ht
  have hsound : Sound t.pre.1 t.pre.2 :=
    trace_invariant_of (fun c => Sound c.1 c.2) Step.Attributed
      (fun t ht hc hs => (sound_step ht hc hs).1) sound_launch hattributed ht
  exact (sound_step (step_of_mem_trace ht) (hattributed t ht) hsound).2

/-- Both relays reject an event in each of its three rounds. -/
def rejectedThrice : List Event :=
  [.setPublishFailureHandler, .start, .publish ['e'] (.filled 1), .ok 0 ['e'] false,
    .ok 1 ['e'] false, .fire 1, .ok 0 ['e'] false, .ok 1 ['e'] false, .fire 2, .ok 1 ['e'] false,
    .ok 0 ['e'] false]

/-- The failure that is then reported is that of an event which every relay has rejected. -/
theorem failure_unaccepted_rejectedThrice :
    (∃ t ∈ steps 2 rejectedThrice, t.post.1.failures = [(['e'], .filled 1)]) ∧
      ∀ t ∈ steps 2 rejectedThrice, t.FailsUnaccepted ∧ t.EndsRejected :=
  ⟨⟨_, List.mem_of_getElem? (i := 10) rfl, rfl⟩, failure_unaccepted 2 rejectedThrice (by decide)⟩

/-- The one relay accepts the event after its first round has ended, and is silent from then on. -/
def acceptedBetween : List Event :=
  [.setPublishFailureHandler, .start, .publish ['e'] (.filled 1), .fire 0, .ok 0 ['e'] true,
    .fire 0, .fire 0, .fire 0, .fire 0]

/-- One of two relays rejects the event twice. -/
def rejectedTwice : List Event :=
  [.start, .publish ['e'] (.filled 1), .ok 0 ['e'] false, .ok 0 ['e'] false]

/-- A failure is reported for the event that was accepted, and the round of the event that was
rejected twice ends although its other relay has not answered. -/
theorem failure_of_accepted :
    (∃ t ∈ steps 1 acceptedBetween, ¬t.FailsUnaccepted) ∧
      ∃ t ∈ steps 2 rejectedTwice, ¬t.EndsRejected := by
  constructor
  · refine ⟨_, List.mem_of_getElem? (i := 8) rfl, fun hfails => ?_⟩
    exact hfails ['e'] (.filled 1) rfl ⟨0, by decide⟩
  · refine ⟨_, List.mem_of_getElem? (i := 3) rfl, fun hends => ?_⟩
    obtain ⟨round, hround, hrejected⟩ :=
      hends 0 ['e'] ⟨['e'], .filled 1, 2, 1, 0, 1⟩ rfl (by rfl) rfl (by rfl)
    cases Option.some.inj (show some (Round.mk [0, 1] [0, 0]) = some round from hround)
    exact absurd (hrejected 1 (by decide)) (by decide)

end NostrOutbound

end AeroNyra
