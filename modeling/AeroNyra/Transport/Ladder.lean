import AeroNyra.Transport.Acceptance

/-! The ladder that one published event climbs, at most three rounds and then one outcome, and what
each event of the transport does to it. -/

namespace AeroNyra

/-! ### Blocks and entries -/

/-- The event that a block is about. -/
def Block.about : Block → Text
  | .acceptanceDeadline eventID => eventID
  | .republish pending => pending.eventID

/-- What an entry says of its event, verdicts apart. -/
def PendingAcceptance.heading (p : PendingAcceptance) : Text × MessageID × Nat :=
  (p.eventID, p.envelopeID, p.attempt)

theorem PendingAcceptance.heading_count (p : PendingAcceptance) (b : Bool) :
    (p.count b).heading = p.heading := by
  cases b <;> rfl

def PendingAcceptance.outcome (p : PendingAcceptance) : AcceptanceOutcome :=
  NostrOutbound.acceptanceOutcome p.accepted p.attempt NostrOutbound.maxPublishAttempts

/-- The blocks that the end of a round schedules. -/
def PendingAcceptance.again (p : PendingAcceptance) : List Block :=
  match p.outcome with
  | .retry => [.republish p]
  | .settled | .giveUp => []

/-- What the end of a round reports. -/
def PendingAcceptance.reports (p : PendingAcceptance) (hasFailureHandler : Bool) :
    List (Text × MessageID) :=
  match p.outcome with
  | .giveUp => if hasFailureHandler then [(p.eventID, p.envelopeID)] else []
  | .settled | .retry => []

namespace NostrOutbound

open Interleave

/-! ### The ladder of one event -/

/-- Where an event stands: a round of an attempt is going on, the next attempt is scheduled, or
there is an outcome. -/
inductive Rung
  | asking (attempt : Nat)
  | resting (attempt : Nat)
  | over

/-- What moves an event: a round ends, or the next one begins. -/
inductive Act
  | finalize (outcome : AcceptanceOutcome)
  | republish

namespace Act

/-- The event is handed to the relays once more. -/
def fansOut : Act → Bool
  | .finalize _ => false
  | .republish => true

/-- The event has its outcome. -/
def concludes : Act → Bool
  | .finalize .settled => true
  | .finalize .giveUp => true
  | .finalize .retry => false
  | .republish => false

end Act

namespace Rung

def next : Rung → Act → Option Rung
  | .asking _, .finalize .settled => some .over
  | .asking attempt, .finalize .retry => if attempt < maxPublishAttempts then some
      (.resting attempt) else none
  | .asking attempt, .finalize .giveUp => if attempt < maxPublishAttempts then none else some .over
  | .resting attempt, .republish => some (.asking (attempt + 1))
  | _, _ => none

/-- No round ends in another one. -/
theorem next_finalize_ne (attempt attempt' : Nat) (outcome : AcceptanceOutcome) :
    next (.asking attempt) (.finalize outcome) ≠ some (.asking attempt') := by
  cases outcome with
  | settled => simp [next]
  | retry => simp [next]
  | giveUp => simp [next]

/-- How often blocks of the event may still be scheduled. -/
def ahead : Rung → Nat
  | .asking attempt => 2 * (maxPublishAttempts - attempt)
  | .resting attempt => 2 * (maxPublishAttempts - attempt) - 1
  | .over => 0

/-- What the acts that led to a rung amount to. -/
def Climbed (acts : List Act) : Rung → Prop
  | .asking attempt => attempt ≤ maxPublishAttempts ∧ acts.countP Act.fansOut + 1 = attempt ∧
      acts.countP Act.concludes = 0
  | .resting attempt => attempt < maxPublishAttempts ∧ acts.countP Act.fansOut + 1 = attempt ∧
      acts.countP Act.concludes = 0
  | .over => acts.countP Act.fansOut + 1 ≤ maxPublishAttempts ∧ acts.countP Act.concludes = 1

theorem climbed_next {acts : List Act} {r r' : Rung} {a : Act} (h : r.Climbed acts)
    (hnext : r.next a = some r') :
    r'.Climbed (acts ++ [a]) := by
  cases r with
  | asking attempt =>
    obtain ⟨hle, hfans, hnone⟩ := h
    match a, hnext with
    | .finalize .settled, hnext =>
      cases hnext
      simp only [Climbed, List.countP_append, hnone]
      exact ⟨by rw [List.countP_singleton]; exact hfans.trans_le hle, rfl⟩
    | .finalize .retry, hnext =>
      obtain ⟨hmore, hnext⟩ := Option.ite_none_right_eq_some.mp hnext
      cases hnext
      simp only [Climbed, List.countP_append, hnone]
      exact ⟨hmore, hfans, rfl⟩
    | .finalize .giveUp, hnext =>
      obtain ⟨_, hnext⟩ := Option.ite_none_left_eq_some.mp hnext
      cases hnext
      simp only [Climbed, List.countP_append, hnone]
      exact ⟨by rw [List.countP_singleton]; exact hfans.trans_le hle, rfl⟩
  | resting attempt =>
    obtain ⟨hlt, hfans, hnone⟩ := h
    match a, hnext with
    | .republish, hnext =>
      cases hnext
      simp only [Climbed, List.countP_append, hnone]
      exact ⟨hlt, congrArg (· + 1) hfans, rfl⟩
  | «over» => cases hnext

/-- The acts of every climb from the first round on. -/
theorem climbed_of_run {acts : List Act} {r : Rung} (h : run next (.asking 1) acts = some r) :
    r.Climbed acts := by
  induction acts using List.reverseRecOn generalizing r with
  | nil =>
    cases h
    exact ⟨by decide, rfl, rfl⟩
  | append_singleton acts a ih =>
    obtain ⟨m, hm, hlast⟩ := run_append.mp h
    obtain ⟨r', hnext, hsame⟩ := run_cons.mp hlast
    cases hsame
    exact climbed_next (ih hm) hnext

theorem Climbed.fansOut_le {acts : List Act} {r : Rung} (h : r.Climbed acts) :
    acts.countP Act.fansOut + 1 ≤ maxPublishAttempts := by
  cases r with
  | asking attempt => exact h.2.1.trans_le h.1
  | resting attempt => exact h.2.1.trans_le h.1.le
  | «over» => exact h.1

theorem Climbed.concludes_le {acts : List Act} {r : Rung} (h : r.Climbed acts) :
    acts.countP Act.concludes ≤ 1 := by
  cases r with
  | asking attempt => exact h.2.2.trans_le (Nat.zero_le 1)
  | resting attempt => exact h.2.2.trans_le (Nat.zero_le 1)
  | «over» => exact h.2.le

theorem Climbed.over_iff {acts : List Act} {r : Rung} (h : r.Climbed acts) :
    r = .over ↔ 0 < acts.countP Act.concludes := by
  cases r with
  | asking attempt => exact iff_of_false nofun (h.2.2 ▸ Nat.lt_irrefl 0)
  | resting attempt => exact iff_of_false nofun (h.2.2 ▸ Nat.lt_irrefl 0)
  | «over» => exact iff_of_true rfl (h.2 ▸ Nat.one_pos)

end Rung

/-! ### What an event of the transport does to one published event -/

/-- The entry whose round an event of the transport ends. -/
def finalized (s : NostrOutbound) : Event → Option PendingAcceptance
  | .ok _ eventID accepted => (s.pendingAcceptance.lookup eventID).bind fun pending =>
    let pending := pending.count accepted
    if pending.relayCount ≤ pending.accepted + pending.rejected then some pending else none
  | .fire block =>
    match s.scheduled[block]? with
    | some (.acceptanceDeadline eventID) => s.pendingAcceptance.lookup eventID
    | _ => none
  | _ => none

/-- The entry that an event of the transport hands to the relays again. -/
def republished (s : NostrOutbound) : Event → Option PendingAcceptance
  | .fire block =>
    match s.scheduled[block]? with
    | some (.republish pending) => if s.started then some pending else none
    | _ => none
  | _ => none

/-- What an event of the transport does to `e`. -/
def act (e : Text) (s : NostrOutbound) (event : Event) : Option Act :=
  match s.finalized event with
  | some pending => if pending.eventID = e then some (.finalize pending.outcome) else none
  | none =>
    match s.republished event with
    | some pending => if pending.eventID = e then some .republish else none
    | none => none

/-- The blocks that stay scheduled. -/
def kept (s : NostrOutbound) : Event → List Block
  | .fire block => s.scheduled.eraseIdx block
  | _ => s.scheduled

/-- The failures that were reported for `e`. -/
def failuresOf (s : NostrOutbound) (e : Text) : List (Text × MessageID) :=
    s.failures.filter (·.1 == e)

/-- What becomes of an event, by what is done to it; `fresh` are the blocks that are scheduled. -/
inductive Effect (e : Text) (s : NostrOutbound) (event : Event) (s' : NostrOutbound)
    (fresh : List Block) : Option Act → Prop
  | none
      (entry : (s'.pendingAcceptance.lookup e).map PendingAcceptance.heading =
        (s.pendingAcceptance.lookup e).map PendingAcceptance.heading)
      (blocks : ∀ b ∈ fresh, b.about ≠ e) (failures : s'.failuresOf e = s.failuresOf e) :
      Effect e s event s' fresh none
  | finalize (p : PendingAcceptance)
      (before : (s.pendingAcceptance.lookup e).map PendingAcceptance.heading = some p.heading)
      (after : s'.pendingAcceptance.lookup e = Option.none) (blocks : fresh = p.again)
      (failures : s'.failures = s.failures ++ p.reports s.hasFailureHandler) :
      Effect e s event s' fresh (some (.finalize p.outcome))
  | republish (p : PendingAcceptance) (k relayCount : Nat) (fired : event = .fire k)
      (block : s.scheduled[k]? = some (.republish p)) (key : p.eventID = e) (started : s.started)
      (after : s'.pendingAcceptance.lookup e =
        some ⟨e, p.envelopeID, relayCount, p.attempt + 1, 0, 0⟩)
      (blocks : fresh = [.acceptanceDeadline e]) (failures : s'.failures = s.failures) :
      Effect e s event s' fresh (some .republish)

section Effects

variable {s s' u : NostrOutbound} {e j : Text} {p : PendingAcceptance}

/-- Each entry is about the event that it is kept for. -/
def Keyed (s : NostrOutbound) : Prop := ∀ e p, s.pendingAcceptance.lookup e = some p → p.eventID = e

theorem finalizeAcceptance_eq (hp : u.pendingAcceptance.lookup j = some p) :
    u.finalizeAcceptance j = { u with
      pendingAcceptance := AList.erase j u.pendingAcceptance
      scheduled := u.scheduled ++ p.again
      failures := u.failures ++ p.reports u.hasFailureHandler } := by
  unfold finalizeAcceptance PendingAcceptance.again PendingAcceptance.reports
  rw [hp]
  dsimp only
  have houtcome : acceptanceOutcome p.accepted p.attempt maxPublishAttempts = p.outcome := rfl
  rw [houtcome]
  cases p.outcome with
  | settled => simp
  | retry => simp
  | giveUp => by_cases hhandler : u.hasFailureHandler <;> simp [hhandler]

theorem again_about {b : Block} (hb : b ∈ p.again) : b = .republish p := by
  unfold PendingAcceptance.again at hb
  split at hb
  · exact List.mem_singleton.mp hb
  · cases hb
  · cases hb

theorem reports_about {f : Text × MessageID} (hf : f ∈ p.reports u.hasFailureHandler) :
    f = (p.eventID, p.envelopeID) := by
  unfold PendingAcceptance.reports at hf
  split at hf
  · split at hf
    · exact List.mem_singleton.mp hf
    · cases hf
  · cases hf
  · cases hf

/-- The end of a round is retried, or it is the outcome. -/
theorem next_finalize (p : PendingAcceptance) :
    p.again = [.republish p] ∧ Rung.next (.asking p.attempt) (.finalize p.outcome) =
      some (.resting p.attempt) ∨
      p.again = [] ∧ Rung.next (.asking p.attempt) (.finalize p.outcome) = some .over := by
  unfold PendingAcceptance.again PendingAcceptance.outcome acceptanceOutcome
  by_cases haccepted : 0 < p.accepted
  · rw [if_pos haccepted]
    exact .inr ⟨rfl, rfl⟩
  · rw [if_neg haccepted]
    by_cases hattempt : p.attempt < maxPublishAttempts
    · rw [if_pos hattempt]
      exact .inl ⟨rfl, if_pos hattempt⟩
    · rw [if_neg hattempt]
      exact .inr ⟨rfl, if_neg hattempt⟩

theorem failuresOf_of_other (hne : p.eventID ≠ e)
    (h : s'.failures = s.failures ++ p.reports s.hasFailureHandler) :
    s'.failuresOf e = s.failuresOf e := by
  have hnone : (p.reports s.hasFailureHandler).filter (·.1 == e) = [] := by
    rw [List.filter_eq_nil_iff]
    intro f hf
    rw [reports_about hf]
    simpa using hne
  rw [failuresOf, h, List.filter_append, hnone, List.append_nil, failuresOf]

/-- What the end of a round is to each event. -/
theorem effect_finalize {event : Event} (hkey : p.eventID = j)
    (hbefore : (s.pendingAcceptance.lookup j).map PendingAcceptance.heading = some p.heading)
    (hafter : ∀ e, s'.pendingAcceptance.lookup e = if e = j then none
      else s.pendingAcceptance.lookup e)
    (hfailures : s'.failures = s.failures ++ p.reports s.hasFailureHandler) :
    Effect e s event s' p.again (if p.eventID = e then some (.finalize p.outcome) else none) := by
  by_cases he : p.eventID = e
  · rw [if_pos he]
    have hje : e = j := he.symm.trans hkey
    exact .finalize p (hje ▸ hbefore) (by rw [hafter, if_pos hje]) rfl hfailures
  · rw [if_neg he]
    refine .none ?_ (fun b hb => ?_) (failuresOf_of_other he hfailures)
    · rw [hafter, if_neg fun hje => he (hkey.trans hje.symm)]
    · rw [again_about hb]
      exact he

/-- A round that is recorded is one of its event. -/
theorem lookup_recordPublish {envelopeID : MessageID} {relayCount attempt : Nat} :
    (s.recordPublish j envelopeID relayCount attempt).pendingAcceptance.lookup e =
      if e = j then some ⟨j, envelopeID, relayCount, attempt, 0, 0⟩
        else s.pendingAcceptance.lookup e :=
  Dict.lookup_insert _ _ _ _

theorem effect_noteAcceptance (hkeyed : s.Keyed) {relay : Nat} {accepted : Bool} :
    ∃ fresh, (s.noteAcceptance j accepted).scheduled = s.scheduled ++ fresh ∧
      Effect e s (.ok relay j accepted) (s.noteAcceptance j accepted) fresh
        (act e s (.ok relay j accepted)) := by
  unfold noteAcceptance act finalized
  dsimp only
  cases hp : s.pendingAcceptance.lookup j with
  | none => exact ⟨[], (List.append_nil _).symm, .none rfl nofun rfl⟩
  | some p =>
    have hheading := p.heading_count accepted
    have hkey : (p.count accepted).eventID = j := by
      rw [PendingAcceptance.count_eventID]
      exact hkeyed j p hp
    dsimp only [Option.bind_some]
    by_cases hfull : (p.count accepted).relayCount ≤ (p.count accepted).accepted +
      (p.count accepted).rejected
    · rw [if_pos hfull, if_pos hfull]
      rw [finalizeAcceptance_eq (p := p.count accepted) (by rw [Dict.lookup_insert, if_pos rfl])]
      refine ⟨_, rfl, effect_finalize hkey (by rw [hp, hheading]; rfl) (fun e => ?_) rfl⟩
      dsimp only
      rw [Dict.lookup_erase, Dict.lookup_insert]
      split <;> rfl
    · rw [if_neg hfull, if_neg hfull]
      refine ⟨[], (List.append_nil _).symm, .none ?_ nofun rfl⟩
      dsimp only
      rw [Dict.lookup_insert]
      by_cases he : e = j
      · rw [if_pos he, he, hp]
        exact congrArg some hheading
      · rw [if_neg he]

theorem effect_runBlock (hkeyed : s.Keyed) {k : Nat} {b : Block} (hb : s.scheduled[k]? = some b) :
    ∃ fresh, (({ s with scheduled := s.scheduled.eraseIdx k } :
    NostrOutbound).runBlock b).scheduled =
        s.scheduled.eraseIdx k ++ fresh ∧
      Effect e s (.fire k)
        (({ s with scheduled := s.scheduled.eraseIdx k } : NostrOutbound).runBlock b) fresh
        (act e s (.fire k)) := by
  unfold act finalized republished runBlock
  dsimp only
  rw [hb]
  cases b with
  | acceptanceDeadline j =>
    dsimp only
    cases hp : s.pendingAcceptance.lookup j with
    | none =>
      rw [finalizeAcceptance_of_none (s := { s with scheduled := s.scheduled.eraseIdx k }) hp]
      exact ⟨[], (List.append_nil _).symm, .none rfl nofun rfl⟩
    | some p =>
      rw [finalizeAcceptance_eq (u := { s with scheduled := s.scheduled.eraseIdx k }) hp]
      refine ⟨_, rfl, effect_finalize (hkeyed j p hp) (by rw [hp]; rfl) (fun e => ?_) rfl⟩
      exact Dict.lookup_erase _ _ _
  | republish p =>
    unfold republish
    dsimp only
    by_cases hstarted : s.started
    · rw [if_pos hstarted, if_pos hstarted]
      refine ⟨[.acceptanceDeadline p.eventID], rfl, ?_⟩
      dsimp only
      by_cases he : p.eventID = e
      · rw [if_pos he]
        subst he
        exact .republish p k _ rfl hb rfl hstarted
          (by rw [lookup_recordPublish, if_pos rfl]) rfl rfl
      · rw [if_neg he]
        refine .none ?_ (fun b hb => ?_) rfl
        · rw [lookup_recordPublish, if_neg fun h => he h.symm]
        · rw [List.mem_singleton.mp hb]
          exact he
    · rw [if_neg hstarted, if_neg hstarted]
      exact ⟨[], (List.append_nil _).symm, .none rfl nofun rfl⟩

/-- Every event but a stop and the publish itself. -/
theorem effect_exec (hkeyed : s.Keyed) {relays : Nat} {h : History} {event : Event}
    (hexec : s.exec relays h event = some s') (hstop : event ≠ .stop)
    (hpublish : ∀ envelopeID, event ≠ .publish e envelopeID) :
    ∃ fresh, s'.scheduled = s.kept event ++ fresh ∧ Effect e s event s' fresh (act e s event) := by
  cases event with
  | setPublishFailureHandler =>
    cases hexec
    exact ⟨[], (List.append_nil _).symm, .none rfl nofun rfl⟩
  | start =>
    cases hexec
    by_cases hstarted : s.started
    · rw [if_pos hstarted]
      exact ⟨[], (List.append_nil _).symm, .none rfl nofun rfl⟩
    · rw [if_neg hstarted]
      exact ⟨[], (List.append_nil _).symm, .none rfl nofun rfl⟩
  | stop => exact absurd rfl hstop
  | connect relay =>
    cases hexec
    exact ⟨[], (List.append_nil _).symm, .none rfl nofun rfl⟩
  | disconnect relay =>
    cases hexec
    exact ⟨[], (List.append_nil _).symm, .none rfl nofun rfl⟩
  | publish j envelopeID =>
    obtain ⟨_, hsome⟩ := Option.ite_none_left_eq_some.mp hexec
    cases hsome
    have hne : j ≠ e := by
      rintro rfl
      exact hpublish envelopeID rfl
    unfold publish
    by_cases hlive : s.live = []
    · rw [if_pos hlive]
      exact ⟨[], (List.append_nil _).symm, .none rfl nofun rfl⟩
    · rw [if_neg hlive]
      refine ⟨[.acceptanceDeadline j], rfl, .none ?_ (fun b hb => ?_) rfl⟩
      · rw [lookup_recordPublish, if_neg hne.symm]
      · rw [List.mem_singleton.mp hb]
        exact hne
  | ok relay j accepted =>
    obtain ⟨_, hsome⟩ := Option.ite_none_right_eq_some.mp hexec
    cases hsome
    exact effect_noteAcceptance hkeyed
  | fire k =>
    obtain ⟨b, hb, rfl⟩ := Option.map_eq_some_iff.mp hexec
    exact effect_runBlock hkeyed hb

end Effects

/-! ### What holds before an event is published -/

/-- Entries are kept for their events, sockets are built by a transport that has started, and what
is pending or scheduled has been published. -/
structure Regular (s : NostrOutbound) (h : History) : Prop where
  keyed : s.Keyed
  sockets : s.started ∨ s.conns = []
  entries : ∀ e, (s.pendingAcceptance.lookup e).isSome → e ∈ h.published
  blocks : ∀ b ∈ s.scheduled, b.about ∈ h.published

theorem regular_launch : Regular launch ⟨[], ∅, []⟩ where
  keyed e p hp := by simp [launch] at hp
  sockets := .inr rfl
  entries e he := by simp [launch] at he
  blocks b hb := by simp [launch] at hb

theorem published_note {s : NostrOutbound} {h : History} {event : Event} :
    h.published ⊆ (h.note s event).published := by
  unfold History.note History.recordRound
  intro e he
  split
  · split
    · exact he
    · exact List.mem_cons_of_mem _ he
  · split <;> exact he
  · split
    · split <;> exact he
    · exact he
  · exact he

theorem mem_kept {s : NostrOutbound} {event : Event} {b : Block} (hb : b ∈ s.kept event) :
    b ∈ s.scheduled := by
  cases event with
  | fire k => exact List.mem_of_mem_eraseIdx hb
  | _ => exact hb

theorem conns_finalizeAcceptance (s : NostrOutbound) (j : Text) :
    (s.finalizeAcceptance j).started = s.started ∧ (s.finalizeAcceptance j).conns = s.conns := by
  cases hp : s.pendingAcceptance.lookup j with
  | none =>
    rw [finalizeAcceptance_of_none hp]
    exact ⟨rfl, rfl⟩
  | some p =>
    rw [finalizeAcceptance_eq hp]
    exact ⟨rfl, rfl⟩

theorem conns_noteAcceptance (s : NostrOutbound) (j : Text) (accepted : Bool) :
    (s.noteAcceptance j accepted).started = s.started ∧ (s.noteAcceptance j accepted).conns =
    s.conns := by
  unfold noteAcceptance
  split
  · exact ⟨rfl, rfl⟩
  · dsimp only
    split
    · exact conns_finalizeAcceptance _ j
    · exact ⟨rfl, rfl⟩

/-- Only a start and a stop change whether the transport runs. -/
theorem conns_exec {s s' : NostrOutbound} {relays : Nat} {h : History} {event : Event}
    (hexec : s.exec relays h event = some s') :
    s'.started = s.started ∧ (s.conns = [] → s'.conns = []) ∨ s'.started ∨ event = .stop ∧
      s'.conns = [] := by
  have hsame {u : NostrOutbound} (hu : u.started = s.started ∧ u.conns = s.conns) :
      u.started = s.started ∧ (s.conns = [] → u.conns = []) := ⟨hu.1, fun hnil => hu.2.trans hnil⟩
  cases event with
  | setPublishFailureHandler =>
    cases hexec
    exact .inl ⟨rfl, id⟩
  | start =>
    cases hexec
    refine .inr (.inl ?_)
    split
    · assumption
    · rfl
  | stop =>
    cases hexec
    exact .inr (.inr ⟨rfl, rfl⟩)
  | connect relay =>
    cases hexec
    exact .inl ⟨rfl, fun hnil => by rw [hnil]; rfl⟩
  | disconnect relay =>
    cases hexec
    exact .inl ⟨rfl, fun hnil => by rw [hnil]; rfl⟩
  | publish j envelopeID =>
    obtain ⟨_, hsome⟩ := Option.ite_none_left_eq_some.mp hexec
    cases hsome
    unfold publish
    split <;> exact .inl ⟨rfl, id⟩
  | ok relay j accepted =>
    obtain ⟨_, hsome⟩ := Option.ite_none_right_eq_some.mp hexec
    cases hsome
    exact .inl (hsame (conns_noteAcceptance s j accepted))
  | fire k =>
    obtain ⟨b, _, rfl⟩ := Option.map_eq_some_iff.mp hexec
    cases b with
    | acceptanceDeadline j =>
      exact .inl (hsame (conns_finalizeAcceptance { s with scheduled := s.scheduled.eraseIdx k } j))
    | republish p =>
      rw [runBlock, republish]
      split <;> exact .inl ⟨rfl, id⟩

theorem started_exec {s s' : NostrOutbound} {relays : Nat} {h : History} {event : Event}
    (hexec : s.exec relays h event = some s') (hstop : event ≠ .stop) (hs : s.started) :
    s'.started := by
  rcases conns_exec hexec with ⟨hsame, _⟩ | hstarted | ⟨heq, _⟩
  · rw [hsame]
    exact hs
  · exact hstarted
  · exact absurd heq hstop

/-- What has just been published. -/
theorem exec_publish {s s' : NostrOutbound} {relays : Nat} {h : History} {e : Text}
    {envelopeID : MessageID}
    (hexec : s.exec relays h (.publish e envelopeID) = some s') : e ∉ h.published ∧
      (s.live = [] ∧ s' = s ∨ s.live ≠ [] ∧ s' = s.recordPublish e envelopeID s.live.length 1) := by
  obtain ⟨hfresh, hsome⟩ := Option.ite_none_left_eq_some.mp hexec
  cases hsome
  refine ⟨hfresh, ?_⟩
  unfold publish
  by_cases hlive : s.live = []
  · exact .inl ⟨hlive, if_pos hlive⟩
  · exact .inr ⟨hlive, if_neg hlive⟩

theorem Regular.stop {s : NostrOutbound} {h : History} (hs : Regular s h) :
    Regular { s with started := false, conns := [], pendingAcceptance := ∅ } h where
  keyed e p hp := by simp at hp
  sockets := .inr rfl
  entries e he := by simp at he
  blocks := hs.blocks

/-- What an effect leaves for an event is the event's own, and the event has been published. -/
theorem Regular.effect {s s' : NostrOutbound} {h : History} {event : Event} {e : Text}
    {fresh : List Block}
    {a : Option Act} (hs : Regular s h) (heffect : Effect e s event s' fresh a) :
    (∀ p, s'.pendingAcceptance.lookup e = some p → p.eventID = e ∧ e ∈ h.published) ∧
      ∀ b ∈ fresh, b.about = e → e ∈ h.published := by
  cases heffect with
  | none entry blocks =>
    refine ⟨fun p' hp' => ?_, fun b hb habout => absurd habout (blocks b hb)⟩
    rw [hp', eq_comm, Option.map_some, Option.map_eq_some_iff] at entry
    obtain ⟨p, hp, hheading⟩ := entry
    have hkey : p'.eventID = p.eventID := (congrArg Prod.fst hheading).symm
    exact ⟨hkey.trans (hs.keyed e p hp), hs.entries e (by rw [hp]; rfl)⟩
  | finalize p before after =>
    have hpublished : e ∈ h.published := by
      obtain ⟨q, hq, _⟩ := Option.map_eq_some_iff.mp before
      exact hs.entries e (by rw [hq]; rfl)
    refine ⟨fun p' hp' => ?_, fun _ _ _ => hpublished⟩
    rw [after] at hp'
    cases hp'
  | republish p k relayCount fired block key started after =>
    have hpublished : e ∈ h.published := key ▸ hs.blocks _ (List.mem_of_getElem? block)
    refine ⟨fun p' hp' => ?_, fun _ _ _ => hpublished⟩
    rw [after] at hp'
    cases hp'
    exact ⟨rfl, hpublished⟩

theorem Regular.exec {s s' : NostrOutbound} {relays : Nat} {h : History} {event : Event}
    (hs : Regular s h) (hexec : s.exec relays h event = some s') : Regular s' (h.note s event) := by
  by_cases hstop : event = .stop
  · subst hstop
    cases hexec
    exact hs.stop
  have hof (e : Text) : (∀ p, s'.pendingAcceptance.lookup e = some p →
      p.eventID = e ∧ e ∈ (h.note s event).published) ∧
      ∀ b ∈ s'.scheduled, b.about = e → e ∈ (h.note s event).published := by
    by_cases hpublish : ∃ envelopeID, event = .publish e envelopeID
    · obtain ⟨envelopeID, rfl⟩ := hpublish
      obtain ⟨hfresh, ⟨hlive, rfl⟩ | ⟨hlive, rfl⟩⟩ := exec_publish hexec
      · refine ⟨fun p hp => absurd (hs.entries e (by rw [hp]; rfl)) hfresh, fun b hb habout => ?_⟩
        exact absurd (habout ▸ hs.blocks b hb) hfresh
      · have hpublished : e ∈ (h.note s (.publish e envelopeID)).published := by
          rw [History.note, if_neg hlive]
          exact List.mem_cons_self
        refine ⟨fun p hp => ⟨?_, hpublished⟩, fun _ _ _ => hpublished⟩
        rw [lookup_recordPublish, if_pos rfl] at hp
        cases hp
        rfl
    · obtain ⟨fresh, hblocks, heffect⟩ := effect_exec hs.keyed hexec hstop fun envelopeID heq =>
        hpublish ⟨envelopeID, heq⟩
      obtain ⟨hentry, hfresh⟩ := hs.effect heffect
      refine ⟨fun p hp => ⟨(hentry p hp).1, published_note (hentry p hp).2⟩, fun b hb habout => ?_⟩
      rw [hblocks] at hb
      rcases List.mem_append.mp hb with hb | hb
      · exact published_note (habout ▸ hs.blocks b (mem_kept hb))
      · exact published_note (hfresh b hb habout)
  refine ⟨fun e p hp => ((hof e).1 p hp).1, ?_, fun e he => ?_, fun b hb => ?_⟩
  · rcases conns_exec hexec with ⟨hsame, hnil⟩ | hstarted | ⟨_, hnil⟩
    · rw [hsame]
      exact hs.sockets.imp_right hnil
    · exact .inl hstarted
    · exact .inr hnil
  · obtain ⟨p, hp⟩ := Option.isSome_iff_exists.mp he
    exact ((hof e).1 p hp).2
  · exact (hof b.about).2 b hb rfl

/-! ### Every event climbs its ladder -/

/-- The states of the transport in which `e`, published for `envelopeID`, stands on a rung. -/
def Rung.Holds (e : Text) (envelopeID : MessageID) (s : NostrOutbound) : Rung → Prop
  | .asking attempt =>
    (s.pendingAcceptance.lookup e).map PendingAcceptance.heading = some (e, envelopeID, attempt) ∧
      s.scheduled.filter (Block.republishes e) = []
  | .resting attempt => s.pendingAcceptance.lookup e = none ∧ ∃ p,
      s.scheduled.filter (Block.republishes e) = [.republish p] ∧
        p.heading = (e, envelopeID, attempt)
  | .over => s.pendingAcceptance.lookup e = none ∧ s.scheduled.filter (Block.republishes e) = []

theorem split_eraseIdx {α : Type} {l : List α} {k : Nat} {b : α} (hb : l[k]? = some b) :
    ∃ l₁ l₂, l = l₁ ++ b :: l₂ ∧ l.eraseIdx k = l₁ ++ l₂ := by
  obtain ⟨hk, hget⟩ := List.getElem?_eq_some_iff.mp hb
  refine ⟨l.take k, l.drop (k + 1), ?_, List.eraseIdx_eq_take_drop_succ l k⟩
  rw [← hget, ← List.drop_eq_getElem_cons hk, List.take_append_drop]

theorem republishes_iff {e : Text} {b : Block} :
    Block.republishes e b = true ↔ ∃ p, b = .republish p ∧ p.eventID = e := by
  cases b with
  | acceptanceDeadline j => simp [Block.republishes]
  | republish p => simp [Block.republishes]

/-- A block that runs without an effect on `e` has not been a republish of `e`. -/
theorem filter_kept {s : NostrOutbound} {e : Text} {event : Event} (hstarted : s.started)
    (hact : act e s event ≠ some .republish) :
    (s.kept event).filter (Block.republishes e) = s.scheduled.filter (Block.republishes e) := by
  cases event with
  | fire k =>
    show (s.scheduled.eraseIdx k).filter _ = _
    cases hb : s.scheduled[k]? with
    | none => rw [List.eraseIdx_of_length_le (List.getElem?_eq_none_iff.mp hb)]
    | some b =>
      obtain ⟨l₁, l₂, hl, herased⟩ := split_eraseIdx hb
      have hnot : ¬Block.republishes e b = true := by
        rw [republishes_iff]
        rintro ⟨p, rfl, hkey⟩
        apply hact
        simp [act, finalized, republished, hb, hstarted, hkey]
      rw [herased, hl, List.filter_append, List.filter_append, List.filter_cons_of_neg hnot]
  | _ => rfl

theorem filter_again {e : Text} {p : PendingAcceptance} (hkey : p.eventID = e) :
    p.again.filter (Block.republishes e) = p.again := by
  rw [List.filter_eq_self]
  intro b hb
  rw [again_about hb]
  exact republishes_iff.mpr ⟨p, rfl, hkey⟩

theorem filter_about {e : Text} {blocks : List Block} (h : ∀ b ∈ blocks, b.about ≠ e) :
    blocks.filter (Block.republishes e) = [] := by
  rw [List.filter_eq_nil_iff]
  intro b hb hmem
  obtain ⟨p, rfl, hkey⟩ := republishes_iff.mp hmem
  exact h _ hb hkey

/-- The one block that hands `e` to the relays again is the one that runs. -/
theorem filter_eraseIdx {e : Text} {l : List Block} {k : Nat} {p q : PendingAcceptance}
    (hb : l[k]? = some (.republish p)) (hkey : p.eventID = e)
    (hone : l.filter (Block.republishes e) = [.republish q]) :
    p = q ∧ (l.eraseIdx k).filter (Block.republishes e) = [] := by
  obtain ⟨l₁, l₂, hl, herased⟩ := split_eraseIdx hb
  rw [hl, List.filter_append, List.filter_cons_of_pos (republishes_iff.mpr ⟨p, rfl, hkey⟩)] at hone
  rcases List.append_eq_singleton_iff.mp hone with ⟨hfirst, hrest⟩ | ⟨_, hrest⟩
  · obtain ⟨hsame, hsecond⟩ := List.cons.inj hrest
    refine ⟨Block.republish.inj hsame, ?_⟩
    rw [herased, List.filter_append, hfirst, hsecond]
    rfl
  · cases hrest

/-- One event of the transport moves `e` by what it does to it. -/
theorem Rung.Holds.effect {e : Text} {envelopeID : MessageID} {s s' : NostrOutbound} {event : Event}
    {fresh : List Block} {r : Rung} (hs : r.Holds e envelopeID s) (hstarted : s.started)
    (hblocks : s'.scheduled = s.kept event ++ fresh) {a : Option Act} (hact : act e s event = a)
    (heffect : Effect e s event s' fresh a) :
    ∃ r', run next r a.toList = some r' ∧ r'.Holds e envelopeID s' := by
  have hfilter (hnot : a ≠ some .republish) : s'.scheduled.filter (Block.republishes e) =
      s.scheduled.filter (Block.republishes e) ++ fresh.filter (Block.republishes e) := by
    rw [hblocks, List.filter_append, filter_kept hstarted (by rw [hact]; exact hnot)]
  cases heffect with
  | none entry blocks =>
    have hsame := hfilter nofun
    rw [filter_about blocks, List.append_nil] at hsame
    refine ⟨r, rfl, ?_⟩
    cases r with
    | asking attempt => exact ⟨entry.trans hs.1, hsame.trans hs.2⟩
    | resting attempt =>
      rw [hs.1] at entry
      exact ⟨Option.map_eq_none_iff.mp entry, hs.2.imp fun p hp => ⟨hsame.trans hp.1, hp.2⟩⟩
    | «over» =>
      rw [hs.1] at entry
      exact ⟨Option.map_eq_none_iff.mp entry, hsame.trans hs.2⟩
  | finalize p before after blocks =>
    have hsame := hfilter (by simp)
    cases r with
    | asking attempt =>
      have hheading : p.heading = (e, envelopeID, attempt) :=
        Option.some.inj (before.symm.trans hs.1)
      have hkey : p.eventID = e := congrArg Prod.fst hheading
      have hattempt : p.attempt = attempt := congrArg (·.2.2) hheading
      rw [blocks, filter_again hkey, hs.2, List.nil_append] at hsame
      subst hattempt
      rcases next_finalize p with ⟨hagain, hnext⟩ | ⟨hagain, hnext⟩
      · exact ⟨_, run_cons.mpr ⟨_, hnext, rfl⟩, after, p, hsame.trans hagain, hheading⟩
      · exact ⟨_, run_cons.mpr ⟨_, hnext, rfl⟩, after, hsame.trans hagain⟩
    | resting attempt =>
      rw [hs.1] at before
      cases before
    | «over» =>
      rw [hs.1] at before
      cases before
  | republish p k relayCount fired block key started after blocks =>
    have hmem : .republish p ∈ s.scheduled.filter (Block.republishes e) :=
      List.mem_filter.mpr ⟨List.mem_of_getElem? block, republishes_iff.mpr ⟨p, rfl, key⟩⟩
    cases r with
    | asking attempt =>
      rw [hs.2] at hmem
      cases hmem
    | resting attempt =>
      obtain ⟨_, q, hone, hheading⟩ := hs
      obtain ⟨rfl, hnone⟩ := filter_eraseIdx block key hone
      have henvelope : p.envelopeID = envelopeID := congrArg (·.2.1) hheading
      have hattempt : p.attempt = attempt := congrArg (·.2.2) hheading
      refine ⟨.asking (attempt + 1), rfl, ?_, ?_⟩
      · rw [after, henvelope, hattempt]
        rfl
      · subst fired
        rw [hblocks, blocks, List.filter_append]
        show (s.scheduled.eraseIdx k).filter _ ++ [] = []
        rw [hnone]
        rfl
    | «over» =>
      rw [hs.2] at hmem
      cases hmem

end NostrOutbound

end AeroNyra
