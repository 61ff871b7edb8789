import AeroNyra.Transport.Ladder

/-! The ladder under the transport's queue, which runs its blocks no sooner than they are due and
hardly out of the order in which they are due: a deadline ends the round that it was scheduled in,
and every published event comes to one outcome. -/

namespace AeroNyra

/-! ### The queue -/

/-- Times are in nanoseconds. -/
def acceptanceSummaryDeadline : Nat := 10 * 1000000000

def republishDelay : Nat := 15 * 1000000000

/-- How long after it is scheduled a block is due. -/
def Block.delay : Block → Nat
  | .acceptanceDeadline _ => acceptanceSummaryDeadline
  | .republish _ => republishDelay

/-- A scheduled block, the time that it is due, and the attempt in whose round it was scheduled,
which the transport does not record. -/
structure Timer where
  block : Block
  due : Nat
  attempt : Nat

/-- The transport and its queue. -/
structure OutboundQueue where
  outbound : NostrOutbound
  history : NostrOutbound.History
  clock : Nat
  timers : List Timer

namespace OutboundQueue

open Interleave NostrOutbound

def launch : OutboundQueue := ⟨.launch, ⟨[], ∅, []⟩, 0, []⟩

/-- The attempt whose round schedules a block. -/
def attemptOf (s : NostrOutbound) : Block → Nat
  | .acceptanceDeadline eventID =>
      ((s.pendingAcceptance.lookup eventID).map PendingAcceptance.attempt).getD 0
  | .republish pending => pending.attempt

variable (q : OutboundQueue)

def keptTimers : Event → List Timer
  | .fire block => q.timers.eraseIdx block
  | _ => q.timers

/-- A block runs once it is due, and before no block that was due more than `lag` earlier.  A queue
that runs its blocks in the order in which they are due has no lag. -/
def mayRun (lag clock : Nat) : Event → Bool
  | .fire block => q.timers[block]?.any fun timer =>
    decide (timer.due ≤ clock) && q.timers.all fun other => decide (timer.due ≤ other.due + lag)
  | _ => true

/-- An event some time after the last one.  The blocks that it schedules are due after their
delays. -/
def step (relays lag : Nat) (q : OutboundQueue) (e : Nat × Event) : Option OutboundQueue :=
  let clock := q.clock + e.1
  if q.mayRun lag clock e.2 then
    (NostrOutbound.step relays (q.outbound, q.history) e.2).map fun (outbound, history) =>
      ⟨outbound, history, clock, q.keptTimers e.2 ++
        (outbound.scheduled.drop (q.keptTimers e.2).length).map fun block =>
          ⟨block, clock + block.delay, attemptOf outbound block⟩⟩
  else none

abbrev Step := Transition OutboundQueue (Nat × Event)

/-- What a step does to `e`. -/
def Step.act (e : Text) (t : Step) : Option Act := NostrOutbound.act e t.pre.outbound t.event.2

/-- The step runs a block of `e`. -/
def runs (e : Text) (s : NostrOutbound) : Event → Bool
  | .fire block => s.scheduled[block]?.any fun b => b.about == e
  | _ => false

def Step.runs (e : Text) (t : Step) : Bool := OutboundQueue.runs e t.pre.outbound t.event.2

/-- What happened to `e` over a run. -/
def acts (e : Text) (steps : List Step) : List Act := steps.filterMap (Step.act e)

/-- The timers are those of the scheduled blocks, and no block is due later than its delay from
now. -/
structure Timed (q : OutboundQueue) : Prop where
  blocks : q.timers.map Timer.block = q.outbound.scheduled
  due : ∀ t ∈ q.timers, t.due ≤ q.clock + t.block.delay
  regular : Regular q.outbound q.history

theorem timed_launch : Timed launch := ⟨rfl, nofun, regular_launch⟩

/-- What a step is: one of the transport's, a clock that does not go back, and the new timers behind
those that are kept. -/
theorem step_cases {relays lag : Nat} {q q' : OutboundQueue} {e : Nat × Event}
    (h : step relays lag q e = some q') (hq : q.Timed) :
    q.mayRun lag q'.clock e.2 ∧ q.clock ≤ q'.clock ∧ q'.history = q.history.note q.outbound e.2 ∧
      q.outbound.exec relays q.history e.2 = some q'.outbound ∧
      (q.keptTimers e.2).map Timer.block = q.outbound.kept e.2 ∧
      ∀ fresh, q'.outbound.scheduled = q.outbound.kept e.2 ++ fresh →
        q'.timers = q.keptTimers e.2 ++ fresh.map fun block =>
          ⟨block, q'.clock + block.delay, attemptOf q'.outbound block⟩ := by
  obtain ⟨hmay, h⟩ := Option.ite_none_right_eq_some.mp h
  obtain ⟨⟨outbound, history⟩, hstep, rfl⟩ := Option.map_eq_some_iff.mp h
  obtain ⟨_, hexec, hsame⟩ := Option.map_eq_some_iff.mp hstep
  cases hsame
  have hkept : (q.keptTimers e.2).map Timer.block = q.outbound.kept e.2 := by
    obtain ⟨elapsed, event⟩ := e
    cases event with
    | fire k =>
      show (q.timers.eraseIdx k).map _ = q.outbound.scheduled.eraseIdx k
      rw [← hq.blocks, List.eraseIdx_map]
    | _ => exact hq.blocks
  refine ⟨hmay, Nat.le_add_right _ _, rfl, hexec, hkept, fun fresh hfresh => ?_⟩
  dsimp only at hfresh ⊢
  have hlength : (q.keptTimers e.2).length = (q.outbound.kept e.2).length := by
    rw [← hkept, List.length_map]
  rw [hfresh, hlength, List.drop_left]

theorem exec_fresh {s s' : NostrOutbound} {relays : Nat} {h : History} {event : Event}
    (hs : s.Keyed)
    (hexec : s.exec relays h event = some s') : ∃ fresh, s'.scheduled = s.kept event ++ fresh := by
  by_cases hstop : event = .stop
  · subst hstop
    cases hexec
    exact ⟨[], (List.append_nil _).symm⟩
  · by_cases hpublish : ∃ envelopeID, event = .publish [] envelopeID
    · obtain ⟨envelopeID, rfl⟩ := hpublish
      obtain ⟨_, ⟨_, rfl⟩ | ⟨_, rfl⟩⟩ := exec_publish hexec
      · exact ⟨[], (List.append_nil _).symm⟩
      · exact ⟨_, rfl⟩
    · obtain ⟨fresh, hblocks, _⟩ := effect_exec hs hexec hstop fun envelopeID heq =>
        hpublish ⟨envelopeID, heq⟩
      exact ⟨fresh, hblocks⟩

theorem mem_keptTimers {q : OutboundQueue} {event : Event} {t : Timer}
    (ht : t ∈ q.keptTimers event) :
    t ∈ q.timers := by
  cases event with
  | fire k => exact List.mem_of_mem_eraseIdx ht
  | _ => exact ht

theorem Timed.step {relays lag : Nat} {q q' : OutboundQueue} {e : Nat × Event} (hq : q.Timed)
    (h : step relays lag q e = some q') : q'.Timed := by
  obtain ⟨_, hclock, hnote, hexec, hkept, htimers⟩ := step_cases h hq
  obtain ⟨fresh, hfresh⟩ := exec_fresh hq.regular.keyed hexec
  have hsame := htimers fresh hfresh
  refine ⟨?_, fun t ht => ?_, ?_⟩
  · rw [hsame, hfresh, List.map_append, hkept, List.map_map]
    exact congrArg _ (List.map_id fresh)
  · rw [hsame] at ht
    rcases List.mem_append.mp ht with ht | ht
    · exact (hq.due t (mem_keptTimers ht)).trans (Nat.add_le_add_right hclock _)
    · obtain ⟨b, _, rfl⟩ := List.mem_map.mp ht
      exact Nat.le_refl _
  · rw [hnote]
    exact hq.regular.exec hexec

/-! ### The pace of one event -/

/-- What the timers of `e` are while it stands on a rung: the round that goes on has its own
deadline, the deadlines of earlier rounds are over, and the next round begins after them. -/
def Paced (e : Text) (lag : Nat) (q : OutboundQueue) : Rung → Prop
  | .asking attempt =>
    (∃ t ∈ q.timers, t.block = .acceptanceDeadline e ∧ t.attempt = attempt) ∧
      (lag < republishDelay - acceptanceSummaryDeadline →
        ∀ t ∈ q.timers, t.block = .acceptanceDeadline e → t.attempt = attempt)
  | .resting _ => ∀ t ∈ q.timers, t.block = .acceptanceDeadline e → ∀ t' ∈ q.timers,
      Block.republishes e t'.block → t.due + (republishDelay - acceptanceSummaryDeadline) ≤ t'.due
  | .over => True

theorem block_of_getElem? {q : OutboundQueue} (hq : q.Timed) {k : Nat} {t : Timer}
    (ht : q.timers[k]? = some t) :
    q.outbound.scheduled[k]? = some t.block := by
  rw [← hq.blocks, List.getElem?_map, ht]
  rfl

/-- A deadline that runs ends the round of its event. -/
theorem act_deadline {s : NostrOutbound} {e : Text} {k : Nat} (hs : s.Keyed)
    (hblock : s.scheduled[k]? = some (.acceptanceDeadline e)) {p : PendingAcceptance}
    (hp : s.pendingAcceptance.lookup e = some p) :
    NostrOutbound.act e s (.fire k) = some (.finalize p.outcome) := by
  simp [NostrOutbound.act, finalized, hblock, hp, hs e p hp]

/-- A timer stays, or its block runs. -/
theorem kept_or_fired {q : OutboundQueue} {event : Event} {t : Timer} (ht : t ∈ q.timers) :
    t ∈ q.keptTimers event ∨ ∃ k, event = .fire k ∧ q.timers[k]? = some t := by
  cases event with
  | fire k =>
    cases hk : q.timers[k]? with
    | none =>
      refine .inl ?_
      show t ∈ q.timers.eraseIdx k
      rwa [List.eraseIdx_of_length_le (List.getElem?_eq_none_iff.mp hk)]
    | some t' =>
      obtain ⟨l₁, l₂, hl, herased⟩ := split_eraseIdx hk
      have hkept : q.keptTimers (.fire k) = l₁ ++ l₂ := herased
      rw [hl, List.mem_append, List.mem_cons] at ht
      rw [hkept, List.mem_append]
      rcases ht with ht | rfl | ht
      · exact .inl (.inl ht)
      · exact .inr ⟨k, rfl, hk⟩
      · exact .inl (.inr ht)
  | _ => exact .inl ht

section Pace

variable {relays lag : Nat} {q q' : OutboundQueue} {ev : Nat × Event} {e : Text}
  {envelopeID : MessageID} {fresh : List Block} {r r' : Rung}

/-- A step that does nothing to `e` leaves its timers alone. -/
theorem Paced.stay (hp : Paced e lag q r) (hq : q.Timed)
    (h : OutboundQueue.step relays lag q ev = some q') (hs : r.Holds e envelopeID q.outbound)
    (hblocks : q'.outbound.scheduled = q.outbound.kept ev.2 ++ fresh)
    (hact : NostrOutbound.act e q.outbound ev.2 = none) (hother : ∀ b ∈ fresh, b.about ≠ e) :
    Paced e lag q' r := by
  obtain ⟨_, _, _, _, _, htimers⟩ := step_cases h hq
  have htimers := htimers fresh hblocks
  have hold (t : Timer) (ht : t ∈ q'.timers) (habout : t.block.about = e) : t ∈ q.timers := by
    rw [htimers] at ht
    rcases List.mem_append.mp ht with ht | ht
    · exact mem_keptTimers ht
    · obtain ⟨b, hb, rfl⟩ := List.mem_map.mp ht
      exact absurd habout (hother b hb)
  cases r with
  | asking attempt =>
    obtain ⟨⟨t, ht, hblock, hattempt⟩, hexact⟩ := hp
    refine ⟨⟨t, ?_, hblock, hattempt⟩, fun hlag t ht hblock => ?_⟩
    · rw [htimers, List.mem_append]
      refine (kept_or_fired ht).imp_right fun ⟨k, hfire, hk⟩ => ?_
      -- The deadline of the round that goes on would end it.
      obtain ⟨p, hlookup, _⟩ := Option.map_eq_some_iff.mp hs.1
      have hdeadline := block_of_getElem? hq hk
      rw [hblock] at hdeadline
      rw [hfire, act_deadline hq.regular.keyed hdeadline hlookup] at hact
      cases hact
    · exact hexact hlag t (hold t ht (by rw [hblock]; rfl)) hblock
  | resting attempt =>
    intro t ht hblock t' ht' hrepublishes
    refine hp t (hold t ht (by rw [hblock]; rfl)) hblock t' (hold t' ht' ?_) hrepublishes
    obtain ⟨p, heq, hkey⟩ := republishes_iff.mp hrepublishes
    rw [heq]
    exact hkey
  | «over» => trivial

/-- The end of a round schedules the next one behind every deadline there is. -/
theorem paced_rest {p : PendingAcceptance} {attempt attempt' : Nat} (hq : q.Timed)
    (h : OutboundQueue.step relays lag q ev = some q')
    (hs : (Rung.asking attempt).Holds e envelopeID q.outbound)
    (hblocks : q'.outbound.scheduled = q.outbound.kept ev.2 ++ p.again) :
    Paced e lag q' (.resting attempt') := by
  obtain ⟨_, hclock, _, _, hkept, htimers⟩ := step_cases h hq
  have htimers := htimers p.again hblocks
  intro t ht hblock t' ht' hrepublishes
  rw [htimers] at ht ht'
  have hfirst : t ∈ q.timers := by
    refine (List.mem_append.mp ht).elim mem_keptTimers fun ht => ?_
    obtain ⟨b, hb, rfl⟩ := List.mem_map.mp ht
    rw [again_about hb] at hblock
    cases hblock
  have hdue := hq.due t hfirst
  rw [hblock] at hdue
  rcases List.mem_append.mp ht' with ht' | ht'
  · have hmem : t'.block ∈ q.outbound.scheduled.filter (Block.republishes e) := by
      rw [← hq.blocks]
      exact List.mem_filter.mpr ⟨List.mem_map_of_mem (mem_keptTimers ht'), hrepublishes⟩
    rw [hs.2] at hmem
    cases hmem
  · obtain ⟨b, hb, rfl⟩ := List.mem_map.mp ht'
    rw [again_about hb]
    simp only [Block.delay, acceptanceSummaryDeadline, republishDelay] at hdue ⊢
    omega

/-- The next round begins when the deadlines of earlier ones have run, if the queue lags less than
the republish lies behind a deadline. -/
theorem Paced.ask {p : PendingAcceptance} {attempt k relayCount : Nat}
    (hp : Paced e lag q (.resting attempt))
    (hq : q.Timed) (h : OutboundQueue.step relays lag q ev = some q')
    (hs : (Rung.resting attempt).Holds e envelopeID q.outbound) (hfire : ev.2 = .fire k)
    (hblock : q.outbound.scheduled[k]? = some (.republish p)) (hkey : p.eventID = e)
    (hafter : q'.outbound.pendingAcceptance.lookup e = some
      ⟨e, p.envelopeID, relayCount, p.attempt + 1, 0, 0⟩)
    (hblocks : q'.outbound.scheduled = q.outbound.kept ev.2 ++ [.acceptanceDeadline e]) :
    Paced e lag q' (.asking (attempt + 1)) := by
  obtain ⟨hmay, _, _, _, _, htimers⟩ := step_cases h hq
  have htimers := htimers [.acceptanceDeadline e] hblocks
  obtain ⟨_, p', hone, hheading⟩ := hs
  obtain ⟨rfl, _⟩ := filter_eraseIdx hblock hkey hone
  have hattempt : attemptOf q'.outbound (.acceptanceDeadline e) = attempt + 1 := by
    rw [attemptOf, hafter]
    exact congrArg (·.2.2 + 1) hheading
  refine ⟨⟨_, htimers ▸ List.mem_append_right _ List.mem_cons_self, rfl, hattempt⟩,
    fun hlag t ht hdeadline => ?_⟩
  rw [htimers] at ht
  rcases List.mem_append.mp ht with ht | ht
  · exfalso
    rw [hfire] at hmay
    obtain ⟨timer, htimer, hruns⟩ := (Option.any_eq_true _ _).mp hmay
    rw [Bool.and_eq_true, decide_eq_true_eq, List.all_eq_true] at hruns
    have horder := of_decide_eq_true (hruns.2 t (mem_keptTimers ht))
    have hrepublish := block_of_getElem? hq htimer
    rw [hblock, Option.some.injEq] at hrepublish
    have hgap := hp t (mem_keptTimers ht) hdeadline timer (List.mem_of_getElem? htimer)
      (by rw [← hrepublish]; exact republishes_iff.mpr ⟨p, rfl, hkey⟩)
    omega
  · rw [List.mem_singleton.mp ht]
    exact hattempt

theorem Paced.step {a : Option Act} (hp : Paced e lag q r) (hq : q.Timed)
    (h : OutboundQueue.step relays lag q ev = some q') (hs : r.Holds e envelopeID q.outbound)
    (hblocks : q'.outbound.scheduled = q.outbound.kept ev.2 ++ fresh)
    (hact : NostrOutbound.act e q.outbound ev.2 = a)
    (heffect : Effect e q.outbound ev.2 q'.outbound fresh a)
    (hnext : run Rung.next r a.toList = some r') :
    Paced e lag q' r' := by
  cases heffect with
  | none entry other =>
    cases hnext
    exact hp.stay hq h hs hblocks hact other
  | finalize p before after fresh =>
    obtain ⟨r'', hone, hsame⟩ := run_cons.mp hnext
    cases hsame
    subst fresh
    cases r with
    | asking attempt =>
      cases r' with
      | asking attempt' => exact absurd hone (Rung.next_finalize_ne attempt attempt' p.outcome)
      | resting attempt' => exact paced_rest hq h hs hblocks
      | «over» => trivial
    | resting attempt => cases hone
    | «over» => cases hone
  | republish p k relayCount fired block key started after fresh =>
    obtain ⟨r'', hone, hsame⟩ := run_cons.mp hnext
    cases hsame
    subst fresh
    cases r with
    | asking attempt => cases hone
    | resting attempt =>
      cases hone
      exact hp.ask hq h hs fired block key after hblocks
    | «over» => cases hone

end Pace

/-! ### Every run after a publish -/

/-- How many blocks of `e` are scheduled. -/
def scheduledFor (e : Text) (blocks : List Block) : Nat := blocks.countP (·.about == e)

/-- The invariant of the steps since `e` was published: the event has climbed to a rung, and its
blocks that ran, those that are scheduled, and those that may still be are five at most. -/
structure Standing (e : Text) (envelopeID : MessageID) (lag : Nat) (past : List Step)
    (q : OutboundQueue) :
    Prop where
  timed : q.Timed
  started : q.outbound.started
  published : e ∈ q.history.published
  rung : ∃ r, run Rung.next (.asking 1) (acts e past) = some r ∧ r.Holds e envelopeID q.outbound ∧
    Paced e lag q r ∧
    past.countP (Step.runs e) + scheduledFor e q.outbound.scheduled + r.ahead ≤
      2 * maxPublishAttempts - 1

theorem acts_append (e : Text) (past : List Step) (t : Step) :
    acts e (past ++ [t]) = acts e past ++ (t.act e).toList := by
  rw [acts, List.filterMap_append, acts, List.filterMap_cons]
  cases t.act e <;> rfl

/-- A block that runs is one less. -/
theorem scheduledFor_kept (s : NostrOutbound) (e : Text) (event : Event) :
    (if runs e s event then 1 else 0) + scheduledFor e (s.kept event) =
    scheduledFor e s.scheduled := by
  cases event with
  | fire k =>
    show (if s.scheduled[k]?.any (·.about == e) then 1 else 0) + scheduledFor e
      (s.scheduled.eraseIdx k) = _
    cases hb : s.scheduled[k]? with
    | none =>
      rw [List.eraseIdx_of_length_le (List.getElem?_eq_none_iff.mp hb)]
      exact Nat.zero_add _
    | some b => exact (countP_eraseIdx hb fun b => b.about == e).symm
  | _ => exact Nat.zero_add _

/-- The blocks that an effect schedules are taken from those ahead. -/
theorem scheduledFor_fresh {e : Text} {envelopeID : MessageID} {s s' : NostrOutbound}
    {event : Event} {fresh : List Block} {a : Option Act} {past : List Act} {r r' : Rung}
    (hclimbed : r.Climbed past)
    (hs : r.Holds e envelopeID s) (heffect : Effect e s event s' fresh a)
    (hnext : run Rung.next r a.toList = some r') : scheduledFor e fresh + r'.ahead ≤ r.ahead := by
  cases heffect with
  | none entry other =>
    cases hnext
    have hnone : scheduledFor e fresh = 0 := by
      rw [scheduledFor, List.countP_eq_zero]
      intro b hb
      simpa using other b hb
    omega
  | finalize p before after fresh =>
    obtain ⟨r'', hone, hsame⟩ := run_cons.mp hnext
    cases hsame
    subst fresh
    cases r with
    | asking attempt =>
      have hheading : p.heading = (e, envelopeID, attempt) :=
        Option.some.inj (before.symm.trans hs.1)
      have hattempt : p.attempt = attempt := congrArg (·.2.2) hheading
      subst hattempt
      rcases next_finalize p with ⟨hagain, hnext⟩ | ⟨hagain, hnext⟩
      · rw [hone] at hnext
        cases hnext
        have hle : scheduledFor e p.again ≤ 1 := by
          rw [hagain]
          exact List.countP_le_length
        have hmore : p.attempt < maxPublishAttempts := (Rung.climbed_next hclimbed hone).1
        simp only [Rung.ahead]
        omega
      · rw [hone] at hnext
        cases hnext
        rw [hagain]
        exact Nat.zero_le _
    | resting attempt => cases hone
    | «over» => cases hone
  | republish p k relayCount fired block key started after fresh =>
    obtain ⟨r'', hone, hsame⟩ := run_cons.mp hnext
    cases hsame
    subst fresh
    cases r with
    | asking attempt => cases hone
    | resting attempt =>
      cases hone
      have hlt : attempt < maxPublishAttempts := hclimbed.1
      have hle : scheduledFor e [.acceptanceDeadline e] ≤ 1 := List.countP_le_length
      simp only [Rung.ahead]
      omega
    | «over» => cases hone

theorem Standing.step {relays lag : Nat} {e : Text} {envelopeID : MessageID}
    {past : List Step} {t : Step}
    (hs : Standing e envelopeID lag past t.pre) (h : step relays lag t.pre t.event = some t.post)
    (hstop : t.event.2 ≠ .stop) : Standing e envelopeID lag (past ++ [t]) t.post := by
  obtain ⟨r, hrun, hholds, hpaced, hbudget⟩ := hs.rung
  obtain ⟨_, _, hnote, hexec, _, _⟩ := step_cases h hs.timed
  obtain ⟨fresh, hblocks, heffect⟩ := effect_exec (e := e) hs.timed.regular.keyed hexec hstop (by
    rintro envelopeID' heq
    rw [heq] at hexec
    exact (exec_publish hexec).1 hs.published)
  obtain ⟨r', hnext, hholds'⟩ := hholds.effect hs.started hblocks rfl heffect
  refine ⟨hs.timed.step h, started_exec hexec hstop hs.started, ?_, r', ?_, hholds', ?_, ?_⟩
  · rw [hnote]
    exact published_note hs.published
  · rw [acts_append]
    exact run_append.mpr ⟨r, hrun, hnext⟩
  · exact hpaced.step hs.timed h hholds hblocks rfl heffect hnext
  · have hkept := scheduledFor_kept t.pre.outbound e t.event.2
    have hfresh := scheduledFor_fresh (Rung.climbed_of_run hrun) hholds heffect hnext
    rw [List.countP_append, List.countP_singleton, hblocks]
    unfold scheduledFor at hkept hfresh hbudget ⊢
    rw [List.countP_append, Step.runs]
    omega

/-- Where the ladder begins. -/
theorem standing_publish {relays lag elapsed : Nat} {e : Text} {envelopeID : MessageID}
    {q q' : OutboundQueue} (hq : q.Timed) (hlive : q.outbound.live ≠ [])
    (h : step relays lag q (elapsed, .publish e envelopeID) = some q') :
    Standing e envelopeID lag [] q' := by
  obtain ⟨_, _, hnote, hexec, _, htimers⟩ := step_cases h hq
  obtain ⟨hfresh, ⟨hnil, _⟩ | ⟨_, hsame⟩⟩ := exec_publish hexec
  · exact absurd hnil hlive
  have hblocks : q'.outbound.scheduled = q.outbound.kept (.publish e envelopeID) ++
    [.acceptanceDeadline e] := by
    rw [hsame]
    rfl
  have htimers := htimers [.acceptanceDeadline e] hblocks
  have hlookup : q'.outbound.pendingAcceptance.lookup e =
      some ⟨e, envelopeID, q.outbound.live.length, 1, 0, 0⟩ := by
    rw [hsame, lookup_recordPublish, if_pos rfl]
  have hattempt : attemptOf q'.outbound (.acceptanceDeadline e) = 1 := by
    rw [attemptOf, hlookup]
    rfl
  have hother : ∀ b ∈ q.outbound.scheduled, b.about ≠ e := fun b hb habout =>
    hfresh (habout ▸ hq.regular.blocks b hb)
  refine ⟨hq.step h, ?_, ?_, .asking 1, rfl, ⟨?_, ?_⟩, ⟨?_, fun _ t ht hblock => ?_⟩, ?_⟩
  · rcases hq.regular.sockets with hstarted | hconns
    · rw [hsame]
      exact hstarted
    · exact absurd (by simp [live, hconns]) hlive
  · rw [hnote]
    show e ∈ (History.note q.history q.outbound (.publish e envelopeID)).published
    rw [History.note, if_neg hlive]
    exact List.mem_cons_self
  · rw [hlookup]
    rfl
  · rw [hblocks, List.filter_append]
    show q.outbound.scheduled.filter _ ++ _ = _
    rw [filter_about hother]
    rfl
  · exact ⟨_, htimers ▸ List.mem_append_right _ List.mem_cons_self, rfl, hattempt⟩
  · rw [htimers] at ht
    rcases List.mem_append.mp ht with ht | ht
    · have hmem : t.block ∈ q.outbound.scheduled := by
        rw [← hq.blocks]
        exact List.mem_map_of_mem ht
      exact absurd (by rw [hblock]; rfl) (hother _ hmem)
    · rw [List.mem_singleton.mp ht]
      exact hattempt
  · have hnone : scheduledFor e q.outbound.scheduled = 0 := by
      rw [scheduledFor, List.countP_eq_zero]
      intro b hb
      simpa using hother b hb
    have hone : scheduledFor e [.acceptanceDeadline e] ≤ 1 := List.countP_le_length
    rw [hblocks]
    show 0 + scheduledFor e (q.outbound.scheduled ++ _) + 2 * (3 - 1) ≤ 2 * 3 - 1
    unfold scheduledFor at hnone hone ⊢
    rw [List.countP_append]
    omega

/-! ### The ladder ends once -/

/-- Nothing of `e` is pending or will be handed to the relays again. -/
def Gone (e : Text) (s : NostrOutbound) : Prop :=
  s.pendingAcceptance.lookup e = none ∧ ∀ b ∈ s.scheduled, ¬Block.republishes e b

/-- The event of the transport is a verdict on `e`, or it runs a block of `e`. -/
def concerns (e : Text) (s : NostrOutbound) : Event → Bool
  | .ok _ eventID _ => eventID == e
  | event => runs e s event

/-- What a step reports of `e`. -/
def reported (e : Text) (envelopeID : MessageID) (hasFailureHandler : Bool) :
    Option Act → List (Text × MessageID)
  | some (.finalize .giveUp) => if hasFailureHandler then [(e, envelopeID)] else []
  | _ => []

/-- What the steps of a run since `e` was published come to, and the state after them: two further
attempts, one outcome, a block that is due soon until then and five blocks in all, deadlines that
end the round they belong to, failures that are reported when the ladder gives up, and nothing
after that. -/
structure Ends (e : Text) (envelopeID : MessageID) (lag : Nat) (steps : List Step)
    (q : OutboundQueue) : Prop where
  fanOuts : (acts e steps).countP Act.fansOut + 1 ≤ 3
  outcomes : (acts e steps).countP Act.concludes ≤ 1
  ongoing : (acts e steps).countP Act.concludes = 0 → ∃ t ∈ q.timers, t.block.about = e ∧
    t.due ≤ q.clock + republishDelay
  blocks : steps.countP (Step.runs e) ≤ 5
  deadlines : lag < republishDelay - acceptanceSummaryDeadline → ∀ t ∈ steps, ∀ k timer p,
    t.event.2 = .fire k → t.pre.timers[k]? = some timer → timer.block = .acceptanceDeadline e →
    t.pre.outbound.pendingAcceptance.lookup e = some p → timer.attempt = p.attempt
  reports : ∀ t ∈ steps, t.post.outbound.failuresOf e =
    t.pre.outbound.failuresOf e ++ reported e envelopeID t.pre.outbound.hasFailureHandler (t.act e)
  quiet : ∀ (before : List Step) (t : Step) (after : List Step), steps = before ++ t :: after →
    (t.act e).any Act.concludes →
    Gone e t.post.outbound ∧ ∀ u ∈ after, u.act e = none ∧ Gone e u.post.outbound ∧
      (concerns e u.pre.outbound u.event.2 →
        u.post.outbound = { u.pre.outbound with scheduled := u.pre.outbound.kept u.event.2 })

section Ends

variable {relays lag : Nat} {e : Text} {envelopeID : MessageID} {q q' : OutboundQueue}
    {past : List Step}

theorem gone_of_over {s : NostrOutbound} (h : Rung.over.Holds e envelopeID s) : Gone e s :=
  ⟨h.1, fun b hb hmem => by
    have hfiltered := List.mem_filter.mpr ⟨hb, hmem⟩
    rw [h.2] at hfiltered
    cases hfiltered⟩

/-- Verdicts on what is gone, and its deadlines, do nothing. -/
theorem idle_of_gone {s s' : NostrOutbound} {h : History} {event : Event} (hgone : Gone e s)
    (hexec : s.exec relays h event = some s') (hconcerns : concerns e s event) :
    s' = { s with scheduled := s.kept event } := by
  cases event with
  | ok relay j accepted =>
    obtain ⟨_, hsome⟩ := Option.ite_none_right_eq_some.mp hexec
    cases hsome
    obtain rfl : j = e := beq_iff_eq.mp hconcerns
    rw [noteAcceptance, hgone.1]
    rfl
  | fire k =>
    obtain ⟨b, hb, rfl⟩ := Option.map_eq_some_iff.mp hexec
    have habout : b.about = e := by
      have hany : s.scheduled[k]?.any (·.about == e) = true := hconcerns
      rw [hb] at hany
      simpa using hany
    cases b with
    | acceptanceDeadline j =>
      obtain rfl : j = e := habout
      exact finalizeAcceptance_of_none (s := { s with scheduled := s.scheduled.eraseIdx k }) hgone.1
    | republish p =>
      exact absurd (republishes_iff.mpr ⟨p, rfl, habout⟩) (hgone.2 _ (List.mem_of_getElem? hb))
  | _ => cases hconcerns

/-- What a step reports of `e` is what it does to it. -/
theorem failuresOf_effect {s s' : NostrOutbound} {event : Event} {fresh : List Block}
    {a : Option Act} {r r' : Rung}
    (hs : r.Holds e envelopeID s) (heffect : Effect e s event s' fresh a)
    (hnext : run Rung.next r a.toList = some r') :
    s'.failuresOf e = s.failuresOf e ++ reported e envelopeID s.hasFailureHandler a := by
  cases heffect with
  | none entry other failures => exact failures.trans (List.append_nil _).symm
  | finalize p before after fresh failures =>
    obtain ⟨_, hone, _⟩ := run_cons.mp hnext
    cases r with
    | asking attempt =>
      have hheading : p.heading = (e, envelopeID, attempt) :=
        Option.some.inj (before.symm.trans hs.1)
      have hkey : p.eventID = e := congrArg Prod.fst hheading
      have henvelope : p.envelopeID = envelopeID := congrArg (·.2.1) hheading
      rw [failuresOf, failures, List.filter_append, failuresOf, PendingAcceptance.reports,
        hkey, henvelope]
      cases p.outcome with
      | settled => rfl
      | retry => rfl
      | giveUp => by_cases hhandler : s.hasFailureHandler <;> simp [reported, hhandler]
    | resting attempt => cases hone
    | «over» => cases hone
  | republish p k relayCount fired block key started after fresh failures =>
    rw [failuresOf, failures]
    exact (List.append_nil _).symm

theorem Standing.ongoing (hs : Standing e envelopeID lag past q)
    (hnone : (acts e past).countP Act.concludes = 0) :
    ∃ t ∈ q.timers, t.block.about = e ∧ t.due ≤ q.clock + republishDelay := by
  have hsoon {t : Timer} (ht : t ∈ q.timers) : t.due ≤ q.clock + republishDelay := by
    have hdue := hs.timed.due t ht
    have hdelay : t.block.delay ≤ republishDelay := by
      cases t.block with
      | acceptanceDeadline => exact Nat.mul_le_mul_right _ (by decide)
      | republish => exact Nat.le_refl _
    omega
  obtain ⟨r, hrun, hholds, hpaced, _⟩ := hs.rung
  cases r with
  | asking attempt =>
    obtain ⟨⟨t, ht, hblock, _⟩, _⟩ := hpaced
    exact ⟨t, ht, by rw [hblock]; rfl, hsoon ht⟩
  | resting attempt =>
    obtain ⟨_, p, hone, hheading⟩ := hholds
    have hmem : Block.republish p ∈ q.outbound.scheduled := by
      have hfiltered : Block.republish p ∈ q.outbound.scheduled.filter (Block.republishes e) := by
        rw [hone]
        exact List.mem_cons_self
      exact (List.mem_filter.mp hfiltered).1
    rw [← hs.timed.blocks] at hmem
    obtain ⟨t, ht, hblock⟩ := List.mem_map.mp hmem
    exact ⟨t, ht, by rw [hblock]; exact congrArg Prod.fst hheading, hsoon ht⟩
  | «over» =>
    have hone := (Rung.climbed_of_run hrun).2
    omega

/-- The invariant before each step of a run without a stop, and after the run. -/
theorem standing_run {es : List (Nat × Event)} (hs : Standing e envelopeID lag [] q)
    (hrun : run (step relays lag) q es = some q') (hstop : ∀ ev ∈ es, ev.2 ≠ .stop) :
    Standing e envelopeID lag (trace (step relays lag) q es) q' ∧
      ∀ before t after, trace (step relays lag) q es = before ++ t :: after →
        Standing e envelopeID lag before t.pre := by
  let Inv (past : List Step) (q : OutboundQueue) : Prop :=
    (∀ t ∈ past, t.event.2 ≠ .stop) → Standing e envelopeID lag past q
  have hkeep (past : List Step) (t : Step) (ht : step relays lag t.pre t.event = some t.post)
      (hpast : Inv past t.pre) : Inv (past ++ [t]) t.post := by
    intro hnone
    refine (hpast fun u hu => hnone u (List.mem_append_left _ hu)).step ht ?_
    exact hnone t (List.mem_append_right _ List.mem_cons_self)
  have hnone : ∀ t ∈ trace (step relays lag) q es, t.event.2 ≠ .stop :=
    fun t ht => hstop _ (event_mem ht)
  refine ⟨run_history Inv hkeep (fun _ => hs) hrun hnone, fun before t after heq => ?_⟩
  refine trace_history Inv hkeep (fun _ => hs) heq fun u hu => hnone u ?_
  rw [heq]
  exact List.mem_append_left _ hu

/-- A step of a run, with the rungs around it. -/
theorem Standing.around {t : Step} (hs : Standing e envelopeID lag past t.pre)
    (h : OutboundQueue.step relays lag t.pre t.event = some t.post) (hstop : t.event.2 ≠ .stop) :
    ∃ r r' fresh, r.Holds e envelopeID t.pre.outbound ∧ r'.Holds e envelopeID t.post.outbound ∧
      run Rung.next (.asking 1) (acts e past) = some r ∧
        run Rung.next r (t.act e).toList = some r' ∧
      Effect e t.pre.outbound t.event.2 t.post.outbound fresh (t.act e) := by
  obtain ⟨r, hrun, hholds, _, _⟩ := hs.rung
  obtain ⟨_, _, _, hexec, _, _⟩ := step_cases h hs.timed
  obtain ⟨fresh, hblocks, heffect⟩ := effect_exec (e := e) hs.timed.regular.keyed hexec hstop (by
    rintro envelopeID' heq
    rw [heq] at hexec
    exact (exec_publish hexec).1 hs.published)
  obtain ⟨r', hnext, hholds'⟩ := hholds.effect hs.started hblocks rfl heffect
  exact ⟨r, r', fresh, hholds, hholds', hrun, hnext, heffect⟩

/-- After its outcome an event is over. -/
theorem Standing.over (hs : Standing e envelopeID lag past q) {t : Step} (ht : t ∈ past)
    (hends : (t.act e).any Act.concludes) :
    Rung.over.Holds e envelopeID q.outbound ∧ run Rung.next (.asking 1) (acts e past) =
      some .over := by
  obtain ⟨r, hrun, hholds, _, _⟩ := hs.rung
  obtain ⟨a, ha, hconcludes⟩ := (Option.any_eq_true _ _).mp hends
  have hpos : 0 < (acts e past).countP Act.concludes :=
    List.countP_pos_iff.mpr ⟨a, List.mem_filterMap.mpr ⟨t, ht, ha⟩, hconcludes⟩
  obtain rfl := (Rung.climbed_of_run hrun).over_iff.mpr hpos
  exact ⟨hholds, hrun⟩

/-- The steps after the outcome. -/
theorem Standing.quiet (hs : Standing e envelopeID lag past q) {t : Step} (ht : t ∈ past)
    (hends : (t.act e).any Act.concludes) {u : Step} (hpre : u.pre = q)
    (h : OutboundQueue.step relays lag u.pre u.event = some u.post) (hstop : u.event.2 ≠ .stop) :
    u.act e = none ∧ Gone e u.post.outbound ∧ (concerns e u.pre.outbound u.event.2 →
      u.post.outbound = { u.pre.outbound with scheduled := u.pre.outbound.kept u.event.2 }) := by
  subst hpre
  obtain ⟨hgone, hover⟩ := hs.over ht hends
  obtain ⟨r, r', _, _, hpost, hrun, hnext, _⟩ := hs.around h hstop
  obtain ⟨_, _, _, hexec, _, _⟩ := step_cases h hs.timed
  rw [hover] at hrun
  cases hrun
  cases hact : u.act e with
  | none =>
    rw [hact] at hnext
    cases hnext
    exact ⟨rfl, gone_of_over hpost, idle_of_gone (gone_of_over hgone) hexec⟩
  | some a =>
    rw [hact] at hnext
    obtain ⟨_, hone, _⟩ := run_cons.mp hnext
    cases hone

theorem ends_of_run {es : List (Nat × Event)} (hs : Standing e envelopeID lag [] q)
    (hrun : run (step relays lag) q es = some q') (hstop : ∀ ev ∈ es, ev.2 ≠ .stop) :
    Ends e envelopeID lag (trace (step relays lag) q es) q' := by
  obtain ⟨hlast, hbefore⟩ := standing_run hs hrun hstop
  obtain ⟨r, hclimb, _, _, hbudget⟩ := hlast.rung
  have hclimbed := Rung.climbed_of_run hclimb
  refine ⟨hclimbed.fansOut_le, hclimbed.concludes_le, hlast.ongoing,
    by unfold maxPublishAttempts at hbudget; omega,
    fun hlag t ht k timer p hfire htimer hblock hp => ?_, fun t ht => ?_,
      fun before t after heq hends => ?_⟩
  · obtain ⟨before, after, heq⟩ := List.append_of_mem ht
    obtain ⟨r, _, hholds, hpaced, _⟩ := (hbefore before t after heq).rung
    cases r with
    | asking attempt =>
      have hheading : p.heading = (e, envelopeID, attempt) := by
        have hmap := hholds.1
        rw [hp] at hmap
        exact Option.some.inj hmap
      rw [hpaced.2 hlag timer (List.mem_of_getElem? htimer) hblock]
      exact (congrArg (·.2.2) hheading).symm
    | resting attempt =>
      rw [hholds.1] at hp
      cases hp
    | «over» =>
      rw [hholds.1] at hp
      cases hp
  · obtain ⟨before, after, heq⟩ := List.append_of_mem ht
    obtain ⟨r, r', fresh, hholds, _, _, hnext, heffect⟩ :=
      (hbefore before t after heq).around (step_of_mem_trace ht) (hstop _ (event_mem ht))
    exact failuresOf_effect hholds heffect hnext
  · have hmem {u : Step} (hu : u ∈ t :: after) : u ∈ trace (step relays lag) q es := by
      rw [heq]
      exact List.mem_append_right _ hu
    have ht := hmem List.mem_cons_self
    have hpost := (hbefore before t after heq).step (step_of_mem_trace ht) (hstop _ (event_mem ht))
    refine ⟨gone_of_over (hpost.over (List.mem_append_right _ List.mem_cons_self) hends).1,
      fun u hu => ?_⟩
    obtain ⟨between, rest, rfl⟩ := List.append_of_mem hu
    have hu := hmem (List.mem_cons_of_mem _ hu)
    refine (hbefore (before ++ t :: between) u rest (by simp [heq])).quiet ?_ hends rfl
      (step_of_mem_trace hu) (hstop _ (event_mem hu))
    exact List.mem_append_right _ List.mem_cons_self

end Ends

/-! ### Runs that go on forever -/

section Endless

variable {relays lag : Nat} {e : Text} {envelopeID : MessageID} {q : OutboundQueue}
    (events : Nat → Nat × Event)

/-- The first events of an endless run. -/
def first (n : Nat) : List (Nat × Event) := (List.range n).map events

/-- The queue runs blocks of `e` as long as there are any. -/
def Fair (relays lag : Nat) (e : Text) (q : OutboundQueue) : Prop :=
  ∀ n q', run (step relays lag) q (first events n) = some q' →
  (∃ t ∈ q'.timers, t.block.about = e) →
    ∃ m ≥ n, ∃ u, run (step relays lag) q (first events m) = some u ∧ runs e u.outbound (events m).2

variable {events}

theorem first_succ (n : Nat) : first events (n + 1) = first events n ++ [events n] := by
  rw [first, List.range_succ, List.map_append]
  rfl

/-- A fair run in which every event happens reaches the outcome. -/
theorem concludes_of_fair (hs : Standing e envelopeID lag [] q) (hstop : ∀ n, (events n).2 ≠ .stop)
    (hruns : ∀ n, (run (step relays lag) q (first events n)).isSome)
    (hfair : Fair events relays lag e q) :
    ∃ n, 0 < (acts e (trace (step relays lag) q (first events n))).countP Act.concludes := by
  by_contra hnever
  have hends (n : Nat) : ∃ q', run (step relays lag) q (first events n) = some q' ∧
      Ends e envelopeID lag (trace (step relays lag) q (first events n)) q' := by
    obtain ⟨q', hq'⟩ := Option.isSome_iff_exists.mp (hruns n)
    refine ⟨q', hq', ends_of_run hs hq' fun ev hev => ?_⟩
    obtain ⟨m, _, rfl⟩ := List.mem_map.mp hev
    exact hstop m
  have hsucc (m : Nat) {u : OutboundQueue}
    (hu : run (step relays lag) q (first events m) = some u) :
      ∃ w, trace (step relays lag) q (first events (m + 1)) =
        trace (step relays lag) q (first events m) ++ [⟨u, events m, w⟩] := by
    obtain ⟨w, hw⟩ := Option.isSome_iff_exists.mp (hruns (m + 1))
    rw [first_succ] at hw ⊢
    obtain ⟨v, hv, hlast⟩ := run_append.mp hw
    cases hu.symm.trans hv
    obtain ⟨_, hstep, hsame⟩ := run_cons.mp hlast
    cases hsame
    exact ⟨w, by rw [trace_append hu, trace_cons hstep]; rfl⟩
  have hmono {n m : Nat} (h : n ≤ m) : (trace (step relays lag) q (first events n)).countP
    (Step.runs e) ≤
      (trace (step relays lag) q (first events m)).countP (Step.runs e) := by
    induction m, h using Nat.le_induction with
    | base => exact Nat.le_refl _
    | succ m _ ih =>
      obtain ⟨u, hu⟩ := Option.isSome_iff_exists.mp (hruns m)
      obtain ⟨w, hw⟩ := hsucc m hu
      rw [hw, List.countP_append]
      exact ih.trans (Nat.le_add_right _ _)
  -- Without an outcome there is always a block of the event, so more and more of them run.
  have hmore (k : Nat) : ∃ n, k ≤ (trace (step relays lag) q (first events n)).countP
    (Step.runs e) := by
    induction k with
    | zero => exact ⟨0, Nat.zero_le _⟩
    | succ k ih =>
      obtain ⟨n, hn⟩ := ih
      obtain ⟨q', hq', hend⟩ := hends n
      have hnone : (acts e (trace (step relays lag) q (first events n))).countP Act.concludes =
        0 := by
        by_contra hsome
        exact hnever ⟨n, Nat.pos_of_ne_zero hsome⟩
      obtain ⟨t, ht, habout, _⟩ := hend.ongoing hnone
      obtain ⟨m, hm, u, hu, hblock⟩ := hfair n q' hq' ⟨t, ht, habout⟩
      obtain ⟨w, hw⟩ := hsucc m hu
      refine ⟨m + 1, ?_⟩
      have hle := hmono hm
      have hone : Step.runs e ⟨u, events m, w⟩ = true := hblock
      rw [hw, List.countP_append, List.countP_singleton, if_pos hone]
      omega
  obtain ⟨n, hn⟩ := hmore 6
  obtain ⟨_, _, hbound⟩ := hends n
  have := hbound.blocks
  omega

end Endless

/-- For every event that is published, at any point of a run, and whatever happens then but a stop:
three attempts at most, one outcome, deadlines that end their own rounds only if the queue lags
less than a republish lies behind a deadline, and nothing after the outcome, which every run
reaches in which the queue runs the blocks of the event. -/
theorem publish_ladder_ends (relays lag elapsed : Nat) (e : Text) (envelopeID : MessageID)
    (before : List (Nat × Event)) (q q₁ : OutboundQueue)
    (hbefore : run (step relays lag) launch before = some q) (hlive : q.outbound.live ≠ [])
    (hpublish : step relays lag q (elapsed, .publish e envelopeID) = some q₁) :
    (∀ after q₂, run (step relays lag) q₁ after = some q₂ → (∀ ev ∈ after, ev.2 ≠ .stop) →
      Ends e envelopeID lag (trace (step relays lag) q₁ after) q₂) ∧
    ∀ events : Nat → Nat × Event, (∀ n, (events n).2 ≠ .stop) →
      (∀ n, (run (step relays lag) q₁ (first events n)).isSome) → Fair events relays lag e q₁ →
      ∃ n, 0 < (acts e (trace (step relays lag) q₁ (first events n))).countP Act.concludes := by
  have hq : q.Timed :=
    run_invariant Timed (fun _ => True) (fun _ ht _ hq => hq.step ht) timed_launch
      (fun _ _ => trivial) hbefore
  have hs := standing_publish hq hlive hpublish
  exact ⟨fun after q₂ hrun hstop => ends_of_run hs hrun hstop,
    fun events hstop hruns hfair => concludes_of_fair hs hstop hruns hfair⟩

/-- A transport with one relay, and the same when it has published an event. -/
def opened : OutboundQueue :=
  (run (step 1 0) launch [(0, .setPublishFailureHandler), (0, .start)]).getD launch

def publishedOnce : OutboundQueue := (step 1 0 opened (0, .publish ['e'] (.filled 1))).getD launch

/-- The relay rejects the event at once, and is silent in the two rounds that follow. -/
def rejectedThenSilent : List (Nat × Event) :=
  [(1, .ok 0 ['e'] false), (acceptanceSummaryDeadline, .fire 0),
    (republishDelay - acceptanceSummaryDeadline, .fire 0), (acceptanceSummaryDeadline, .fire 0),
    (republishDelay, .fire 0), (acceptanceSummaryDeadline, .fire 0)]

/-- The deadline of the first attempt runs before the second attempt, and the failure is reported
after the third. -/
theorem publish_ladder_ends_rejectedThenSilent : ∃ q,
    run (step 1 0) publishedOnce rejectedThenSilent = some q ∧
      q.outbound.failures = [(['e'], .filled 1)] ∧
      Ends ['e'] (.filled 1) 0 (trace (step 1 0) publishedOnce rejectedThenSilent) q := by
  have hafter : ∃ q, run (step 1 0) publishedOnce rejectedThenSilent = some q ∧
      q.outbound.failures = [(['e'], .filled 1)] := ⟨_, rfl, rfl⟩
  obtain ⟨q, hrun, hfailures⟩ := hafter
  exact ⟨q, hrun, hfailures,
    (publish_ladder_ends 1 0 0 ['e'] (.filled 1) [(0, .setPublishFailureHandler), (0, .start)]
      opened publishedOnce rfl (by decide) rfl).1 _ q hrun (by decide)⟩

end OutboundQueue

end AeroNyra
