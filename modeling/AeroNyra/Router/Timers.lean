import AeroNyra.Router.Monotone

/-! The stuck-send timers of a run, and when one of them runs against a message that is committed to
a relay.  A commit cancels the timer that the router holds for the message, but the end of a send
cancels none, and a timer that has elapsed, or whose handle the router has dropped, can no longer be
cancelled. -/

namespace AeroNyra.MessageRouter

open Interleave

/-- A stuck-send timer of `id` is asleep, or has elapsed and is about to run on the router. -/
def Live (c : Config MessageRouter Segment) (id : MessageID) : Prop :=
  (∃ task timer, c.shared.asleep.lookup task = some timer ∧ timer.id = id) ∨
    c.Pending (.timeoutFired id)

/-- A live timer of `id` that `cancelTimeout` does not stop. -/
def Escapes (c : Config MessageRouter Segment) (id : MessageID) : Prop :=
  (∃ task timer, c.shared.asleep.lookup task = some timer ∧ timer.id = id ∧
    c.shared.timeouts.lookup id ≠ some task) ∨ c.Pending (.timeoutFired id)

/-- No message that is committed to a relay has a live timer. -/
def TimerFree (c : Config MessageRouter Segment) : Prop :=
  ∀ id, c.shared.stateOf id = some .cast → ¬Live c id

/-- A timer that fires demotes a message that was committed to a relay. -/
def Step.DemotesCast (t : Step) : Prop :=
  ∃ id, Config.Ran t (fun r a _ => a = .timeoutFired id ∧ r.stateOf id = some .cast) ∧
    t.post.shared.stateOf id = some .notDelivered

/-- The segment ends a tracked send of `id` whose envelope a relay took. -/
def Segment.EndsCast (id : MessageID) (_ : MessageRouter) : Segment → Reply → Prop
  | .nostrReplied envelope _ true, .ok => envelope.id = id
  | _, _ => False

/-- The segment commits `id` to the relay and cancels its timer. -/
def Segment.Commits (id : MessageID) (_ : MessageRouter) : Segment → Reply → Prop
  | .call (.commitToRelay j), _ => j = id
  | .rerouteReplied j _ _ _ _ _, .ok => j = id
  | _, _ => False

/-- The step commits a tracked message to a relay over a live timer: at the end of a send, or by a
commit that does not reach the timer. -/
def Step.CommitsOverTimer (t : Step) : Prop :=
  ∃ id, (t.pre.shared.stateOf id).isSome ∧
    (Config.Ran t (Segment.EndsCast id) ∧ Live t.pre id ∨
      Config.Ran t (Segment.Commits id) ∧ Escapes t.pre id)

/-! ### What a segment does to the timers that are asleep -/

variable {r : MessageRouter} {a : Segment} {reply : Reply} {p : MessageRouter × Outcome}
  {id : MessageID} {task : Nat} {timer : SendTimer}

@[simp] theorem markSeen_asleep : (r.markSeen id).asleep = r.asleep := rfl

theorem asleep_of_cancelTimeout (h : (r.cancelTimeout id).asleep.lookup task = some timer) :
    r.asleep.lookup task = some timer ∧ r.timeouts.lookup id ≠ some task := by
  rw [cancelTimeout_asleep] at h
  split at h
  · cases h
  · exact ⟨h, ‹_›⟩

theorem asleep_of_armTimeout {d : Duration}
    (h : (r.armTimeout id d).asleep.lookup task = some timer) :
    r.asleep.lookup task = some timer ∨ timer.id = id := by
  simp only [armTimeout, Dict.lookup_insert] at h
  split at h
  · cases h
    exact .inr rfl
  · exact .inl (asleep_of_cancelTimeout h).1

theorem asleep_of_update {s : MessageDeliveryState}
    (h : (r.update id s).asleep.lookup task = some timer) : r.asleep.lookup task = some timer := by
  unfold update at h
  cases hs : s.isTerminal with
  | true => exact (asleep_of_cancelTimeout (by simpa [hs] using h)).1
  | false => simpa [hs] using h

/-- Only the timers of messages that are not committed to a relay are new. -/
structure Sleeps (r r' : MessageRouter) : Prop where
  old : ∀ task timer, r'.asleep.lookup task = some timer →
    r.asleep.lookup task = some timer ∨ r'.stateOf timer.id ≠ some .cast

namespace Sleeps

theorem same {r' : MessageRouter} (h : r'.asleep = r.asleep) : Sleeps r r' :=
  ⟨fun _ _ ht => .inl (h ▸ ht)⟩

theorem update (id : MessageID) (s : MessageDeliveryState) : Sleeps r (r.update id s) :=
  ⟨fun _ _ ht => .inl (asleep_of_update ht)⟩

theorem updateTracked (id : MessageID) (s : MessageDeliveryState) :
    Sleeps r (r.updateTracked id s) := by
  unfold MessageRouter.updateTracked
  split
  · exact same rfl
  · exact update id s

theorem armTimeout {d : Duration} (h : r.stateOf id ≠ some .cast) :
    Sleeps r (r.armTimeout id d) := by
  refine ⟨fun task timer ht => ?_⟩
  rcases asleep_of_armTimeout ht with hold | rfl
  · exact .inl hold
  · exact .inr h

/-- A timer is armed only for a message that is neither settled nor committed to a relay. -/
theorem armed {d : Duration} {s : MessageDeliveryState} (h : r.stateOf id = some s) :
    Sleeps r (if s.isTerminal || s == .cast then r else r.armTimeout id d) := by
  split
  · exact same rfl
  · rename_i hs
    refine armTimeout fun hcast => ?_
    cases h.symm.trans hcast
    exact hs rfl

theorem startDeliveryTimeout (id : MessageID) (d : Duration) :
    Sleeps r (r.startDeliveryTimeout id d) := by
  unfold MessageRouter.startDeliveryTimeout
  split
  · exact armed ‹_›
  · exact same rfl

theorem extendTimeout (id : MessageID) (d : Duration) : Sleeps r (r.extendTimeout id d) := by
  unfold MessageRouter.extendTimeout
  split
  · exact armed ‹_›
  · exact same rfl

theorem commitToRelay (id : MessageID) : Sleeps r (r.commitToRelay id) := by
  unfold MessageRouter.commitToRelay
  split
  · exact same rfl
  · exact ⟨fun _ _ ht => .inl (asleep_of_update (asleep_of_cancelTimeout ht).1)⟩

theorem finishSend (id : MessageID) (tracked : Bool) (s : MessageDeliveryState) :
    Sleeps r (r.finishSend id tracked s).1 := by
  unfold MessageRouter.finishSend
  cases tracked with
  | false => exact same rfl
  | true =>
    simp only [↓reduceIte]
    split
    · rename_i hs
      obtain rfl : s = .sent := by simpa using hs
      refine ⟨fun task timer ht => ?_⟩
      rcases asleep_of_armTimeout ht with hold | rfl
      · exact .inl (asleep_of_update hold)
      · refine .inr ?_
        simp [stateOf_update]
    · exact update id s

theorem timeoutFired (id : MessageID) : Sleeps r (r.timeoutFired id) := by
  unfold MessageRouter.timeoutFired
  dsimp only
  split
  · split
    · exact same rfl
    · refine ⟨fun task timer ht => .inl ?_⟩
      exact asleep_of_update (r := { r with timeouts := AList.erase id r.timeouts }) ht
  · exact same rfl

theorem rerouteNext_asleep (departed : List Data) (rerouted : Nat)
    (entries : List (MessageID × OutboxEntry)) :
    (r.rerouteNext departed rerouted entries).1.asleep = r.asleep := by
  induction entries with
  | nil => rfl
  | cons e entries ih =>
    unfold MessageRouter.rerouteNext
    split
    · exact ih
    · rfl

theorem rerouteNext {r₀ : MessageRouter} (departed : List Data) (rerouted : Nat)
    (entries : List (MessageID × OutboxEntry)) (h : Sleeps r₀ r) :
    Sleeps r₀ (r.rerouteNext departed rerouted entries).1 := by
  have hstate := (Effect.rerouteNext (r := r) departed rerouted entries).stateOf
  refine ⟨fun task timer ht => ?_⟩
  rw [rerouteNext_asleep] at ht
  rw [hstate]
  exact h.old task timer ht

theorem send (envelope : Envelope) (tracked : Bool) (peerKey nostrRecipient : Option Data) :
    Sleeps r (r.send envelope tracked peerKey nostrRecipient).1 := by
  have hover (r' : MessageRouter) (h : r'.asleep = r.asleep) :
      Sleeps r (if r'.hasTransport .ble then
        (r', Outcome.suspend (.bleReplied envelope tracked nostrRecipient))
        else r'.finishSend envelope.id tracked .notDelivered).1 := by
    split
    · exact same h
    · have hfinish := finishSend (r := r') envelope.id tracked .notDelivered
      exact ⟨fun task timer ht => h ▸ hfinish.old task timer ht⟩
  unfold MessageRouter.send
  cases tracked <;> exact hover _ rfl

theorem resend (id : MessageID) : Sleeps r (r.resend id).1 := by
  unfold MessageRouter.resend
  split
  · exact send ..
  · exact same rfl

theorem fallBackToNostr (envelope : Envelope) (tracked : Bool) (nostrRecipient : Option Data) :
    Sleeps r (r.fallBackToNostr envelope tracked nostrRecipient).1 := by
  unfold MessageRouter.fallBackToNostr
  split
  · split
    · exact same rfl
    · exact finishSend ..
  · exact finishSend ..

end Sleeps

theorem exec_sleeps (h : r.exec a reply = some p) : Sleeps r p.1 := by
  unfold exec at h
  split at h
  · unfold begin at h
    split at h
    · cases h
      exact .send ..
    · cases h
      unfold publishOverNostr
      dsimp only
      split <;> exact .same rfl
    · unfold rerouteToNostr at h
      split at h
      · cases h
        exact .same rfl
      · split at h
        · cases h
          exact .rerouteNext _ _ _ (.same rfl)
        · cases h
    · cases h
    · cases h
      unfold beginTracking
      split <;> exact .same rfl
    · cases h
      exact .startDeliveryTimeout ..
    · cases h
      exact .extendTimeout ..
    · cases h
      exact .resend _
    · cases h
      exact .updateTracked ..
    · cases h
      exact .updateTracked ..
    · cases h
      exact .updateTracked ..
    · cases h
      exact .commitToRelay _
    · obtain ⟨timer, _, rfl⟩ := Option.map_eq_some_iff.mp h
      refine ⟨fun task timer ht => ?_⟩
      rw [Dict.lookup_erase] at ht
      split at ht
      · cases ht
      · exact .inl ht
  · cases h
    exact .finishSend ..
  · cases h
    exact .fallBackToNostr ..
  · cases h
    exact .finishSend ..
  · cases h
  · obtain ⟨resulting, _, rfl⟩ := Option.map_eq_some_iff.mp h
    exact .finishSend ..
  · obtain ⟨state, _, rfl⟩ := Option.map_eq_some_iff.mp h
    exact .same rfl
  · obtain ⟨outcome, _, rfl⟩ := Option.map_eq_some_iff.mp h
    refine .rerouteNext _ _ _ ?_
    split
    · exact .commitToRelay _
    · exact .same rfl
  · cases h
    exact .timeoutFired _

/-! ### What commits a message to a relay -/

theorem tracked_cast {j : MessageID} {s : MessageDeliveryState}
    (h : r.tracked j s = some ⟨id, .cast⟩) : s = .cast ∧ j = id ∧ (r.stateOf id).isSome := by
  obtain ⟨old, hold, heq⟩ := Option.map_eq_some_iff.mp h
  cases heq
  exact ⟨rfl, rfl, by simp [hold]⟩

theorem records_cast (h : a.records r reply = some ⟨id, .cast⟩) :
    a.EndsCast id r reply ∨ a.Commits id r reply := by
  unfold Segment.records at h
  split at h
  · split at h
    · cases h
    · cases h
  · split at h
    · cases (tracked_cast h).1
    · obtain ⟨hs, _⟩ := tracked_cast h
      split at hs <;> cases hs
    · cases (tracked_cast h).1
    · exact .inr (tracked_cast h).2.1
    · cases h
    · cases h
    · split at h
      · cases h
      · cases h
    · obtain ⟨s, hs, heq⟩ := Option.map_eq_some_iff.mp h
      cases heq
      cases reply with
      | ok => exact .inl rfl
      | noReachablePeers => cases hs
      | failed => cases hs
      | order ids => cases hs
    · exact .inr (tracked_cast h).2.1
    · split at h
      · cases h
      · cases h
    · cases h

theorem opens_cast (h : a.opens r id = some .cast) : r.stateOf id = some .cast := by
  unfold Segment.opens at h
  split at h
  · split at h
    · cases h
    · exact h
  · split at h
    · split at h
      · rename_i hj
        subst hj
        cases hs : r.stateOf id with
        | none => simp [hs] at h
        | some s => simpa [hs] using h
      · exact h
    · exact h

/-- A message is committed to a relay since before, or by a segment that does so. -/
theorem exec_cast (h : r.exec a reply = some p) (hc : p.1.stateOf id = some .cast) :
    r.stateOf id = some .cast ∨
      (r.stateOf id).isSome ∧ (a.EndsCast id r reply ∨ a.Commits id r reply) := by
  have heffect := (exec_effect h).stateOf id
  rw [hc] at heffect
  cases hrec : a.records r reply with
  | none =>
    rw [hrec] at heffect
    exact .inl (opens_cast heffect.symm)
  | some u =>
    rw [hrec] at heffect
    by_cases hid : id = u.id
    · subst hid
      simp only [Option.elim_some, ↓reduceIte] at heffect
      obtain ⟨old, hold, hcast⟩ := Option.map_eq_some_iff.mp heffect.symm
      have hcommit : a.EndsCast u.id r reply ∨ a.Commits u.id r reply := by
        refine records_cast (hrec.trans ?_)
        rw [← hcast]
      refine .inr ⟨?_, hcommit⟩
      have hopen : (a.opens r u.id).isSome := by simp [hold]
      have hkeep : a.opens r u.id = r.stateOf u.id := by
        unfold Segment.EndsCast Segment.Commits at hcommit
        rcases hcommit with hend | hcommit
        · split at hend
          · rfl
          · exact hend.elim
        · split at hcommit
          · rfl
          · rfl
          · exact hcommit.elim
      rwa [hkeep] at hopen
    · refine .inl (opens_cast (a := a) ?_)
      simpa [hid] using heffect.symm

/-- The segments that commit a tracked message do so. -/
theorem cast_of_commits (h : r.exec a reply = some p) (hsome : (r.stateOf id).isSome)
    (hcommit : a.EndsCast id r reply ∨ a.Commits id r reply) : p.1.stateOf id = some .cast := by
  have heffect := (exec_effect h).stateOf id
  obtain ⟨s, hs⟩ := Option.isSome_iff_exists.mp hsome
  have hrecords : a.records r reply = some ⟨id, .cast⟩ ∧ a.opens r id = r.stateOf id := by
    unfold Segment.EndsCast Segment.Commits at hcommit
    rcases hcommit with hend | hcommit
    · split at hend
      · subst hend
        exact ⟨rfl, rfl⟩
      · exact hend.elim
    · split at hcommit
      · subst hcommit
        exact ⟨by simp [Segment.records, Segment.sends, tracked, hs], rfl⟩
      · subst hcommit
        exact ⟨by simp [Segment.records, Segment.sends, tracked, hs], rfl⟩
      · exact hcommit.elim
  rw [hrecords.1, hrecords.2, hs] at heffect
  simpa using heffect

/-- A commit leaves no timer asleep but those that its cancellation does not reach. -/
theorem asleep_of_commits (h : r.exec a reply = some p) (hsome : (r.stateOf id).isSome)
    (hcommit : a.Commits id r reply) :
    p.1.asleep.lookup task = some timer ↔
      r.asleep.lookup task = some timer ∧ r.timeouts.lookup id ≠ some task := by
  have hrelay : (r.commitToRelay id).asleep.lookup task = some timer ↔
      r.asleep.lookup task = some timer ∧ r.timeouts.lookup id ≠ some task := by
    obtain ⟨e, he⟩ : ∃ e, r.outbox.lookup id = some e := by
      obtain ⟨s, hs⟩ := Option.isSome_iff_exists.mp hsome
      obtain ⟨e, he, _⟩ := Option.map_eq_some_iff.mp hs
      exact ⟨e, he⟩
    have hupdate : (r.update id .cast).asleep = r.asleep ∧
        (r.update id .cast).timeouts = r.timeouts := ⟨rfl, rfl⟩
    simp only [commitToRelay, he, cancelTimeout_asleep, hupdate]
    split
    · simp [*]
    · simp [*]
  unfold Segment.Commits at hcommit
  split at hcommit
  · subst hcommit
    cases h
    exact hrelay
  · subst hcommit
    cases h
    rw [Sleeps.rerouteNext_asleep]
    exact hrelay
  · exact hcommit.elim

/-- The end of a send wakes no timer. -/
theorem asleep_of_endsCast (h : r.exec a reply = some p) (hend : a.EndsCast id r reply) :
    p.1.asleep = r.asleep := by
  unfold Segment.EndsCast at hend
  split at hend
  · cases h
    rfl
  · exact hend.elim

/-! ### Runs -/

/-- The segment is the end of the sleep of a timer of `id`. -/
def Segment.Elapses (id : MessageID) (r : MessageRouter) (a : Segment) (_ : Reply) : Prop :=
  ∃ task timer, a = .call (.timer task) ∧ r.asleep.lookup task = some timer ∧ timer.id = id

theorem elapses_of_suspends (h : r.exec a reply = some p)
    (hnext : p.2 = .suspend (.timeoutFired id)) : a.Elapses id r reply := by
  have hresumes := exec_resumes h hnext
  generalize hseg : Segment.timeoutFired id = next at hresumes
  cases hresumes with
  | timer task j =>
    obtain ⟨timer, htimer, rfl⟩ := Option.map_eq_some_iff.mp h
    cases hnext
    exact ⟨task, timer, rfl, htimer, rfl⟩
  | send | resend | fallBack | publish | reroute => cases hseg

/-- Only a timer that was asleep comes to run on the router. -/
theorem pending_of_step {t : Step} (ht : machine.step t.pre t.event = some t.post)
    (hp : t.post.Pending (.timeoutFired id)) :
    t.pre.Pending (.timeoutFired id) ∨ Config.Ran t (Segment.Elapses id) := by
  rcases Machine.step_cases ht with ⟨call, _, hpost⟩ |
    ⟨i, reply, a, rest, handler, s, x, _, hi, hexec, hacts, hpost⟩
  · rw [hpost] at hp
    obtain ⟨u, hu, hmem⟩ := hp
    rcases List.mem_append.mp hu with hu | hu
    · exact .inl ⟨u, hu, hmem⟩
    · obtain rfl := List.mem_singleton.mp hu
      cases List.mem_singleton.mp hmem
  · obtain ⟨p, hseg, hpx⟩ := Option.map_eq_some_iff.mp hexec
    cases hpx
    rw [hpost] at hp
    rcases (Machine.pending_set hi _).mp hp with ⟨j, u, _, hj, hmem⟩ | hmem
    · exact .inl ⟨u, List.mem_of_getElem? hj, hmem⟩
    · have hrest (h : .timeoutFired id ∈ rest) : t.pre.Pending (.timeoutFired id) :=
        ⟨_, List.mem_of_getElem? hi, List.mem_cons_of_mem _ h⟩
      cases hout : p.2 with
      | suspend next =>
        rw [hout] at hmem
        rcases List.mem_append.mp hmem with hnew | hold
        · obtain rfl := List.mem_singleton.mp hnew
          exact .inr ⟨a, reply, hacts, elapses_of_suspends hseg hout⟩
        · exact .inl (hrest hold)
      | returned state =>
          exact .inl (hrest (by simpa [hout, Thread.leave, Outcome.exit] using hmem))
      | rerouted count =>
          exact .inl (hrest (by simpa [hout, Thread.leave, Outcome.exit] using hmem))
      | finished => exact .inl (hrest (by simpa [hout, Thread.leave, Outcome.exit] using hmem))

/-- Every live timer of a message that is committed to a relay after a step was live before it. -/
theorem live_of_step {t : Step} (ht : machine.step t.pre t.event = some t.post)
    (hc : t.post.shared.stateOf id = some .cast) (hl : Live t.post id) : Live t.pre id := by
  rcases hl with ⟨task, timer, htask, rfl⟩ | hpending
  · rcases Machine.step_shared ht with ⟨hsame, _⟩ | ⟨a, reply, x, hexec, _⟩
    · exact .inl ⟨task, timer, hsame ▸ htask, rfl⟩
    · obtain ⟨p, hp, hpx⟩ := Option.map_eq_some_iff.mp hexec
      have hshared : t.post.shared = p.1 := (congrArg Prod.fst hpx).symm
      rw [hshared] at htask hc
      rcases (exec_sleeps hp).old task timer htask with hold | hfree
      · exact .inl ⟨task, timer, hold, rfl⟩
      · exact absurd hc hfree
  · rcases pending_of_step ht hpending with hold | ⟨a, reply, _, task, timer, _, htimer, hid⟩
    · exact .inr hold
    · exact .inl ⟨task, timer, htimer, hid⟩

/-- A timer that is about to run is still about to run after a commit. -/
theorem pending_of_commits {t : Step} (ht : machine.step t.pre t.event = some t.post)
    (hran : Config.Ran t (Segment.EndsCast id) ∨ Config.Ran t (Segment.Commits id))
    (hp : t.pre.Pending (.timeoutFired id)) : t.post.Pending (.timeoutFired id) := by
  rcases Machine.step_cases ht with ⟨call, he, _⟩ |
    ⟨i, reply, a, rest, handler, s, x, he, hi, hexec, hacts, hpost⟩
  · rcases hran with ⟨a, reply, hacts, _⟩ | ⟨a, reply, hacts, _⟩ <;> simp [he, Config.acts] at hacts
  · obtain ⟨p, hp', hpx⟩ := Option.map_eq_some_iff.mp hexec
    cases hpx
    rw [hpost]
    rcases Machine.pending_step p.1 p.2.exit hi hp with rfl | ⟨_, cleanup, hthrow⟩ | hpending
    · rcases hran with ⟨b, reply', hacts', hb⟩ | ⟨b, reply', hacts', hb⟩
      · cases hacts.symm.trans hacts'
        exact hb.elim
      · cases hacts.symm.trans hacts'
        exact hb.elim
    · unfold Outcome.exit at hthrow
      split at hthrow <;> cases hthrow
    · exact hpending

/-- A step keeps every committed message free of timers exactly when it does not commit one over a
live timer. -/
theorem timerFree_step {t : Step} (ht : machine.step t.pre t.event = some t.post)
    (hfree : TimerFree t.pre) : TimerFree t.post ↔ ¬t.CommitsOverTimer := by
  rcases Machine.step_shared ht with ⟨hsame, hnone⟩ | ⟨a, reply, x, hexec, hran⟩
  · refine iff_of_true (fun id hc hl => ?_) ?_
    · exact hfree id (hsame ▸ hc) (live_of_step ht hc hl)
    · rintro ⟨id, _, ⟨hr, _⟩ | ⟨hr, _⟩⟩
      · exact hnone _ hr
      · exact hnone _ hr
  · obtain ⟨p, hp, hpx⟩ := Option.map_eq_some_iff.mp hexec
    have hshared : t.post.shared = p.1 := (congrArg Prod.fst hpx).symm
    constructor
    · rintro hpost ⟨id, hsome, hover⟩
      have hcast : t.post.shared.stateOf id = some .cast := by
        rw [hshared]
        refine cast_of_commits hp hsome ?_
        exact hover.imp (fun h => (hran _).mp h.1) (fun h => (hran _).mp h.1)
      refine hpost id hcast ?_
      rcases hover with ⟨hends, htimer | hpending⟩ | ⟨hcommits, htimer | hpending⟩
      · obtain ⟨task, timer, htask, hid⟩ := htimer
        refine .inl ⟨task, timer, ?_, hid⟩
        rw [hshared, asleep_of_endsCast hp ((hran _).mp hends)]
        exact htask
      · exact .inr (pending_of_commits ht (.inl hends) hpending)
      · obtain ⟨task, timer, htask, hid, hhandle⟩ := htimer
        refine .inl ⟨task, timer, ?_, hid⟩
        rw [hshared]
        exact (asleep_of_commits hp hsome ((hran _).mp hcommits)).mpr ⟨htask, hhandle⟩
      · exact .inr (pending_of_commits ht (.inr hcommits) hpending)
    · intro hmeets id hc hl
      have hlive := live_of_step ht hc hl
      rw [hshared] at hc
      rcases exec_cast hp hc with hold | ⟨hsome, hends | hcommits⟩
      · exact hfree id hold hlive
      · exact hmeets ⟨id, hsome, .inl ⟨(hran _).mpr hends, hlive⟩⟩
      · refine hmeets ⟨id, hsome, .inr ⟨(hran _).mpr hcommits, ?_⟩⟩
        rcases hl with ⟨task, timer, htask, hid⟩ | hpending
        · rw [hshared] at htask
          obtain ⟨hold, hhandle⟩ := (asleep_of_commits hp hsome hcommits).mp htask
          exact .inl ⟨task, timer, hold, hid, hhandle⟩
        · rcases pending_of_step ht hpending with hold | helapses
          · exact .inr hold
          · obtain ⟨task, _, rfl, _⟩ := (hran _).mp helapses
            exact hcommits.elim

theorem timerFree_new (transports : List MeshTransport) (seenCapacity : Nat) :
    TimerFree ⟨.new transports seenCapacity, []⟩ := by
  intro id hc
  simp [new, stateOf] at hc

/-- A timer that fires in a state free of timers finds no committed message. -/
theorem not_demotesCast {t : Step} (hfree : TimerFree t.pre) : ¬t.DemotesCast := by
  rintro ⟨id, ⟨a, reply, hacts, rfl, hc⟩, _⟩
  exact hfree id hc (.inr (Config.pending_of_acts hacts))

/-- In every run, no message that is committed to a relay ever has a live timer, and no timer
demotes one, if and only if no step commits a message over a live timer. -/
theorem timerFree_iff (transports : List MeshTransport) (seenCapacity : Nat)
    (events : List (Event Call Reply)) :
    (∀ t ∈ steps transports seenCapacity events, TimerFree t.post ∧ ¬t.DemotesCast) ↔
      ∀ t ∈ steps transports seenCapacity events, ¬t.CommitsOverTimer := by
  have hstart := timerFree_new transports seenCapacity
  have hstates : (TimerFree ⟨.new transports seenCapacity, []⟩ ∧
      ∀ t ∈ steps transports seenCapacity events, TimerFree t.post) ↔
      TimerFree ⟨.new transports seenCapacity, []⟩ ∧
        ∀ t ∈ steps transports seenCapacity events, ¬t.CommitsOverTimer :=
    forall_post_iff TimerFree fun t ht hfree => timerFree_step ht hfree
  constructor
  · intro h
    exact (hstates.mp ⟨hstart, fun t ht => (h t ht).1⟩).2
  · intro hmeets t ht
    refine ⟨(hstates.mpr ⟨hstart, hmeets⟩).2 t ht, not_demotesCast ?_⟩
    exact trace_invariant_of TimerFree (fun t : Step => ¬t.CommitsOverTimer)
      (fun u hu hu' hfree => (timerFree_step hu hfree).mpr hu') hstart hmeets ht

/-- A message that goes out over the radio, is sent again over a relay under the same identifier,
and is demoted by the timer of the first send. -/
def sentTwice : List (Event Call Reply) :=
  [.start (.send (.new (.filled 1) []) true none (some [2])), .step 0 .ok, .step 0 .ok,
    .start (.send (.new (.filled 1) []) true none (some [2])), .step 1 .ok,
    .step 1 .noReachablePeers, .step 1 .ok, .start (.timer 0), .step 2 .ok, .step 2 .ok]

/-- The timer of the first send runs against the relay commit of the second, and demotes it. -/
theorem timer_against_cast :
    (∃ t ∈ steps [⟨.ble, false⟩, ⟨.internet, true⟩] 8 sentTwice, ¬TimerFree t.post) ∧
      ∃ t ∈ steps [⟨.ble, false⟩, ⟨.internet, true⟩] 8 sentTwice, t.DemotesCast := by
  constructor
  · refine ⟨_, List.mem_of_getElem? (i := 6) rfl, fun hfree => ?_⟩
    exact hfree (.filled 1) (by decide) (.inl ⟨0, ⟨.filled 1, deliveryTimeout⟩, rfl, rfl⟩)
  · refine ⟨_, List.mem_of_getElem? (i := 9) rfl, .filled 1, ?_, by decide⟩
    exact ⟨.timeoutFired (.filled 1), .ok, rfl, rfl, by decide⟩

end AeroNyra.MessageRouter
