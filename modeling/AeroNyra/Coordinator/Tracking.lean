import AeroNyra.Coordinator.Outbound

/-! How a transfer is tracked once its whole payload is handed over.  `beginTracking` leaves an
entry that is already there as it is and `startDeliveryTimeout` never changes a state, so a burst
over BLE ends with whatever state the entry had, while a commit to the relay always writes one. -/

namespace AeroNyra

namespace MessageRouter

variable {r : MessageRouter} {id : MessageID} {a : Segment} {reply : Reply}

/-- A tracked send of `id` starts it over as `sent`. -/
def Segment.restarts (id : MessageID) (r : MessageRouter) (a : Segment) :
    Option MessageDeliveryState :=
  (a.sends r).bind fun envelope => if envelope.id = id then some .sent else none

/-- The state that a segment writes into the entry of `id`, if it writes one. -/
def Segment.writes (id : MessageID) (r : MessageRouter) (a : Segment) (reply : Reply) :
    Option MessageDeliveryState :=
  match a.records r reply with
  | some u => if u.id = id then (a.opens r id).map fun _ => u.state else a.restarts id r
  | none => a.restarts id r

/-- The state of `id` for a transfer that begins to track it: `sent`, if it has no entry. -/
def stateFrom (r : MessageRouter) (id : MessageID) : MessageDeliveryState :=
  (r.stateOf id).getD .sent

theorem isSome_opens (ht : (r.stateOf id).isSome) : (a.opens r id).isSome := by
  unfold Segment.opens
  split
  · split
    · rfl
    · exact ht
  · split
    · split
      · rfl
      · exact ht
    · exact ht

/-- An entry stays. -/
theorem tracked_exec {p : MessageRouter × Outcome} (h : r.exec a reply = some p)
    (ht : (r.stateOf id).isSome) : (p.1.stateOf id).isSome := by
  have hopen : (a.opens r id).isSome := isSome_opens ht
  rw [(exec_effect h).stateOf id]
  cases a.records r reply with
  | none => exact hopen
  | some u =>
    dsimp only [Option.elim]
    split
    · rwa [Option.isSome_map]
    · exact hopen

theorem getD_opens : (a.opens r id).getD .sent = (a.restarts id r).getD (r.stateFrom id) := by
  unfold Segment.opens Segment.restarts
  cases a.sends r with
  | some envelope =>
    by_cases hid : id = envelope.id
    · simp [hid]
    · simp [hid, Ne.symm hid, stateFrom]
  | none =>
    dsimp only
    split
    · split
      · rename_i hj
        simp [hj, stateFrom]
      · rfl
    · rfl

/-- After a segment, the state is the one that it wrote, or else what it was. -/
theorem stateFrom_exec {p : MessageRouter × Outcome} (h : r.exec a reply = some p) :
    p.1.stateFrom id = (a.writes id r reply).getD (r.stateFrom id) := by
  rw [stateFrom, (exec_effect h).stateOf id, Segment.writes]
  cases a.records r reply with
  | none => exact getD_opens
  | some u =>
    by_cases hid : u.id = id
    · simp only [Option.elim, if_pos hid, if_pos hid.symm]
      cases hopen : a.opens r id with
      | some s => rfl
      | none =>
        have hnone : r.stateOf id = none := by
          by_contra hsome
          have := isSome_opens (a := a) (Option.isSome_iff_ne_none.mpr hsome)
          simp [hopen] at this
        simp [stateFrom, hnone]
    · simp only [Option.elim, if_neg hid, if_neg (Ne.symm hid)]
      exact getD_opens

/-- A stuck-send timer of `id` is asleep, and the router can cancel it. -/
def Armed (r : MessageRouter) (id : MessageID) : Prop :=
  ∃ task timer, r.timeouts.lookup id = some task ∧ r.asleep.lookup task = some timer ∧ timer.id = id

/-- No stuck-send timer of `id` is asleep. -/
def Timerless (r : MessageRouter) (id : MessageID) : Prop :=
  ∀ task timer, r.asleep.lookup task = some timer → timer.id ≠ id

/-- A stuck-send timer of `id` is asleep that the router can no longer cancel.  An elapsed timer
leaves one behind when its `timeoutFired` runs after a new timer was armed. -/
def Escaped (r : MessageRouter) (id : MessageID) : Prop :=
  ∃ task timer, r.asleep.lookup task = some timer ∧ timer.id = id ∧
    r.timeouts.lookup id ≠ some task

/-- `id` is tracked as after a first send: `sent` with a timer over BLE, and `cast` with none over
Nostr. -/
def TrackedBy (overBLE : Bool) (r : MessageRouter) (id : MessageID) : Prop :=
  match overBLE with
  | true => r.stateOf id = some .sent ∧ r.Armed id
  | false => r.stateOf id = some .cast ∧ r.Timerless id

theorem armed_startDeliveryTimeout (d : Duration) (h : r.stateOf id = some .sent) :
    (r.startDeliveryTimeout id d).Armed id := by
  have harm : r.startDeliveryTimeout id d = r.armTimeout id d := by
    rw [startDeliveryTimeout, h]
    rfl
  refine ⟨r.nextTimer, ⟨id, d⟩, ?_, ?_, rfl⟩
  · rw [harm]
    exact AList.lookup_insert _
  · rw [harm]
    exact AList.lookup_insert _

theorem trackedBy_startDeliveryTimeout (d : Duration) :
    (r.startDeliveryTimeout id d).TrackedBy true id ↔ r.stateOf id = some .sent := by
  have hstate : (r.startDeliveryTimeout id d).stateOf id = r.stateOf id :=
    stateOf_startDeliveryTimeout id id d
  constructor
  · intro h
    rw [← hstate]
    exact h.1
  · intro h
    exact ⟨hstate.trans h, armed_startDeliveryTimeout d h⟩

/-- A commit cancels the timer that the router has on record, and no other. -/
theorem timerless_commitToRelay (ht : (r.stateOf id).isSome) :
    (r.commitToRelay id).Timerless id ↔ ¬r.Escaped id := by
  have hlookup (task : Nat) : (r.commitToRelay id).asleep.lookup task =
      if r.timeouts.lookup id = some task then none else r.asleep.lookup task := by
    unfold commitToRelay
    split
    · rename_i hnone
      simp [stateOf, hnone] at ht
    · rw [cancelTimeout_asleep]
      rfl
  constructor
  · rintro hnone ⟨task, timer, hsleeps, hid, hlost⟩
    refine hnone task timer ?_ hid
    rw [hlookup, if_neg hlost]
    exact hsleeps
  · intro hescaped task timer hsleeps hid
    rw [hlookup] at hsleeps
    split at hsleeps
    · cases hsleeps
    · rename_i hlost
      exact hescaped ⟨task, timer, hsleeps, hid, hlost⟩

theorem trackedBy_commitToRelay (ht : (r.stateOf id).isSome) :
    (r.commitToRelay id).TrackedBy false id ↔ ¬r.Escaped id := by
  have hstate : (r.commitToRelay id).stateOf id = some .cast := by
    obtain ⟨s, hs⟩ := Option.isSome_iff_exists.mp ht
    rw [stateOf_commitToRelay, if_pos rfl, hs]
    rfl
  rw [← timerless_commitToRelay ht]
  exact and_iff_right hstate

end MessageRouter

namespace Outbound

open Interleave MessageRouter

/-- The state that a step writes into the entry of `id`, if it writes one. -/
def Step.writes (id : MessageID) (t : Step) : Option MessageDeliveryState :=
  (t.pre.acts t.event).bind fun (a, reply) =>
    a.segment?.bind fun segment => segment.writes id t.pre.shared reply.answer

/-- The last state that the steps write into the entry of `id`, or else `s`. -/
def settled (id : MessageID) (s : MessageDeliveryState) (steps : List Step) :
    MessageDeliveryState :=
  steps.foldl (fun s t => (t.writes id).getD s) s

/-- How a transfer is tracked depends on what the entry holds at its end: over BLE on the last
state written there, and over Nostr on the timers alone. -/
def TracksAfter (overBLE : Bool) (id : MessageID) (prior : MessageDeliveryState)
    (steps : List Step) (late : MessageRouter) : Prop :=
  match overBLE with
  | true => settled id prior steps = .sent
  | false => ¬late.Escaped id

variable {id : MessageID}

theorem stateFrom_step (t : Step) (ht : machine.step t.pre t.event = some t.post) :
    t.post.shared.stateFrom id = (t.writes id).getD (t.pre.shared.stateFrom id) := by
  rcases Machine.step_cases ht with ⟨call, he, hpost⟩ |
    ⟨i, reply, a, rest, handler, s, x, he, _, hx, hacts, hpost⟩
  · rw [hpost, Step.writes, he]
    rfl
  · rw [hpost, Step.writes, hacts]
    rcases exec_router hx with ⟨hnone, hsame⟩ | ⟨segment, q, hsegment, hq, hs⟩
    · have hsame : s = t.pre.shared := hsame
      simp [hnone, hsame]
    · have hs : s = q.1 := hs
      simp only [hsegment, Option.bind_some, hs]
      exact stateFrom_exec hq

/-- Call `i` does not end a transfer of `id` before the entry of `id` is there. -/
def Opens (id : MessageID) (i : Nat) (c : Config MessageRouter Action) : Prop :=
  ∃ t, c.threads[i]? = some t ∧ t.onThrow = [] ∧
    ∀ overBLE, .finish overBLE id ∈ t.todo →
      .beginTracking id ∈ t.todo ∨ (c.shared.stateOf id).isSome

theorem tracked_step {s s' : MessageRouter} {a : Action} {reply : Reply} {x : Exit Action}
    (h : exec s a reply = some (s', x)) (ht : (s.stateOf id).isSome) :
    (s'.stateOf id).isSome := by
  rcases exec_router h with ⟨_, hsame⟩ | ⟨segment, q, _, hq, hs⟩
  · have hsame : s' = s := hsame
    rw [hsame]
    exact ht
  · have hs : s' = q.1 := hs
    rw [hs]
    exact tracked_exec hq ht

theorem tracked_beginTracking {s s' : MessageRouter} {reply : Reply} {x : Exit Action}
    (h : exec s (.beginTracking id) reply = some (s', x)) : (s'.stateOf id).isSome := by
  cases reply with
  | done =>
    cases h
    rw [stateOf_beginTracking, if_pos rfl]
    rfl
  | router reply => cases h
  | threw => cases h
  | reachable b => cases h

theorem opens_step (i : Nat) (t : Step) (ht : machine.step t.pre t.event = some t.post)
    (hopens : Opens id i t.pre) : Opens id i t.post := by
  obtain ⟨u, hu, hhandler, hfinish⟩ := hopens
  rcases Machine.step_cases ht with ⟨call, _, hpost⟩ | ⟨j, reply, a, rest, handler, s, x, _, hj, hx,
    _, hpost⟩
  · refine ⟨u, ?_, hhandler, ?_⟩
    · rw [hpost]
      exact List.getElem?_append_left (List.getElem?_eq_some_iff.mp hu).1 ▸ hu
    · rw [hpost]
      exact hfinish
  · by_cases hij : j = i
    · subst hij
      obtain rfl : u = ⟨a :: rest, handler⟩ := Option.some.inj (hu.symm.trans hj)
      have hhandler : handler = [] := hhandler
      subst hhandler
      refine ⟨.leave rest [] x, ?_, ?_, fun overBLE hmem => ?_⟩
      · rw [hpost]
        exact List.getElem?_set_self (List.getElem?_eq_some_iff.mp hj).1
      · cases x <;> rfl
      · rw [hpost]
        have hsplit : .finish overBLE id ∈ x.added ∨
            (∃ first, x = .goOn first) ∧ .finish overBLE id ∈ rest := by
          cases x with
          | goOn first =>
            rcases List.mem_append.mp hmem with h | h
            · exact .inl h
            · exact .inr ⟨⟨first, rfl⟩, h⟩
          | throw cleanup =>
            rcases List.mem_append.mp hmem with h | h
            · exact .inl h
            · simp at h
        rcases hsplit with hadded | ⟨⟨first, rfl⟩, hrest⟩
        · -- The end of the transfer comes in with the whole script.
          obtain ⟨m, isReachable, script, _, hscript, rfl⟩ := commit_of_finish_mem hx hadded
          exact .inl (List.mem_append_left _ (beginTracking_mem_script hscript hadded))
        · rcases hfinish overBLE (List.mem_cons_of_mem _ hrest) with hbegin | htracked
          · rcases List.mem_cons.mp hbegin with rfl | hbegin
            · exact .inr (tracked_beginTracking hx)
            · exact .inl (List.mem_append_right _ hbegin)
          · exact .inr (tracked_step hx htracked)
    · refine ⟨u, ?_, hhandler, fun overBLE hmem => ?_⟩
      · rw [hpost]
        exact (List.getElem?_set_ne hij).trans hu
      · rw [hpost]
        exact (hfinish overBLE hmem).imp_right (tracked_step hx)

theorem opens_start (id : MessageID) (before : Config MessageRouter Action)
    (announcement : Option Announcement) (m : Outgoing) : Opens id before.threads.length
      { before with threads := before.threads ++ [machine.thread (.send announcement m)] } := by
  refine ⟨machine.thread (.send announcement m), ?_, rfl, fun overBLE hmem => ?_⟩
  · simp
  · cases announcement <;> simp [machine, actions, announceNostrIdentity] at hmem

/-- The last step of a transfer is its last router call. -/
theorem shared_of_finish {late next : Config MessageRouter Action} {i : Nat} {overBLE : Bool}
    {handler : List Action} {reply : Reply}
    (hlast : late.threads[i]? = some ⟨[.finish overBLE id], handler⟩)
    (hstep : machine.step late (.step i reply) = some next) :
    next.shared = bif overBLE then late.shared.startDeliveryTimeout id mediaDeliveryTimeout
      else late.shared.commitToRelay id := by
  simp only [Machine.step, hlast] at hstep
  obtain ⟨p, hp, rfl⟩ := Option.map_eq_some_iff.mp hstep
  cases reply with
  | done =>
    cases overBLE with
    | true =>
      cases hp
      rfl
    | false =>
      cases hp
      rfl
  | router reply => cases hp
  | threw => cases hp
  | reachable b => cases hp

/-- Whenever a text or media transfer hands over its whole payload, from any state of the router
and with any other calls running, it is tracked like a first send if and only if, over BLE, the last
state written for its identifier is `sent` and, over Nostr, no timer of it has escaped. -/
theorem trackedBy_iff (before late next : Config MessageRouter Action)
    (announcement : Option Announcement) (m : Outgoing) (events : List (Event Call Reply))
    (overBLE : Bool) (handler : List Action) (reply : Reply)
    (hrun : run machine.step before (.start (.send announcement m) :: events) = some late)
    (hlast : late.threads[before.threads.length]? = some ⟨[.finish overBLE m.id], handler⟩)
    (hstep : machine.step late (.step before.threads.length reply) = some next) :
    next.shared.TrackedBy overBLE m.id ↔
      TracksAfter overBLE m.id (before.shared.stateFrom m.id)
        (trace machine.step before (.start (.send announcement m) :: events)) late.shared := by
  have htracked : (late.shared.stateOf m.id).isSome := by
    obtain ⟨started, hs, hrest⟩ := run_cons.mp hrun
    obtain rfl := Option.some.inj hs
    obtain ⟨t, ht, _, hopen⟩ := run_invariant (Opens m.id before.threads.length) (fun _ => True)
      (fun t ht _ => opens_step before.threads.length t ht)
      (opens_start m.id before announcement m) (fun _ _ => trivial) hrest
    obtain rfl := Option.some.inj (hlast.symm.trans ht)
    rcases hopen overBLE List.mem_cons_self with hbegin | hsome
    · simp at hbegin
    · exact hsome
  rw [shared_of_finish hlast hstep]
  cases overBLE with
  | true =>
    have hstate : late.shared.stateFrom m.id = settled m.id (before.shared.stateFrom m.id) _ :=
      run_foldl (f := fun c => c.shared.stateFrom m.id) stateFrom_step hrun
    obtain ⟨s, hs⟩ := Option.isSome_iff_exists.mp htracked
    rw [TracksAfter, ← hstate, stateFrom, hs]
    refine (trackedBy_startDeliveryTimeout _).trans ?_
    rw [hs]
    exact Option.some_inj
  | false => exact trackedBy_commitToRelay htracked

/-- One announced media transfer of one payload over BLE, as call number `i`. -/
def burstOverBLE (i : Nat) : List (Event Call Reply) :=
  [.start (.send none
    (.media (.filled 1) (fun _ => [.new (.filled 2) []]) (.replicate 32 5) none false)),
    .step i .done, .step i (.reachable true), .step i .done, .step i .done, .step i (.router .ok),
    .step i (.router .ok)]

/-- A first attempt over BLE is tracked. -/
theorem trackedBy_fresh : ∃ late next,
    run machine.step ⟨.new [⟨.ble, false⟩] 8, []⟩ (burstOverBLE 0) = some late ∧
      machine.step late (.step 0 .done) = some next ∧ next.shared.TrackedBy true (.filled 1) :=
  ⟨_, _, rfl, rfl, (trackedBy_iff ⟨.new [⟨.ble, false⟩] 8, []⟩ _ _ none
    (.media (.filled 1) (fun _ => [.new (.filled 2) []]) (.replicate 32 5) none false)
    (burstOverBLE 0).tail true []
    .done rfl rfl rfl).mpr rfl⟩

/-- A resend over BLE of a transfer that has failed before: the burst goes out in full, and the
entry is still `notDelivered`. -/
theorem resend_untracked : ∃ before late next,
    run machine.step ⟨.new [⟨.ble, false⟩] 8, []⟩
        [.start (.router (.beginTracking (.filled 1))), .step 0 (.router .ok),
          .start (.router (.confirmFailure (.filled 1))), .step 1 (.router .ok)] = some before ∧
      run machine.step before (burstOverBLE 2) = some late ∧
      late.threads[2]? = some ⟨[.finish true (.filled 1)], []⟩ ∧
      machine.step late (.step 2 .done) = some next ∧
      next.shared.stateOf (.filled 1) = some .notDelivered ∧
      ¬next.shared.TrackedBy true (.filled 1) :=
  ⟨_, _, _, rfl, rfl, rfl, rfl, rfl, fun h => absurd h.1 (by decide)⟩

end Outbound

end AeroNyra
