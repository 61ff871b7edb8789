import AeroNyra.Router.Monotone

/-! How often `rerouteToNostr` publishes a message.  Its loop reads the entries as they were when it
began, so an entry that another loop published in the meantime, or that an acknowledgement, a
failure or a commit settled, passes the guard again; and the guard lets through an entry that a send
has handed to the relay itself. -/

namespace AeroNyra.MessageRouter

open Interleave

/-- The message whose publish by `rerouteToNostr` a segment ends with. -/
def Outcome.reroute? : Outcome → Option MessageID
  | .suspend (.rerouteReplied id _ _ _ _ _) => some id
  | _ => none

/-- The step ends with the publish of `id` by `rerouteToNostr`. -/
def Step.Reroutes (id : MessageID) (t : Step) : Prop :=
  Config.Ran t fun r a reply => (r.exec a reply).bind (·.2.reroute?) = some id

/-- The step begins a tracked send of `id`. -/
def Step.Sends (id : MessageID) (t : Step) : Prop := Config.Ran t (Segment.StartsSend id)

instance (id : MessageID) (t : Step) : Decidable (t.Sends id) :=
  decidable_of_iff ((t.pre.acts t.event).any fun p => (p.1.sends t.pre.shared).any (·.id == id)) (by
    simp [Step.Sends, Config.Ran, Segment.StartsSend, Option.any_eq_true])

/-- Between two publishes of `id` by `rerouteToNostr` there is a send of it. -/
def OnceBetweenSends (past : List Step) (id : MessageID) : Prop :=
  ∀ (before : List Step) (t : Step) (between : List Step) (u : Step) (after : List Step),
    past = before ++ t :: between ++ u :: after →
    t.Reroutes id → u.Reroutes id → ∃ v ∈ between, v.Sends id

/-- When `rerouteToNostr` publishes a message, it is neither settled nor committed to a relay. -/
def Step.FindsUnsettled (t : Step) : Prop :=
  ∀ id s, t.Reroutes id → t.post.shared.stateOf id = some s → s.isTerminal = false ∧ s ≠ .cast

/-- The router, the departed peers and the entries with which a segment goes through the loop of
`rerouteToNostr`, if it does. -/
def Segment.loop (r : MessageRouter) :
    Segment → Reply → Option (MessageRouter × List Data × List (MessageID × OutboxEntry))
  | .call (.rerouteToNostr departed), .order ids =>
    if departed.isEmpty || !r.hasAddressedTransport then none
    else some (r, departed, r.snapshot ids)
  | .rerouteReplied id _ _ departed entries _, reply =>
    (publishResult reply).map fun outcome =>
      (if outcome == .cast then r.commitToRelay id else r, departed, entries)
  | _, _ => none

/-- The first of the entries that passes the guard of the loop. -/
def passes (departed : List Data) (entries : List (MessageID × OutboxEntry)) : Option MessageID :=
  (entries.find? fun e => (rerouteTarget departed e.2).isSome).map (·.1)

/-- The entry was handed to the relay, by a send or by `rerouteToNostr`, or is settled. -/
def OutboxEntry.Spent (e : OutboxEntry) : Prop :=
  e.state.isTerminal ∨ e.state = .cast ∨ e.reroutedOverNostr

instance (e : OutboxEntry) : Decidable (OutboxEntry.Spent e) :=
  inferInstanceAs (Decidable (_ ∨ _ ∨ _))

/-- The loop comes to a copy of an entry that passes its guard, while the entry itself is spent. -/
def Step.ReadsStale (t : Step) : Prop :=
  Config.Ran t fun r a reply => ∃ r' departed entries id e,
    a.loop r reply = some (r', departed, entries) ∧ passes departed entries = some id ∧
      r'.outbox.lookup id = some e ∧ OutboxEntry.Spent e

/-! ### What a segment does to the marks of the entries -/

/-- Whether the entry of `id` was published by `rerouteToNostr`; none when `id` is not tracked. -/
def mark (r : MessageRouter) (id : MessageID) : Option Bool :=
  (r.outbox.lookup id).map (·.reroutedOverNostr)

variable {r r' : MessageRouter} {a : Segment} {reply : Reply} {p : MessageRouter × Outcome}
  {id : MessageID}

/-- The marks are the same. -/
def SameMarks (r r' : MessageRouter) : Prop := ∀ id, r'.mark id = r.mark id

theorem SameMarks.of_outbox (h : r'.outbox = r.outbox) : SameMarks r r' := fun id => by
  rw [mark, mark, h]

theorem SameMarks.trans {r'' : MessageRouter} (h : SameMarks r r') (h' : SameMarks r' r'') :
    SameMarks r r'' := fun id => (h' id).trans (h id)

theorem sameMarks_update (j : MessageID) (s : MessageDeliveryState) :
    SameMarks r (r.update j s) := by
  intro id
  rw [mark, mark, update_outbox, Dict.lookup_modify]
  split
  · rename_i hj
    subst hj
    simp [Function.comp_def]
  · rfl

theorem sameMarks_updateTracked (j : MessageID) (s : MessageDeliveryState) :
    SameMarks r (r.updateTracked j s) := by
  unfold updateTracked
  split
  · exact .of_outbox rfl
  · exact sameMarks_update j s

theorem sameMarks_commitToRelay (j : MessageID) : SameMarks r (r.commitToRelay j) := by
  unfold commitToRelay
  split
  · exact .of_outbox rfl
  · exact (sameMarks_update j .cast).trans (.of_outbox rfl)

theorem sameMarks_finishSend (j : MessageID) (tracked : Bool) (s : MessageDeliveryState) :
    SameMarks r (r.finishSend j tracked s).1 := by
  unfold finishSend
  split
  · dsimp only
    split
    · exact (sameMarks_update j s).trans (.of_outbox rfl)
    · exact sameMarks_update j s
  · exact .of_outbox rfl

theorem sameMarks_timeoutFired (j : MessageID) : SameMarks r (r.timeoutFired j) := by
  unfold timeoutFired
  dsimp only
  split
  · split
    · exact .of_outbox rfl
    · exact (SameMarks.of_outbox rfl).trans (sameMarks_update j .notDelivered)
  · exact .of_outbox rfl

theorem sameMarks_startDeliveryTimeout (j : MessageID) (d : Duration) :
    SameMarks r (r.startDeliveryTimeout j d) := by
  unfold startDeliveryTimeout
  split
  · split <;> exact .of_outbox rfl
  · exact .of_outbox rfl

theorem sameMarks_extendTimeout (j : MessageID) (d : Duration) :
    SameMarks r (r.extendTimeout j d) := by
  unfold extendTimeout
  split
  · split <;> exact .of_outbox rfl
  · exact .of_outbox rfl

/-- What a segment does to the marks: those that begin a tracked send clear one, those that go on
with `rerouteToNostr` may set one, and a new entry has none. -/
inductive Marks (r : MessageRouter) (a : Segment) (reply : Reply) (p : MessageRouter × Outcome) :
    Prop
  | same (sends : a.sends r = none) (publishes : p.2.reroute? = none) (loop : a.loop r reply = none)
      (marks : SameMarks r p.1)
  | tracks (id : MessageID) (sends : a.sends r = none) (publishes : p.2.reroute? = none)
      (loop : a.loop r reply = none)
      (marks : ∀ j, p.1.mark j = if j = id then some ((r.mark id).getD false) else r.mark j)
  | clears (envelope : Envelope) (sends : a.sends r = some envelope)
      (publishes : p.2.reroute? = none) (loop : a.loop r reply = none)
      (marks : ∀ j, p.1.mark j = if j = envelope.id then some false else r.mark j)
  | loops (r' : MessageRouter) (departed : List Data) (entries : List (MessageID × OutboxEntry))
      (rerouted : Nat) (sends : a.sends r = none)
      (loop : a.loop r reply = some (r', departed, entries))
      (marks : SameMarks r r') (goesOn : p = r'.rerouteNext departed rerouted entries)

/-- The end of the first segment of a send keeps the marks. -/
theorem sameMarks_handOver (envelope : Envelope) (tracked : Bool) (nostrRecipient : Option Data) :
    SameMarks r (if r.hasTransport .ble then
      (r, Outcome.suspend (.bleReplied envelope tracked nostrRecipient))
      else r.finishSend envelope.id tracked .notDelivered).1 := by
  split
  · exact .of_outbox rfl
  · exact sameMarks_finishSend envelope.id tracked .notDelivered

/-- A tracked send begins with a new entry. -/
theorem marks_send (envelope : Envelope) (peerKey nostrRecipient : Option Data) (j : MessageID) :
    (r.send envelope true peerKey nostrRecipient).1.mark j =
      if j = envelope.id then some false else r.mark j := by
  have hopen (r' : MessageRouter) (h : r'.outbox = AList.insert envelope.id
      ⟨some envelope, .sent, peerKey, nostrRecipient, false⟩ r.outbox) :
      r'.mark j = if j = envelope.id then some false else r.mark j := by
    rw [mark, h, Dict.lookup_insert]
    split <;> rfl
  exact (sameMarks_handOver envelope true nostrRecipient j).trans (hopen _ rfl)

theorem sameMarks_send (envelope : Envelope) (peerKey nostrRecipient : Option Data) :
    SameMarks r (r.send envelope false peerKey nostrRecipient).1 :=
  (SameMarks.of_outbox rfl).trans (sameMarks_handOver envelope false nostrRecipient)

theorem publishes_send (envelope : Envelope) (tracked : Bool)
    (peerKey nostrRecipient : Option Data) :
    (r.send envelope tracked peerKey nostrRecipient).2.reroute? = none := by
  cases hout : (r.send envelope tracked peerKey nostrRecipient).2 with
  | suspend next =>
    rw [send_suspends hout]
    rfl
  | returned | rerouted | finished => rfl

theorem publishes_finishSend (j : MessageID) (tracked : Bool) (s : MessageDeliveryState) :
    (r.finishSend j tracked s).2.reroute? = none := by
  rw [finishSend_returns]
  rfl

theorem marks_beginTracking (j : MessageID) : (r.beginTracking id).mark j =
    if j = id then some ((r.mark id).getD false) else r.mark j := by
  unfold beginTracking
  split
  · rename_i h
    simp only [mark, Dict.lookup_insert]
    split <;> simp [h]
  · rename_i e h
    by_cases hj : j = id
    · subst hj
      simp [mark, h]
    · simp [hj]

theorem exec_marks (h : r.exec a reply = some p) : Marks r a reply p := by
  cases a with
  | call call =>
    cases call with
    | send envelope tracked peerKey nostrRecipient =>
      obtain rfl := Option.some.inj h
      cases tracked with
      | true =>
        exact .clears envelope rfl (publishes_send ..) rfl
          (marks_send envelope peerKey nostrRecipient)
      | false =>
        exact .same rfl (publishes_send ..) rfl (sameMarks_send envelope peerKey nostrRecipient)
    | publishOverNostr envelope recipient =>
      obtain rfl := Option.some.inj h
      unfold publishOverNostr
      dsimp only
      split <;> exact .same rfl rfl rfl (.of_outbox rfl)
    | rerouteToNostr departed =>
      cases reply with
      | order ids =>
        simp only [exec, begin, rerouteToNostr] at h
        split at h
        · rename_i hnone
          obtain rfl := Option.some.inj h
          exact .same rfl rfl (by simp [Segment.loop, hnone]) fun _ => rfl
        · rename_i hsome
          split at h
          · obtain rfl := Option.some.inj h
            exact .loops r departed (r.snapshot ids) 0 rfl (by simp [Segment.loop, hsome])
              (fun _ => rfl) rfl
          · cases h
      | ok => cases h
      | noReachablePeers => cases h
      | failed => cases h
    | beginTracking id =>
      obtain rfl := Option.some.inj h
      exact .tracks id rfl rfl rfl fun j => marks_beginTracking j
    | startDeliveryTimeout id duration =>
      obtain rfl := Option.some.inj h
      exact .same rfl rfl rfl (sameMarks_startDeliveryTimeout id duration)
    | extendTimeout id duration =>
      obtain rfl := Option.some.inj h
      exact .same rfl rfl rfl (sameMarks_extendTimeout id duration)
    | resend id =>
      obtain rfl := Option.some.inj h
      have hsends : (Segment.call (.resend id)).sends r = r.resendEnvelope id := rfl
      unfold resend
      cases henvelope : r.resendEnvelope id with
      | none => exact .same (hsends.trans henvelope) rfl rfl fun _ => rfl
      | some envelope =>
        exact .clears envelope (hsends.trans henvelope) (publishes_send ..) rfl
          (marks_send envelope none none)
    | markFindingPath id =>
      obtain rfl := Option.some.inj h
      exact .same rfl rfl rfl (sameMarks_updateTracked id .findingPath)
    | confirmDelivery id hops =>
      obtain rfl := Option.some.inj h
      exact .same rfl rfl rfl (sameMarks_updateTracked id _)
    | confirmFailure id =>
      obtain rfl := Option.some.inj h
      exact .same rfl rfl rfl (sameMarks_updateTracked id .notDelivered)
    | commitToRelay id =>
      obtain rfl := Option.some.inj h
      exact .same rfl rfl rfl (sameMarks_commitToRelay id)
    | timer task =>
      obtain ⟨timer, _, rfl⟩ := Option.map_eq_some_iff.mp h
      exact .same rfl rfl rfl (.of_outbox rfl)
  | bleReplied envelope tracked nostrRecipient =>
    cases reply with
    | ok =>
      obtain rfl := Option.some.inj h
      exact .same rfl (publishes_finishSend ..) rfl (sameMarks_finishSend _ _ _)
    | noReachablePeers =>
      obtain rfl := Option.some.inj h
      unfold fallBackToNostr
      split
      · split
        · exact .same rfl rfl rfl (.of_outbox rfl)
        · exact .same rfl (publishes_finishSend ..) rfl (sameMarks_finishSend _ _ _)
      · exact .same rfl (publishes_finishSend ..) rfl (sameMarks_finishSend _ _ _)
    | failed =>
      obtain rfl := Option.some.inj h
      exact .same rfl (publishes_finishSend ..) rfl (sameMarks_finishSend _ _ _)
    | order ids => cases h
  | nostrReplied envelope recipient tracked =>
    obtain ⟨s, _, rfl⟩ := Option.map_eq_some_iff.mp h
    exact .same rfl (publishes_finishSend ..) rfl (sameMarks_finishSend _ _ _)
  | publishReplied envelope recipient =>
    obtain ⟨s, _, rfl⟩ := Option.map_eq_some_iff.mp h
    exact .same rfl rfl rfl fun _ => rfl
  | rerouteReplied id envelope recipient departed entries rerouted =>
    obtain ⟨s, hs, rfl⟩ := Option.map_eq_some_iff.mp h
    refine .loops _ departed entries (rerouted + 1) rfl
      (Option.map_eq_some_iff.mpr ⟨s, hs, rfl⟩) ?_ rfl
    split
    · exact sameMarks_commitToRelay id
    · exact fun _ => rfl
  | timeoutFired id =>
    obtain rfl := Option.some.inj h
    exact .same rfl rfl rfl (sameMarks_timeoutFired id)

/-! ### Where the loop stops -/

theorem rerouteNext_of_none {departed : List Data} {entries : List (MessageID × OutboxEntry)}
    {rerouted : Nat} (h : passes departed entries = none) :
    r.rerouteNext departed rerouted entries = (r, .rerouted rerouted) := by
  induction entries with
  | nil => rfl
  | cons e entries ih =>
    unfold rerouteNext
    cases htarget : rerouteTarget departed e.2 with
    | none => exact ih (by simpa [passes, List.find?_cons, htarget] using h)
    | some target => simp [passes, htarget] at h

/-- The loop publishes the first entry that passes its guard, and goes on with the later ones. -/
theorem rerouteNext_of_some {departed : List Data} {entries : List (MessageID × OutboxEntry)}
    (rerouted : Nat) (h : passes departed entries = some id) :
    ∃ envelope recipient rest, rest <:+ entries ∧ r.rerouteNext departed rerouted entries =
      ({ r with outbox := r.outbox.modify id ({ · with reroutedOverNostr := true }) },
        .suspend (.rerouteReplied id envelope recipient departed rest rerouted)) := by
  induction entries with
  | nil => cases h
  | cons e entries ih =>
    unfold rerouteNext
    cases htarget : rerouteTarget departed e.2 with
    | none =>
      have hrest : passes departed entries = some id := by
        simpa [passes, List.find?_cons, htarget] using h
      obtain ⟨envelope, recipient, rest, hsuffix, heq⟩ := ih hrest
      exact ⟨envelope, recipient, rest, hsuffix.trans (List.suffix_cons _ _), heq⟩
    | some target =>
      obtain ⟨envelope, recipient⟩ := target
      obtain rfl : e.1 = id := by simpa [passes, List.find?_cons, htarget] using h
      exact ⟨envelope, recipient, entries, List.suffix_cons _ _, rfl⟩

theorem mem_of_passes {departed : List Data} {entries : List (MessageID × OutboxEntry)}
    (h : passes departed entries = some id) : ∃ e, (id, e) ∈ entries := by
  obtain ⟨e, he, rfl⟩ := Option.map_eq_some_iff.mp h
  exact ⟨e.2, List.mem_of_find?_eq_some he⟩

/-! ### The marks and the history -/

/-- `rerouteToNostr` published `id` since the last send of it. -/
def Since (past : List Step) (id : MessageID) : Prop :=
  ∃ (before : List Step) (w : Step) (after : List Step),
    past = before ++ w :: after ∧ w.Reroutes id ∧ ∀ v ∈ after, ¬v.Sends id

theorem since_append {past : List Step} {t : Step} :
    Since (past ++ [t]) id ↔ t.Reroutes id ∨ (Since past id ∧ ¬t.Sends id) := by
  constructor
  · rintro ⟨before, w, after, heq, hreroutes, hsends⟩
    rcases List.eq_nil_or_concat after with rfl | ⟨after', v, rfl⟩
    · obtain ⟨_, hlast⟩ := List.append_inj' heq rfl
      obtain rfl := List.singleton_inj.mp hlast
      exact .inl hreroutes
    · rw [List.concat_eq_append, ← List.cons_append, ← List.append_assoc] at heq
      obtain ⟨hpast, hlast⟩ := List.append_inj' heq rfl
      obtain rfl := List.singleton_inj.mp hlast
      exact .inr ⟨⟨before, w, after', hpast, hreroutes, fun v hv => hsends v (by simp [hv])⟩,
        hsends t (by simp)⟩
  · rintro (hreroutes | ⟨⟨before, w, after, rfl, hreroutes, hsends⟩, hnot⟩)
    · exact ⟨past, t, [], rfl, hreroutes, by simp⟩
    · refine ⟨before, w, after ++ [t], by simp, hreroutes, fun v hv => ?_⟩
      rcases List.mem_append.mp hv with hv | hv
      · exact hsends v hv
      · exact List.mem_singleton.mp hv ▸ hnot

/-- Two publishes have a send between them if and only if there is none at a publish since the last
send. -/
theorem onceBetweenSends_iff {past : List Step} : OnceBetweenSends past id ↔
    ∀ before u after, past = before ++ u :: after → u.Reroutes id → ¬Since before id := by
  constructor
  · rintro honce before u after rfl hreroutes ⟨first, w, between, rfl, hw, hsends⟩
    obtain ⟨v, hv, hv'⟩ := honce first w between u after (by simp) hw hreroutes
    exact hsends v hv hv'
  · rintro hnone before t between u after rfl ht hu
    by_contra hsends
    refine hnone (before ++ t :: between) u after (by simp) hu ⟨before, t, between, rfl, ht, ?_⟩
    exact fun v hv hv' => hsends ⟨v, hv, hv'⟩

/-- The entries that a loop in progress has still to visit are tracked. -/
def Segment.Tracked (r : MessageRouter) : Segment → Prop
  | .rerouteReplied _ _ _ _ entries _ => ∀ e ∈ entries, (r.mark e.1).isSome
  | _ => True

/-- The invariant: the marks say which messages were published since their last send. -/
structure Marked (past : List Step) (c : Config MessageRouter Segment) : Prop where
  marks : ∀ id, c.shared.mark id = some true ↔ Since past id
  visits : ∀ u ∈ c.threads, ∀ a ∈ u.todo ++ u.onThrow, a.Tracked c.shared

theorem tracked_of_mem_snapshot {ids : List MessageID} {e : MessageID × OutboxEntry}
    (h : e ∈ r.snapshot ids) : (r.mark e.1).isSome := by
  obtain ⟨j, _, hj⟩ := List.mem_filterMap.mp h
  obtain ⟨entry, hentry, rfl⟩ := Option.map_eq_some_iff.mp hj
  simp [mark, hentry]

/-- The entries of a loop are tracked. -/
theorem tracked_of_loop {departed : List Data} {entries : List (MessageID × OutboxEntry)}
    (ha : a.Tracked r) (hloop : a.loop r reply = some (r', departed, entries))
    (hmarks : SameMarks r r') : ∀ e ∈ entries, (r'.mark e.1).isSome := by
  intro e he
  rw [hmarks]
  unfold Segment.loop at hloop
  split at hloop
  · split at hloop
    · cases hloop
    · cases hloop
      exact tracked_of_mem_snapshot he
  · obtain ⟨_, _, heq⟩ := Option.map_eq_some_iff.mp hloop
    cases heq
    exact ha e he
  · cases hloop

theorem mark_modify (j : MessageID) :
    mark { r with outbox := r.outbox.modify id ({ · with reroutedOverNostr := true }) } j =
      if j = id then (r.mark id).map fun _ => true else r.mark j := by
  simp only [mark, Dict.lookup_modify]
  split <;> simp [Function.comp_def]

/-- What a segment does to one mark, by whether it begins a send or publishes. -/
theorem mark_exec (h : r.exec a reply = some p) (ha : a.Tracked r) :
    (p.1.mark id = some true ↔ p.2.reroute? = some id ∨
      (r.mark id = some true ∧ ¬Segment.StartsSend id r a reply)) ∧
    ((r.mark id).isSome → (p.1.mark id).isSome) := by
  cases exec_marks h with
  | same sends publishes loop marks =>
    rw [marks id, publishes]
    simp [Segment.StartsSend, sends]
  | tracks j sends publishes loop marks =>
    rw [marks id, publishes]
    by_cases hj : id = j
    · subst hj
      cases hmark : r.mark id <;> simp [Segment.StartsSend, sends]
    · simp [Segment.StartsSend, sends, hj]
  | clears envelope sends publishes loop marks =>
    rw [marks id, publishes]
    by_cases hj : id = envelope.id
    · simp [Segment.StartsSend, sends, hj]
    · simp [Segment.StartsSend, sends, hj, Ne.symm hj]
  | loops r' departed entries rerouted sends loop marks goesOn =>
    have hnot : ¬Segment.StartsSend id r a reply := by simp [Segment.StartsSend, sends]
    cases hpasses : passes departed entries with
    | none =>
      rw [rerouteNext_of_none hpasses] at goesOn
      subst goesOn
      simp [marks id, Outcome.reroute?, hnot]
    | some j =>
      obtain ⟨envelope, recipient, rest, _, heq⟩ := rerouteNext_of_some (r := r')
        rerouted hpasses
      rw [heq] at goesOn
      subst goesOn
      rw [mark_modify]
      by_cases hj : id = j
      · subst hj
        obtain ⟨e, he⟩ := mem_of_passes hpasses
        obtain ⟨b, hb⟩ := Option.isSome_iff_exists.mp (tracked_of_loop ha loop marks _ he)
        simp [Outcome.reroute?, hb]
      · simp [Outcome.reroute?, hj, Ne.symm hj, marks id, hnot]

/-- The entries that a segment leaves to visit are tracked. -/
theorem tracked_of_suspends {next : Segment} (h : r.exec a reply = some p) (ha : a.Tracked r)
    (hnext : p.2 = .suspend next) : next.Tracked p.1 := by
  cases next with
  | rerouteReplied id envelope recipient departed rest rerouted =>
    have hpublishes : p.2.reroute? = some id := by rw [hnext]; rfl
    intro e he
    refine (mark_exec h ha).2 ?_
    cases exec_marks h with
    | same sends publishes => cases publishes.symm.trans hpublishes
    | tracks j sends publishes => cases publishes.symm.trans hpublishes
    | clears envelope sends publishes => cases publishes.symm.trans hpublishes
    | loops r' departed entries rerouted sends loop marks goesOn =>
      cases hpasses : passes departed entries with
      | none =>
        rw [goesOn, rerouteNext_of_none hpasses] at hnext
        cases hnext
      | some j =>
        obtain ⟨_, _, rest, hsuffix, heq⟩ := rerouteNext_of_some (r := r') rerouted hpasses
        rw [goesOn, heq] at hnext
        cases hnext
        rw [← marks]
        exact tracked_of_loop ha loop marks e (hsuffix.subset he)
  | call | bleReplied | nostrReplied | publishReplied | timeoutFired => trivial

theorem tracked_mono {r r' : MessageRouter} (h : ∀ id, (r.mark id).isSome → (r'.mark id).isSome)
    (ha : a.Tracked r) : a.Tracked r' := by
  cases a with
  | rerouteReplied => exact fun e he => h e.1 (ha e he)
  | call | bleReplied | nostrReplied | publishReplied | timeoutFired => trivial

theorem tracked_of_added {b : Segment} (h : r.exec a reply = some p) (ha : a.Tracked r)
    (hb : b ∈ p.2.exit.added) : b.Tracked p.1 := by
  cases hout : p.2 with
  | suspend next =>
    rw [hout] at hb
    obtain rfl := List.mem_singleton.mp hb
    exact tracked_of_suspends h ha hout
  | returned | rerouted | finished =>
    rw [hout] at hb
    cases hb

section Step

variable {past : List Step} {t : Step}

/-- The action of a step, which is tracked. -/
theorem Marked.tracked (h : Marked past t.pre) (hacts : t.pre.acts t.event = some (a, reply)) :
    a.Tracked t.pre.shared := by
  obtain ⟨u, hu, ha⟩ := Config.pending_of_acts hacts
  exact h.visits u hu a (List.mem_append_left _ ha)

theorem marked_step (ht : machine.step t.pre t.event = some t.post) (h : Marked past t.pre) :
    Marked (past ++ [t]) t.post := by
  have hgrows (id : MessageID) (hid : (t.pre.shared.mark id).isSome) :
      (t.post.shared.mark id).isSome := by
    rcases Machine.step_cases ht with ⟨call, _, hpost⟩ |
      ⟨_, reply, a, _, _, s, x, _, _, hexec, hacts, hpost⟩
    · rw [hpost]
      exact hid
    · obtain ⟨p, hp, hpx⟩ := Option.map_eq_some_iff.mp hexec
      cases hpx
      rw [hpost]
      exact (mark_exec hp (h.tracked hacts)).2 hid
  constructor
  · intro id
    rw [since_append, ← h.marks]
    rcases Machine.step_shared ht with ⟨hsame, hnone⟩ | ⟨a, reply, x, hexec, hran⟩
    · simp [hsame, Step.Reroutes, Step.Sends, hnone]
    · obtain ⟨p, hp, hpx⟩ := Option.map_eq_some_iff.mp hexec
      have hshared : t.post.shared = p.1 := (congrArg Prod.fst hpx).symm
      have ha : a.Tracked t.pre.shared := by
        obtain ⟨b, reply', hacts, heq⟩ := (hran fun _ b _ => b = a).mpr rfl
        subst heq
        exact h.tracked hacts
      rw [hshared, Step.Reroutes, Step.Sends, hran, hran, hp]
      exact (mark_exec hp ha).1
  · refine Machine.todo_step ht (fun u hu a ha => tracked_mono hgrows (h.visits u hu a ha))
      (fun call a ha => ?_) fun a reply x hacts hexec hpending b hb => ?_
    · obtain rfl : a = .call call := by simpa [machine] using ha
      trivial
    · obtain ⟨p, hp, hpx⟩ := Option.map_eq_some_iff.mp hexec
      obtain ⟨hshared, rfl⟩ := Prod.mk.inj hpx
      rw [← hshared]
      exact tracked_of_added hp (h.tracked hacts) hb

/-- A step reads a stale copy if and only if it publishes a message that was published since its
last send, or that is settled or committed to a relay. -/
theorem readsStale_iff (ht : machine.step t.pre t.event = some t.post) (h : Marked past t.pre) :
    t.ReadsStale ↔ ∃ id, t.Reroutes id ∧ (Since past id ∨
      ∃ s, t.post.shared.stateOf id = some s ∧ (s.isTerminal ∨ s = .cast)) := by
  rcases Machine.step_shared ht with ⟨_, hnone⟩ | ⟨a, reply, x, hexec, hran⟩
  · simp [Step.ReadsStale, Step.Reroutes, hnone]
  · obtain ⟨p, hp, hpx⟩ := Option.map_eq_some_iff.mp hexec
    have hshared : t.post.shared = p.1 := (congrArg Prod.fst hpx).symm
    have ha : a.Tracked t.pre.shared := by
      obtain ⟨b, reply', hacts, heq⟩ := (hran fun _ b _ => b = a).mpr rfl
      subst heq
      exact h.tracked hacts
    simp only [Step.ReadsStale, Step.Reroutes, hran, hshared, hp, Option.bind_some, ← h.marks]
    cases exec_marks hp with
    | same sends publishes loop => simp [publishes, loop]
    | tracks j sends publishes loop => simp [publishes, loop]
    | clears envelope sends publishes loop => simp [publishes, loop]
    | loops r' departed entries rerouted sends loop marks goesOn =>
      cases hpasses : passes departed entries with
      | none =>
        have hpublishes : p.2.reroute? = none := by rw [goesOn, rerouteNext_of_none hpasses]; rfl
        simp only [loop, hpublishes, Option.some.injEq, Prod.mk.injEq]
        constructor
        · rintro ⟨_, _, _, id, _, ⟨rfl, rfl, rfl⟩, hid, _⟩
          cases hpasses.symm.trans hid
        · rintro ⟨id, hid, _⟩
          cases hid
      | some j =>
        obtain ⟨envelope, recipient, rest, _, heq⟩ := rerouteNext_of_some (r := r')
          rerouted hpasses
        have hpublishes : p.2.reroute? = some j := by rw [goesOn, heq]; rfl
        have hstate : p.1.stateOf j = r'.stateOf j := by
          rw [goesOn]
          exact (Effect.rerouteNext departed rerouted entries).stateOf j
        obtain ⟨e, he⟩ := mem_of_passes hpasses
        have htracked := tracked_of_loop ha loop marks _ he
        obtain ⟨entry, hentry⟩ : ∃ entry, r'.outbox.lookup j = some entry :=
          Option.isSome_iff_exists.mp (by simpa [mark] using htracked)
        have hspent : (t.pre.shared.mark j = some true ∨
            ∃ s, p.1.stateOf j = some s ∧ (s.isTerminal ∨ s = .cast)) ↔
            OutboxEntry.Spent entry := by
          rw [← marks, hstate]
          simp only [mark, stateOf, hentry, Option.map_some, Option.some.injEq, exists_eq_left',
            OutboxEntry.Spent]
          tauto
        simp only [loop, hpublishes, Option.some.injEq, Prod.mk.injEq]
        constructor
        · rintro ⟨_, _, _, id, entry', ⟨rfl, rfl, rfl⟩, hid, hentry', hold⟩
          cases hpasses.symm.trans hid
          cases hentry.symm.trans hentry'
          exact ⟨j, rfl, hspent.mpr hold⟩
        · rintro ⟨_, rfl, hold⟩
          exact ⟨r', departed, entries, j, entry, ⟨rfl, rfl, rfl⟩, hpasses, hentry, hspent.mp hold⟩

end Step

theorem marked_new (transports : List MeshTransport) (seenCapacity : Nat) :
    Marked [] ⟨.new transports seenCapacity, []⟩ where
  marks id := by
    constructor
    · intro h
      cases h
    · rintro ⟨before, w, after, heq, _⟩
      simp at heq
  visits u hu := by cases hu

/-- In every run, `rerouteToNostr` publishes each message at most once between two sends of it, and
only while it is neither settled nor committed to a relay, if and only if no loop comes to a copy of
an entry that passes its guard while the entry itself is spent. -/
theorem reroute_once_iff (transports : List MeshTransport) (seenCapacity : Nat)
    (events : List (Event Call Reply)) :
    ((∀ id, OnceBetweenSends (steps transports seenCapacity events) id) ∧
        ∀ t ∈ steps transports seenCapacity events, t.FindsUnsettled) ↔
      ∀ t ∈ steps transports seenCapacity events, ¬t.ReadsStale := by
  have hmarked {before after : List Step} {t : Step}
      (h : steps transports seenCapacity events = before ++ t :: after) : Marked before t.pre :=
    trace_history Marked (fun _ _ => marked_step) (marked_new transports seenCapacity) h
  simp only [onceBetweenSends_iff]
  constructor
  · rintro ⟨honce, hunsettled⟩ t ht hstale
    obtain ⟨before, after, heq⟩ := List.mem_iff_append.mp ht
    obtain ⟨id, hreroutes, hsince | ⟨s, hs, hsettled⟩⟩ :=
      (readsStale_iff (step_of_mem_trace ht) (hmarked heq)).mp hstale
    · exact honce id before t after heq hreroutes hsince
    · obtain ⟨hterminal, hcast⟩ := hunsettled t ht id s hreroutes hs
      rcases hsettled with hs | hs
      · rw [hterminal] at hs
        cases hs
      · exact hcast hs
  · intro hfresh
    constructor
    · intro id before t after heq hreroutes hsince
      have ht : t ∈ steps transports seenCapacity events := by rw [heq]; simp
      refine hfresh t ht ((readsStale_iff (step_of_mem_trace ht) (hmarked heq)).mpr ?_)
      exact ⟨id, hreroutes, .inl hsince⟩
    · intro t ht id s hreroutes hs
      obtain ⟨before, after, heq⟩ := List.mem_iff_append.mp ht
      have hnot : ¬(s.isTerminal ∨ s = .cast) := by
        intro hsettled
        refine hfresh t ht ((readsStale_iff (step_of_mem_trace ht) (hmarked heq)).mpr ?_)
        exact ⟨id, hreroutes, .inr ⟨s, hs, hsettled⟩⟩
      exact ⟨Bool.eq_false_iff.mpr fun h => hnot (.inl h), fun h => hnot (.inr h)⟩

/-- Two messages go out over the radio, and their recipient departs.  While the first one is being
published, a second call publishes the second one, and its acknowledgement comes in; then the first
call goes on to its copy of the second one. -/
def departedTwice : List (Event Call Reply) :=
  [.start (.send (.new (.filled 1) []) true (some [9]) (some [2])), .step 0 .ok, .step 0 .ok,
    .start (.send (.new (.filled 2) []) true (some [9]) (some [2])), .step 1 .ok, .step 1 .ok,
    .start (.rerouteToNostr [[9]]), .step 2 (.order [.filled 1, .filled 2]),
    .start (.rerouteToNostr [[9]]), .step 3 (.order [.filled 1, .filled 2]),
    .start (.confirmDelivery (.filled 2) 0), .step 4 .ok, .step 2 .ok]

/-- `rerouteToNostr` publishes a message twice with no send in between, the second time although it
was delivered. -/
theorem reroute_repeats :
    ¬OnceBetweenSends (steps [⟨.ble, false⟩, ⟨.internet, true⟩] 8 departedTwice) (.filled 2) ∧
      ∃ t ∈ steps [⟨.ble, false⟩, ⟨.internet, true⟩] 8 departedTwice, ¬t.FindsUnsettled := by
  have hlast : ∃ t ∈ steps [⟨.ble, false⟩, ⟨.internet, true⟩] 8 departedTwice,
      t.Reroutes (.filled 2) ∧ t.post.shared.stateOf (.filled 2) = some .delivered :=
    ⟨_, List.mem_of_getElem? (i := 12) rfl, ⟨_, _, rfl, rfl⟩, rfl⟩
  constructor
  · intro honce
    have hsplit : ∃ before t between u after,
        steps [⟨.ble, false⟩, ⟨.internet, true⟩] 8 departedTwice = before ++ t :: between ++
          u :: after ∧
          t.Reroutes (.filled 2) ∧ u.Reroutes (.filled 2) ∧ ∀ v ∈ between, ¬v.Sends (.filled 2) :=
      ⟨[_, _, _, _, _, _, _, _, _], _, [_, _], _, [], rfl, ⟨_, _, rfl, rfl⟩,
      ⟨_, _, rfl, rfl⟩, by decide⟩
    obtain ⟨before, t, between, u, after, heq, ht, hu, hnone⟩ := hsplit
    obtain ⟨v, hv, hsends⟩ := honce before t between u after heq ht hu
    exact hnone v hv hsends
  · obtain ⟨t, ht, hreroutes, hstate⟩ := hlast
    exact ⟨t, ht, fun hunsettled => absurd (hunsettled _ _ hreroutes hstate).1 (by decide)⟩

end AeroNyra.MessageRouter
