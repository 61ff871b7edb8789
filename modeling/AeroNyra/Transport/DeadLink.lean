import AeroNyra.Transport.WriteEngine

/-! Dead links: the failures after which a link is given up, and how long its peripheral is left
alone.  The engine counts resends of a chunk and failed frames; over any run the two are one count
of failures in a row. -/

namespace AeroNyra

namespace BLEMeshTransport

open Interleave

namespace WriteLink

open WriteEngine

/-- The transient failures in a row since the last success and within one connection, and the links
given up in a row since the last success. -/
structure Streaks where
  failures : Nat := 0
  teardowns : Nat := 0
  deriving DecidableEq

/-- The event gives the link up. -/
def tearsDown (l : WriteLink) (event : Event) : Bool :=
  (l.react event).any fun reaction => reaction.2.contains .cancelPeripheralConnection

/-- A central that is powered off forgets the links that were given up. -/
def Streaks.note (s : Streaks) (l : WriteLink) (event : Event) (_ : WriteLink) : Streaks :=
  match event with
  | .didWriteValueFor none .. => {}
  | .didWriteValueFor (some _) .. =>
    if l.tearsDown event then ⟨0, s.teardowns + 1⟩ else ⟨s.failures + 1, s.teardowns⟩
  | .didDisconnectPeripheral => ⟨0, s.teardowns⟩
  | .poweredOff => {}
  | _ => s

abbrev Recorded := Transition (WriteLink × Streaks) Event

/-! ### What the operations count -/

/-- The counts of two engines are the same. -/
structure SameCounts (e e' : WriteEngine) : Prop where
  retries : e'.chunkRetriesLeft = e.chunkRetriesLeft
  errors : e'.writeErrorCount = e.writeErrorCount
  attempts : e'.reconnectAttempts = e.reconnectAttempts

variable {e : WriteEngine}

theorem SameCounts.refl (e : WriteEngine) : SameCounts e e := ⟨rfl, rfl, rfl⟩

theorem SameCounts.trans {e e' e'' : WriteEngine} (h : SameCounts e e') (h' : SameCounts e' e'') :
    SameCounts e e'' :=
  ⟨h'.retries.trans h.retries, h'.errors.trans h.errors, h'.attempts.trans h.attempts⟩

/-- A reaction that counts nothing and cancels nothing. -/
def Uncounted (e : WriteEngine) (reaction : WriteEngine × List WriteEngine.Effect) : Prop :=
  SameCounts e reaction.1 ∧ .cancelPeripheralConnection ∉ reaction.2

theorem uncounted_pump (e : WriteEngine) : Uncounted e e.pumpWriteQueue := by
  unfold pumpWriteQueue
  split
  · exact ⟨.refl e, nofun⟩
  · split
    · exact ⟨⟨rfl, rfl, rfl⟩, by simp⟩
    · exact ⟨.refl e, nofun⟩

theorem uncounted_drain (e : WriteEngine) (limit : Nat) (canSend : Nat → Bool) :
    Uncounted e (e.drainAudioRing limit canSend) := by
  unfold drainAudioRing
  split
  · exact ⟨⟨rfl, rfl, rfl⟩, by simp⟩
  · exact ⟨.refl e, nofun⟩

theorem uncounted_send (e : WriteEngine) (framed : Data) (canSend : Nat → Bool) :
    Uncounted e (e.sendAudioFrame framed canSend) := by
  unfold sendAudioFrame
  split
  · obtain ⟨hcounts, hcancel⟩ :=
      uncounted_drain { e with audioRing := enqueueAudio e.audioRing framed } 1 canSend
    exact ⟨⟨hcounts.retries, hcounts.errors, hcounts.attempts⟩, hcancel⟩
  · exact ⟨.refl e, nofun⟩

theorem uncounted_write (e : WriteEngine) (wire : Data) (size : Nat) :
    Uncounted e (e.writeFrameToPeer wire size) := by
  unfold writeFrameToPeer
  split
  · obtain ⟨hcounts, hcancel⟩ := uncounted_pump (e.enqueued (Pieces.cut (max 20 size) wire))
    exact ⟨⟨hcounts.retries, hcounts.errors, hcounts.attempts⟩, hcancel⟩
  · exact ⟨.refl e, nofun⟩

theorem uncounted_advance {advanced : WriteEngine × List WriteEngine.Effect}
    (h : e.advanceWriteQueue = some advanced) :
    Uncounted e advanced := by
  have hkept (queue : List (List Data)) : Uncounted e
    (pumpWriteQueue { e with writeQueue := queue }) := by
    obtain ⟨hcounts, hcancel⟩ := uncounted_pump { e with writeQueue := queue }
    exact ⟨⟨hcounts.retries, hcounts.errors, hcounts.attempts⟩, hcancel⟩
  unfold advanceWriteQueue at h
  split at h
  · exact Option.some.inj h ▸ uncounted_pump e
  · cases h
  · exact Option.some.inj h ▸ hkept _
  · exact Option.some.inj h ▸ hkept _

/-! ### What a response counts -/

/-- The counts of failures of an engine as one count of failures in a row. -/
def failuresOf (e : WriteEngine) : Nat :=
  (chunkRetryLimit + 1) * e.writeErrorCount +
  (chunkRetryLimit - e.chunkRetriesLeft.getD chunkRetryLimit)

theorem failuresOf_eq (e : WriteEngine) :
    failuresOf e = 3 * e.writeErrorCount + (2 - e.chunkRetriesLeft.getD chunkRetryLimit) := rfl

/-- The engine's counts are in their ranges. -/
structure Counting (e : WriteEngine) : Prop where
  retries : e.chunkRetriesLeft.getD chunkRetryLimit ≤ chunkRetryLimit
  errors : e.writeErrorCount < writeErrorTeardownThreshold

theorem Counting.of_same {e' : WriteEngine} (h : Counting e) (hsame : SameCounts e e') :
    Counting e' ∧ failuresOf e' = failuresOf e ∧ e'.reconnectAttempts = e.reconnectAttempts := by
  obtain ⟨hretries, herrors, hattempts⟩ := hsame
  refine ⟨⟨?_, ?_⟩, ?_, hattempts⟩
  · rw [hretries]
    exact h.retries
  · rw [herrors]
    exact h.errors
  · rw [failuresOf, hretries, herrors, failuresOf]

/-- An engine without failures. -/
theorem counting_fresh (hretries : e.chunkRetriesLeft = none) (herrors : e.writeErrorCount = 0) :
    Counting e ∧ failuresOf e = 0 := by
  refine ⟨⟨?_, ?_⟩, ?_⟩
  · rw [hretries]
    exact Nat.le_refl _
  · rw [herrors]
    decide
  · rw [failuresOf, hretries, herrors]
    rfl

theorem success_counts {reaction : WriteEngine × List WriteEngine.Effect} {now : Nat}
    {canSend : Nat → Bool}
    (h : e.didWriteValueFor none now canSend = some reaction) : Counting reaction.1 ∧
      failuresOf reaction.1 = 0 ∧ reaction.1.reconnectAttempts = 0 ∧
        .cancelPeripheralConnection ∉ reaction.2 := by
  obtain ⟨advanced, hadvanced, rfl⟩ := Option.map_eq_some_iff.mp h
  obtain ⟨hcounts, hcancel⟩ := uncounted_advance hadvanced
  obtain ⟨hcounts', hcancel'⟩ := uncounted_drain advanced.1 audioDrainPerReady canSend
  obtain ⟨hretries, herrors, hattempts⟩ := hcounts.trans hcounts'
  obtain ⟨hcounting, hfailures⟩ := counting_fresh hretries herrors
  exact ⟨hcounting, hfailures, hattempts, fun hmem =>
    (List.mem_append.mp hmem).elim hcancel hcancel'⟩

/-- How long the `n`-th link in a row that is given up is left alone. -/
def holdoff (n : Nat) : Nat := min maxReconnectDelay (baseReconnectDelay * 2 ^ (n - 1))

/-- The link is given up: nothing of it stays, and its peripheral is left alone from now on. -/
structure GivenUp (e : WriteEngine) (now n : Nat) : Prop where
  peer : e.peer = false
  writeTarget : e.writeTarget = false
  writeQueue : e.writeQueue = []
  holdoff : e.reconnectHoldoff = some (now + holdoff n)

theorem tearDown_counts (e : WriteEngine) (now : Nat) : Counting (e.tearDown now).1 ∧
    failuresOf (e.tearDown now).1 = 0 ∧ (e.tearDown now).1.reconnectAttempts =
      e.reconnectAttempts + 1 ∧
    GivenUp (e.tearDown now).1 now (e.reconnectAttempts + 1) := by
  obtain ⟨hcounting, hfailures⟩ := @counting_fresh (e.tearDown now).1 rfl rfl
  exact ⟨hcounting, hfailures, rfl, rfl, rfl, rfl, rfl⟩

/-- A failure ends the link if it is conclusive or one too many, and else is counted. -/
theorem failure_counts (hcounting : Counting e) {reaction : WriteEngine × List WriteEngine.Effect}
    {error : WriteError} {now : Nat} {canSend : Nat → Bool}
    (h : e.didWriteValueFor (some error) now canSend = some reaction) :
    Counting reaction.1 ∧
      (.cancelPeripheralConnection ∈ reaction.2 ↔ error.linkDead = true ∨
        failuresOf e + 1 = (chunkRetryLimit + 1) * writeErrorTeardownThreshold) ∧
      (.cancelPeripheralConnection ∈ reaction.2 → failuresOf reaction.1 = 0 ∧
        reaction.1.reconnectAttempts = e.reconnectAttempts + 1 ∧
        GivenUp reaction.1 now (e.reconnectAttempts + 1)) ∧
      (.cancelPeripheralConnection ∉ reaction.2 → failuresOf reaction.1 = failuresOf e + 1 ∧
        reaction.1.reconnectAttempts = e.reconnectAttempts) := by
  have hlimit : chunkRetryLimit = 2 := rfl
  have hthreshold : writeErrorTeardownThreshold = 3 := rfl
  have hmost : (chunkRetryLimit + 1) * writeErrorTeardownThreshold = 9 := rfl
  obtain ⟨hretries, herrors⟩ := hcounting
  unfold didWriteValueFor at h
  dsimp only at h
  by_cases hdead : error.linkDead = true
  · rw [if_pos hdead] at h
    obtain rfl := Option.some.inj h
    obtain ⟨hcounts, hrest⟩ := tearDown_counts { e with writeInFlight := false } now
    exact ⟨hcounts, ⟨fun _ => .inl hdead, fun _ => List.mem_cons_self⟩, fun _ => hrest,
      fun hmem => absurd List.mem_cons_self hmem⟩
  rw [if_neg hdead] at h
  by_cases hleft : 0 < e.chunkRetriesLeft.getD chunkRetryLimit
  · rw [if_pos hleft] at h
    obtain rfl := Option.some.inj h
    generalize hresend : ({ e with
      writeInFlight := false
      chunkRetriesLeft := some (e.chunkRetriesLeft.getD chunkRetryLimit - 1) } : WriteEngine) =
        resend
    obtain ⟨hcounts, hcancel⟩ := uncounted_pump resend
    have hfailures : failuresOf resend = failuresOf e + 1 := by
      rw [← hresend, failuresOf_eq, failuresOf_eq]
      simp only [Option.getD_some]
      omega
    have hresult : Counting resend := by
      rw [← hresend]
      exact ⟨by simp only [Option.getD_some]; omega, herrors⟩
    obtain ⟨hkept, hsame, hattempts⟩ := hresult.of_same hcounts
    refine ⟨hkept, ⟨fun hmem => absurd hmem hcancel, ?_⟩, fun hmem => absurd hmem hcancel, fun _ =>
      ⟨hsame.trans hfailures, hattempts.trans (by rw [← hresend])⟩⟩
    rintro (hconclusive | hcount)
    · exact absurd hconclusive hdead
    · rw [failuresOf_eq] at hcount
      omega
  rw [if_neg hleft] at h
  have hnone : e.chunkRetriesLeft.getD chunkRetryLimit = 0 := by omega
  by_cases hcount : e.writeErrorCount + 1 < writeErrorTeardownThreshold
  · rw [if_pos hcount] at h
    obtain rfl := Option.some.inj h
    generalize hfailed : ({ e with
      writeInFlight := false
      chunkRetriesLeft := none
      writeErrorCount := e.writeErrorCount + 1
      writeQueue := e.writeQueue.tail } : WriteEngine) = failed
    have hpump : failHeadFrame { e with
      writeInFlight := false
      chunkRetriesLeft := none
      writeErrorCount := e.writeErrorCount + 1 } = failed.pumpWriteQueue := by rw [← hfailed]; rfl
    rw [hpump]
    obtain ⟨hcounts, hcancel⟩ := uncounted_pump failed
    have hfailures : failuresOf failed = failuresOf e + 1 := by
      rw [← hfailed, failuresOf_eq, failuresOf_eq, hnone]
      simp only [Option.getD_none]
      omega
    have hresult : Counting failed := by
      rw [← hfailed]
      exact ⟨Nat.le_refl _, hcount⟩
    obtain ⟨hkept, hsame, hattempts⟩ := hresult.of_same hcounts
    refine ⟨hkept, ⟨fun hmem => absurd hmem hcancel, ?_⟩, fun hmem => absurd hmem hcancel, fun _ =>
      ⟨hsame.trans hfailures, hattempts.trans (by rw [← hfailed])⟩⟩
    rintro (hconclusive | hexact)
    · exact absurd hconclusive hdead
    · rw [failuresOf_eq, hnone] at hexact
      omega
  · rw [if_neg hcount] at h
    obtain rfl := Option.some.inj h
    obtain ⟨hcounts, hrest⟩ := tearDown_counts { e with
      writeInFlight := false
      chunkRetriesLeft := none
      writeErrorCount := e.writeErrorCount + 1 } now
    refine ⟨hcounts, ⟨fun _ => .inr ?_, fun _ => List.mem_cons_self⟩, fun _ => hrest,
      fun hmem => absurd List.mem_cons_self hmem⟩
    rw [failuresOf_eq, hnone]
    omega

/-! ### Runs -/

/-- The engine's counts are those of the history. -/
structure Counted (s : WriteLink × Streaks) : Prop where
  counting : Counting s.1.engine
  failures : failuresOf s.1.engine = s.2.failures
  teardowns : s.1.engine.reconnectAttempts = s.2.teardowns

variable {l : WriteLink} {h : Streaks}

theorem Counted.same (hcounted : Counted (l, h)) {l' : WriteLink}
    (hsame : SameCounts l.engine l'.engine) :
    Counted (l', h) := by
  obtain ⟨hcounting, hfailures, hattempts⟩ := hcounted.counting.of_same hsame
  exact ⟨hcounting, hfailures.trans hcounted.failures, hattempts.trans hcounted.teardowns⟩

/-- What the link is after the event. -/
theorem engine_of_step {l' : WriteLink} {event : Event} (hstep : l.step event = some l') :
    ∃ reaction, l.react event = some reaction ∧ l'.engine = reaction.1 ∧
      l.tearsDown event = reaction.2.contains .cancelPeripheralConnection := by
  obtain ⟨reaction, hreaction, rfl⟩ := Option.map_eq_some_iff.mp hstep
  refine ⟨reaction, hreaction, rfl, ?_⟩
  rw [tearsDown, hreaction]
  rfl

theorem counted_step (t : Recorded) (hstep : recorded step Streaks.note t.pre t.event = some t.post)
    (hcounted : Counted t.pre) : Counted t.post := by
  obtain ⟨⟨l, h⟩, event, ⟨l', h'⟩⟩ := t
  obtain ⟨hlink, hnote⟩ := step_of_recorded hstep
  obtain ⟨reaction, hreact, hengine, htears⟩ := engine_of_step hlink
  dsimp only at hlink hnote hreact hengine htears hcounted ⊢
  subst hnote
  cases event with
  | didDiscover now =>
    obtain rfl := Option.some.inj hreact
    refine hcounted.same ?_
    rw [hengine]
    dsimp only
    unfold didDiscover
    split <;> exact ⟨rfl, rfl, rfl⟩
  | didConnect =>
    obtain rfl := Option.some.inj hreact
    exact hcounted.same (hengine ▸ .refl _)
  | didFailToConnect =>
    obtain rfl := Option.some.inj (Option.ite_none_left_eq_some.mp hreact).2
    exact hcounted.same (hengine ▸ ⟨rfl, rfl, rfl⟩)
  | didDisconnectPeripheral =>
    obtain rfl := Option.some.inj (Option.ite_none_right_eq_some.mp hreact).2
    obtain ⟨hcounting, hfailures⟩ := @counting_fresh l.engine.didDisconnectPeripheral rfl rfl
    exact ⟨hengine ▸ hcounting, hengine ▸ hfailures, hengine ▸ hcounted.teardowns⟩
  | didDiscoverCharacteristicsFor mailbox audio =>
    obtain rfl := Option.some.inj (Option.ite_none_right_eq_some.mp hreact).2
    exact hcounted.same (hengine ▸ ⟨rfl, rfl, rfl⟩)
  | poweredOff =>
    obtain rfl := Option.some.inj hreact
    obtain ⟨hcounting, hfailures⟩ := @counting_fresh l.engine.poweredOff rfl rfl
    exact ⟨hengine ▸ hcounting, hengine ▸ hfailures, hengine ▸ rfl⟩
  | writeFrameToPeer type payload size =>
    obtain ⟨wire, _, rfl⟩ := Option.map_eq_some_iff.mp hreact
    exact hcounted.same (hengine ▸ (uncounted_write l.engine wire size).1)
  | didWriteValueFor error now canSend =>
    obtain ⟨_, hresponse⟩ := Option.ite_none_left_eq_some.mp hreact
    cases error with
    | none =>
      obtain ⟨hcounting, hfailures, hattempts, _⟩ := success_counts hresponse
      exact ⟨hengine ▸ hcounting, hengine ▸ hfailures, hengine ▸ hattempts⟩
    | some error =>
      obtain ⟨hcounting, _, htorn, hcount⟩ := failure_counts hcounted.counting hresponse
      by_cases hcancel : .cancelPeripheralConnection ∈ reaction.2
      · obtain ⟨hfailures, hattempts, _⟩ := htorn hcancel
        have htrue := htears.trans (List.contains_iff_mem.mpr hcancel)
        simp only [Streaks.note, if_pos htrue]
        refine ⟨hengine ▸ hcounting, hengine ▸ hfailures, ?_⟩
        rw [hengine, hattempts, hcounted.teardowns]
      · obtain ⟨hfailures, hattempts⟩ := hcount hcancel
        have hfalse : ¬l.tearsDown (.didWriteValueFor (some error) now canSend) = true := by
          rw [htears, List.contains_iff_mem]
          exact hcancel
        simp only [Streaks.note, if_neg hfalse]
        refine ⟨hengine ▸ hcounting, ?_, ?_⟩
        · rw [hengine, hfailures, hcounted.failures]
        · rw [hengine, hattempts, hcounted.teardowns]
  | sendAudioFrame payload canSend =>
    obtain ⟨framed, _, rfl⟩ := Option.map_eq_some_iff.mp hreact
    exact hcounted.same (hengine ▸ (uncounted_send l.engine framed canSend).1)
  | peripheralIsReady canSend =>
    obtain rfl := Option.some.inj hreact
    exact hcounted.same (hengine ▸ (uncounted_drain l.engine _ canSend).1)

/-- The step gives the link up if it is a response with a conclusive error, or with one transient
error too many in a row; the link is gone then, and its peripheral left alone for as long as links
were given up in a row. -/
def Recorded.Exact (t : Recorded) : Prop :=
  match t.event with
  | .didWriteValueFor error now _ =>
    (t.pre.1.tearsDown t.event = true ↔ ∃ e, error = some e ∧ (e.linkDead = true ∨
      t.pre.2.failures + 1 = (chunkRetryLimit + 1) * writeErrorTeardownThreshold)) ∧
    (t.pre.1.tearsDown t.event = true → GivenUp t.post.1.engine now t.post.2.teardowns)
  | _ => t.pre.1.tearsDown t.event = false

theorem exact_step (t : Recorded) (hstep : recorded step Streaks.note t.pre t.event = some t.post)
    (hcounted : Counted t.pre) : t.Exact := by
  obtain ⟨⟨l, h⟩, event, ⟨l', h'⟩⟩ := t
  obtain ⟨hlink, hnote⟩ := step_of_recorded hstep
  obtain ⟨reaction, hreact, hengine, htears⟩ := engine_of_step hlink
  dsimp only at hlink hnote hreact hengine htears hcounted ⊢
  subst hnote
  have hquiet (hcancel : .cancelPeripheralConnection ∉ reaction.2) : l.tearsDown event = false := by
    rw [htears, Bool.eq_false_iff, ne_eq, List.contains_iff_mem]
    exact hcancel
  cases event with
  | didDiscover | didConnect | poweredOff =>
    obtain rfl := Option.some.inj hreact
    exact hquiet nofun
  | didFailToConnect =>
    obtain rfl := Option.some.inj (Option.ite_none_left_eq_some.mp hreact).2
    exact hquiet nofun
  | didDisconnectPeripheral | didDiscoverCharacteristicsFor =>
    obtain rfl := Option.some.inj (Option.ite_none_right_eq_some.mp hreact).2
    exact hquiet nofun
  | writeFrameToPeer type payload size =>
    obtain ⟨wire, _, rfl⟩ := Option.map_eq_some_iff.mp hreact
    exact hquiet (uncounted_write l.engine wire size).2
  | sendAudioFrame payload canSend =>
    obtain ⟨framed, _, rfl⟩ := Option.map_eq_some_iff.mp hreact
    exact hquiet (uncounted_send l.engine framed canSend).2
  | peripheralIsReady canSend =>
    obtain rfl := Option.some.inj hreact
    exact hquiet (uncounted_drain l.engine _ canSend).2
  | didWriteValueFor error now canSend =>
    obtain ⟨_, hresponse⟩ := Option.ite_none_left_eq_some.mp hreact
    cases error with
    | none =>
      have hfalse := hquiet (success_counts hresponse).2.2.2
      refine ⟨⟨fun htrue => ?_, nofun⟩, fun htrue => ?_⟩
      · exact absurd (htrue.symm.trans hfalse) (by decide)
      · exact absurd (htrue.symm.trans hfalse) (by decide)
    | some error =>
      obtain ⟨_, hiff, htorn, _⟩ := failure_counts hcounted.counting hresponse
      refine ⟨?_, fun htrue => ?_⟩
      · dsimp only
        rw [htears, List.contains_iff_mem, hiff, hcounted.failures]
        exact ⟨fun hcause => ⟨error, rfl, hcause⟩, fun ⟨_, hsame, hcause⟩ =>
          Option.some.inj hsame ▸ hcause⟩
      · dsimp only at htrue ⊢
        have hgone := (htorn (List.contains_iff_mem.mp (htears ▸ htrue))).2.2
        rw [hengine, Streaks.note, if_pos htrue, ← hcounted.teardowns]
        exact hgone

/-- In every run of connections, frames and responses. -/
theorem teardown_exact {es : List Event} {t : Recorded}
    (ht : t ∈ trace (recorded step Streaks.note) ({}, {}) es) : t.Exact := by
  have hstart : Counted ({}, {}) := ⟨⟨Nat.le_refl _, by decide⟩, rfl, rfl⟩
  exact exact_step t (step_of_mem_trace ht) (trace_invariant counted_step hstart ht)

/-- Three frames whose chunks fail three times each, and after a disconnect one whose chunk fails
for good. -/
def failsTwice : List Event :=
  ([.didDiscover 0, .didConnect, .didDiscoverCharacteristicsFor true false] : List Event) ++
    (List.replicate 3 (.writeFrameToPeer .bundle [7] 20) : List Event) ++
    (List.replicate 9 (.didWriteValueFor (some .unknown) 5 fun _ => true) : List Event) ++
    ([.didDisconnectPeripheral, .didDiscover 6, .didConnect,
      .didDiscoverCharacteristicsFor true false, .writeFrameToPeer .bundle [7] 20,
      .didWriteValueFor (some (.att .other)) 7 fun _ => true] : List Event)

/-- The link is given up twice in a row. -/
theorem teardown_exact_twice :
    ∃ t ∈ trace (recorded step Streaks.note) ({}, {}) failsTwice, t.pre.1.tearsDown t.event = true ∧
      t.post.2.teardowns = 2 ∧ t.post.1.engine.reconnectHoldoff = some 9 ∧ Recorded.Exact t := by
  have hmem := List.mem_of_getElem? (l := trace (recorded step Streaks.note) ({}, {}) failsTwice)
    (i := 20) rfl
  exact ⟨_, hmem, rfl, rfl, rfl, teardown_exact hmem⟩

end WriteLink

end BLEMeshTransport

end AeroNyra
