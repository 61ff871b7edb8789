import AeroNyra.Transport.DeadLink
import AeroNyra.Transport.OneInFlight

/-! The audio rings of both roles: what they lose is the oldest that they hold, and the reliable
writes and notifications beside them are what they would be without any audio. -/

namespace AeroNyra

namespace BLEMeshTransport

open Interleave

/-! ### One ring -/

theorem drainRing_append (accepts : Nat → Bool) (limit : Nat) (ring : List Data) :
    (drainRing accepts limit ring).1 ++ (drainRing accepts limit ring).2 = ring := by
  induction limit generalizing accepts ring with
  | zero => rfl
  | succ limit ih =>
    cases ring with
    | nil => rfl
    | cons framed ring =>
      unfold drainRing
      split
      · exact congrArg (framed :: ·) (ih _ ring)
      · rfl

/-- A step of a ring: frames come in behind those that it holds, some go out at the front, and some
of the oldest may get lost, which they do only if the link is gone or as many as the ring takes are
behind them. -/
structure Loses (ring input output ring' : List Data) (gone : Prop) : Prop where
  lost : ∃ dropped, ring ++ input = dropped ++ (output ++ ring') ∧
    (dropped ≠ [] → gone ∨ (output ++ ring').length = audioRingCapacity)
  bounded : ring.length ≤ audioRingCapacity → ring'.length ≤ audioRingCapacity

namespace Loses

variable {ring input output ring' : List Data} {gone : Prop}

theorem sublist (h : Loses ring input output ring' gone) :
    (output ++ ring').Sublist (ring ++ input) := by
  obtain ⟨dropped, hall, _⟩ := h.lost
  rw [hall]
  exact List.sublist_append_right _ _

theorem still (ring : List Data) (gone : Prop) : Loses ring [] [] ring gone :=
  ⟨⟨[], by simp, fun h => absurd rfl h⟩, id⟩

/-- A link that is gone loses all. -/
theorem all (ring : List Data) (hgone : gone) : Loses ring [] [] [] gone :=
  ⟨⟨ring, by simp, fun _ => .inl hgone⟩, fun _ => Nat.zero_le _⟩

theorem drain (accepts : Nat → Bool) (limit : Nat) (ring : List Data) (gone : Prop) :
    Loses ring [] (drainRing accepts limit ring).1 (drainRing accepts limit ring).2 gone := by
  have happend := drainRing_append accepts limit ring
  refine ⟨⟨[], by rw [happend]; simp, fun h => absurd rfl h⟩, fun hbound => ?_⟩
  have hlength := congrArg List.length happend
  rw [List.length_append] at hlength
  omega

/-- A frame that comes in, and some that go out. -/
theorem send (framed : Data) (accepts : Nat → Bool) (limit : Nat) (ring : List Data) (gone : Prop) :
    Loses ring [framed] (drainRing accepts limit (enqueueAudio ring framed)).1
      (drainRing accepts limit (enqueueAudio ring framed)).2 gone := by
  have happend := drainRing_append accepts limit (enqueueAudio ring framed)
  have hlengths := congrArg List.length happend
  rw [List.length_append] at hlengths
  refine ⟨?_, fun _ => ?_⟩
  · rw [happend]
    unfold enqueueAudio
    dsimp only
    split
    · refine ⟨_, (List.take_append_drop ((ring ++ [framed]).length - audioRingCapacity) _).symm,
        fun _ => .inr ?_⟩
      rw [List.length_drop]
      omega
    · exact ⟨[], rfl, fun h => absurd rfl h⟩
  · have hbound : (enqueueAudio ring framed).length ≤ audioRingCapacity := by
      unfold enqueueAudio
      dsimp only
      split
      · rw [List.length_drop]
        omega
      · omega
    omega

end Loses

/-- A run whose ring loses its oldest frames only: what goes out, with what waits, is what was sent
but for what got lost, in its order. -/
structure Lossy {σ ε : Type} (step : σ → ε → Option σ) (start : σ) (ring : σ → List Data)
    (sent written : Transition σ ε → List Data) (gone : Transition σ ε → Prop) (es : List ε)
    (s : σ) : Prop where
  ordered : ((trace step start es).flatMap written ++ ring s).Sublist
    ((trace step start es).flatMap sent)
  bounded : (ring s).length ≤ audioRingCapacity
  loses : ∀ t ∈ trace step start es, Loses (ring t.pre) (sent t) (written t) (ring t.post) (gone t)

theorem lossy_of_steps {σ ε : Type} {step : σ → ε → Option σ} {start s : σ} {ring : σ → List Data}
    {sent written : Transition σ ε → List Data} {gone : Transition σ ε → Prop} {es : List ε}
    (hstart : ring start = [])
    (hstep : ∀ t, step t.pre t.event = some t.post → Loses (ring t.pre) (sent t) (written t)
      (ring t.post) (gone t))
    (hrun : run step start es = some s) : Lossy step start ring sent written gone es s := by
  refine ⟨?_, ?_, fun t ht => hstep t (step_of_mem_trace ht)⟩
  · have hloses := run_loses (fun _ => True) ring sent written (fun _ _ _ => trivial)
      (fun t ht _ => (hstep t ht).sublist) trivial hrun
    rwa [hstart, List.nil_append] at hloses
  · refine run_invariant (fun s => (ring s).length ≤ audioRingCapacity) (fun _ => True)
      (fun t ht _ hpre => (hstep t ht).bounded hpre) ?_ (fun _ _ => trivial) hrun
    rw [hstart]
    exact Nat.zero_le _

/-! ### The central's ring -/

namespace WriteLink

open WriteEngine

/-- The audio frame that the event sends to a link that takes audio. -/
def audioSentBy (t : Transition WriteLink Event) : List Data :=
  match t.event with
  | .sendAudioFrame payload _ =>
    if t.pre.engine.peer && t.pre.engine.audioWriteTarget then (frame .audioFrame payload).toList
      else []
  | _ => []

/-- The audio frames that the event writes. -/
def audioWrittenBy (t : Transition WriteLink Event) : List Data :=
  (t.pre.react t.event).elim [] fun reaction => writtenAudio reaction.2

/-- The event ends the link. -/
def EndsLink (t : Transition WriteLink Event) : Prop :=
  t.event = .didDisconnectPeripheral ∨ t.event = .poweredOff ∨ t.pre.tearsDown t.event = true

/-- A reaction that has nothing to do with audio. -/
def Mute (e : WriteEngine) (reaction : WriteEngine × List WriteEngine.Effect) : Prop :=
  reaction.1.audioRing = e.audioRing ∧ writtenAudio reaction.2 = []

theorem mute_pump (e : WriteEngine) : Mute e e.pumpWriteQueue := by
  unfold pumpWriteQueue
  split
  · exact ⟨rfl, rfl⟩
  · split <;> exact ⟨rfl, rfl⟩

theorem mute_write (e : WriteEngine) (wire : Data) (size : Nat) :
    Mute e (e.writeFrameToPeer wire size) := by
  unfold writeFrameToPeer
  split
  · exact mute_pump (e.enqueued _)
  · exact ⟨rfl, rfl⟩

theorem mute_advance {e : WriteEngine} {advanced : WriteEngine × List WriteEngine.Effect}
    (h : e.advanceWriteQueue = some advanced) : Mute e advanced := by
  unfold advanceWriteQueue at h
  split at h
  · exact Option.some.inj h ▸ mute_pump e
  · cases h
  · exact Option.some.inj h ▸ mute_pump { e with writeQueue := _ }
  · exact Option.some.inj h ▸ mute_pump { e with writeQueue := _ }

/-- A failure leaves the ring alone unless it ends the link. -/
theorem mute_fail {e : WriteEngine} {error : WriteError} {now : Nat} {canSend : Nat → Bool}
    {reaction : WriteEngine × List WriteEngine.Effect}
    (h : e.didWriteValueFor (some error) now canSend = some reaction) :
    Mute e reaction ∨ (reaction.1.audioRing = [] ∧ reaction.2 = [.cancelPeripheralConnection]) := by
  unfold didWriteValueFor at h
  dsimp only at h
  split at h
  · exact .inr (Option.some.inj h ▸ ⟨rfl, rfl⟩)
  · split at h
    · exact .inl (Option.some.inj h ▸ mute_pump { e with
        writeInFlight := false
        chunkRetriesLeft := some (e.chunkRetriesLeft.getD chunkRetryLimit - 1) })
    · split at h
      · exact .inl (Option.some.inj h ▸ mute_pump { e with
          writeInFlight := false
          chunkRetriesLeft := none
          writeErrorCount := e.writeErrorCount + 1
          writeQueue := e.writeQueue.tail })
      · exact .inr (Option.some.inj h ▸ ⟨rfl, rfl⟩)

theorem writtenAudio_map (frames : List Data) : writtenAudio (frames.map .writeAudio) = frames := by
  rw [writtenAudio, List.filterMap_map]
  exact List.filterMap_some

theorem loses_drain (e : WriteEngine) (limit : Nat) (canSend : Nat → Bool) (gone : Prop) :
    Loses e.audioRing [] (writtenAudio (e.drainAudioRing limit canSend).2)
      (e.drainAudioRing limit canSend).1.audioRing gone := by
  unfold drainAudioRing
  split
  · dsimp only
    rw [writtenAudio_map]
    exact .drain canSend limit e.audioRing gone
  · exact .still _ _

/-- What each step does to the ring. -/
theorem loses_step (t : Transition WriteLink Event) (hstep : step t.pre t.event = some t.post) :
    Loses t.pre.engine.audioRing (audioSentBy t) (audioWrittenBy t) t.post.engine.audioRing
      (EndsLink t) := by
  obtain ⟨reaction, hreact, hengine, htears⟩ := engine_of_step hstep
  rw [hengine, audioWrittenBy, hreact]
  dsimp only [Option.elim_some]
  have hmute (hsent : audioSentBy t = []) (hmute : Mute t.pre.engine reaction) :
      Loses t.pre.engine.audioRing (audioSentBy t) (writtenAudio reaction.2) reaction.1.audioRing
        (EndsLink t) := by
    rw [hsent, hmute.1, hmute.2]
    exact .still _ _
  cases hevent : t.event with
  | didDiscover now =>
    rw [hevent] at hreact
    obtain rfl := Option.some.inj hreact
    refine hmute (by simp [audioSentBy, hevent]) ⟨?_, rfl⟩
    dsimp only
    unfold didDiscover
    split <;> rfl
  | didConnect =>
    rw [hevent] at hreact
    obtain rfl := Option.some.inj hreact
    exact hmute (by simp [audioSentBy, hevent]) ⟨rfl, rfl⟩
  | didFailToConnect =>
    rw [hevent] at hreact
    obtain rfl := Option.some.inj (Option.ite_none_left_eq_some.mp hreact).2
    exact hmute (by simp [audioSentBy, hevent]) ⟨rfl, rfl⟩
  | didDisconnectPeripheral =>
    rw [hevent] at hreact
    obtain rfl := Option.some.inj (Option.ite_none_right_eq_some.mp hreact).2
    rw [show audioSentBy t = [] by simp [audioSentBy, hevent]]
    exact .all _ (.inl hevent)
  | didDiscoverCharacteristicsFor mailbox audio =>
    rw [hevent] at hreact
    obtain rfl := Option.some.inj (Option.ite_none_right_eq_some.mp hreact).2
    exact hmute (by simp [audioSentBy, hevent]) ⟨rfl, rfl⟩
  | poweredOff =>
    rw [hevent] at hreact
    obtain rfl := Option.some.inj hreact
    rw [show audioSentBy t = [] by simp [audioSentBy, hevent]]
    exact .all _ (.inr (.inl hevent))
  | writeFrameToPeer type payload size =>
    rw [hevent] at hreact
    obtain ⟨wire, _, rfl⟩ := Option.map_eq_some_iff.mp hreact
    exact hmute (by simp [audioSentBy, hevent]) (mute_write _ wire size)
  | didWriteValueFor error now canSend =>
    rw [hevent] at hreact
    obtain ⟨_, hresponse⟩ := Option.ite_none_left_eq_some.mp hreact
    have hsent : audioSentBy t = [] := by simp [audioSentBy, hevent]
    cases error with
    | none =>
      obtain ⟨advanced, hadvanced, rfl⟩ := Option.map_eq_some_iff.mp hresponse
      obtain ⟨hring, hquiet⟩ := mute_advance hadvanced
      have hloses := loses_drain advanced.1 audioDrainPerReady canSend (EndsLink t)
      rw [hring] at hloses
      rw [hsent]
      dsimp only
      rw [writtenAudio, List.filterMap_append]
      rw [writtenAudio] at hquiet
      rw [hquiet]
      exact hloses
    | some error =>
      rcases mute_fail hresponse with hquiet | ⟨hring, heffects⟩
      · exact hmute hsent hquiet
      · have htorn : t.pre.tearsDown t.event = true := by
          rw [htears, heffects]
          rfl
        rw [hsent, hring, heffects]
        exact .all _ (.inr (.inr htorn))
  | sendAudioFrame payload canSend =>
    rw [hevent] at hreact
    obtain ⟨framed, hframed, rfl⟩ := Option.map_eq_some_iff.mp hreact
    rw [audioSentBy, hevent]
    dsimp only
    unfold sendAudioFrame
    split
    · rename_i haddressable
      rw [hframed, drainAudioRing, if_pos haddressable]
      dsimp only
      rw [writtenAudio_map]
      exact .send framed canSend 1 _ _
    · exact .still _ _
  | peripheralIsReady canSend =>
    rw [hevent] at hreact
    obtain rfl := Option.some.inj hreact
    rw [show audioSentBy t = [] by simp [audioSentBy, hevent]]
    exact loses_drain _ audioDrainPerReady canSend _

/-! ### The central's reliable writes -/

/-- The chunks that the event writes. -/
def writtenBy (t : Transition WriteLink Event) : List Data :=
  (t.pre.react t.event).elim [] fun reaction => written reaction.2

/-- The event sends no audio frame. -/
def Event.reliable : Event → Bool
  | .sendAudioFrame .. => false
  | _ => true

/-- Two engines that are the same but for their rings. -/
def Alike (e e' : WriteEngine) : Prop := e' = { e with audioRing := e'.audioRing }

/-- Two reactions that are the same but for audio. -/
def AlikeReaction (reaction reaction' : WriteEngine × List WriteEngine.Effect) : Prop :=
  Alike reaction.1 reaction'.1 ∧ written reaction'.2 = written reaction.2

section Alike

variable {e e' : WriteEngine}

theorem alike_pump (h : Alike e e') : AlikeReaction e.pumpWriteQueue e'.pumpWriteQueue := by
  obtain ⟨ring, rfl⟩ : ∃ ring, e' = { e with audioRing := ring } := ⟨_, h⟩
  unfold pumpWriteQueue linked
  dsimp only
  split
  · exact ⟨rfl, rfl⟩
  · split <;> exact ⟨rfl, rfl⟩

theorem alike_write (h : Alike e e') (wire : Data) (size : Nat) :
    AlikeReaction (e.writeFrameToPeer wire size) (e'.writeFrameToPeer wire size) := by
  obtain ⟨ring, rfl⟩ : ∃ ring, e' = { e with audioRing := ring } := ⟨_, h⟩
  unfold writeFrameToPeer linked
  dsimp only
  split
  · exact alike_pump rfl
  · exact ⟨rfl, rfl⟩

theorem alike_drain (h : Alike e e') (limit limit' : Nat) (canSend canSend' : Nat → Bool) :
    AlikeReaction (e.drainAudioRing limit canSend) (e'.drainAudioRing limit' canSend') := by
  obtain ⟨⟨ring, hring⟩, hwritten⟩ := @drainAudioRing_ring e limit canSend
  obtain ⟨⟨ring', hring'⟩, hwritten'⟩ := @drainAudioRing_ring e' limit' canSend'
  refine ⟨?_, hwritten'.trans hwritten.symm⟩
  rw [hring, hring', Alike, h]

theorem alike_advance (h : Alike e e') {advanced : WriteEngine × List WriteEngine.Effect}
    (hadvanced : e.advanceWriteQueue = some advanced) :
    ∃ advanced', e'.advanceWriteQueue = some advanced' ∧ AlikeReaction advanced advanced' := by
  obtain ⟨ring, rfl⟩ : ∃ ring, e' = { e with audioRing := ring } := ⟨_, h⟩
  unfold advanceWriteQueue at hadvanced ⊢
  dsimp only
  split at hadvanced
  · exact ⟨_, rfl, Option.some.inj hadvanced ▸ alike_pump rfl⟩
  · cases hadvanced
  · exact ⟨_, rfl, Option.some.inj hadvanced ▸ alike_pump rfl⟩
  · exact ⟨_, rfl, Option.some.inj hadvanced ▸ alike_pump rfl⟩

theorem alike_respond (h : Alike e e') {error : Option WriteError} {now : Nat}
    {canSend : Nat → Bool} {reaction : WriteEngine × List WriteEngine.Effect}
    (hreaction : e.didWriteValueFor error now canSend = some reaction) :
    ∃ reaction', e'.didWriteValueFor error now canSend = some reaction' ∧
    AlikeReaction reaction reaction' := by
  obtain ⟨ring, rfl⟩ : ∃ ring, e' = { e with audioRing := ring } := ⟨_, h⟩
  cases error with
  | none =>
    obtain ⟨advanced, hadvanced, rfl⟩ := Option.map_eq_some_iff.mp hreaction
    obtain ⟨advanced', hadvanced', halike, hwritten⟩ := @alike_advance
      { e with
        writeInFlight := false
        writeErrorCount := 0
        chunkRetriesLeft := none
        reconnectAttempts := 0 }
      { e with
        audioRing := ring
        writeInFlight := false
        writeErrorCount := 0
        chunkRetriesLeft := none
        reconnectAttempts := 0 } rfl advanced hadvanced
    obtain ⟨hdrained, hquiet⟩ :=
      alike_drain halike audioDrainPerReady audioDrainPerReady canSend canSend
    refine ⟨_, Option.map_eq_some_iff.mpr ⟨advanced', hadvanced', rfl⟩, hdrained, ?_⟩
    simp only [written, List.filterMap_append] at hwritten hquiet ⊢
    rw [hwritten, hquiet]
  | some error =>
    unfold didWriteValueFor at hreaction ⊢
    dsimp only at hreaction ⊢
    by_cases hdead : error.linkDead = true
    · rw [if_pos hdead] at hreaction ⊢
      obtain rfl := Option.some.inj hreaction
      exact ⟨_, rfl, rfl, rfl⟩
    rw [if_neg hdead] at hreaction ⊢
    by_cases hretry : 0 < e.chunkRetriesLeft.getD chunkRetryLimit
    · rw [if_pos hretry] at hreaction ⊢
      obtain rfl := Option.some.inj hreaction
      exact ⟨_, rfl, alike_pump rfl⟩
    rw [if_neg hretry] at hreaction ⊢
    by_cases hstrike : e.writeErrorCount + 1 < writeErrorTeardownThreshold
    · rw [if_pos hstrike] at hreaction ⊢
      obtain rfl := Option.some.inj hreaction
      exact ⟨_, rfl, alike_pump rfl⟩
    · rw [if_neg hstrike] at hreaction ⊢
      obtain rfl := Option.some.inj hreaction
      exact ⟨_, rfl, rfl, rfl⟩

end Alike

/-- Two links that are the same but for their rings. -/
structure AlikeLinks (l l' : WriteLink) : Prop where
  engine : Alike l.engine l'.engine
  connected : l'.connected = l.connected
  outstanding : l'.outstanding = l.outstanding

theorem alike_react {l l' : WriteLink} (h : AlikeLinks l l') {event : Event}
    (hreliable : event.reliable = true)
    {reaction : WriteEngine × List WriteEngine.Effect} (hreact : l.react event = some reaction) :
    ∃ reaction', l'.react event = some reaction' ∧ AlikeReaction reaction reaction' := by
  obtain ⟨e, connected, outstanding⟩ := l
  obtain ⟨e', connected', outstanding'⟩ := l'
  obtain ⟨halike, rfl, rfl⟩ := h
  dsimp only at halike
  obtain ⟨ring, rfl⟩ : ∃ ring, e' = { e with audioRing := ring } := ⟨_, halike⟩
  cases event with
  | didDiscover now =>
    obtain rfl := Option.some.inj hreact
    refine ⟨_, rfl, ?_, rfl⟩
    dsimp only [didDiscover]
    split <;> rfl
  | didConnect | poweredOff =>
    obtain rfl := Option.some.inj hreact
    exact ⟨_, rfl, rfl, rfl⟩
  | didFailToConnect =>
    obtain ⟨hdown, hreact⟩ := Option.ite_none_left_eq_some.mp hreact
    obtain rfl := Option.some.inj hreact
    exact ⟨_, if_neg hdown, rfl, rfl⟩
  | didDisconnectPeripheral | didDiscoverCharacteristicsFor =>
    obtain ⟨hup, hreact⟩ := Option.ite_none_right_eq_some.mp hreact
    obtain rfl := Option.some.inj hreact
    exact ⟨_, if_pos hup, rfl, rfl⟩
  | writeFrameToPeer type payload size =>
    obtain ⟨wire, hwire, rfl⟩ := Option.map_eq_some_iff.mp hreact
    exact ⟨_, Option.map_eq_some_iff.mpr ⟨wire, hwire, rfl⟩, alike_write halike wire size⟩
  | didWriteValueFor error now canSend =>
    obtain ⟨hout, hreact⟩ := Option.ite_none_left_eq_some.mp hreact
    obtain ⟨reaction', hreact', halike⟩ := alike_respond halike hreact
    exact ⟨reaction', (if_neg hout).trans hreact', halike⟩
  | sendAudioFrame payload canSend => cases hreliable
  | peripheralIsReady canSend =>
    obtain rfl := Option.some.inj hreact
    exact ⟨_, rfl, alike_drain halike _ _ canSend canSend⟩

/-- The chunks are written as if there was no audio. -/
theorem reliable_same {es : List Event} {l : WriteLink} (hrun : run step {} es = some l) :
    ∃ l', run step {} (es.filter Event.reliable) = some l' ∧ AlikeLinks l l' ∧
      (trace step {} (es.filter Event.reliable)).flatMap writtenBy =
      (trace step {} es).flatMap writtenBy := by
  refine run_filter_output writtenBy writtenBy AlikeLinks (fun _ => True)
    (fun t u hstep _ hreliable halike => ?_)
    (fun t u hstep _ haudio halike => ?_) ⟨rfl, rfl, rfl⟩ (fun _ _ => trivial) hrun
  · obtain ⟨reaction, hreact, hpost⟩ := Option.map_eq_some_iff.mp hstep
    obtain ⟨reaction', hreact', hengine, hwritten⟩ := alike_react halike hreliable hreact
    refine ⟨_, Option.map_eq_some_iff.mpr ⟨reaction', hreact', rfl⟩, hpost ▸ ⟨hengine, ?_, ?_⟩, ?_⟩
    · cases t.event <;> first | rfl | exact halike.connected
    · have hunanswered : u.unanswered t.event = t.pre.unanswered t.event := by
        cases t.event <;> simp [unanswered, halike.outstanding]
      rw [hunanswered, hwritten]
    · rw [writtenBy, writtenBy, hreact', hreact]
      exact hwritten
  · obtain ⟨pre, event, post⟩ := t
    dsimp only at hstep halike ⊢
    cases event with
    | sendAudioFrame payload canSend =>
      obtain ⟨reaction, hreact, rfl⟩ := Option.map_eq_some_iff.mp hstep
      obtain ⟨framed, _, hframed⟩ := Option.map_eq_some_iff.mp hreact
      obtain ⟨⟨ring, hring⟩, hquiet⟩ := @sendAudioFrame_ring pre.engine framed canSend
      rw [hframed] at hring hquiet
      refine ⟨⟨?_, halike.connected, ?_⟩, ?_⟩
      · rw [hring, Alike, halike.engine]
      · rw [hquiet, List.append_nil]
        exact halike.outstanding
      · rw [writtenBy, hreact]
        exact hquiet
    | _ => cases haudio

end WriteLink

end BLEMeshTransport

end AeroNyra
