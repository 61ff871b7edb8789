import AeroNyra.Transport.AudioRings
import AeroNyra.Transport.NotifyQueue

/-! The peripheral's side of the links to its centrals: the queue of notifications, and beside it a
ring of audio frames for each central. -/

namespace AeroNyra

namespace BLEMeshTransport

open Interleave

/-- What the peripheral keeps for its centrals, between a start and a stop; a central without a
buffer has an empty ring. -/
structure NotifyLinks where
  notify : NotifyQueue := {}
  /-- The audio characteristic is published. -/
  audioMailbox : Bool := false
  audioNotifyRing : UUID → List Data := fun _ => []

/-- What `updateValue` accepted: slices for all subscribers, and audio frames for single ones. -/
structure Updates where
  slices : List Data := []
  audio : UUID → List Data := fun _ => []

namespace NotifyLinks

variable (l : NotifyLinks)

def enqueueAudioNotify (framed : Data) (central : UUID) : NotifyLinks :=
  { l with
    audioNotifyRing := fun key =>
      if key = central then enqueueAudio (l.audioNotifyRing key) framed else l.audioNotifyRing key }

/-- Up to `limit` frames of each ring; `updateValue key i` is the answer to the `i`-th frame for
`key`. -/
def drainAudioNotifyRing (limit : Nat) (updateValue : UUID → Nat → Bool) :
    NotifyLinks × (UUID → List Data) :=
  if l.audioMailbox then
    ({ l with audioNotifyRing := fun key =>
      (drainRing (updateValue key) limit (l.audioNotifyRing key)).2 },
      fun key => (drainRing (updateValue key) limit (l.audioNotifyRing key)).1)
  else (l, fun _ => [])

/-- A frame whose length does not fit its header traps. -/
def sendAudioNotify (payload : Data) (central : UUID) (updateValue : UUID → Nat → Bool) :
    Option (NotifyLinks × (UUID → List Data)) :=
  if l.audioMailbox then
    (frame .audioFrame payload).map fun framed =>
      (l.enqueueAudioNotify framed central).drainAudioNotifyRing 1 updateValue
  else some (l, fun _ => [])

inductive Event
  /-- The state of the manager, which publishes both characteristics when it is powered on. -/
  | peripheralManagerDidUpdateState (poweredOn : Bool)
  | didUnsubscribeFrom (central : UUID)
  | notifySubscribers (frame : Data) (updateValue : Nat → Bool)
  | sendAudioNotify (payload : Data) (central : UUID) (updateValue : UUID → Nat → Bool)
  /-- The audio of each central comes before the slices. -/
  | peripheralManagerIsReady (updateAudio : UUID → Nat → Bool) (updateValue : Nat → Bool)

/-- The links after the event, and what went out; none when it traps. -/
def react : Event → Option (NotifyLinks × Updates)
  | .peripheralManagerDidUpdateState true => some ({ l with
      notify := { l.notify with mailbox := true }
      audioMailbox := true }, {})
  | .peripheralManagerDidUpdateState false => some ({}, {})
  | .didUnsubscribeFrom central => some ({ l with
      audioNotifyRing := fun key => if key = central then [] else l.audioNotifyRing key }, {})
  | .notifySubscribers frame updateValue =>
    let sent := l.notify.notifySubscribers frame updateValue
    some ({ l with notify := sent.1 }, { slices := sent.2 })
  | .sendAudioNotify payload central updateValue =>
    (l.sendAudioNotify payload central updateValue).map fun sent => (sent.1, { audio := sent.2 })
  | .peripheralManagerIsReady updateAudio updateValue =>
    let drained := l.drainAudioNotifyRing audioDrainPerReady updateAudio
    let sent := drained.1.notify.peripheralManagerIsReady updateValue
    some ({ drained.1 with notify := sent.1 }, ⟨sent.2, drained.2⟩)

def step (event : Event) : Option NotifyLinks := (l.react event).map Prod.fst

/-- What the event lets out. -/
def updatesBy (t : Transition NotifyLinks Event) : Updates := (t.pre.react t.event).elim {} Prod.snd

/-- The audio frame that the event sends to the central, if audio can be sent. -/
def audioSentTo (central : UUID) (t : Transition NotifyLinks Event) : List Data :=
  match t.event with
  | .sendAudioNotify payload key _ =>
    if t.pre.audioMailbox && key == central then (frame .audioFrame payload).toList else []
  | _ => []

/-- The event ends the link of the central. -/
def EndsLink (central : UUID) (t : Transition NotifyLinks Event) : Prop :=
  t.event = .peripheralManagerDidUpdateState false ∨ t.event = .didUnsubscribeFrom central

/-! ### The rings -/

theorem loses_drain (limit : Nat) (updateValue : UUID → Nat → Bool) (key : UUID) (gone : Prop) :
    Loses (l.audioNotifyRing key) [] ((l.drainAudioNotifyRing limit updateValue).2 key)
      ((l.drainAudioNotifyRing limit updateValue).1.audioNotifyRing key) gone := by
  unfold drainAudioNotifyRing
  split
  · exact .drain _ _ _ _
  · exact .still _ _

theorem loses_send {framed : Data} (hup : l.audioMailbox = true) (central : UUID)
    (updateValue : UUID → Nat → Bool) (key : UUID) (gone : Prop) :
    Loses (l.audioNotifyRing key) (if central = key then [framed] else [])
      (((l.enqueueAudioNotify framed central).drainAudioNotifyRing 1 updateValue).2 key)
      (((l.enqueueAudioNotify framed central).drainAudioNotifyRing 1
        updateValue).1.audioNotifyRing key) gone := by
  unfold drainAudioNotifyRing enqueueAudioNotify
  rw [if_pos hup]
  by_cases heq : key = central
  · subst heq
    simp only [↓reduceIte]
    exact .send _ _ _ _ _
  · simp only [heq, Ne.symm heq, ↓reduceIte]
    exact .drain _ _ _ _

/-- What each step does to the ring of a central. -/
theorem loses_step (central : UUID) (t : Transition NotifyLinks Event)
    (hstep : step t.pre t.event = some t.post) :
    Loses (t.pre.audioNotifyRing central) (audioSentTo central t) ((updatesBy t).audio central)
      (t.post.audioNotifyRing central) (EndsLink central t) := by
  obtain ⟨l, event, post⟩ := t
  obtain ⟨⟨l', updates⟩, hreact, rfl⟩ := Option.map_eq_some_iff.mp hstep
  dsimp only at hreact
  rw [updatesBy, hreact]
  dsimp only [Option.elim_some]
  cases event with
  | peripheralManagerDidUpdateState poweredOn =>
    cases poweredOn with
    | true =>
      obtain ⟨rfl, rfl⟩ := Prod.mk.inj (Option.some.inj hreact)
      exact .still _ _
    | false =>
      obtain ⟨rfl, rfl⟩ := Prod.mk.inj (Option.some.inj hreact)
      exact .all _ (.inl rfl)
  | didUnsubscribeFrom key =>
    obtain ⟨rfl, rfl⟩ := Prod.mk.inj (Option.some.inj hreact)
    dsimp only
    split
    · rename_i heq
      subst heq
      exact .all _ (.inr rfl)
    · exact .still _ _
  | notifySubscribers frame updateValue =>
    obtain ⟨rfl, rfl⟩ := Prod.mk.inj (Option.some.inj hreact)
    exact .still _ _
  | sendAudioNotify payload key updateValue =>
    obtain ⟨sent, hsent, heq⟩ := Option.map_eq_some_iff.mp hreact
    obtain ⟨rfl, rfl⟩ := Prod.mk.inj heq
    unfold sendAudioNotify at hsent
    split at hsent
    · rename_i hup
      obtain ⟨framed, hframed, rfl⟩ := Option.map_eq_some_iff.mp hsent
      simp only [audioSentTo, hup, hframed, Bool.true_and, beq_iff_eq, Option.toList_some]
      exact l.loses_send hup key updateValue central _
    · rename_i hup
      obtain rfl := Option.some.inj hsent
      simp only [audioSentTo, hup, Bool.false_and, Bool.false_eq_true, ↓reduceIte]
      exact .still _ _
  | peripheralManagerIsReady updateAudio updateValue =>
    obtain ⟨rfl, rfl⟩ := Prod.mk.inj (Option.some.inj hreact)
    exact l.loses_drain _ updateAudio central _

/-! ### The slices -/

/-- The event sends no audio frame. -/
def Event.reliable : Event → Bool
  | .sendAudioNotify .. => false
  | _ => true

/-- A drain leaves the queue alone. -/
@[simp] theorem drainAudioNotifyRing_notify (limit : Nat) (updateValue : UUID → Nat → Bool) :
    (l.drainAudioNotifyRing limit updateValue).1.notify = l.notify := by
  unfold drainAudioNotifyRing
  split <;> rfl

theorem react_notify {l l' : NotifyLinks} (h : l'.notify = l.notify) {event : Event}
    (hreliable : event.reliable = true) {reaction : NotifyLinks × Updates}
    (hreact : l.react event = some reaction) :
    ∃ reaction', l'.react event = some reaction' ∧ reaction'.1.notify = reaction.1.notify ∧
      reaction'.2.slices = reaction.2.slices := by
  cases event with
  | peripheralManagerDidUpdateState poweredOn =>
    cases poweredOn with
    | true =>
      obtain rfl := Option.some.inj hreact
      exact ⟨_, rfl, by rw [h], rfl⟩
    | false =>
      obtain rfl := Option.some.inj hreact
      exact ⟨_, rfl, rfl, rfl⟩
  | didUnsubscribeFrom central =>
    obtain rfl := Option.some.inj hreact
    exact ⟨_, rfl, h, rfl⟩
  | notifySubscribers frame updateValue =>
    obtain rfl := Option.some.inj hreact
    exact ⟨_, rfl, by rw [h], by rw [h]⟩
  | sendAudioNotify payload central updateValue => cases hreliable
  | peripheralManagerIsReady updateAudio updateValue =>
    obtain rfl := Option.some.inj hreact
    exact ⟨_, rfl, by simp [h], by simp [h]⟩

/-- The slices go out as if there was no audio. -/
theorem slices_same {es : List Event} {l : NotifyLinks} (hrun : run step {} es = some l) :
    ∃ l', run step {} (es.filter Event.reliable) = some l' ∧ l'.notify = l.notify ∧
      (trace step {} (es.filter Event.reliable)).flatMap (fun t => (updatesBy t).slices) =
        (trace step {} es).flatMap fun t => (updatesBy t).slices := by
  refine run_filter_output (fun t => (updatesBy t).slices) (fun t => (updatesBy t).slices)
    (fun l l' => l'.notify = l.notify) (fun _ => True) (fun t u hstep _ hreliable halike => ?_)
    (fun t u hstep _ haudio halike => ?_) rfl (fun _ _ => trivial) hrun
  · obtain ⟨reaction, hreact, hpost⟩ := Option.map_eq_some_iff.mp hstep
    obtain ⟨reaction', hreact', hnotify, hslices⟩ := react_notify halike hreliable hreact
    refine ⟨_, Option.map_eq_some_iff.mpr ⟨reaction', hreact', rfl⟩, hpost ▸ hnotify, ?_⟩
    rw [updatesBy, updatesBy, hreact', hreact]
    exact hslices
  · obtain ⟨pre, event, post⟩ := t
    dsimp only at hstep halike ⊢
    cases event with
    | sendAudioNotify payload central updateValue =>
      obtain ⟨reaction, hreact, rfl⟩ := Option.map_eq_some_iff.mp hstep
      obtain ⟨sent, hsent, rfl⟩ := Option.map_eq_some_iff.mp hreact
      have hkept : sent.1.notify = pre.notify := by
        unfold NotifyLinks.sendAudioNotify at hsent
        split at hsent
        · obtain ⟨framed, _, rfl⟩ := Option.map_eq_some_iff.mp hsent
          exact drainAudioNotifyRing_notify _ 1 updateValue
        · rw [← Option.some.inj hsent]
      refine ⟨halike.trans hkept.symm, ?_⟩
      rw [updatesBy, hreact]
      rfl
    | _ => cases haudio

end NotifyLinks

/-! ### Both roles -/

/-- Whatever is sent, answered and accepted on the link to a peripheral and on those to the
centrals. -/
theorem audio_lossy {writes : List WriteLink.Event} {notifies : List NotifyLinks.Event}
    {l : WriteLink} {n : NotifyLinks} (hwrites : run WriteLink.step {} writes = some l)
    (hnotifies : run NotifyLinks.step {} notifies = some n) :
    (Lossy WriteLink.step {} (·.engine.audioRing) WriteLink.audioSentBy WriteLink.audioWrittenBy
        WriteLink.EndsLink writes l ∧
      ∃ l', run WriteLink.step {} (writes.filter WriteLink.Event.reliable) = some l' ∧
      l.AlikeLinks l' ∧
        (trace WriteLink.step {} (writes.filter WriteLink.Event.reliable)).flatMap
            WriteLink.writtenBy =
          (trace WriteLink.step {} writes).flatMap WriteLink.writtenBy) ∧
    (∀ central, Lossy NotifyLinks.step {} (·.audioNotifyRing central)
      (NotifyLinks.audioSentTo central)
        (fun t => (NotifyLinks.updatesBy t).audio central)
        (NotifyLinks.EndsLink central) notifies n) ∧
      ∃ n', run NotifyLinks.step {} (notifies.filter NotifyLinks.Event.reliable) = some n' ∧
        n'.notify = n.notify ∧
        (trace NotifyLinks.step {} (notifies.filter NotifyLinks.Event.reliable)).flatMap
            (fun t => (NotifyLinks.updatesBy t).slices) =
          (trace NotifyLinks.step {} notifies).flatMap fun t => (NotifyLinks.updatesBy t).slices :=
  ⟨⟨lossy_of_steps rfl WriteLink.loses_step hwrites, WriteLink.reliable_same hwrites⟩,
    fun central => lossy_of_steps rfl (NotifyLinks.loses_step central) hnotifies,
      NotifyLinks.slices_same hnotifies⟩

/-- Ten frames for a peripheral that takes none of them until a chunk is acknowledged. -/
def writeBurst : List WriteLink.Event :=
  WriteLink.linkUp ++ ([.writeFrameToPeer .bundle [7] 20] : List WriteLink.Event) ++
    ((List.range 10).map (fun i => .sendAudioFrame [UInt8.ofNat i] fun _ => false) :
      List WriteLink.Event) ++
    ([.didWriteValueFor none 1 fun _ => true] : List WriteLink.Event)

/-- Ten frames for one of two centrals, behind a frame that is notified. -/
def notifyBurst : List NotifyLinks.Event :=
  ([.peripheralManagerDidUpdateState true, .notifySubscribers [1, 2, 3] fun _ => false] :
    List NotifyLinks.Event) ++
    ((List.range 10).map (fun i => .sendAudioNotify [UInt8.ofNat i] 4 fun _ _ => false) :
      List NotifyLinks.Event) ++
    ([.sendAudioNotify [8] 5 fun key _ => key == 5,
      .peripheralManagerIsReady (fun _ _ => true) fun _ => true, .didUnsubscribeFrom 4] :
      List NotifyLinks.Event)

/-- The two oldest frames are lost in both. -/
theorem audio_lossy_burst :
    (∃ l n, run WriteLink.step {} writeBurst = some l ∧
      run NotifyLinks.step {} notifyBurst = some n ∧
      Lossy WriteLink.step {} (·.engine.audioRing) WriteLink.audioSentBy WriteLink.audioWrittenBy
        WriteLink.EndsLink writeBurst l ∧
      Lossy NotifyLinks.step {} (·.audioNotifyRing 4) (NotifyLinks.audioSentTo 4)
        (fun t => (NotifyLinks.updatesBy t).audio 4) (NotifyLinks.EndsLink 4) notifyBurst n) ∧
    (trace WriteLink.step {} writeBurst).flatMap WriteLink.audioWrittenBy =
    [[4, 0, 0, 0, 1, 2], [4, 0, 0, 0, 1, 3]] ∧
    (trace NotifyLinks.step {} notifyBurst).flatMap (fun t => (NotifyLinks.updatesBy t).audio 4) =
      [[4, 0, 0, 0, 1, 2], [4, 0, 0, 0, 1, 3]] :=
  ⟨⟨_, _, rfl, rfl, (@audio_lossy writeBurst notifyBurst _ _ rfl rfl).1.1,
    (@audio_lossy writeBurst notifyBurst _ _ rfl rfl).2.1 4⟩, by decide +kernel,
    by decide +kernel⟩

end BLEMeshTransport

end AeroNyra
