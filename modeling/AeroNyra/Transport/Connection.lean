import AeroNyra.Transport.DeadLink
import AeroNyra.Transport.OneInFlight

/-! The mailbox of a connection.  From the discovery of the mailbox characteristic on, and until
the connection ends, the engine does to its queue what the mailbox of one link does, so that what
holds of the frames of a mailbox holds of those that the engine writes. -/

namespace AeroNyra

namespace BLEMeshTransport

open Interleave

namespace WriteLink

open WriteEngine

/-- The queue of an engine, with the writes that have no response. -/
def mailboxOf (e : WriteEngine) (outstanding : List Data) : WriteQueue where
  linked := e.linked
  writeQueue := e.writeQueue
  writeInFlight := outstanding.head?
  chunkRetriesLeft := e.chunkRetriesLeft
  writeErrorCount := e.writeErrorCount

def mailbox (l : WriteLink) : WriteQueue := mailboxOf l.engine l.outstanding

variable {e : WriteEngine} {outstanding : List Data}

/-! ### The operations -/

/-- The ring of audio frames is none of the mailbox's. -/
theorem mailboxOf_ring {e' : WriteEngine} {effects : List WriteEngine.Effect}
    (h : (∃ ring, e' = { e with audioRing := ring }) ∧ written effects = []) :
    mailboxOf e' (outstanding ++ written effects) = mailboxOf e outstanding := by
  obtain ⟨⟨ring, rfl⟩, hwritten⟩ := h
  rw [hwritten, List.append_nil]
  rfl

theorem mailboxOf_pump (hbusy : e.writeInFlight = outstanding.head?.isSome) :
    mailboxOf e.pumpWriteQueue.1 (outstanding ++ written e.pumpWriteQueue.2) =
      (mailboxOf e outstanding).pumpWriteQueue := by
  unfold WriteEngine.pumpWriteQueue WriteQueue.pumpWriteQueue
  rw [hbusy]
  show _ = if outstanding.head?.isSome || !e.linked then _ else _
  split
  · simp [written]
  · rename_i hidle
    have hnone : outstanding = [] := by
      cases outstanding with
      | nil => rfl
      | cons chunk rest => simp at hidle
    subst hnone
    cases hqueue : e.writeQueue with
    | nil => simp [mailboxOf, hqueue, written]
    | cons frame frames => cases frame <;> simp [mailboxOf, hqueue, written, linked]

theorem mailboxOf_writeFrameToPeer (hbusy : e.writeInFlight = outstanding.head?.isSome)
    (wire : Data) (size : Nat) :
    mailboxOf (e.writeFrameToPeer wire size).1
      (outstanding ++ written (e.writeFrameToPeer wire size).2) =
      ((mailboxOf e outstanding).writeFrameToPeer wire size).1 := by
  unfold WriteEngine.writeFrameToPeer WriteQueue.writeFrameToPeer
  show _ = (if e.linked then _ else _ : WriteQueue × Bool).1
  split
  · exact @mailboxOf_pump (e.enqueued _) outstanding hbusy
  · simp [written]

theorem mailboxOf_advanceWriteQueue (hidle : e.writeInFlight = false)
    {advanced : WriteEngine × List WriteEngine.Effect} (h : e.advanceWriteQueue = some advanced) :
    (mailboxOf e []).advanceWriteQueue = some (mailboxOf advanced.1 (written advanced.2)) := by
  have hpump (queue : List (List Data)) :=
    @mailboxOf_pump { e with writeQueue := queue } [] hidle
  have hsame : (mailboxOf e []).writeQueue = e.writeQueue := rfl
  unfold WriteEngine.advanceWriteQueue at h
  unfold WriteQueue.advanceWriteQueue
  rw [hsame]
  rcases hqueue : e.writeQueue with _ | ⟨_ | ⟨chunk, _ | ⟨second, chunks⟩⟩, frames⟩ <;>
    rw [hqueue] at h
  · obtain rfl := Option.some.inj h
    exact congrArg some (@mailboxOf_pump e [] hidle).symm
  · cases h
  · obtain rfl := Option.some.inj h
    exact congrArg some (hpump frames).symm
  · obtain rfl := Option.some.inj h
    exact congrArg some (hpump ((second :: chunks) :: frames)).symm

/-- A response to the one write. -/
theorem mailboxOf_didWriteValueFor {error : Option WriteError} {now : Nat} {canSend : Nat → Bool}
    {reaction : WriteEngine × List WriteEngine.Effect}
    (h : e.didWriteValueFor error now canSend = some reaction) :
    (mailboxOf e outstanding).didWriteValueFor error =
      some (mailboxOf reaction.1 (written reaction.2)) := by
  cases error with
  | none =>
    obtain ⟨advanced, hadvanced, rfl⟩ := Option.map_eq_some_iff.mp h
    have hring := @drainAudioRing_ring advanced.1 audioDrainPerReady canSend
    have hdrained := @mailboxOf_ring _ (written advanced.2) _ _ hring
    refine (mailboxOf_advanceWriteQueue rfl hadvanced).trans ?_
    rw [← hdrained]
    simp only [written, List.filterMap_append]
  | some error =>
    unfold WriteEngine.didWriteValueFor at h
    unfold WriteQueue.didWriteValueFor
    dsimp only at h ⊢
    split at h
    · rename_i hdead
      obtain rfl := Option.some.inj h
      exact if_pos hdead
    · rename_i halive
      refine (if_neg halive).trans ?_
      split at h
      · rename_i hretries
        obtain rfl := Option.some.inj h
        have hpump := @mailboxOf_pump { e with
          writeInFlight := false
          chunkRetriesLeft := some (e.chunkRetriesLeft.getD chunkRetryLimit - 1) } [] rfl
        exact (if_pos hretries).trans (congrArg some hpump.symm)
      · rename_i hretries
        refine (if_neg hretries).trans ?_
        split at h
        · rename_i hfew
          obtain rfl := Option.some.inj h
          have hpump := @mailboxOf_pump { e with
            writeInFlight := false
            chunkRetriesLeft := none
            writeErrorCount := e.writeErrorCount + 1
            writeQueue := e.writeQueue.tail } [] rfl
          exact (if_pos hfew).trans (congrArg some hpump.symm)
        · rename_i hmany
          obtain rfl := Option.some.inj h
          exact if_neg hmany

/-! ### Within a connection -/

/-- What happens to the mailbox. -/
def Event.toMailbox : Event → Option MailboxLink.Event
  | .writeFrameToPeer type payload maximumWriteValueLength =>
    some (.writeFrameToPeer type payload maximumWriteValueLength)
  | .didWriteValueFor error .. => some (.didWriteValueFor error)
  | _ => none

/-- Neither the connection nor what is discovered changes. -/
def Event.ofConnection : Event → Bool
  | .writeFrameToPeer .. | .didWriteValueFor .. | .sendAudioFrame .. | .peripheralIsReady .. => true
  | _ => false

variable {l l' : WriteLink} {past : List (Transition WriteLink Event)}

/-- What is in flight is what has no response. -/
theorem Driven.inFlight (h : Driven past l) :
    l.engine.writeInFlight = l.outstanding.head?.isSome := by
  have hflight := h.flight
  unfold Flight at hflight
  split at hflight
  · rename_i hbusy
    obtain ⟨_, chunk, _, _, _, hout⟩ := hflight
    rw [hbusy, hout]
    rfl
  · rename_i hidle
    rw [hflight.2]
    exact Bool.eq_false_iff.mpr hidle

theorem mailbox_step {event : Event} (h : Driven past l) (hevent : event.ofConnection)
    (hstep : l.step event = some l') {c : MailboxLink} (hqueue : c.queue = l.mailbox) :
    ∃ c', run MailboxLink.step c event.toMailbox.toList = some c' ∧ c'.queue = l'.mailbox := by
  obtain ⟨reaction, hreact, rfl⟩ := step_eq hstep
  cases event with
  | writeFrameToPeer type payload size =>
    obtain ⟨wire, hframe, rfl⟩ := Option.map_eq_some_iff.mp hreact
    refine ⟨{ c with queue := (c.queue.writeFrameToPeer wire size).1 }, ?_, ?_⟩
    · simp [Event.toMailbox, run, MailboxLink.step, hframe]
    · rw [hqueue]
      exact (mailboxOf_writeFrameToPeer h.inFlight wire size).symm
  | didWriteValueFor error now canSend =>
    obtain ⟨hout, hreaction⟩ := Option.ite_none_left_eq_some.mp hreact
    obtain ⟨_, chunk, _, _, _, houtstanding⟩ := h.head hout
    have hflight : c.queue.writeInFlight = some chunk := by
      rw [hqueue]
      exact congrArg List.head? houtstanding
    have hdid := @mailboxOf_didWriteValueFor _ l.outstanding _ _ _ _ hreaction
    have hafter : l.unanswered (.didWriteValueFor error now canSend) ++ written reaction.2 =
        written reaction.2 := by
      show l.outstanding.tail ++ _ = _
      rw [houtstanding]
      rfl
    have hc : c.queue.didWriteValueFor error =
      some (mailboxOf reaction.1 (written reaction.2)) := by
      rw [hqueue]
      exact hdid
    dsimp only [mailbox]
    rw [hafter]
    cases error <;>
      exact ⟨_, by simp [Event.toMailbox, run, MailboxLink.step, hflight, hc]; rfl, rfl⟩
  | sendAudioFrame payload canSend =>
    obtain ⟨framed, _, rfl⟩ := Option.map_eq_some_iff.mp hreact
    exact ⟨c, rfl, hqueue.trans (mailboxOf_ring (sendAudioFrame_ring framed canSend)).symm⟩
  | peripheralIsReady canSend =>
    obtain rfl := Option.some.inj hreact
    exact ⟨c, rfl, hqueue.trans (mailboxOf_ring (drainAudioRing_ring _ canSend)).symm⟩
  | _ => cases hevent

theorem mailbox_run {es : List Event} (h : Driven past l) (hes : ∀ event ∈ es, event.ofConnection)
    (hrun : run step l es = some l') {c : MailboxLink} (hqueue : c.queue = l.mailbox) :
    ∃ c', run MailboxLink.step c (es.filterMap Event.toMailbox) = some c' ∧
    c'.queue = l'.mailbox := by
  induction es generalizing past l c with
  | nil =>
    obtain rfl := Option.some.inj hrun
    exact ⟨c, rfl, hqueue⟩
  | cons event es ih =>
    obtain ⟨m, hstep, hrest⟩ := run_cons.mp hrun
    obtain ⟨c', hfirst, hqueue'⟩ := mailbox_step h (hes event List.mem_cons_self) hstep hqueue
    have hdriven := driven_step past ⟨l, event, m⟩ hstep h
    obtain ⟨c'', hlater, hlast⟩ :=
      ih hdriven (fun e he => hes e (List.mem_cons_of_mem _ he)) hrest hqueue'
    have hsplit : (event :: es).filterMap Event.toMailbox =
        event.toMailbox.toList ++ es.filterMap Event.toMailbox := by
      cases hevent : event.toMailbox <;> simp [hevent]
    refine ⟨c'', ?_, hlast⟩
    rw [hsplit]
    exact run_append.mpr ⟨c', hfirst, hlater⟩

/-! ### A new connection -/

/-- Without a characteristic to write to, no failure is counted. -/
def Uncounting (l : WriteLink) : Prop :=
  l.engine.writeTarget = false → l.engine.chunkRetriesLeft = none ∧ l.engine.writeErrorCount = 0

theorem SameCounts.uncounting {e e' : WriteEngine} {connected connected' : Bool}
    {outstanding outstanding' : List Data} (hsame : SameCounts e e')
    (htarget : e'.writeTarget = e.writeTarget) (h : Uncounting ⟨e, connected, outstanding⟩) :
    Uncounting ⟨e', connected', outstanding'⟩ := fun hnone => by
  rw [hsame.retries, hsame.errors]
  exact h (htarget ▸ hnone)

theorem uncounting_respond (hlinked : e.linked) {chunk : Data} {chunks : List Data}
    {frames : List (List Data)} (hqueue : e.writeQueue = (chunk :: chunks) :: frames)
    (hwhole : ∀ frame ∈ frames, frame ≠ []) {error : Option WriteError} {now : Nat}
    {canSend : Nat → Bool} {reaction : WriteEngine × List WriteEngine.Effect}
    (h : e.didWriteValueFor error now canSend = some reaction)
    (hnone : reaction.1.writeTarget = false) :
    reaction.1.chunkRetriesLeft = none ∧ reaction.1.writeErrorCount = 0 := by
  have htarget : e.writeTarget = true := (Bool.and_eq_true_iff.mp hlinked).2
  cases error with
  | none =>
    rw [(acknowledge_driven hqueue hlinked hwhole h).2.1, htarget] at hnone
    cases hnone
  | some error =>
    unfold WriteEngine.didWriteValueFor at h
    dsimp only at h
    split at h
    · obtain rfl := Option.some.inj h
      exact ⟨rfl, rfl⟩
    · split at h
      · obtain rfl := Option.some.inj h
        rw [pumpWriteQueue_writeTarget] at hnone
        cases htarget.symm.trans hnone
      · split at h
        · obtain rfl := Option.some.inj h
          rw [failHeadFrame, pumpWriteQueue_writeTarget] at hnone
          cases htarget.symm.trans hnone
        · obtain rfl := Option.some.inj h
          exact ⟨rfl, rfl⟩

theorem uncounting_step {event : Event} (hstep : l.step event = some l') (hdriven : Driven past l)
    (h : Uncounting l) : Uncounting l' := by
  obtain ⟨reaction, hreact, rfl⟩ := step_eq hstep
  have hring {reaction : WriteEngine × List WriteEngine.Effect}
      (hring : (∃ ring, reaction.1 = { l.engine with audioRing := ring }) ∧
        written reaction.2 = []) :
      Uncounting ⟨reaction.1, l.connectedAfter event, l.unanswered event ++
        written reaction.2⟩ := by
    obtain ⟨⟨ring, heq⟩, _⟩ := hring
    rw [heq]
    exact h
  cases event with
  | didDiscover now =>
    obtain rfl := Option.some.inj hreact
    dsimp only [Uncounting]
    rw [didDiscover]
    split <;> exact h
  | didConnect =>
    obtain rfl := Option.some.inj hreact
    exact h
  | didFailToConnect =>
    obtain ⟨_, hreact⟩ := Option.ite_none_left_eq_some.mp hreact
    obtain rfl := Option.some.inj hreact
    exact h
  | didDisconnectPeripheral =>
    obtain ⟨_, hreact⟩ := Option.ite_none_right_eq_some.mp hreact
    obtain rfl := Option.some.inj hreact
    exact fun _ => ⟨rfl, rfl⟩
  | didDiscoverCharacteristicsFor mailbox audio =>
    obtain ⟨_, hreact⟩ := Option.ite_none_right_eq_some.mp hreact
    obtain rfl := Option.some.inj hreact
    exact fun hnone => h (Bool.or_eq_false_iff.mp hnone).1
  | poweredOff =>
    obtain rfl := Option.some.inj hreact
    exact fun _ => ⟨rfl, rfl⟩
  | writeFrameToPeer type payload size =>
    obtain ⟨wire, _, rfl⟩ := Option.map_eq_some_iff.mp hreact
    refine (uncounted_write l.engine wire size).1.uncounting ?_ h
    unfold WriteEngine.writeFrameToPeer
    split
    · rw [pumpWriteQueue_writeTarget]
      rfl
    · rfl
  | didWriteValueFor error now canSend =>
    obtain ⟨hout, hreaction⟩ := Option.ite_none_left_eq_some.mp hreact
    obtain ⟨hlinked, chunk, chunks, frames, hqueue, _⟩ := hdriven.head hout
    have hwhole := hdriven.whole
    rw [hqueue] at hwhole
    exact uncounting_respond hlinked hqueue
      (fun frame hframe => hwhole frame (List.mem_cons_of_mem _ hframe)) hreaction
  | sendAudioFrame payload canSend =>
    obtain ⟨framed, _, rfl⟩ := Option.map_eq_some_iff.mp hreact
    exact hring (sendAudioFrame_ring framed canSend)
  | peripheralIsReady canSend =>
    obtain rfl := Option.some.inj hreact
    exact hring (drainAudioRing_ring _ canSend)

/-- From any run to the discovery of the mailbox of a new connection, and on as long as the
connection stays, the engine's queue is that of a mailbox that started empty and got the same
frames and responses. -/
theorem mailbox_connection {before es : List Event} {audio : Bool}
    (hbefore : run step {} before = some l)
    (hpeer : l.engine.peer = true) (hnew : l.engine.writeTarget = false)
    (hes : ∀ event ∈ es, event.ofConnection)
    (hrun : run step l (.didDiscoverCharacteristicsFor true audio :: es) = some l') :
    ∃ c, run MailboxLink.step {} (es.filterMap Event.toMailbox) = some c ∧
    c.queue = l'.mailbox := by
  obtain ⟨hdriven, huncounting⟩ := run_history (fun past l => Driven past l ∧ Uncounting l)
    (fun past t hstep h => ⟨driven_step past t hstep h.1, uncounting_step hstep h.1 h.2⟩)
    ⟨driven_start, fun _ => ⟨rfl, rfl⟩⟩ hbefore
  obtain ⟨m, hstep, hrest⟩ := run_cons.mp hrun
  obtain ⟨hretries, herrors⟩ := huncounting hnew
  refine mailbox_run (driven_step _ ⟨l, _, m⟩ hstep hdriven) hes hrest ?_
  -- Nothing waits on a link that was not there.
  have hflight := hdriven.flight
  unfold Flight at hflight
  split at hflight
  · have hlinked := hflight.1
    simp [linked, hnew] at hlinked
  · obtain ⟨reaction, hreact, rfl⟩ := step_eq hstep
    obtain ⟨_, hreact⟩ := Option.ite_none_right_eq_some.mp hreact
    obtain rfl := Option.some.inj hreact
    simp [mailbox, mailboxOf, didDiscoverCharacteristicsFor, linked, hpeer, hflight.1, hflight.2,
      hretries, herrors, unanswered, written]

end WriteLink

end BLEMeshTransport

end AeroNyra
