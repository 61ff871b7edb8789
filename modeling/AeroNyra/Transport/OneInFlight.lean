import AeroNyra.Transport.WriteEngine

/-! One write in flight: the writes of a link leave one at a time and in the order of the frames,
and as long as frames wait one of them is unanswered. -/

namespace AeroNyra

namespace BLEMeshTransport

open Interleave Pieces

namespace WriteEngine

variable {e : WriteEngine}

/-! ### What an operation leaves alone -/

@[simp] theorem pumpWriteQueue_writeQueue : e.pumpWriteQueue.1.writeQueue = e.writeQueue := by
  unfold pumpWriteQueue
  split
  · rfl
  · split <;> rfl

@[simp] theorem pumpWriteQueue_linked : e.pumpWriteQueue.1.linked = e.linked := by
  unfold pumpWriteQueue
  split
  · rfl
  · split <;> rfl

@[simp] theorem pumpWriteQueue_writeTarget : e.pumpWriteQueue.1.writeTarget = e.writeTarget := by
  unfold pumpWriteQueue
  split
  · rfl
  · split <;> rfl

theorem pumpWriteQueue_busy (h : e.writeInFlight = true) : e.pumpWriteQueue = (e, []) := by
  simp [pumpWriteQueue, h]

/-- A drain changes the ring alone, and writes audio alone. -/
theorem drainAudioRing_ring (limit : Nat) (canSend : Nat → Bool) :
    (∃ ring, (e.drainAudioRing limit canSend).1 = { e with audioRing := ring }) ∧
      WriteLink.written (e.drainAudioRing limit canSend).2 = [] := by
  unfold drainAudioRing
  split
  · refine ⟨⟨_, rfl⟩, List.filterMap_eq_nil_iff.mpr fun effect heffect => ?_⟩
    obtain ⟨framed, _, rfl⟩ := List.mem_map.mp heffect
    rfl
  · exact ⟨⟨e.audioRing, rfl⟩, rfl⟩

theorem sendAudioFrame_ring (framed : Data) (canSend : Nat → Bool) :
    (∃ ring, (e.sendAudioFrame framed canSend).1 = { e with audioRing := ring }) ∧
      WriteLink.written (e.sendAudioFrame framed canSend).2 = [] := by
  unfold sendAudioFrame
  split
  · obtain ⟨⟨ring, hring⟩, hwritten⟩ :=
      @drainAudioRing_ring { e with audioRing := enqueueAudio e.audioRing framed } 1 canSend
    exact ⟨⟨ring, hring⟩, hwritten⟩
  · exact ⟨⟨e.audioRing, rfl⟩, rfl⟩

end WriteEngine

namespace WriteLink

open WriteEngine

/-! ### One in flight -/

/-- What is in flight is the head chunk, and the one write without a response; without one nothing
waits. -/
def Flight (e : WriteEngine) (outstanding : List Data) : Prop :=
  if e.writeInFlight then
    e.linked ∧ ∃ chunk chunks frames, e.writeQueue = (chunk :: chunks) :: frames ∧
      outstanding = [chunk]
  else e.writeQueue = [] ∧ outstanding = []

theorem flight_pump {e : WriteEngine} (hidle : e.writeInFlight = false)
    (hwhole : ∀ frame ∈ e.writeQueue, frame ≠ []) (hlinked : e.writeQueue ≠ [] → e.linked) :
    Flight e.pumpWriteQueue.1 (written e.pumpWriteQueue.2) := by
  match hqueue : e.writeQueue with
  | [] =>
    have hsame : e.pumpWriteQueue = (e, []) := by simp [pumpWriteQueue, hqueue]
    simp [hsame, Flight, hidle, hqueue, written]
  | [] :: frames => exact absurd rfl (hwhole [] (by rw [hqueue]; exact List.mem_cons_self))
  | (chunk :: chunks) :: frames =>
    have hlinked := hlinked (by rw [hqueue]; exact List.cons_ne_nil _ _)
    have hpump : e.pumpWriteQueue = ({ e with writeInFlight := true }, [.write chunk]) := by
      simp [pumpWriteQueue, hidle, hlinked, hqueue]
    rw [hpump]
    exact ⟨hlinked, chunk, chunks, frames, hqueue, rfl⟩

/-! ### In order -/

/-- The frames that wait, the first of them with the chunks of it that were acknowledged. -/
def waiting (started : List Data) : List (List Data) → List (List Data)
  | [] => []
  | frame :: frames => (started ++ frame) :: frames

/-- Of the frames that are gone a front each was acknowledged, one behind the other, and then the
chunks of the first frame that waits which the queue no longer has. -/
def Ordered (enqueued : List (List Data)) (acknowledged : List Data) (queue : List (List Data)) :
    Prop :=
  ∃ gone before started, Fronts gone before ∧ enqueued = gone ++ waiting started queue ∧
    acknowledged = before ++ started ∧ (queue = [] → started = [])

namespace Ordered

variable {enqueued queue : List (List Data)} {acknowledged : List Data} {chunk : Data}
    {chunks : List Data}

theorem enqueue (h : Ordered enqueued acknowledged queue) (frame : List Data) :
    Ordered (enqueued ++ [frame]) acknowledged (queue ++ [frame]) := by
  obtain ⟨gone, before, started, hfronts, rfl, rfl, hempty⟩ := h
  refine ⟨gone, before, started, hfronts, ?_, rfl, fun hnil => absurd hnil (by simp)⟩
  cases queue with
  | nil =>
    rw [hempty rfl, List.append_assoc]
    rfl
  | cons first frames => exact List.append_assoc _ _ _

theorem advance (h : Ordered enqueued acknowledged ((chunk :: chunks) :: queue)) :
    Ordered enqueued (acknowledged ++ [chunk]) (chunks :: queue) := by
  obtain ⟨gone, before, started, hfronts, rfl, rfl, _⟩ := h
  refine ⟨gone, before, started ++ [chunk], hfronts, ?_, List.append_assoc _ _ _, nofun⟩
  simp [waiting]

/-- The first frame goes with what is left of it. -/
theorem tail (h : Ordered enqueued acknowledged (chunks :: queue)) :
    Ordered enqueued acknowledged queue := by
  obtain ⟨gone, before, started, hfronts, rfl, rfl, _⟩ := h
  refine ⟨gone ++ [started ++ chunks], before ++ started, [],
    hfronts.append (.single (List.prefix_append _ _)), ?_, (List.append_nil _).symm, fun _ => rfl⟩
  cases queue with
  | nil => simp [waiting]
  | cons frame frames => simp [waiting]

theorem clear (h : Ordered enqueued acknowledged queue) : Ordered enqueued acknowledged [] := by
  induction queue with
  | nil => exact h
  | cons frame frames ih => exact ih h.tail

theorem fronts (h : Ordered enqueued acknowledged queue) : Fronts enqueued acknowledged := by
  obtain ⟨gone, before, started, hfronts, rfl, rfl, hempty⟩ := h.clear
  rw [hempty rfl, waiting]
  simpa using hfronts

end Ordered

/-! ### Runs -/

/-- The chunks of the frame that the event enqueues. -/
def enqueuedBy (t : Transition WriteLink Event) : List (List Data) :=
  match t.event with
  | .writeFrameToPeer type payload maximumWriteValueLength =>
    if t.pre.engine.linked then (frame type payload).toList.map
      (cut (max 20 maximumWriteValueLength)) else []
  | _ => []

/-- The chunk that the event acknowledges. -/
def acknowledgedBy (t : Transition WriteLink Event) : List Data :=
  match t.event with
  | .didWriteValueFor none .. => t.pre.outstanding.take 1
  | _ => []

structure Driven (past : List (Transition WriteLink Event)) (l : WriteLink) : Prop where
  target : l.engine.writeTarget = true → l.connected = true
  whole : ∀ frame ∈ l.engine.writeQueue, frame ≠ []
  flight : Flight l.engine l.outstanding
  order : Ordered (past.flatMap enqueuedBy) (past.flatMap acknowledgedBy) l.engine.writeQueue

variable {past : List (Transition WriteLink Event)} {l : WriteLink}

/-- The link after a reaction to an event. -/
theorem step_eq {l' : WriteLink} {event : Event} (h : l.step event = some l') :
    ∃ reaction, l.react event = some reaction ∧
      l' = ⟨reaction.1, l.connectedAfter event, l.unanswered event ++ written reaction.2⟩ := by
  obtain ⟨reaction, hreaction, rfl⟩ := Option.map_eq_some_iff.mp h
  exact ⟨reaction, hreaction, rfl⟩

/-- Without a response to wait for nothing is in flight, and with one the head chunk is. -/
theorem Driven.head (h : Driven past l) (hout : l.outstanding ≠ []) : l.engine.linked ∧
    ∃ chunk chunks frames, l.engine.writeQueue = (chunk :: chunks) :: frames ∧
    l.outstanding = [chunk] := by
  have hflight := h.flight
  unfold Flight at hflight
  split at hflight
  · exact hflight
  · exact absurd hflight.2 hout

/-- What a success leads to: the head chunk goes, and its frame with the last one. -/
theorem acknowledge_driven {e : WriteEngine} {chunk : Data} {chunks : List Data}
    {frames : List (List Data)}
    {reaction : WriteEngine × List WriteEngine.Effect} {now : Nat} {canSend : Nat → Bool}
    (hqueue : e.writeQueue = (chunk :: chunks) :: frames) (hlinked : e.linked)
    (hwhole : ∀ frame ∈ frames, frame ≠ [])
    (h : e.didWriteValueFor none now canSend = some reaction) :
    Flight reaction.1 (written reaction.2) ∧ reaction.1.writeTarget = e.writeTarget ∧
      reaction.1.writeQueue = (if chunks = [] then frames else chunks :: frames) := by
  obtain ⟨advanced, hadvanced, rfl⟩ := Option.map_eq_some_iff.mp h
  obtain ⟨⟨ring, hring⟩, hwritten⟩ := @drainAudioRing_ring advanced.1 audioDrainPerReady canSend
  have hsplit : written (advanced.2 ++ (advanced.1.drainAudioRing audioDrainPerReady canSend).2) =
      written advanced.2 := by
    rw [written, List.filterMap_append]
    exact (congrArg _ hwritten).trans (List.append_nil _)
  dsimp only
  rw [hsplit, hring]
  suffices hmain : Flight advanced.1 (written advanced.2) ∧ advanced.1.writeTarget = e.writeTarget ∧
      advanced.1.writeQueue = (if chunks = [] then frames else chunks :: frames) from hmain
  cases chunks with
  | nil =>
    simp only [advanceWriteQueue, hqueue, Option.some.injEq] at hadvanced
    rw [← hadvanced]
    refine ⟨flight_pump rfl hwhole fun _ => hlinked, ?_, ?_⟩
    · rw [pumpWriteQueue_writeTarget]
    · rw [pumpWriteQueue_writeQueue, if_pos rfl]
  | cons second chunks =>
    simp only [advanceWriteQueue, hqueue, Option.some.injEq] at hadvanced
    rw [← hadvanced]
    refine ⟨flight_pump rfl ?_ fun _ => hlinked, ?_, ?_⟩
    · exact List.forall_mem_cons.mpr ⟨List.cons_ne_nil _ _, hwhole⟩
    · rw [pumpWriteQueue_writeTarget]
    · rw [pumpWriteQueue_writeQueue, if_neg (List.cons_ne_nil _ _)]

/-- What a failure leads to: the head chunk is sent again, or its frame goes, or the link ends. -/
theorem fail_driven {e : WriteEngine} {chunk : Data} {chunks : List Data}
    {frames : List (List Data)}
    {reaction : WriteEngine × List WriteEngine.Effect} {error : WriteError} {now : Nat}
    {canSend : Nat → Bool}
    (hqueue : e.writeQueue = (chunk :: chunks) :: frames) (hlinked : e.linked)
    (hwhole : ∀ frame ∈ frames, frame ≠ [])
    (h : e.didWriteValueFor (some error) now canSend = some reaction) :
    Flight reaction.1 (written reaction.2) ∧
      (reaction.1.writeTarget = true → e.writeTarget = true) ∧
      (reaction.1.writeQueue = e.writeQueue ∨ reaction.1.writeQueue = frames ∨
        reaction.1.writeQueue = []) := by
  unfold didWriteValueFor at h
  dsimp only at h
  split at h
  · obtain rfl := Option.some.inj h
    exact ⟨⟨rfl, rfl⟩, nofun, .inr (.inr rfl)⟩
  · split at h
    · obtain rfl := Option.some.inj h
      refine ⟨flight_pump rfl ?_ fun _ => hlinked, ?_, .inl ?_⟩
      · rw [hqueue]
        exact List.forall_mem_cons.mpr ⟨List.cons_ne_nil _ _, hwhole⟩
      · rw [pumpWriteQueue_writeTarget]
        exact id
      · rw [pumpWriteQueue_writeQueue]
    · split at h
      · obtain rfl := Option.some.inj h
        refine ⟨flight_pump rfl ?_ fun _ => hlinked, ?_, .inr (.inl ?_)⟩
        · show ∀ frame ∈ e.writeQueue.tail, frame ≠ []
          rwa [hqueue]
        · rw [failHeadFrame, pumpWriteQueue_writeTarget]
          exact id
        · rw [failHeadFrame, pumpWriteQueue_writeQueue, hqueue]
          rfl
      · obtain rfl := Option.some.inj h
        exact ⟨⟨rfl, rfl⟩, nofun, .inr (.inr rfl)⟩

/-- An event that neither enqueues nor acknowledges, and keeps the queue or empties it. -/
theorem Driven.quiet {t : Transition WriteLink Event} {l' : WriteLink} (h : Driven past l)
    (henqueued : enqueuedBy t = []) (hacknowledged : acknowledgedBy t = [])
    (htarget : l'.engine.writeTarget = true → l'.connected = true)
    (hflight : Flight l'.engine l'.outstanding)
    (hqueue : l'.engine.writeQueue = l.engine.writeQueue ∨ l'.engine.writeQueue = []) :
    Driven (past ++ [t]) l' := by
  refine ⟨htarget, ?_, hflight, ?_⟩
  · rcases hqueue with hqueue | hqueue
    · rw [hqueue]
      exact h.whole
    · rw [hqueue]
      nofun
  · simp only [List.flatMap_append, List.flatMap_singleton, henqueued, hacknowledged,
      List.append_nil]
    rcases hqueue with hqueue | hqueue
    · rw [hqueue]
      exact h.order
    · rw [hqueue]
      exact h.order.clear

/-- The audio ring is none of the queue's. -/
theorem Driven.ring {t : Transition WriteLink Event}
    {reaction : WriteEngine × List WriteEngine.Effect} (h : Driven past l)
    (henqueued : enqueuedBy t = []) (hacknowledged : acknowledgedBy t = [])
    (hring : (∃ ring, reaction.1 = { l.engine with audioRing := ring }) ∧ written reaction.2 = []) :
    Driven (past ++ [t]) ⟨reaction.1, l.connected, l.outstanding ++ written reaction.2⟩ := by
  obtain ⟨⟨ring, hring⟩, hwritten⟩ := hring
  rw [hwritten, hring, List.append_nil]
  exact h.quiet henqueued hacknowledged h.target h.flight (.inl rfl)

/-- A frame joins the queue. -/
theorem Driven.enqueue {t : Transition WriteLink Event} (h : Driven past l) {type : FrameType}
    {payload wire : Data} {size : Nat} (hframe : frame type payload = some wire)
    (hpre : t.pre = l) (hevent : t.event = .writeFrameToPeer type payload size) :
    Driven (past ++ [t]) ⟨(l.engine.writeFrameToPeer wire size).1, l.connected,
      l.outstanding ++ written (l.engine.writeFrameToPeer wire size).2⟩ := by
  have hacknowledged : acknowledgedBy t = [] := by simp [acknowledgedBy, hevent]
  by_cases hlinked : l.engine.linked = true
  · have henqueued : enqueuedBy t = [cut (max 20 size) wire] := by
      simp [enqueuedBy, hevent, hpre, hlinked, hframe]
    have hcut : cut (max 20 size) wire ≠ [] := by
      refine cut_ne_nil (by omega) ?_
      rw [eq_of_frame hframe]
      exact List.cons_ne_nil _ _
    have hwhole : ∀ frame ∈ l.engine.writeQueue ++ [cut (max 20 size) wire], frame ≠ [] :=
      List.forall_mem_append.mpr ⟨h.whole, List.forall_mem_singleton.mpr hcut⟩
    have horder := h.order.enqueue (cut (max 20 size) wire)
    have hflight := h.flight
    unfold writeFrameToPeer
    rw [if_pos hlinked]
    dsimp only
    refine ⟨?_, ?_, ?_, ?_⟩
    · rw [pumpWriteQueue_writeTarget]
      exact h.target
    · rw [pumpWriteQueue_writeQueue]
      exact hwhole
    · unfold Flight at hflight
      split at hflight
      · rename_i hbusy
        obtain ⟨_, chunk, chunks, frames, hqueue, hout⟩ := hflight
        have hpump := @pumpWriteQueue_busy (l.engine.enqueued (cut (max 20 size) wire)) hbusy
        rw [hpump, hout]
        have hfront : (l.engine.enqueued (cut (max 20 size) wire)).writeQueue =
            (chunk :: chunks) :: (frames ++ [cut (max 20 size) wire]) := congrArg (· ++ _) hqueue
        show Flight (l.engine.enqueued (cut (max 20 size) wire)) [chunk]
        unfold Flight
        rw [if_pos (show (l.engine.enqueued _).writeInFlight = true from hbusy)]
        exact ⟨hlinked, chunk, chunks, _, hfront, rfl⟩
      · rename_i hidle
        dsimp only
        rw [hflight.2, List.nil_append]
        exact flight_pump (Bool.eq_false_iff.mpr hidle) hwhole fun _ => hlinked
    · simp only [List.flatMap_append, List.flatMap_singleton, henqueued, hacknowledged,
        List.append_nil]
      rw [pumpWriteQueue_writeQueue]
      exact horder
  · have henqueued : enqueuedBy t = [] := by simp [enqueuedBy, hevent, hpre, hlinked]
    unfold writeFrameToPeer
    rw [if_neg hlinked]
    exact h.ring henqueued hacknowledged ⟨⟨l.engine.audioRing, rfl⟩, rfl⟩

/-- A response comes to the write in flight. -/
theorem Driven.respond {t : Transition WriteLink Event} (h : Driven past l)
    {error : Option WriteError} {now : Nat}
    {canSend : Nat → Bool} {reaction : WriteEngine × List WriteEngine.Effect}
    (hout : l.outstanding ≠ [])
    (hreaction : l.engine.didWriteValueFor error now canSend = some reaction)
    (hpre : t.pre = l) (hevent : t.event = .didWriteValueFor error now canSend) :
    Driven (past ++ [t]) ⟨reaction.1, l.connected, l.outstanding.tail ++ written reaction.2⟩ := by
  obtain ⟨hlinked, chunk, chunks, frames, hqueue, houtstanding⟩ := h.head hout
  have hframes : ∀ frame ∈ frames, frame ≠ [] := by
    have hwhole := h.whole
    rw [hqueue] at hwhole
    exact fun frame hframe => hwhole frame (List.mem_cons_of_mem _ hframe)
  have horder := h.order
  rw [hqueue] at horder
  have henqueued : enqueuedBy t = [] := by simp [enqueuedBy, hevent]
  rw [houtstanding, List.tail_cons, List.nil_append]
  cases error with
  | none =>
    have hacknowledged : acknowledgedBy t = [chunk] := by
      simp [acknowledgedBy, hevent, hpre, houtstanding]
    obtain ⟨hflight, htarget, hafter⟩ := acknowledge_driven hqueue hlinked hframes hreaction
    refine ⟨fun hset => h.target (htarget ▸ hset), ?_, hflight, ?_⟩
    · dsimp only
      rw [hafter]
      split
      · exact hframes
      · rename_i hrest
        exact List.forall_mem_cons.mpr ⟨hrest, hframes⟩
    · simp only [List.flatMap_append, List.flatMap_singleton, henqueued, hacknowledged,
        List.append_nil]
      rw [hafter]
      split
      · exact horder.advance.tail
      · exact horder.advance
  | some error =>
    have hacknowledged : acknowledgedBy t = [] := by simp [acknowledgedBy, hevent]
    obtain ⟨hflight, htarget, hafter⟩ := fail_driven hqueue hlinked hframes hreaction
    refine ⟨fun hset => h.target (htarget hset), ?_, hflight, ?_⟩
    · dsimp only
      rcases hafter with hafter | hafter | hafter
      · rw [hafter]
        exact h.whole
      · rw [hafter]
        exact hframes
      · rw [hafter]
        nofun
    · simp only [List.flatMap_append, List.flatMap_singleton, henqueued, hacknowledged,
        List.append_nil]
      rcases hafter with hafter | hafter | hafter
      · rw [hafter]
        exact h.order
      · rw [hafter]
        exact horder.tail
      · rw [hafter]
        exact horder.clear

/-- An engine that is linked at least where it was. -/
theorem Flight.mono {e e' : WriteEngine} {outstanding : List Data} (h : Flight e outstanding)
    (hqueue : e'.writeQueue = e.writeQueue) (hsame : e'.writeInFlight = e.writeInFlight)
    (hlinked : e.linked → e'.linked) : Flight e' outstanding := by
  unfold Flight at h ⊢
  rw [hsame, hqueue]
  split at h
  · rename_i hbusy
    rw [if_pos hbusy]
    exact ⟨hlinked h.1, h.2⟩
  · rename_i hidle
    rw [if_neg hidle]
    exact h

theorem driven_step (past : List (Transition WriteLink Event)) (t : Transition WriteLink Event)
    (hstep : step t.pre t.event = some t.post) (h : Driven past t.pre) :
    Driven (past ++ [t]) t.post := by
  obtain ⟨reaction, hreact, hpost⟩ := step_eq hstep
  rw [hpost]
  have hflight := h.flight
  have hkept {e : WriteEngine} (hqueue : e.writeQueue = t.pre.engine.writeQueue)
      (hbusy : e.writeInFlight = t.pre.engine.writeInFlight)
      (hlinked : t.pre.engine.linked → e.linked) :
      Flight e (t.pre.outstanding ++ written []) := by
    show Flight e (t.pre.outstanding ++ [])
    rw [List.append_nil]
    exact hflight.mono hqueue hbusy hlinked
  cases hevent : t.event with
  | didDiscover now =>
    rw [hevent] at hreact
    obtain rfl := Option.some.inj hreact
    refine h.quiet (by simp [enqueuedBy, hevent]) (by simp [acknowledgedBy, hevent]) ?_ ?_ (.inl ?_)
    · rw [didDiscover]
      split <;> exact h.target
    · refine hkept ?_ ?_ fun hlinked => ?_
      · rw [didDiscover]
        split <;> rfl
      · rw [didDiscover]
        split <;> rfl
      · rw [didDiscover, if_pos (by rw [(Bool.and_eq_true_iff.mp hlinked).1]; rfl)]
        exact hlinked
    · rw [didDiscover]
      split <;> rfl
  | didConnect =>
    rw [hevent] at hreact
    obtain rfl := Option.some.inj hreact
    exact h.quiet (by simp [enqueuedBy, hevent]) (by simp [acknowledgedBy, hevent]) (fun _ => rfl)
      (hkept rfl rfl id) (.inl rfl)
  | didFailToConnect =>
    rw [hevent] at hreact
    obtain ⟨hdown, hreact⟩ := Option.ite_none_left_eq_some.mp hreact
    obtain rfl := Option.some.inj hreact
    -- Without a connection there is no characteristic to write to, and nothing waits.
    refine h.quiet (by simp [enqueuedBy, hevent]) (by simp [acknowledgedBy, hevent]) h.target
      (hkept rfl rfl fun hlinked => ?_) (.inl rfl)
    exact absurd (h.target (Bool.and_eq_true_iff.mp hlinked).2) hdown
  | didDisconnectPeripheral =>
    rw [hevent] at hreact
    obtain ⟨_, hreact⟩ := Option.ite_none_right_eq_some.mp hreact
    obtain rfl := Option.some.inj hreact
    exact h.quiet (by simp [enqueuedBy, hevent]) (by simp [acknowledgedBy, hevent]) nofun
      ⟨rfl, rfl⟩ (.inr rfl)
  | didDiscoverCharacteristicsFor mailbox audio =>
    rw [hevent] at hreact
    obtain ⟨hup, hreact⟩ := Option.ite_none_right_eq_some.mp hreact
    obtain rfl := Option.some.inj hreact
    refine h.quiet (by simp [enqueuedBy, hevent]) (by simp [acknowledgedBy, hevent]) (fun _ => hup)
      (hkept rfl rfl fun hlinked => ?_) (.inl rfl)
    obtain ⟨hpeer, htarget⟩ := Bool.and_eq_true_iff.mp hlinked
    simp [linked, didDiscoverCharacteristicsFor, hpeer, htarget]
  | poweredOff =>
    rw [hevent] at hreact
    obtain rfl := Option.some.inj hreact
    exact h.quiet (by simp [enqueuedBy, hevent]) (by simp [acknowledgedBy, hevent]) nofun
      ⟨rfl, rfl⟩ (.inr rfl)
  | writeFrameToPeer type payload size =>
    rw [hevent] at hreact
    obtain ⟨wire, hframe, rfl⟩ := Option.map_eq_some_iff.mp hreact
    exact h.enqueue hframe rfl hevent
  | didWriteValueFor error now canSend =>
    rw [hevent] at hreact
    obtain ⟨hout, hreaction⟩ := Option.ite_none_left_eq_some.mp hreact
    exact h.respond hout hreaction rfl hevent
  | sendAudioFrame payload canSend =>
    rw [hevent] at hreact
    obtain ⟨framed, _, rfl⟩ := Option.map_eq_some_iff.mp hreact
    exact h.ring (by simp [enqueuedBy, hevent]) (by simp [acknowledgedBy, hevent])
      (sendAudioFrame_ring _ _)
  | peripheralIsReady canSend =>
    rw [hevent] at hreact
    obtain rfl := Option.some.inj hreact
    exact h.ring (by simp [enqueuedBy, hevent]) (by simp [acknowledgedBy, hevent])
      (drainAudioRing_ring _ _)

/-- At most one write has no response, a front of each frame's chunks is acknowledged in the order
of the frames, and while frames wait a write is unanswered; no response to it traps. -/
structure InOrder (past : List (Transition WriteLink Event)) (l : WriteLink) : Prop where
  one : l.outstanding.length ≤ 1
  fifo : Fronts (past.flatMap enqueuedBy) (past.flatMap acknowledgedBy)
  busy : l.engine.writeQueue ≠ [] → l.outstanding ≠ []
  safe : l.outstanding ≠ [] →
    ∀ error now canSend, (l.step (.didWriteValueFor error now canSend)).isSome

theorem didWriteValueFor_isSome {e : WriteEngine} {chunk : Data} {chunks : List Data}
    {frames : List (List Data)}
    (hqueue : e.writeQueue = (chunk :: chunks) :: frames) (error : Option WriteError) (now : Nat)
    (canSend : Nat → Bool) : (e.didWriteValueFor error now canSend).isSome := by
  cases error with
  | none => cases chunks <;> simp [didWriteValueFor, advanceWriteQueue, hqueue]
  | some error =>
    unfold didWriteValueFor
    dsimp only
    split
    · rfl
    · split
      · rfl
      · split <;> rfl

theorem Driven.inOrder (h : Driven past l) : InOrder past l := by
  have hflight := h.flight
  unfold Flight at hflight
  refine ⟨?_, h.order.fronts, fun hqueue => ?_, fun hout error now canSend => ?_⟩
  · split at hflight
    · obtain ⟨_, chunk, _, _, _, hout⟩ := hflight
      rw [hout, List.length_singleton]
    · rw [hflight.2]
      exact Nat.zero_le _
  · split at hflight
    · obtain ⟨_, chunk, _, _, _, hout⟩ := hflight
      rw [hout]
      exact List.cons_ne_nil _ _
    · exact absurd hflight.1 hqueue
  · obtain ⟨_, chunk, chunks, frames, hqueue, _⟩ := h.head hout
    rw [step, react, if_neg hout, Option.isSome_map]
    exact didWriteValueFor_isSome hqueue error now canSend

theorem driven_start : Driven [] {} :=
  ⟨nofun, nofun, ⟨rfl, rfl⟩, [], [], [], .nil, rfl, rfl, fun _ => rfl⟩

/-- After every run of connections, frames and responses. -/
theorem writes_inOrder {es : List Event} (hrun : run step {} es = some l) :
    InOrder (trace step {} es) l :=
  (run_history Driven driven_step driven_start hrun).inOrder

/-- A peripheral that is found, with its mailbox. -/
def linkUp : List Event := [.didDiscover 0, .didConnect, .didDiscoverCharacteristicsFor true true]

/-- The first chunk of a frame fails once, its second one is acknowledged when the connection ends,
and the next connection starts with another frame. -/
theorem writes_inOrder_again :
    ∃ l, run step {} (linkUp ++ ([.writeFrameToPeer .envelope firstEnvelope.wireData 20,
        .writeFrameToPeer .envelope secondEnvelope.wireData 20,
        .didWriteValueFor (some .unknown) 1 fun _ => true, .didWriteValueFor none 2 fun _ => true,
        .didDisconnectPeripheral] : List Event) ++ linkUp ++
        ([.writeFrameToPeer .bundle [7] 20, .didWriteValueFor none 3 fun _ => true] : List Event)) =
        some l ∧
      InOrder (trace step {} (linkUp ++ ([.writeFrameToPeer .envelope firstEnvelope.wireData 20,
        .writeFrameToPeer .envelope secondEnvelope.wireData 20,
        .didWriteValueFor (some .unknown) 1 fun _ => true, .didWriteValueFor none 2 fun _ => true,
        .didDisconnectPeripheral] : List Event) ++ linkUp ++
        ([.writeFrameToPeer .bundle [7] 20, .didWriteValueFor none 3 fun _ => true] : List Event)))
          l :=
  ⟨_, rfl, writes_inOrder rfl⟩

end WriteLink

end BLEMeshTransport

end AeroNyra
