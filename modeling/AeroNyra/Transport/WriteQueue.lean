import AeroNyra.Lib.Interleave
import AeroNyra.Lib.Pieces
import AeroNyra.Transport.Framing

/-! The mailbox of one link: the central's queue of frames, one chunk in flight, and the peripheral
that reassembles the chunks that were acknowledged.  A frame whose chunk keeps failing is dropped,
with or without some of its chunks at the other side. -/

namespace AeroNyra

namespace BLEMeshTransport

open Interleave

/-! ### The write engine -/

def chunkRetryLimit : Nat := 2

def writeErrorTeardownThreshold : Nat := 3

inductive CBErrorCode
  | peripheralDisconnected
  | connectionTimeout
  | notConnected
  | connectionFailed
  | other
  deriving DecidableEq

inductive CBATTErrorCode
  | insufficientResources
  | prepareQueueFull
  | other
  deriving DecidableEq

inductive WriteError
  | cb (code : CBErrorCode)
  | att (code : CBATTErrorCode)
  | unknown
  deriving DecidableEq

/-- Conclusive codes; the others are transient. -/
def WriteError.linkDead : WriteError → Bool
  | .cb .other => false
  | .cb _ => true
  | .att .insufficientResources | .att .prepareQueueFull => false
  | .att .other => true
  | .unknown => false

/-- What the central keeps for a peripheral. -/
structure WriteQueue where
  /-- There are a peripheral and a characteristic to write to. -/
  linked : Bool := true
  /-- The frames, each as its remaining chunks. -/
  writeQueue : List (List Data) := []
  /-- The chunk that awaits its response. -/
  writeInFlight : Option Data := none
  chunkRetriesLeft : Option Nat := none
  writeErrorCount : Nat := 0
  deriving DecidableEq

namespace WriteQueue

variable (q : WriteQueue)

/-- Sends the head chunk of the head frame unless one is in flight. -/
def pumpWriteQueue : WriteQueue :=
  if q.writeInFlight.isSome || !q.linked then q
  else
    match q.writeQueue with
    | (chunk :: _) :: _ => { q with writeInFlight := some chunk }
    | _ => q

/-- Whether the frame was enqueued. -/
def writeFrameToPeer (frame : Data) (maximumWriteValueLength : Nat) : WriteQueue × Bool :=
  if q.linked then
    let maxChunk := max 20 maximumWriteValueLength
    (pumpWriteQueue { q with writeQueue := q.writeQueue ++ [Pieces.cut maxChunk frame] }, true)
  else (q, false)

/-- Pops the head chunk, and its frame with the last one; a frame without chunks traps. -/
def advanceWriteQueue : Option WriteQueue :=
  match q.writeQueue with
  | [] => some q.pumpWriteQueue
  | [] :: _ => none
  | [_] :: frames => some (pumpWriteQueue { q with writeQueue := frames })
  | (_ :: chunks) :: frames => some (pumpWriteQueue { q with writeQueue := chunks :: frames })

/-- Drops the head frame with whatever is left of it. -/
def failHeadFrame : WriteQueue := pumpWriteQueue { q with writeQueue := q.writeQueue.tail }

def tearDown : WriteQueue :=
  { q with
    linked := false
    writeQueue := []
    writeErrorCount := 0
    chunkRetriesLeft := none }

/-- The response to the write in flight. -/
def didWriteValueFor : Option WriteError → Option WriteQueue
  | none =>
    advanceWriteQueue { q with
      writeInFlight := none
      writeErrorCount := 0
      chunkRetriesLeft := none }
  | some error =>
    let q := { q with writeInFlight := none }
    if error.linkDead then some q.tearDown
    else
      let retries := q.chunkRetriesLeft.getD chunkRetryLimit
      if 0 < retries then some (pumpWriteQueue { q with chunkRetriesLeft := some (retries - 1) })
      else
        let q := { q with
          chunkRetriesLeft := none
          writeErrorCount := q.writeErrorCount + 1 }
        if q.writeErrorCount < writeErrorTeardownThreshold then some q.failHeadFrame
        else some q.tearDown

end WriteQueue

/-! ### Both ends of the link -/

structure MailboxLink where
  queue : WriteQueue := {}
  /-- The peripheral's state for the link and the mailbox characteristic. -/
  writeReassembly : ReassemblyState := {}
  /-- The frames that `ingest` completed, the oldest first. -/
  completed : List (FrameType × Data) := []
  deriving DecidableEq

namespace MailboxLink

inductive Event
  | writeFrameToPeer (type : FrameType) (payload : Data) (maximumWriteValueLength : Nat)
  | didWriteValueFor (error : Option WriteError)

/-- A response comes to a write in flight, and a write that succeeds is one that the peripheral
got. -/
def step (c : MailboxLink) : Event → Option MailboxLink
  | .writeFrameToPeer type payload maximumWriteValueLength =>
    (frame type payload).map fun wire =>
      { c with queue := (c.queue.writeFrameToPeer wire maximumWriteValueLength).1 }
  | .didWriteValueFor none =>
    c.queue.writeInFlight.bind fun chunk =>
      let ingested := c.writeReassembly.ingest chunk
      (c.queue.didWriteValueFor none).map fun queue =>
        ⟨queue, ingested.1, c.completed ++ ingested.2.toList⟩
  | .didWriteValueFor (some error) =>
    c.queue.writeInFlight.bind fun _ =>
      (c.queue.didWriteValueFor (some error)).map fun queue => { c with queue }

/-- The envelopes that the peripheral yields. -/
def incoming (c : MailboxLink) : List Envelope := c.completed.filterMap dispatchFrame

end MailboxLink

/-! ### What happens to each frame -/

/-- The failure takes the head frame off the queue of a link that is kept. -/
def WriteQueue.FailsHeadFrame (q : WriteQueue) (error : WriteError) : Prop :=
  error.linkDead = false ∧ q.chunkRetriesLeft.getD chunkRetryLimit = 0 ∧
    q.writeErrorCount + 1 < writeErrorTeardownThreshold

/-- The failure ends the link. -/
def WriteQueue.TearsDown (q : WriteQueue) (error : WriteError) : Prop :=
  error.linkDead = true ∨
    (q.chunkRetriesLeft.getD chunkRetryLimit = 0 ∧
      writeErrorTeardownThreshold ≤ q.writeErrorCount + 1)

instance (q : WriteQueue) (error : WriteError) : Decidable (q.FailsHeadFrame error) :=
  inferInstanceAs (Decidable (_ ∧ _))

instance (q : WriteQueue) (error : WriteError) : Decidable (q.TearsDown error) :=
  inferInstanceAs (Decidable (_ ∨ _))

/-- The frames that were enqueued, those of them that still wait, whether a chunk of the first of
these was acknowledged, and those with all chunks acknowledged. -/
structure Journal where
  enqueued : List (FrameType × Data) := []
  waiting : List (FrameType × Data) := []
  started : Bool := false
  acknowledged : List (FrameType × Data) := []
  deriving DecidableEq

namespace Journal

open MailboxLink

def note (j : Journal) (c : MailboxLink) : Event → MailboxLink → Journal
  | .writeFrameToPeer type payload _, _ =>
    if c.queue.linked then
      { j with
        enqueued := j.enqueued ++ [(type, payload)]
        waiting := j.waiting ++ [(type, payload)] }
    else j
  | .didWriteValueFor none, _ =>
    match c.queue.writeQueue with
    | [_] :: _ =>
      { j with
        waiting := j.waiting.tail
        started := false
        acknowledged := j.acknowledged ++ j.waiting.head?.toList }
    | _ => { j with started := true }
  | .didWriteValueFor (some error), _ =>
    if c.queue.FailsHeadFrame error then { j with waiting := j.waiting.tail, started := false }
    else if c.queue.TearsDown error then { j with waiting := [], started := false }
    else j

end Journal

/-- The frames that the peripheral completed are those with all chunks acknowledged, it is in front
of the chunks that wait, and what is in flight is the first of them. -/
structure Coupled (c : MailboxLink) (j : Journal) : Prop where
  completed : c.completed = j.acknowledged
  order : (j.acknowledged ++ j.waiting).Sublist j.enqueued
  lengths : j.waiting.length = c.queue.writeQueue.length
  awaits : c.queue.linked = true →
    reader.Awaits c.writeReassembly (j.waiting.zip c.queue.writeQueue)
  unstarted : c.queue.linked = true → j.started = false → c.writeReassembly = {}
  flight : ∀ chunk, c.queue.writeInFlight = some chunk → c.queue.linked = true ∧
    ∃ chunks frames, c.queue.writeQueue = (chunk :: chunks) :: frames

namespace WriteQueue

variable (q : WriteQueue)

@[simp] theorem pumpWriteQueue_linked : q.pumpWriteQueue.linked = q.linked := by
  unfold pumpWriteQueue
  split
  · rfl
  · split <;> rfl

@[simp] theorem pumpWriteQueue_writeQueue : q.pumpWriteQueue.writeQueue = q.writeQueue := by
  unfold pumpWriteQueue
  split
  · rfl
  · split <;> rfl

/-- What is in flight after pumping was so before, or is the head chunk. -/
theorem pumpWriteQueue_writeInFlight {q : WriteQueue} {chunk : Data}
    (h : q.pumpWriteQueue.writeInFlight = some chunk) :
    q.writeInFlight = some chunk ∨
      (q.linked = true ∧ ∃ chunks frames, q.writeQueue = (chunk :: chunks) :: frames) := by
  unfold pumpWriteQueue at h
  split at h
  · exact .inl h
  · rename_i hidle
    split at h
    · rename_i chunks frames hqueue
      obtain rfl := Option.some.inj h
      simp only [Bool.or_eq_true, Bool.not_eq_true', not_or, Bool.not_eq_false] at hidle
      exact .inr ⟨hidle.2, _, _, hqueue⟩
    · exact .inl h

end WriteQueue

variable {c c' : MailboxLink} {j : Journal}

namespace Coupled

/-- Pumping sends the head chunk at most. -/
theorem pump {q : WriteQueue} {s : ReassemblyState} {done : List (FrameType × Data)}
    (h : Coupled ⟨q, s, done⟩ j) : Coupled ⟨q.pumpWriteQueue, s, done⟩ j where
  completed := h.completed
  order := h.order
  lengths := by
    rw [WriteQueue.pumpWriteQueue_writeQueue]
    exact h.lengths
  awaits hlinked := by
    rw [WriteQueue.pumpWriteQueue_linked] at hlinked
    rw [WriteQueue.pumpWriteQueue_writeQueue]
    exact h.awaits hlinked
  unstarted hlinked := by
    rw [WriteQueue.pumpWriteQueue_linked] at hlinked
    exact h.unstarted hlinked
  flight chunk hchunk := by
    rw [WriteQueue.pumpWriteQueue_linked, WriteQueue.pumpWriteQueue_writeQueue]
    rcases WriteQueue.pumpWriteQueue_writeInFlight hchunk with hold | hnew
    · exact h.flight chunk hold
    · exact hnew

/-- A frame joins the queue. -/
theorem enqueue (h : Coupled c j) {type : FrameType} {payload wire : Data} {size : Nat}
    (hframe : frame type payload = some wire) (hbound : payload.length ≤ maxDeclaredFrameLength)
    (hlinked : c.queue.linked = true) :
    Coupled { c with queue := (c.queue.writeFrameToPeer wire size).1 }
      { j with
        enqueued := j.enqueued ++ [(type, payload)]
        waiting := j.waiting ++ [(type, payload)] } := by
  have hready : reader.Ready {} ((type, payload), Pieces.cut (max 20 size) wire) :=
    ready_cut (by omega) hframe hbound
  unfold WriteQueue.writeFrameToPeer
  rw [if_pos hlinked]
  refine pump ⟨h.completed, ?_, ?_, fun _ => ?_, h.unstarted, fun chunk hchunk => ?_⟩
  · show (j.acknowledged ++ (j.waiting ++ [(type, payload)])).Sublist
      (j.enqueued ++ [(type, payload)])
    rw [← List.append_assoc]
    exact h.order.append_right _
  · simp [h.lengths]
  · show reader.Awaits c.writeReassembly
      ((j.waiting ++ [(type, payload)]).zip (c.queue.writeQueue ++ [Pieces.cut (max 20 size) wire]))
    rw [List.zip_append h.lengths]
    exact (h.awaits hlinked).enqueue hready
  · obtain ⟨_, chunks, frames, hqueue⟩ := h.flight chunk hchunk
    refine ⟨hlinked, chunks, frames ++ [Pieces.cut (max 20 size) wire], ?_⟩
    show c.queue.writeQueue ++ _ = _
    rw [hqueue]
    rfl

/-- A response leaves nothing in flight. -/
theorem land (h : Coupled c j) (retries : Option Nat) (count : Nat) :
    Coupled { c with queue := { c.queue with
      writeInFlight := none
      chunkRetriesLeft := retries
      writeErrorCount := count } } j :=
  ⟨h.completed, h.order, h.lengths, h.awaits, h.unstarted, nofun⟩

/-- The peripheral gets the chunk in flight. -/
theorem acknowledge (h : Coupled c j) {chunk : Data} {queue : WriteQueue}
    (hflight : c.queue.writeInFlight = some chunk)
    (hqueue : c.queue.didWriteValueFor none = some queue) :
    Coupled ⟨queue, (c.writeReassembly.ingest chunk).1,
        c.completed ++ (c.writeReassembly.ingest chunk).2.toList⟩
      (j.note c (.didWriteValueFor none) c') := by
  obtain ⟨hlinked, chunks, frames, hhead⟩ := h.flight chunk hflight
  have hlengths := h.lengths
  rw [hhead, List.length_cons] at hlengths
  obtain ⟨first, later, hwaiting⟩ := List.exists_cons_of_length_eq_add_one hlengths
  have hawaits := h.awaits hlinked
  rw [hhead, hwaiting, List.zip_cons_cons] at hawaits
  rw [hwaiting, List.length_cons, Nat.succ_inj] at hlengths
  have horder := h.order
  rw [hwaiting] at horder
  cases chunks with
  | nil =>
    have hingest : c.writeReassembly.ingest chunk = ({}, some first) := hawaits.last
    simp only [WriteQueue.didWriteValueFor, WriteQueue.advanceWriteQueue, hhead,
      Option.some.injEq] at hqueue
    simp only [Journal.note, hhead, hwaiting, List.tail_cons, List.head?_cons, Option.toList_some,
      hingest, ← hqueue]
    apply pump
    refine ⟨?_, ?_, hlengths, fun _ => hawaits.tail, fun _ _ => rfl, nofun⟩
    · rw [h.completed]
    · simpa using horder
  | cons second chunks =>
    obtain ⟨hsilent, hnext⟩ := hawaits.piece (List.cons_ne_nil second chunks)
    have hsilent : (c.writeReassembly.ingest chunk).2 = none := hsilent
    simp only [WriteQueue.didWriteValueFor, WriteQueue.advanceWriteQueue, hhead,
      Option.some.injEq] at hqueue
    simp only [Journal.note, hhead, hsilent, Option.toList_none, List.append_nil, ← hqueue]
    apply pump
    refine ⟨h.completed, h.order, ?_, fun _ => ?_, nofun, nofun⟩
    · rw [hwaiting, List.length_cons, List.length_cons, hlengths]
    · rw [hwaiting]
      exact hnext

/-- The link ends with what is left in the queue. -/
theorem tearDown (h : Coupled c j) {q : WriteQueue} (hflight : q.writeInFlight = none) :
    Coupled { c with queue := q.tearDown } { j with waiting := [], started := false } := by
  refine ⟨h.completed, ?_, rfl, nofun, nofun, fun chunk hchunk => ?_⟩
  · show (j.acknowledged ++ []).Sublist j.enqueued
    rw [List.append_nil]
    exact (List.sublist_append_left _ _).trans h.order
  · have hchunk : q.writeInFlight = some chunk := hchunk
    rw [hflight] at hchunk
    cases hchunk

/-- The head frame goes, of which the peripheral has nothing. -/
theorem failHeadFrame (h : Coupled c j) (hwhole : j.started = false) {q : WriteQueue}
    (hlinked : q.linked = c.queue.linked) (hqueue : q.writeQueue = c.queue.writeQueue)
    (hflight : q.writeInFlight = none) :
    Coupled { c with queue := q.failHeadFrame } { j with waiting := j.waiting.tail, started :=
      false } := by
  apply pump
  refine ⟨h.completed, ?_, ?_, fun hkept => ?_, fun hkept _ => ?_, fun chunk hchunk => ?_⟩
  · exact (List.Sublist.append_left (List.tail_sublist j.waiting) _).trans h.order
  · show j.waiting.tail.length = q.writeQueue.tail.length
    rw [List.length_tail, List.length_tail, h.lengths, hqueue]
  · have hkept : c.queue.linked = true := hlinked ▸ hkept
    have hawaits := h.awaits hkept
    rw [h.unstarted hkept hwhole] at hawaits ⊢
    show reader.Awaits {} (j.waiting.tail.zip q.writeQueue.tail)
    rw [hqueue]
    cases hwaiting : j.waiting with
    | nil => rfl
    | cons first later =>
      cases hframes : c.queue.writeQueue with
      | nil =>
        rw [List.tail_nil, List.zip_nil_right]
        rfl
      | cons head frames =>
        rw [hwaiting, hframes, List.zip_cons_cons] at hawaits
        exact hawaits.tail
  · exact h.unstarted (hlinked ▸ hkept) hwhole
  · have hchunk : q.writeInFlight = some chunk := hchunk
    rw [hflight] at hchunk
    cases hchunk

/-- A write fails: unless the failure takes a started frame off the queue, nothing is lost that the
peripheral has a part of while the link is kept. -/
theorem fail (h : Coupled c j) {queue : WriteQueue} {error : WriteError}
    (hqueue : c.queue.didWriteValueFor (some error) = some queue)
    (hwhole : c.queue.FailsHeadFrame error → j.started = false) :
    Coupled { c with queue } (j.note c (.didWriteValueFor (some error)) c') := by
  unfold WriteQueue.didWriteValueFor at hqueue
  dsimp only at hqueue
  by_cases hdead : error.linkDead = true
  · rw [if_pos hdead] at hqueue
    have hkept : ¬c.queue.FailsHeadFrame error := fun hfails => by simp [hfails.1] at hdead
    obtain rfl := Option.some.inj hqueue
    simp only [Journal.note, if_neg hkept, if_pos (show c.queue.TearsDown error from .inl hdead)]
    exact h.tearDown rfl
  · rw [if_neg hdead] at hqueue
    rw [Bool.not_eq_true] at hdead
    by_cases hretries : 0 < c.queue.chunkRetriesLeft.getD chunkRetryLimit
    · rw [if_pos hretries] at hqueue
      have hkept : ¬c.queue.FailsHeadFrame error := fun hfails => by
        have := hfails.2.1
        omega
      have hlinked : ¬c.queue.TearsDown error := by
        rintro (hconclusive | ⟨hnone, _⟩)
        · rw [hdead] at hconclusive
          cases hconclusive
        · omega
      obtain rfl := Option.some.inj hqueue
      simp only [Journal.note, if_neg hkept, if_neg hlinked]
      exact (h.land _ _).pump
    · rw [if_neg hretries] at hqueue
      have hnone : c.queue.chunkRetriesLeft.getD chunkRetryLimit = 0 := by omega
      by_cases hcount : c.queue.writeErrorCount + 1 < writeErrorTeardownThreshold
      · rw [if_pos hcount] at hqueue
        have hfails : c.queue.FailsHeadFrame error := ⟨hdead, hnone, hcount⟩
        obtain rfl := Option.some.inj hqueue
        simp only [Journal.note, if_pos hfails]
        exact h.failHeadFrame (hwhole hfails) rfl rfl rfl
      · rw [if_neg hcount] at hqueue
        have hkept : ¬c.queue.FailsHeadFrame error := fun hfails => hcount hfails.2.2
        have htears : c.queue.TearsDown error := .inr ⟨hnone, by omega⟩
        obtain rfl := Option.some.inj hqueue
        simp only [Journal.note, if_neg hkept, if_pos htears]
        exact h.tearDown rfl

end Coupled

/-! ### Runs -/

abbrev MailboxStep := Transition (MailboxLink × Journal) MailboxLink.Event

/-- The step drops a frame from the queue after a chunk of it was acknowledged. -/
def MailboxStep.DropsStarted (t : MailboxStep) : Prop :=
  ∃ error, t.event = .didWriteValueFor (some error) ∧ t.pre.1.queue.FailsHeadFrame error ∧
    t.pre.2.started = true

/-- The step enqueues a frame that is longer than any peripheral takes. -/
def MailboxStep.Oversized (t : MailboxStep) : Prop :=
  ∃ type payload size, t.event = .writeFrameToPeer type payload size ∧
    maxDeclaredFrameLength < payload.length

/-- The frames that the peripheral completes are those with all chunks acknowledged, and a
subsequence of the enqueued ones; so are the envelopes. -/
structure Intact (s : MailboxLink × Journal) : Prop where
  acknowledged : s.1.completed = s.2.acknowledged
  completed : s.1.completed.Sublist s.2.enqueued
  incoming : s.1.incoming.Sublist (s.2.enqueued.filterMap dispatchFrame)

theorem Coupled.intact (h : Coupled c j) : Intact (c, j) := by
  have hcompleted : c.completed.Sublist j.enqueued := by
    rw [h.completed]
    exact (List.sublist_append_left _ _).trans h.order
  exact ⟨h.completed, hcompleted, hcompleted.filterMap dispatchFrame⟩

theorem coupled_step (t : MailboxStep)
    (ht : recorded MailboxLink.step Journal.note t.pre t.event = some t.post)
    (hwhole : ¬t.DropsStarted ∧ ¬t.Oversized) (h : Coupled t.pre.1 t.pre.2) :
    Coupled t.post.1 t.post.2 := by
  obtain ⟨⟨c, j⟩, event, c', j'⟩ := t
  obtain ⟨hstep, hnote⟩ := step_of_recorded ht
  dsimp only at h hstep hnote ⊢
  subst hnote
  cases event with
  | writeFrameToPeer type payload size =>
    obtain ⟨wire, hframe, rfl⟩ := Option.map_eq_some_iff.mp hstep
    have hbound : payload.length ≤ maxDeclaredFrameLength := by
      by_contra hlong
      exact hwhole.2 ⟨type, payload, size, rfl, by omega⟩
    by_cases hlinked : c.queue.linked = true
    · simp only [Journal.note, if_pos hlinked]
      exact h.enqueue hframe hbound hlinked
    · simp only [Journal.note, WriteQueue.writeFrameToPeer, if_neg hlinked]
      exact h
  | didWriteValueFor error =>
    cases error with
    | none =>
      obtain ⟨chunk, hflight, hrest⟩ := Option.bind_eq_some_iff.mp hstep
      obtain ⟨queue, hqueue, rfl⟩ := Option.map_eq_some_iff.mp hrest
      exact h.acknowledge hflight hqueue
    | some error =>
      obtain ⟨chunk, _, hrest⟩ := Option.bind_eq_some_iff.mp hstep
      obtain ⟨queue, hqueue, rfl⟩ := Option.map_eq_some_iff.mp hrest
      refine h.fail hqueue fun hfails => ?_
      by_contra hstarted
      rw [Bool.not_eq_false] at hstarted
      exact hwhole.1 ⟨error, rfl, hfails, hstarted⟩

/-- In every run in which no frame is dropped after one of its chunks was acknowledged, and none is
longer than a peripheral takes, the stream stays intact. -/
theorem stream_intact {es : List MailboxLink.Event} {s : MailboxLink × Journal}
    (hwhole : ∀ t ∈ trace (recorded MailboxLink.step Journal.note) ({}, {}) es,
      ¬MailboxStep.DropsStarted t ∧ ¬MailboxStep.Oversized t)
    (hrun : run (recorded MailboxLink.step Journal.note) ({}, {}) es = some s) : Intact s := by
  have hstart : Coupled {} {} :=
    ⟨rfl, List.Sublist.refl _, rfl, fun _ => rfl, fun _ _ => rfl, nofun⟩
  have hcoupled : Coupled s.1 s.2 :=
    run_invariant (fun s => Coupled s.1 s.2) _ coupled_step hstart hwhole hrun
  exact hcoupled.intact

/-- The step drops no started frame and enqueues none beyond the bound. -/
def MailboxStep.whole (t : MailboxStep) : Bool :=
  match t.event with
  | .writeFrameToPeer _ payload _ => payload.length ≤ maxDeclaredFrameLength
  | .didWriteValueFor none => true
  | .didWriteValueFor (some error) => !(t.pre.1.queue.FailsHeadFrame error && t.pre.2.started)

theorem MailboxStep.not_of_whole {t : MailboxStep} (h : t.whole) :
    ¬t.DropsStarted ∧ ¬t.Oversized := by
  refine ⟨?_, ?_⟩
  · rintro ⟨error, hevent, hfails, hstarted⟩
    simp [whole, hevent, hfails, hstarted] at h
  · rintro ⟨type, payload, size, hevent, hlong⟩
    simp only [whole, hevent, decide_eq_true_eq] at h
    omega

/-- An envelope of 33 bytes and one of 18, which make frames of two chunks each. -/
def firstEnvelope : Envelope := .new (.filled 1) (List.replicate 15 1)

def secondEnvelope : Envelope := .new (.filled 2) []

def bothEnqueued : List MailboxLink.Event :=
  [.writeFrameToPeer .envelope firstEnvelope.wireData 20,
    .writeFrameToPeer .envelope secondEnvelope.wireData 20]

/-- A chunk that fails until its retries are used up. -/
def failsThrice : List MailboxLink.Event := List.replicate 3 (.didWriteValueFor (some .unknown))

/-- The first chunk of the first frame fails, and the second frame goes through. -/
def firstFails : List MailboxLink.Event :=
  bothEnqueued ++ failsThrice ++
    ([.didWriteValueFor none, .didWriteValueFor none] : List MailboxLink.Event)

theorem stream_intact_firstFails :
    ∃ s, run (recorded MailboxLink.step Journal.note) ({}, {}) firstFails = some s ∧ Intact s ∧
      s.1.incoming = [secondEnvelope] := by
  have hwhole : ∀ t ∈ trace (recorded MailboxLink.step Journal.note) ({}, {}) firstFails,
      ¬MailboxStep.DropsStarted t ∧ ¬MailboxStep.Oversized t := by
    intro t ht
    refine MailboxStep.not_of_whole (List.all_eq_true.mp ?_ t ht)
    decide +kernel
  exact ⟨_, rfl, stream_intact hwhole rfl, rfl⟩

/-- The second chunk of the first frame fails after its first one was acknowledged. -/
def secondFails : List MailboxLink.Event :=
  bothEnqueued ++ ([.didWriteValueFor none] : List MailboxLink.Event) ++ failsThrice ++
    ([.didWriteValueFor none, .didWriteValueFor none] : List MailboxLink.Event)

/-- The peripheral completes a frame of bytes from both, which nobody enqueued, and not the second
frame, whose chunks were all acknowledged. -/
theorem stream_corrupted :
    ∃ s, run (recorded MailboxLink.step Journal.note) ({}, {}) secondFails = some s ∧
      s.1.queue.linked = true ∧ s.2.acknowledged = [(.envelope, secondEnvelope.wireData)] ∧
      (∃ frame ∈ s.1.completed, frame ∉ s.2.enqueued) ∧
      (.envelope, secondEnvelope.wireData) ∉ s.1.completed ∧ ¬Intact s := by
  refine ⟨_, rfl, rfl, rfl, ⟨_, List.mem_of_head? rfl, ?_⟩, ?_, fun hintact => ?_⟩
  · decide
  · decide
  · exact absurd hintact.acknowledged (by decide)

end BLEMeshTransport

end AeroNyra
