import AeroNyra.Lib.Interleave
import AeroNyra.Lib.Pieces
import AeroNyra.Transport.Framing

/-! The peripheral's queue of notifications: the slices of all frames, of which the ones that
`updateValue` refused wait for the callback that it is ready again. -/

namespace AeroNyra

namespace BLEMeshTransport

open Interleave

/-- The `maxChunk` of `notifySubscribers`. -/
def notifyMaxChunk : Nat := 180

/-- The slices of a frame. -/
def slices (frame : Data) : List Data := Pieces.cut notifyMaxChunk frame

/-- The slices up to the first one that `updateValue` refuses, and the rest; `updateValue i` is its
answer to the `i`-th of them. -/
def sendSlices (updateValue : Nat → Bool) : List Data → List Data × List Data
  | [] => ([], [])
  | slice :: slices =>
    if updateValue 0 then
      let sent := sendSlices (fun i => updateValue (i + 1)) slices
      (slice :: sent.1, sent.2)
    else ([], slice :: slices)

theorem sendSlices_append (updateValue : Nat → Bool) (slices : List Data) :
    (sendSlices updateValue slices).1 ++ (sendSlices updateValue slices).2 = slices := by
  induction slices generalizing updateValue with
  | nil => rfl
  | cons slice slices ih =>
    unfold sendSlices
    split
    · exact congrArg (slice :: ·) (ih _)
    · rfl

structure NotifyQueue where
  /-- The mailbox is published. -/
  mailbox : Bool := false
  pendingNotifications : List Data := []
  deriving DecidableEq

namespace NotifyQueue

/-- The queue after a frame, and the slices that `updateValue` accepted. -/
def notifySubscribers (q : NotifyQueue) (frame : Data) (updateValue : Nat → Bool) :
    NotifyQueue × List Data :=
  if q.mailbox then
    if q.pendingNotifications.isEmpty then
      let sent := sendSlices updateValue (slices frame)
      ({ q with pendingNotifications := q.pendingNotifications ++ sent.2 }, sent.1)
    else ({ q with pendingNotifications := q.pendingNotifications ++ slices frame }, [])
  else (q, [])

/-- The queue after the ready callback, and the slices that `updateValue` accepted. -/
def peripheralManagerIsReady (q : NotifyQueue) (updateValue : Nat → Bool) :
    NotifyQueue × List Data :=
  if q.mailbox then
    let sent := sendSlices updateValue q.pendingNotifications
    ({ q with pendingNotifications := sent.2 }, sent.1)
  else (q, [])

variable {q q' : NotifyQueue}

/-- What a frame adds to the queue goes out behind what waits. -/
theorem notifySubscribers_conserves (hmailbox : q.mailbox = true) (frame : Data)
    (updateValue : Nat → Bool) :
    q.pendingNotifications ++ slices frame =
      (q.notifySubscribers frame updateValue).2 ++
        (q.notifySubscribers frame updateValue).1.pendingNotifications := by
  unfold notifySubscribers
  rw [if_pos hmailbox]
  split
  · rename_i hempty
    rw [List.isEmpty_iff.mp hempty]
    exact (sendSlices_append _ _).symm
  · rfl

theorem peripheralManagerIsReady_conserves (hmailbox : q.mailbox = true)
    (updateValue : Nat → Bool) :
    q.pendingNotifications =
      (q.peripheralManagerIsReady updateValue).2 ++
        (q.peripheralManagerIsReady updateValue).1.pendingNotifications := by
  unfold peripheralManagerIsReady
  rw [if_pos hmailbox]
  exact (sendSlices_append _ _).symm

@[simp] theorem notifySubscribers_mailbox (frame : Data) (updateValue : Nat → Bool) :
    (q.notifySubscribers frame updateValue).1.mailbox = q.mailbox := by
  unfold notifySubscribers
  split
  · split <;> rfl
  · rfl

@[simp] theorem peripheralManagerIsReady_mailbox (updateValue : Nat → Bool) :
    (q.peripheralManagerIsReady updateValue).1.mailbox = q.mailbox := by
  unfold peripheralManagerIsReady
  split <;> rfl

inductive Event
  | notifySubscribers (frame : Data) (updateValue : Nat → Bool)
  | peripheralManagerIsReady (updateValue : Nat → Bool)

/-- The queue after the event, and the slices that `updateValue` accepted. -/
def react (q : NotifyQueue) : Event → NotifyQueue × List Data
  | .notifySubscribers frame updateValue => q.notifySubscribers frame updateValue
  | .peripheralManagerIsReady updateValue => q.peripheralManagerIsReady updateValue

def step (q : NotifyQueue) (e : Event) : Option NotifyQueue := some (q.react e).1

/-- The slices of the frame that the event passes. -/
def Event.slices : Event → List Data
  | .notifySubscribers frame _ => BLEMeshTransport.slices frame
  | .peripheralManagerIsReady _ => []

/-- The slices that `updateValue` accepted in a run, in their order. -/
def accepted (q : NotifyQueue) (es : List Event) : List Data :=
  (trace step q es).flatMap fun t => (t.pre.react t.event).2

@[simp] theorem react_mailbox (e : Event) : (q.react e).1.mailbox = q.mailbox := by
  cases e with
  | notifySubscribers frame updateValue => exact notifySubscribers_mailbox frame updateValue
  | peripheralManagerIsReady updateValue => exact peripheralManagerIsReady_mailbox updateValue

theorem react_conserves (hmailbox : q.mailbox = true) (e : Event) :
    q.pendingNotifications ++ e.slices = (q.react e).2 ++ (q.react e).1.pendingNotifications := by
  cases e with
  | notifySubscribers frame updateValue =>
      exact notifySubscribers_conserves hmailbox frame updateValue
  | peripheralManagerIsReady updateValue =>
    show q.pendingNotifications ++ [] = _
    rw [List.append_nil]
    exact peripheralManagerIsReady_conserves hmailbox updateValue

/-- The slices that went out and those that wait are what waited before and the slices of all
frames, in the order of the frames, whatever `updateValue` refuses. -/
theorem notifications_fifo {es : List Event} (hmailbox : q.mailbox = true)
    (hrun : run step q es = some q') :
    accepted q es ++ q'.pendingNotifications = q.pendingNotifications ++
      es.flatMap Event.slices := by
  have hstep : ∀ t : Transition NotifyQueue Event, step t.pre t.event = some t.post →
      t.post = (t.pre.react t.event).1 := fun t ht => (Option.some.inj ht).symm
  have hconserved : q.pendingNotifications ++ (trace step q es).flatMap (fun t => t.event.slices) =
      accepted q es ++ q'.pendingNotifications := by
    refine run_conserves (fun q => q.mailbox = true) pendingNotifications (fun t => t.event.slices)
      (fun t => (t.pre.react t.event).2) (fun t ht hpre => ?_) (fun t ht hpre => ?_) hmailbox hrun
    · rw [hstep t ht, react_mailbox, hpre]
    · rw [hstep t ht]
      exact react_conserves hpre t.event
  have hframes := congrArg (List.flatMap Event.slices) (map_event_trace hrun)
  rw [List.flatMap_map] at hframes
  rw [← hconserved, hframes]

set_option maxRecDepth 8192 in
/-- A frame of three slices and one of a single slice, of which the first two go out, and then the
others. -/
theorem notifications_fifo_refused :
    ∃ q', run step { mailbox := true }
        [.notifySubscribers (List.replicate 400 7) (· < 1), .notifySubscribers [1, 2] fun _ => true,
          .peripheralManagerIsReady (· < 1), .peripheralManagerIsReady fun _ => true] = some q' ∧
      accepted { mailbox := true }
        [.notifySubscribers (List.replicate 400 7) (· < 1), .notifySubscribers [1, 2] fun _ => true,
          .peripheralManagerIsReady (· < 1), .peripheralManagerIsReady fun _ => true] ++
          q'.pendingNotifications =
        [List.replicate 180 7, List.replicate 180 7, List.replicate 40 7, [1, 2]] :=
  ⟨_, rfl, by rw [notifications_fifo rfl rfl]; decide⟩

end NotifyQueue

end BLEMeshTransport

end AeroNyra
