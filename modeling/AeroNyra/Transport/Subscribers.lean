import AeroNyra.Lib.Dict
import AeroNyra.Transport.NotifyQueue

/-! The centrals that subscribe to the mailbox while frames go out.  All of them hear each slice
that `updateValue` accepts, so that one that subscribes between two slices of a frame hears the
rest of it first. -/

namespace AeroNyra

namespace BLEMeshTransport

open Interleave

/-- The queue, and what each subscriber was notified of since it subscribed. -/
structure NotifyStream where
  queue : NotifyQueue := { mailbox := true }
  heard : Dict UUID (List Data) := ∅

namespace NotifyStream

inductive Event
  | notifySubscribers (type : FrameType) (payload : Data) (updateValue : Nat → Bool)
  | peripheralManagerIsReady (updateValue : Nat → Bool)
  | didSubscribeTo (central : UUID)
  | didUnsubscribeFrom (central : UUID)

/-- The slices that `updateValue` accepts reach every subscriber. -/
def notify (s : NotifyStream) (e : NotifyQueue.Event) : NotifyStream :=
  let sent := s.queue.react e
  ⟨sent.1, s.heard.mapValues (· ++ sent.2)⟩

/-- A central subscribes or unsubscribes once at a time. -/
def step (s : NotifyStream) : Event → Option NotifyStream
  | .notifySubscribers type payload updateValue =>
    (frame type payload).map fun wire => s.notify (.notifySubscribers wire updateValue)
  | .peripheralManagerIsReady updateValue => some (s.notify (.peripheralManagerIsReady updateValue))
  | .didSubscribeTo central =>
    if (s.heard.lookup central).isSome then none
    else some { s with heard := AList.insert central [] s.heard }
  | .didUnsubscribeFrom central =>
    if (s.heard.lookup central).isSome then some { s with heard := AList.erase central s.heard }
      else none

/-- The number of slices that `updateValue` accepts. -/
def accepts (s : NotifyStream) : Event → Nat
  | .notifySubscribers type payload updateValue =>
    match frame type payload with
    | some wire => (s.queue.notifySubscribers wire updateValue).2.length
    | none => 0
  | .peripheralManagerIsReady updateValue => (s.queue.peripheralManagerIsReady updateValue).2.length
  | .didSubscribeTo _ | .didUnsubscribeFrom _ => 0

end NotifyStream

/-- The frames that were passed, the number of slices that were accepted, and what it was when each
central subscribed. -/
structure Passed where
  frames : List (FrameType × Data) := []
  accepted : Nat := 0
  joined : Dict UUID Nat := ∅

namespace Passed

open NotifyStream

def note (j : Passed) (s : NotifyStream) (e : Event) (_ : NotifyStream) : Passed :=
  let accepted := j.accepted + s.accepts e
  match e with
  | .notifySubscribers type payload _ =>
      { j with frames := j.frames ++ [(type, payload)], accepted }
  | .peripheralManagerIsReady _ | .didUnsubscribeFrom _ => { j with accepted }
  | .didSubscribeTo central => { j with accepted, joined := AList.insert central accepted j.joined }

end Passed

/-- A frame with its slices. -/
def inSlices (f : FrameType × Data) : (FrameType × Data) × List Data :=
  (f, slices (f.1.rawValue :: bigEndian f.2.length ++ f.2))

/-- The slices of all frames. -/
def streamSlices (frames : List (FrameType × Data)) : List Data :=
    (frames.map inSlices).flatMap (·.2)

theorem streamSlices_append (frames frames' : List (FrameType × Data)) :
    streamSlices (frames ++ frames') = streamSlices frames ++ streamSlices frames' := by
  simp [streamSlices]

theorem ready_inSlices {f : FrameType × Data} (h : f.2.length ≤ maxDeclaredFrameLength) :
    reader.Ready {} (inSlices f) := by
  have hframe : frame f.1 f.2 = some (f.1.rawValue :: bigEndian f.2.length ++ f.2) := by
    unfold maxDeclaredFrameLength at h
    exact if_pos (show f.2.length < 2 ^ 32 by omega)
  exact ready_cut (by decide) hframe h

/-- The frames whose slices were all accepted after the first `joined` ones, among the first
`now`. -/
def wholeSince (joined now : Nat) (frames : List (FrameType × Data)) : List (FrameType × Data) :=
  Reader.wholeWithin joined now 0 (frames.map inSlices)

/-- What a subscriber heard begins with the first slice of a frame, and its reassembly completes the
frames whose slices were all accepted since it subscribed. -/
structure FromBoundary (j : Passed) (joined : Nat) (heard : List Data) : Prop where
  boundary : heard ≠ [] → ∃ done later, j.frames = done ++ later ∧
    joined = (streamSlices done).length ∧ heard <+: streamSlices later
  emitted : (reader.feedAll {} heard).2 = wholeSince joined j.accepted j.frames

/-- So for all subscribers. -/
def AllFromBoundary (s : NotifyStream × Passed) : Prop :=
  ∀ central heard, s.1.heard.lookup central = some heard →
    ∃ joined, s.2.joined.lookup central = some joined ∧ FromBoundary s.2 joined heard

abbrev NotifyStep := Transition (NotifyStream × Passed) NotifyStream.Event

/-- No frame is half drained: what waits are all slices of the last frames. -/
def NotHalfway (s : NotifyStream × Passed) : Prop :=
  ∃ done later, s.2.frames = done ++ later ∧ s.1.queue.pendingNotifications = streamSlices later

/-- The step subscribes no central while a frame is half drained, and passes no frame that is
longer than a central takes. -/
def NotifyStep.Whole (t : NotifyStep) : Prop :=
  match t.event with
  | .notifySubscribers _ payload _ => payload.length ≤ maxDeclaredFrameLength
  | .didSubscribeTo _ => NotHalfway t.pre
  | .peripheralManagerIsReady _ | .didUnsubscribeFrom _ => True

/-- What a subscriber heard and what waits are all slices of the frames from one of them on. -/
structure Joined (s : NotifyStream × Passed) (central : UUID) (heard : List Data) : Prop where
  slices : ∃ done later, s.2.frames = done ++ later ∧
    s.2.joined.lookup central = some (streamSlices done).length ∧
    heard ++ s.1.queue.pendingNotifications = streamSlices later

structure Tracked (s : NotifyStream × Passed) : Prop where
  mailbox : s.1.queue.mailbox = true
  bounded : ∀ f ∈ s.2.frames, f.2.length ≤ maxDeclaredFrameLength
  count : s.2.accepted + s.1.queue.pendingNotifications.length = (streamSlices s.2.frames).length
  joined : ∀ central heard, s.1.heard.lookup central = some heard → Joined s central heard

namespace Tracked

variable {s : NotifyStream × Passed}

/-- Slices go out, behind a frame that is passed or none. -/
theorem notify (h : Tracked s) (e : NotifyQueue.Event) (added : List (FrameType × Data))
    (hslices : e.slices = streamSlices added)
    (hbounded : ∀ f ∈ added, f.2.length ≤ maxDeclaredFrameLength) :
    Tracked (s.1.notify e,
      { s.2 with
        frames := s.2.frames ++ added
        accepted := s.2.accepted + (s.1.queue.react e).2.length }) := by
  have hconserved := NotifyQueue.react_conserves h.mailbox e
  rw [hslices] at hconserved
  refine ⟨?_, fun f hf => ?_, ?_, fun central heard hheard => ?_⟩
  · exact (NotifyQueue.react_mailbox e).trans h.mailbox
  · exact (List.mem_append.mp hf).elim (h.bounded f) (hbounded f)
  · have hlengths := congrArg List.length hconserved
    have hcount := h.count
    simp only [List.length_append] at hlengths
    show s.2.accepted + (s.1.queue.react e).2.length +
      (s.1.queue.react e).1.pendingNotifications.length = _
    rw [streamSlices_append, List.length_append]
    omega
  · have hlookup : ((s.1.heard).mapValues (· ++ (s.1.queue.react e).2)).lookup central =
      some heard := hheard
    rw [Dict.lookup_mapValues] at hlookup
    obtain ⟨before, hbefore, rfl⟩ := Option.map_eq_some_iff.mp hlookup
    obtain ⟨done, later, hframes, hjoined, hall⟩ := (h.joined central before hbefore).slices
    refine ⟨done, later ++ added, ?_, hjoined, ?_⟩
    · show s.2.frames ++ added = done ++ (later ++ added)
      rw [hframes, List.append_assoc]
    · show before ++ (s.1.queue.react e).2 ++ (s.1.queue.react e).1.pendingNotifications = _
      rw [List.append_assoc, ← hconserved, ← List.append_assoc, hall, streamSlices_append]

/-- A central subscribes, and no frame is half drained. -/
theorem subscribe (h : Tracked s) (central : UUID) (hwhole : NotHalfway s) :
    Tracked ({ s.1 with heard := AList.insert central [] s.1.heard },
      { s.2 with joined := AList.insert central s.2.accepted s.2.joined }) := by
  refine ⟨h.mailbox, h.bounded, h.count, fun other heard hheard => ?_⟩
  rw [Dict.lookup_insert] at hheard
  by_cases hother : other = central
  · subst hother
    rw [if_pos rfl] at hheard
    obtain rfl := Option.some.inj hheard
    obtain ⟨done, later, hframes, hpending⟩ := hwhole
    have hcount := h.count
    rw [hframes, streamSlices_append, List.length_append, hpending] at hcount
    refine ⟨done, later, hframes, ?_, hpending⟩
    rw [Dict.lookup_insert, if_pos rfl]
    exact congrArg some (by omega)
  · rw [if_neg hother] at hheard
    obtain ⟨done, later, hframes, hjoined, hall⟩ := (h.joined other heard hheard).slices
    refine ⟨done, later, hframes, ?_, hall⟩
    rw [Dict.lookup_insert, if_neg hother]
    exact hjoined

theorem unsubscribe (h : Tracked s) (central : UUID) :
    Tracked ({ s.1 with heard := AList.erase central s.1.heard }, s.2) := by
  refine ⟨h.mailbox, h.bounded, h.count, fun other heard hheard => ?_⟩
  rw [Dict.lookup_erase] at hheard
  split at hheard
  · cases hheard
  · obtain ⟨done, later, hslices⟩ := (h.joined other heard hheard).slices
    exact ⟨done, later, hslices⟩

/-- Each subscriber hears from a boundary on. -/
theorem fromBoundary (h : Tracked s) : AllFromBoundary s := by
  intro central heard hheard
  obtain ⟨done, later, hframes, hjoined, hall⟩ := (h.joined central heard hheard).slices
  have hprefix : heard <+: streamSlices later := ⟨_, hall⟩
  refine ⟨_, hjoined, fun _ => ⟨done, later, hframes, rfl, hprefix⟩, ?_⟩
  have hready : ∀ word ∈ later.map inSlices, reader.Ready reader.start word := by
    intro word hword
    obtain ⟨f, hf, rfl⟩ := List.mem_map.mp hword
    exact ready_inSlices (h.bounded f (hframes ▸ List.mem_append_right _ hf))
  have hpieces : ∀ word ∈ done.map inSlices, word.2 ≠ [] := by
    intro word hword
    obtain ⟨f, hf, rfl⟩ := List.mem_map.mp hword
    exact (ready_inSlices (h.bounded f (hframes ▸ List.mem_append_left _ hf))).pieces
  have hnow : s.2.accepted = (streamSlices done).length + heard.length := by
    have hcount := h.count
    have hlengths := congrArg List.length hall
    rw [hframes, streamSlices_append, List.length_append] at hcount
    rw [List.length_append] at hlengths
    omega
  have hskip : wholeSince (streamSlices done).length s.2.accepted s.2.frames =
      Reader.wholeWithin (streamSlices done).length s.2.accepted (streamSlices done).length
        (later.map inSlices) := by
    have hplace : 0 + ((done.map inSlices).flatMap (·.2)).length = (streamSlices done).length :=
      Nat.zero_add _
    rw [wholeSince, hframes, List.map_append,
      Reader.wholeWithin_skip hpieces (Nat.le_of_eq hplace) (later.map inSlices), hplace]
  have htake :=
    Reader.feedAll_take_words hready (Nat.le_refl (streamSlices done).length) heard.length
  rw [hskip, hnow, ← htake]
  conv_lhs => rw [List.prefix_iff_eq_take.mp hprefix]
  rfl

end Tracked

theorem tracked_step (t : NotifyStep)
    (ht : recorded NotifyStream.step Passed.note t.pre t.event = some t.post) (hwhole : t.Whole)
    (h : Tracked t.pre) : Tracked t.post := by
  obtain ⟨s, event, s', j'⟩ := t
  obtain ⟨hstep, hnote⟩ := step_of_recorded ht
  dsimp only at h hstep hnote ⊢
  subst hnote
  cases event with
  | notifySubscribers type payload updateValue =>
    obtain ⟨wire, hframe, rfl⟩ := Option.map_eq_some_iff.mp hstep
    have hslices : slices wire = streamSlices [(type, payload)] := by
      rw [eq_of_frame hframe]
      simp [streamSlices, inSlices]
    have hsent := h.notify (.notifySubscribers wire updateValue) _ hslices
      (fun f hf => by rw [List.mem_singleton.mp hf]; exact hwhole)
    simp only [Passed.note, NotifyStream.accepts, hframe]
    exact hsent
  | peripheralManagerIsReady updateValue =>
    obtain rfl := Option.some.inj hstep
    have hsent := h.notify (.peripheralManagerIsReady updateValue) [] rfl nofun
    rw [List.append_nil] at hsent
    exact hsent
  | didSubscribeTo central =>
    obtain ⟨_, hstep⟩ := Option.ite_none_left_eq_some.mp hstep
    obtain rfl := Option.some.inj hstep
    exact h.subscribe central hwhole
  | didUnsubscribeFrom central =>
    obtain ⟨_, hstep⟩ := Option.ite_none_right_eq_some.mp hstep
    obtain rfl := Option.some.inj hstep
    exact h.unsubscribe central

/-- In every run in which no central subscribes while a frame is half drained, and no frame is
longer than a central takes, every subscriber hears from a boundary on. -/
theorem subscribers_from_boundary {es : List NotifyStream.Event} {s : NotifyStream × Passed}
    (hwhole : ∀ t ∈ trace (recorded NotifyStream.step Passed.note) ({}, {}) es, NotifyStep.Whole t)
    (hrun : run (recorded NotifyStream.step Passed.note) ({}, {}) es = some s) :
    AllFromBoundary s := by
  have hstart : Tracked ({}, {}) := ⟨rfl, nofun, rfl, fun _ _ h => by cases h⟩
  exact (run_invariant Tracked _ tracked_step hstart hwhole hrun).fromBoundary

/-- The step subscribes no central while anything waits. -/
def NotifyStep.drained (t : NotifyStep) : Bool :=
  match t.event with
  | .notifySubscribers _ payload _ => payload.length ≤ maxDeclaredFrameLength
  | .didSubscribeTo _ => t.pre.1.queue.pendingNotifications = []
  | .peripheralManagerIsReady _ | .didUnsubscribeFrom _ => true

theorem NotifyStep.whole_of_drained {t : NotifyStep} (h : t.drained = true) : t.Whole := by
  obtain ⟨s, event, s'⟩ := t
  cases event with
  | notifySubscribers type payload updateValue =>
    have hbound : decide (payload.length ≤ maxDeclaredFrameLength) = true := h
    have hbound := of_decide_eq_true hbound
    exact hbound
  | didSubscribeTo central =>
    have hempty : decide (s.1.queue.pendingNotifications = []) = true := h
    exact ⟨s.2.frames, [], (List.append_nil _).symm, of_decide_eq_true hempty⟩
  | peripheralManagerIsReady updateValue => trivial
  | didUnsubscribeFrom central => trivial

/-- A bundle of two slices, the second of which begins like a bundle's frame of 100 bytes. -/
def longBundle : Data := List.replicate 175 0 ++ [2, 0, 0, 0, 100] ++ List.replicate 20 0

/-- Central 1 subscribes first, and central 2 when the bundle is out. -/
def subscribesBehind : List NotifyStream.Event :=
  [.didSubscribeTo 1, .notifySubscribers .bundle longBundle (· < 1),
    .peripheralManagerIsReady fun _ => true, .didSubscribeTo 2,
    .notifySubscribers .reconnect [5] fun _ => true]

set_option maxRecDepth 8192 in
theorem subscribers_from_boundary_behind :
    ∃ s, run (recorded NotifyStream.step Passed.note) ({}, {}) subscribesBehind = some s ∧
      AllFromBoundary s ∧ s.1.heard.lookup 2 = some [[3, 0, 0, 0, 1, 5]] := by
  have hwhole : ∀ t ∈ trace (recorded NotifyStream.step Passed.note) ({}, {}) subscribesBehind,
      NotifyStep.Whole t := by
    intro t ht
    refine NotifyStep.whole_of_drained (List.all_eq_true.mp ?_ t ht)
    decide +kernel
  exact ⟨_, rfl, subscribers_from_boundary hwhole rfl, rfl⟩

/-- Central 2 subscribes when half of the bundle is out. -/
def subscribesBetween : List NotifyStream.Event :=
  [.didSubscribeTo 1, .notifySubscribers .bundle longBundle (· < 1), .didSubscribeTo 2,
    .peripheralManagerIsReady fun _ => true, .notifySubscribers .reconnect [5] fun _ => true]

set_option maxRecDepth 8192 in
/-- It hears the rest of the bundle first, which swallows the frame behind it. -/
theorem subscriber_from_between :
    ∃ s heard, run (recorded NotifyStream.step Passed.note) ({}, {}) subscribesBetween = some s ∧
      s.1.heard.lookup 2 = some heard ∧ heard.getLast? = some [3, 0, 0, 0, 1, 5] ∧
      (reader.feedAll {} heard).2 = [] ∧ ¬AllFromBoundary s := by
  refine ⟨_, _, rfl, rfl, by decide, by decide +kernel, fun hall => ?_⟩
  obtain ⟨joined, hjoined, _, hemitted⟩ := hall 2 _ rfl
  obtain rfl := Option.some.inj hjoined
  revert hemitted
  decide +kernel

end BLEMeshTransport

end AeroNyra
