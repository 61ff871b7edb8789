import AeroNyra.Calls.Isolation

/-! Who drives a call: the signals that change the attempt in progress, in runs of the controller
from any state with signals from any number of peers.  An answer is matched by its call id and its
peer, a decline by its call id alone. -/

namespace AeroNyra

def CallSignal.callID : CallSignal → Data
  | .request callID _ | .answer callID _ | .decline callID => callID

namespace CallController

open Interleave

/-- The call id and the peer of the attempt in progress: those in the state, or, while `startCall`
waits for its offer and the state is still idle, those of its session. -/
def callInProgress (s : CallController) (h : Attempts) : Option (Data × Data) :=
  match s.state with
  | .outgoingRinging callID peerKey | .incomingRinging callID peerKey _ | .connecting callID peerKey
  | .active callID peerKey => some (callID, peerKey)
  | .idle =>
    if h.current.isSome then (s.media.bind (s.sessions[·]?)).map fun m => (m.callID, m.peerKey)
    else none
  | .ended _ => none

/-- The state, the ring timer and the media session are as they were. -/
structure Unchanged (s s' : CallController) : Prop where
  state : s'.state = s.state
  ringTimer : s'.ringTimer = s.ringTimer
  ringTimers : s'.ringTimers = s.ringTimers
  media : s'.media = s.media
  sessions : s'.sessions = s.sessions

/-- What a signal may do to an attempt in progress that is not its own. -/
structure LeavesAlone (s s' : CallController) (signal : CallSignal) (peerKey : Data) : Prop where
  unchanged : Unchanged s s'
  busy : ∀ callID sdp, signal = .request callID sdp →
    s' = s ∨ s' = s.sendSignal (.decline callID) peerKey

/-- The signal that an event handles: the operation of its thread is `handleInbound`. -/
def handled (events : List (Event Call Reply)) : Event Call Reply → Option (CallSignal × Data)
  | .start _ => none
  | .step i _ =>
    match (started events)[i]? with
    | some (.handleInbound signal peerKey) => some (signal, peerKey)
    | _ => none

/-- The steps of a run from any state. -/
def stepsFrom (s : CallController) (h : Attempts) (events : List (Event Call Reply)) : List Step :=
  trace (machine.observed Attempts.note).step ⟨(s, h), []⟩ events

/-- A signal that the step handles is that of the attempt in progress, or it leaves this alone. -/
def Step.DrivenByPeer (events : List (Event Call Reply)) (t : Step) : Prop :=
  ∀ signal peerKey callID ourPeer, handled events t.event = some (signal, peerKey) →
    t.pre.shared.1.callInProgress t.pre.shared.2 = some (callID, ourPeer) →
    signal.callID = callID ∧ peerKey = ourPeer ∨
      LeavesAlone t.pre.shared.1 t.post.shared.1 signal peerKey

/-- The branches in which a signal changes an attempt that is not its own. -/
inductive Intrudes (s : CallController) (h : Attempts) (signal : CallSignal) (peerKey : Data) :
    Action → Reply → Prop
  /-- A decline with the call id of a ring, from another peer. -/
  | declines {callID ourPeer reply} (hring : s.state.isRinging callID)
      (hsignal : signal = .decline callID)
      (hcall : s.callInProgress h = some (callID, ourPeer)) (hpeer : peerKey ≠ ourPeer) :
      Intrudes s h signal peerKey (.call (.handleInbound signal peerKey)) reply
  /-- A request while `startCall` waits for the offer of another call. -/
  | rings {callID sdp call reply} (hidle : s.state = .idle) (hsignal : signal = .request callID sdp)
      (hcall : s.callInProgress h = some call) (hother : call ≠ (callID, peerKey)) :
      Intrudes s h signal peerKey (.call (.handleInbound signal peerKey)) reply
  /-- The session did not start with the answer that the signal brought, and another call is in
  progress. -/
  | fails {n call} {reply : Reply} (hcarried : ¬reply.carried)
      (hcall : s.callInProgress h = some call)
      (hother : call ≠ (signal.callID, peerKey)) : Intrudes s h signal peerKey (.started n) reply

def Step.Intrudes (events : List (Event Call Reply)) (t : Step) : Prop :=
  ∃ a reply signal peerKey, t.pre.acts t.event = some (a, reply) ∧
    handled events t.event = some (signal, peerKey) ∧
    CallController.Intrudes t.pre.shared.1 t.pre.shared.2 signal peerKey a reply

variable {s s' : CallController} {h : Attempts} {signal : CallSignal} {peerKey : Data}

theorem LeavesAlone.refl : LeavesAlone s s signal peerKey :=
  ⟨⟨rfl, rfl, rfl, rfl, rfl⟩, fun _ _ _ => .inl rfl⟩

theorem callInProgress_ended {reason : EndReason} (hstate : s.state = .ended reason) :
    s.callInProgress h = none := by
  simp [callInProgress, hstate]

/-- A ring with the call id is the call in progress. -/
theorem callInProgress_ringing {id : Data} {call : Data × Data} (hring : s.state.isRinging id)
    (hcall : s.callInProgress h = some call) : id = call.1 := by
  unfold callInProgress at hcall
  cases hstate : s.state with
  | outgoingRinging ourID peer =>
    rw [hstate] at hcall hring
    cases hcall
    exact (eq_of_beq hring).symm
  | incomingRinging ourID peer sdp =>
    rw [hstate] at hcall hring
    cases hcall
    exact (eq_of_beq hring).symm
  | idle | connecting | active | ended => simp [hstate, State.isRinging] at hring

/-- A decline ends the ring with its call id, and is ignored otherwise. -/
theorem handleInbound_decline (id : Data) :
    (s.state.isRinging id → (s.handleInbound (.decline id) peerKey).1.state.isEnded) ∧
      (¬s.state.isRinging id → s.handleInbound (.decline id) peerKey = (s, .goOn [])) := by
  unfold handleInbound
  cases hstate : s.state with
  | outgoingRinging ourID peer =>
    by_cases hid : id = ourID
    · simp [hid, State.isRinging, fail, setState, State.isEnded]
    · simp [hid, Ne.symm hid, State.isRinging]
  | incomingRinging ourID peer sdp =>
    by_cases hid : id = ourID
    · simp [hid, State.isRinging, setState, State.isEnded]
    · simp [hid, Ne.symm hid, State.isRinging]
  | idle | connecting | active | ended => simp [State.isRinging]

/-- A signal is handled without a change to a call of another peer or with another id, unless it
intrudes. -/
theorem handleInbound_leavesAlone {callID ourPeer : Data} {reply : Reply}
    (hcall : s.callInProgress h = some (callID, ourPeer))
    (hother : ¬(signal.callID = callID ∧ peerKey = ourPeer))
    (hfree : ¬Intrudes s h signal peerKey (.call (.handleInbound signal peerKey)) reply) :
    LeavesAlone s (s.handleInbound signal peerKey).1 signal peerKey := by
  cases signal with
  | request id sdp =>
    cases hstate : s.state with
    | idle =>
      refine absurd (.rings hstate rfl hcall fun heq => hother ?_) hfree
      obtain ⟨rfl, rfl⟩ := Prod.mk.inj heq
      exact ⟨rfl, rfl⟩
    | outgoingRinging | incomingRinging | connecting | active | ended =>
      simp only [handleInbound, hstate]
      refine ⟨⟨rfl, rfl, rfl, rfl, rfl⟩, fun _ _ hsignal => .inr ?_⟩
      cases hsignal
      rfl
  | answer id sdp =>
    cases hstate : s.state with
    | outgoingRinging ourID peer =>
      have hours : ourID = callID ∧ peer = ourPeer := by simpa [callInProgress, hstate] using hcall
      have hmiss : ¬(id = ourID ∧ peerKey = peer) := by
        rw [hours.1, hours.2]
        exact hother
      simp only [handleInbound, hstate]
      rw [if_neg hmiss]
      exact .refl
    | idle | incomingRinging | connecting | active | ended =>
      simp only [handleInbound, hstate]
      exact .refl
  | decline id =>
    have hring : ¬s.state.isRinging id := by
      intro hring
      obtain rfl : id = callID := callInProgress_ringing hring hcall
      exact hfree (.declines hring rfl hcall fun hpeer => hother ⟨rfl, hpeer⟩)
    rw [(handleInbound_decline id).2 hring]
    exact .refl

/-- An intrusion changes the state. -/
theorem Intrudes.state_ne {a : Action} {reply : Reply} {x : Exit Action}
    (hintrudes : Intrudes s h signal peerKey a reply) (hexec : exec s a reply = some (s', x)) :
    s'.state ≠ s.state := by
  cases hintrudes with
  | @declines callID ourPeer _ hring hsignal hcall hpeer =>
    subst hsignal
    obtain rfl : (s.handleInbound (.decline callID) peerKey).1 = s' :=
      congrArg Prod.fst (Option.some.inj hexec)
    have hended := (@handleInbound_decline s peerKey callID).1 hring
    intro heq
    cases hstate : s.state with
    | ended => simp [hstate, State.isRinging] at hring
    | idle | outgoingRinging | incomingRinging | connecting | active =>
      rw [heq, hstate] at hended
      cases hended
  | rings hidle hsignal hcall hother =>
    subst hsignal
    obtain rfl : (s.handleInbound _ peerKey).1 = s' := congrArg Prod.fst (Option.some.inj hexec)
    simp [handleInbound, hidle, armRingTimer, stopRingTimer, setState]
  | fails hcarried hcall hother =>
    have hs' : s.fail .connectFailed = s' := by
      simpa [exec, hcarried] using congrArg (Option.map Prod.fst) hexec
    subst hs'
    intro hended
    rw [callInProgress_ended hended.symm] at hcall
    cases hcall

/-- What a signal's own actions do to an attempt in progress. -/
theorem drivenByPeer_act {a : Action} {reply : Reply} {x : Exit Action}
    (ha : a = .call (.handleInbound signal peerKey) ∨ ∃ n, a = .started n)
    (hexec : exec s a reply = some (s', x)) :
    (∀ callID ourPeer, s.callInProgress h = some (callID, ourPeer) →
      signal.callID = callID ∧ peerKey = ourPeer ∨ LeavesAlone s s' signal peerKey) ↔
    ¬Intrudes s h signal peerKey a reply := by
  constructor
  · intro hdriven hintrudes
    have hne := hintrudes.state_ne hexec
    have hown {callID ourPeer : Data} (hcall : s.callInProgress h = some (callID, ourPeer)) :
        signal.callID = callID ∧ peerKey = ourPeer :=
      (hdriven callID ourPeer hcall).resolve_right fun hleaves => hne hleaves.unchanged.state
    cases hintrudes with
    | declines hring hsignal hcall hpeer => exact hpeer (hown hcall).2
    | rings hidle hsignal hcall hother =>
      obtain ⟨hid, hpeer⟩ := hown hcall
      subst hsignal
      exact hother (Prod.ext hid.symm hpeer.symm)
    | fails hcarried hcall hother =>
      obtain ⟨hid, hpeer⟩ := hown hcall
      exact hother (Prod.ext hid.symm hpeer.symm)
  · intro hfree callID ourPeer hcall
    by_cases hother : signal.callID = callID ∧ peerKey = ourPeer
    · exact .inl hother
    · refine .inr ?_
      rcases ha with rfl | ⟨n, rfl⟩
      · obtain rfl : (s.handleInbound signal peerKey).1 = s' :=
          congrArg Prod.fst (Option.some.inj hexec)
        exact handleInbound_leavesAlone hcall hother hfree
      · have hcarried : reply.carried := by
          by_contra hcarried
          refine hfree (.fails hcarried hcall fun heq => hother ?_)
          obtain ⟨rfl, rfl⟩ := Prod.mk.inj heq
          exact ⟨rfl, rfl⟩
        dsimp only [exec] at hexec
        rw [if_pos hcarried] at hexec
        cases hexec
        exact .refl

/-- The actions of a call that handles a signal. -/
def Serving (call : Call) (a : Action) : Prop :=
  ∀ signal peerKey, call = .handleInbound signal peerKey →
    a = .call (.handleInbound signal peerKey) ∨ ∃ n, a = .started n

/-- Handling a signal brings in no more than the wait for a session to start. -/
theorem serving_added {call : Call} {a : Action} {reply : Reply} {x : Exit Action}
    (ha : Serving call a) (hexec : exec s a reply = some (s', x)) :
    ∀ b ∈ x.added, Serving call b := by
  intro b hb signal peerKey hsignal
  right
  rcases ha signal peerKey hsignal with rfl | ⟨n, rfl⟩
  · obtain rfl : (s.handleInbound signal peerKey).2 = x := congrArg Prod.snd (Option.some.inj hexec)
    unfold handleInbound at hb
    split at hb
    · cases hb
    · cases hb
    · split at hb
      · split at hb
        · exact ⟨s.attempt, List.mem_singleton.mp hb⟩
        · cases hb
      · cases hb
    · split at hb
      · cases hb
      · cases hb
    · split at hb
      · cases hb
      · cases hb
    · cases hb
  · cases hexec
    cases hb

theorem handled_step {events : List (Event Call Reply)} {i : Nat} {reply : Reply} {call : Call}
    (hcall : (started events)[i]? = some call) :
    handled events (.step i reply) = some (signal, peerKey) ↔
      call = .handleInbound signal peerKey := by
  simp only [handled, hcall]
  cases call with
  | handleInbound => simp
  | startCall | cancelOutgoing | accept | decline | hangUp | reset | onConnected | onFailed
  | onRemoteEnded | ringTimeout => simp

/-- A step is driven by the peer of the attempt in progress exactly where it does not intrude. -/
theorem Step.drivenByPeer_iff {events : List (Event Call Reply)} {t : Step}
    (ht : t ∈ stepsFrom s h events) : t.DrivenByPeer events ↔ ¬t.Intrudes events := by
  rcases Machine.step_cases (step_of_mem_trace ht) with ⟨call, he, _⟩ |
    ⟨i, reply, a, rest, handler, s', x, he, _, hexec, hacts, hpost⟩
  · refine iff_of_true (fun signal peerKey _ _ hsignal => ?_) ?_
    · rw [he] at hsignal
      cases hsignal
    · rintro ⟨a, reply, _, _, hacts, _⟩
      rw [he] at hacts
      cases hacts
  · obtain ⟨hrun, _⟩ := Machine.observed_exec hexec
    obtain ⟨call, hcall, hserving⟩ := Machine.started_of_acts (Q := Serving)
      (fun call b hb signal peerKey hsignal =>
        .inl (by simpa [Machine.observed, machine, hsignal] using hb))
      (fun call _ a reply _ x ha hx => serving_added ha (Machine.observed_exec hx).1) ht he hacts
    have hact {signal : CallSignal} {peerKey : Data}
        (hsignal : handled events t.event = some (signal, peerKey)) :
        (∀ callID ourPeer, t.pre.shared.1.callInProgress t.pre.shared.2 = some (callID, ourPeer) →
          signal.callID = callID ∧ peerKey = ourPeer ∨
            LeavesAlone t.pre.shared.1 t.post.shared.1 signal peerKey) ↔
          ¬CallController.Intrudes t.pre.shared.1 t.pre.shared.2 signal peerKey a reply := by
      rw [he] at hsignal
      rw [hpost]
      exact drivenByPeer_act (hserving signal peerKey ((handled_step hcall).mp hsignal)) hrun
    constructor
    · rintro hdriven ⟨b, reply', signal, peerKey, hb, hsignal, hintrudes⟩
      cases hacts.symm.trans hb
      exact (hact hsignal).mp (fun callID ourPeer => hdriven signal peerKey callID ourPeer hsignal)
        hintrudes
    · intro hfree signal peerKey callID ourPeer hsignal
      refine (hact hsignal).mpr (fun hintrudes => hfree ?_) callID ourPeer
      exact ⟨a, reply, signal, peerKey, hacts, hsignal, hintrudes⟩

/-- The steps of a run are all driven by the peer of the attempt in progress exactly where none of
them intrudes. -/
theorem only_peer_drives (s : CallController) (h : Attempts) (events : List (Event Call Reply)) :
    (∀ t ∈ stepsFrom s h events, t.DrivenByPeer events) ↔
      ∀ t ∈ stepsFrom s h events, ¬t.Intrudes events :=
  forall₂_congr fun _ ht => Step.drivenByPeer_iff ht

/-- A contact rings, and another one sends a decline with the call id of the ring. -/
def declineOfAnother : List (Event Call Reply) :=
  [.start (.handleInbound (.request (List.replicate 16 1) "v=0") (List.replicate 32 7)),
    .step 0 (granted []),
    .start (.handleInbound (.decline (List.replicate 16 1)) (List.replicate 32 8)),
    .step 1 (granted [])]

/-- The ring ends, as a missed call of the first contact. -/
theorem not_only_peer_drives : ∃ t ∈ stepsFrom new ⟨none, []⟩ declineOfAnother,
    t.pre.shared.1.state =
        .incomingRinging (List.replicate 16 1) (List.replicate 32 7) "v=0" ∧
      t.post.shared.1.state = .ended .timedOut ∧ ¬t.DrivenByPeer declineOfAnother := by
  refine ⟨_, List.mem_of_getElem? (i := 3) rfl, rfl, rfl, fun hdriven => ?_⟩
  rcases hdriven _ _ _ _ rfl rfl with ⟨_, hpeer⟩ | hleaves
  · exact absurd hpeer (by decide)
  · exact absurd hleaves.unchanged.state (by decide)

end CallController

end AeroNyra
