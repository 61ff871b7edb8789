import AeroNyra.Lib.Interleave
import AeroNyra.Calls.Signal

/-! The call state machine: one call at a time, rung by sealed signals and connected by a media
session. `startCall`, `accept`, `decline` and `cancelOutgoing` suspend while a session makes its
SDP or a signal is sent, and so does an answer while the session starts. -/

namespace AeroNyra

namespace CallController

inductive EndReason
  | declined
  | remoteDeclined
  | timedOut
  | connectFailed
  | hungUp
  | failed
  deriving DecidableEq

inductive State
  | idle
  | outgoingRinging (callID peerKey : Data)
  | incomingRinging (callID peerKey : Data) (sdpOffer : String)
  | connecting (callID peerKey : Data)
  | active (callID peerKey : Data)
  | ended (reason : EndReason)
  deriving DecidableEq

namespace State

def isEnded : State → Bool
  | .ended _ => true
  | _ => false

def isIncoming : State → Bool
  | .incomingRinging _ _ _ => true
  | _ => false

/-- The call `callID` rings, on either side. -/
def isRinging (callID : Data) : State → Bool
  | .outgoingRinging id _ | .incomingRinging id _ _ => id == callID
  | _ => false

def isConnecting (callID : Data) : State → Bool
  | .connecting id _ => id == callID
  | _ => false

def isActive (callID : Data) : State → Bool
  | .active id _ => id == callID
  | _ => false

end State

/-- A media session, with the call that its callbacks are wired to.  The number of the attempt that
it was made for is there for the statements: no step reads it. -/
structure MediaSession where
  callID : Data
  peerKey : Data
  attempt : Nat
  closed : Bool
  deriving DecidableEq

/-- The task of a ring timer, with the call and the attempt that it was armed for. -/
structure RingTimer where
  callID : Data
  peerKey : Data
  attempt : Nat
  /-- It has neither been cancelled nor run out. -/
  running : Bool
  deriving DecidableEq

end CallController

structure CallController where
  state : CallController.State
  /-- The session in use, by its place in `sessions`. -/
  media : Option Nat
  /-- The timer that is armed, by its place in `ringTimers`. -/
  ringTimer : Option Nat
  /-- The sessions made so far, the oldest first. -/
  sessions : List CallController.MediaSession
  ringTimers : List CallController.RingTimer
  /-- The signals that were handed to `sendSignal`. -/
  signals : List (CallSignal × Data)
  /-- The peers that `onMissedCall` was called with. -/
  missedCalls : List Data
  /-- How many attempts have begun.  A suspended call carries the number of its attempt, which no
  step reads. -/
  attempt : Nat

namespace CallController

open Interleave

/-- The operations, the callbacks of a media session, and the end of a ring timer's sleep. -/
inductive Call
  | startCall (peerKey : Data)
  | cancelOutgoing
  | accept
  | decline
  | hangUp
  | reset
  | handleInbound (signal : CallSignal) (peerKey : Data)
  | onConnected (session : Nat)
  | onFailed (session : Nat)
  | onRemoteEnded (session : Nat)
  | ringTimeout (timer : Nat)
  deriving DecidableEq

inductive Action
  | call (call : Call)
  /-- `startCall` once the session has made the offer. -/
  | offered (attempt : Nat) (callID peerKey : Data)
  /-- `startCall` once the request is sent. -/
  | requested (attempt : Nat) (callID peerKey : Data)
  /-- `cancelOutgoing` once the decline is sent. -/
  | cancelled (attempt : Nat)
  /-- `accept` once the session has made the answer. -/
  | answered (attempt : Nat) (callID peerKey : Data)
  /-- `accept` once the answer is sent. -/
  | answerSent (attempt : Nat)
  /-- `decline` once the decline is sent. -/
  | declined (attempt : Nat)
  /-- `handleInbound`, for an answer, once the session has started. -/
  | started (attempt : Nat)
  deriving DecidableEq

/-- What the environment answers: the random call id, the SDP unless the session throws, and
whether the signal is sent or the session starts. -/
structure Reply where
  callID : Data
  sdp : Option String
  carried : Bool

def new : CallController := ⟨.idle, none, none, [], [], [], [], 0⟩

variable (s : CallController)

/-- A new session, wired to the call and in use. -/
def makeMediaSession (callID peerKey : Data) : CallController :=
  { s with
    sessions := s.sessions ++ [⟨callID, peerKey, s.attempt, false⟩]
    media := some s.sessions.length }

def teardownMedia : CallController :=
  { s with
    sessions := match s.media with
      | some i => s.sessions.modify i fun m => { m with closed := true }
      | none => s.sessions
    media := none }

def stopRingTimer : CallController :=
  { s with
    ringTimers := match s.ringTimer with
      | some i => s.ringTimers.modify i fun t => { t with running := false }
      | none => s.ringTimers
    ringTimer := none }

def armRingTimer (attempt : Nat) (callID peerKey : Data) : CallController :=
  { s.stopRingTimer with
    ringTimers := s.stopRingTimer.ringTimers ++ [⟨callID, peerKey, attempt, true⟩]
    ringTimer := some s.stopRingTimer.ringTimers.length }

def sendSignal (signal : CallSignal) (peerKey : Data) : CallController :=
  { s with signals := s.signals ++ [(signal, peerKey)] }

def setState (state : State) : CallController := { s with state }

/-- The error paths: the media is torn down and the call ends. -/
def fail (reason : EndReason) : CallController := s.teardownMedia.setState (.ended reason)

def startCall (callID peerKey : Data) : CallController × Exit Action :=
  if s.state = .idle then
    (makeMediaSession { s with attempt := s.attempt + 1 } callID peerKey,
      .goOn [.offered (s.attempt + 1) callID peerKey])
  else (s, .goOn [])

def cancelOutgoing : CallController × Exit Action :=
  match s.state with
  | .outgoingRinging callID peerKey =>
    (s.stopRingTimer.teardownMedia.sendSignal (.decline callID) peerKey,
      .goOn [.cancelled s.attempt])
  | _ => (s, .goOn [])

def accept : CallController × Exit Action :=
  match s.state with
  | .incomingRinging callID peerKey _ =>
    (s.stopRingTimer.makeMediaSession callID peerKey, .goOn [.answered s.attempt callID peerKey])
  | _ => (s, .goOn [])

def decline : CallController × Exit Action :=
  match s.state with
  | .incomingRinging callID peerKey _ =>
    (s.stopRingTimer.sendSignal (.decline callID) peerKey, .goOn [.declined s.attempt])
  | _ => (s, .goOn [])

def hangUp : CallController :=
  match s.state with
  | .active _ _ | .connecting _ _ => s.fail .hungUp
  | _ => s

def reset : CallController :=
  match s.state with
  | .ended _ => s.setState .idle
  | _ => s

/-- A signal for another call is dropped, and a ring during a call is declined. -/
def handleInbound (signal : CallSignal) (peerKey : Data) : CallController × Exit Action :=
  match signal, s.state with
  | .request callID sdp, .idle =>
    ((setState { s with attempt := s.attempt + 1 }
      (.incomingRinging callID peerKey sdp)).armRingTimer (s.attempt + 1) callID peerKey, .goOn [])
  | .request callID _, _ => (s.sendSignal (.decline callID) peerKey, .goOn [])
  | .answer callID _, .outgoingRinging ourID ourPeer =>
    if callID = ourID ∧ peerKey = ourPeer then
      (s.stopRingTimer.setState (.connecting ourID ourPeer),
        .goOn (if s.media.isSome then [.started s.attempt] else []))
    else (s, .goOn [])
  | .decline callID, .outgoingRinging ourID _ =>
    if callID = ourID then (s.stopRingTimer.fail .remoteDeclined, .goOn []) else (s, .goOn [])
  | .decline callID, .incomingRinging ourID ourPeer _ =>
    if callID = ourID then
      ({ s.stopRingTimer.setState (.ended .timedOut) with missedCalls := s.missedCalls ++
        [ourPeer] }, .goOn [])
    else (s, .goOn [])
  | _, _ => (s, .goOn [])

def onConnected (session : MediaSession) : CallController :=
  match s.state with
  | .connecting id peer => if id = session.callID then s.setState (.active id peer) else s
  | _ => s

def onFailed (session : MediaSession) : CallController :=
  match s.state with
  | .connecting id _ | .active id _ => if id = session.callID then s.fail .connectFailed else s
  | _ => s

def onRemoteEnded (session : MediaSession) : CallController :=
  match s.state with
  | .active id _ => if id = session.callID then s.fail .hungUp else s
  | _ => s

/-- The end of the ring timer at a place, unless it was cancelled. -/
def ringTimeout (i : Nat) (timer : RingTimer) : CallController :=
  if timer.running then
    let finished :=
      { s with ringTimers := s.ringTimers.modify i fun t => { t with running := false } }
    match s.state with
    | .outgoingRinging id peer | .incomingRinging id peer _ =>
      if id = timer.callID then
        { finished.fail .timedOut with missedCalls := s.missedCalls ++ [peer] }
      else finished
    | _ => finished
  else s

def exec : Action → Reply → Option (CallController × Exit Action)
  | .call (.startCall peerKey), reply => some (s.startCall reply.callID peerKey)
  | .call .cancelOutgoing, _ => some s.cancelOutgoing
  | .call .accept, _ => some s.accept
  | .call .decline, _ => some s.decline
  | .call .hangUp, _ => some (s.hangUp, .goOn [])
  | .call .reset, _ => some (s.reset, .goOn [])
  | .call (.handleInbound signal peerKey), _ => some (s.handleInbound signal peerKey)
  | .call (.onConnected i), _ => s.sessions[i]?.map fun session => (s.onConnected session, .goOn [])
  | .call (.onFailed i), _ => s.sessions[i]?.map fun session => (s.onFailed session, .goOn [])
  | .call (.onRemoteEnded i), _ => s.sessions[i]?.map fun session =>
      (s.onRemoteEnded session, .goOn [])
  | .call (.ringTimeout i), _ => s.ringTimers[i]?.map fun timer => (s.ringTimeout i timer, .goOn [])
  | .offered attempt callID peerKey, reply =>
    match reply.sdp with
    | some offer =>
      some ((s.setState (.outgoingRinging callID peerKey)).sendSignal
        (.request callID offer) peerKey, .goOn [.requested attempt callID peerKey])
    | none => some (s.fail .failed, .goOn [])
  | .requested attempt callID peerKey, reply =>
    if reply.carried then some (s.armRingTimer attempt callID peerKey, .goOn [])
    else some (s.fail .failed, .goOn [])
  | .cancelled _, _ => some (s.setState (.ended .hungUp), .goOn [])
  | .answered attempt callID peerKey, reply =>
    match reply.sdp with
    | some answer =>
      some ((s.setState (.connecting callID peerKey)).sendSignal (.answer callID answer) peerKey,
        .goOn [.answerSent attempt])
    | none => some (s.fail .failed, .goOn [])
  | .answerSent _, reply => some (if reply.carried then s else s.fail .failed, .goOn [])
  | .declined _, _ => some (s.setState (.ended .declined), .goOn [])
  | .started _, reply => some (if reply.carried then s else s.fail .connectFailed, .goOn [])

def machine : Machine CallController Action Call Reply where
  thread call := ⟨[.call call], []⟩
  exec := exec

/-! ### What an action does to the call -/

/-- The number of the attempt that a suspended call belongs to. -/
def Action.number : Action → Option Nat
  | .offered n _ _ | .requested n _ _ | .cancelled n | .answered n _ _ | .answerSent n | .declined n
  | .started n => some n
  | .call _ => none

/-- The attempt in whose name the action sets the state to a call of its own. -/
def Action.renews : Action → Option Nat
  | .offered n _ _ | .answered n _ _ => some n
  | _ => none

/-- A suspended call that writes nothing if what it waits for succeeds, ring timers apart. -/
def Action.isSending : Action → Bool
  | .requested _ _ _ | .answerSent _ | .started _ => true
  | _ => false

/-- The same call, apart from ring timers and signals. -/
structure SameCall (s s' : CallController) : Prop where
  state : s'.state = s.state
  media : s'.media = s.media
  sessions : s'.sessions = s.sessions
  attempt : s'.attempt = s.attempt
  missedCalls : s'.missedCalls = s.missedCalls

/-- The same sessions and attempt, in any state. -/
structure SameMedia (s s' : CallController) : Prop where
  media : s'.media = s.media
  sessions : s'.sessions = s.sessions
  attempt : s'.attempt = s.attempt

inductive Effect (s : CallController) : Action → CallController → Exit Action → Prop
  | still {a s'} (hsame : SameCall s s') (ha : a.renews = none) : Effect s a s' (.goOn [])
  | starts {peerKey callID} (hidle : s.state = .idle) :
      Effect s (.call (.startCall peerKey))
        (makeMediaSession { s with attempt := s.attempt + 1 } callID peerKey)
        (.goOn [.offered (s.attempt + 1) callID peerKey])
  | rings {callID peerKey sdp s'} (hidle : s.state = .idle)
      (hstate : s'.state = .incomingRinging callID peerKey sdp)
      (hmedia : SameMedia { s with attempt := s.attempt + 1 } s')
      (hmissed : s'.missedCalls = s.missedCalls) :
      Effect s (.call (.handleInbound (.request callID sdp) peerKey)) s' (.goOn [])
  | accepts {callID peerKey s'} (hincoming : s.state.isIncoming)
      (hsame : SameCall (s.makeMediaSession callID peerKey) s') :
      Effect s (.call .accept) s' (.goOn [.answered s.attempt callID peerKey])
  | declines {s'} (hincoming : s.state.isIncoming) (hsame : SameCall s s') :
      Effect s (.call .decline) s' (.goOn [.declined s.attempt])
  | cancels {s'} (houtgoing : ∃ callID peerKey, s.state = .outgoingRinging callID peerKey)
      (hsame : SameCall s.teardownMedia s') :
      Effect s (.call .cancelOutgoing) s' (.goOn [.cancelled s.attempt])
  | shows {a s' first} (hstate : s'.state ≠ .idle ∧ ¬s'.state.isEnded ∧ ¬s'.state.isIncoming)
      (hmedia : SameMedia s s') (hmissed : s'.missedCalls = s.missedCalls)
      (ha : a.renews.isSome ∨ s.state ≠ .idle ∧ ¬s.state.isEnded)
      (hfirst : ∀ b ∈ first, b.isSending ∧ (b.number = a.number ∨ b.number = some s.attempt)) :
      Effect s a s' (.goOn first)
  | closes {a s' reason} (hstate : s'.state = .ended reason)
      (hmedia : SameMedia s.teardownMedia s') :
      Effect s a s' (.goOn [])
  | drops {a s' reason} (hstate : s'.state = .ended reason) (hmedia : SameMedia s s')
      (ha : (∃ n, a = .cancelled n ∨ a = .declined n) ∨ s.state.isIncoming ∧
        ∃ callID peerKey, a = .call (.handleInbound (.decline callID) peerKey) ∧
          ∃ ourPeer sdp, s.state = .incomingRinging callID ourPeer sdp) :
      Effect s a s' (.goOn [])
  | resets (hended : s.state.isEnded) :
      Effect s (.call .reset) (s.setState .idle) (.goOn [])

variable {s}

theorem SameCall.refl : SameCall s s := ⟨rfl, rfl, rfl, rfl, rfl⟩

theorem Effect.fail {a : Action} (reason : EndReason) : Effect s a (s.fail reason) (.goOn []) :=
  .closes rfl ⟨rfl, rfl, rfl⟩

theorem handleInbound_effect (signal : CallSignal) (peerKey : Data) :
    Effect s (.call (.handleInbound signal peerKey)) (s.handleInbound signal peerKey).1
      (s.handleInbound signal peerKey).2 := by
  unfold handleInbound
  split
  · rename_i hidle
    exact .rings hidle rfl ⟨rfl, rfl, rfl⟩ rfl
  · exact .still ⟨rfl, rfl, rfl, rfl, rfl⟩ rfl
  · rename_i hstate
    split
    · refine .shows (by simp [setState, State.isEnded, State.isIncoming]) ⟨rfl, rfl, rfl⟩ rfl
        (.inr (by simp [hstate, State.isEnded])) fun b hb => ?_
      split at hb
      · obtain rfl := List.mem_singleton.mp hb
        exact ⟨rfl, .inr rfl⟩
      · cases hb
    · exact .still .refl rfl
  · split
    · exact .closes rfl ⟨rfl, rfl, rfl⟩
    · exact .still .refl rfl
  · rename_i callID ourID ourPeer sdp hstate
    split
    · rename_i hid
      subst hid
      exact .drops rfl ⟨rfl, rfl, rfl⟩
        (.inr ⟨by simp [hstate, State.isIncoming], _, _, rfl, _, _, hstate⟩)
    · exact .still .refl rfl
  · exact .still .refl rfl

theorem ringTimeout_effect {a : Action} (ha : a.renews = none) (i : Nat) (timer : RingTimer) :
    Effect s a (s.ringTimeout i timer) (.goOn []) := by
  unfold ringTimeout
  split
  · dsimp only
    split
    · split
      · exact .closes rfl ⟨rfl, rfl, rfl⟩
      · exact .still ⟨rfl, rfl, rfl, rfl, rfl⟩ ha
    · split
      · exact .closes rfl ⟨rfl, rfl, rfl⟩
      · exact .still ⟨rfl, rfl, rfl, rfl, rfl⟩ ha
    · exact .still ⟨rfl, rfl, rfl, rfl, rfl⟩ ha
  · exact .still .refl ha

/-- The callbacks of a session. -/
theorem callback_effect {a : Action} (ha : a.renews = none) (session : MediaSession) :
    Effect s a (s.onConnected session) (.goOn []) ∧ Effect s a (s.onFailed session) (.goOn []) ∧
      Effect s a (s.onRemoteEnded session) (.goOn []) := by
  refine ⟨?_, ?_, ?_⟩
  · unfold onConnected
    split
    · rename_i hstate
      split
      · exact .shows (by simp [setState, State.isEnded, State.isIncoming]) ⟨rfl, rfl, rfl⟩ rfl
          (.inr (by simp [hstate, State.isEnded])) (by simp)
      · exact .still .refl ha
    · exact .still .refl ha
  · unfold onFailed
    repeat' split
    all_goals first | exact .fail _ | exact .still .refl ha
  · unfold onRemoteEnded
    repeat' split
    all_goals first | exact .fail _ | exact .still .refl ha

theorem startCall_effect (callID peerKey : Data) :
    Effect s (.call (.startCall peerKey)) (s.startCall callID peerKey).1
      (s.startCall callID peerKey).2 := by
  unfold startCall
  split
  · rename_i hidle
    exact .starts hidle
  · exact .still .refl rfl

theorem cancelOutgoing_effect :
    Effect s (.call .cancelOutgoing) s.cancelOutgoing.1 s.cancelOutgoing.2 := by
  unfold cancelOutgoing
  split
  · rename_i callID peerKey hstate
    exact .cancels ⟨callID, peerKey, hstate⟩ ⟨rfl, rfl, rfl, rfl, rfl⟩
  · exact .still .refl rfl

theorem accept_effect : Effect s (.call .accept) s.accept.1 s.accept.2 := by
  unfold accept
  split
  · rename_i hstate
    exact .accepts (by simp [hstate, State.isIncoming]) ⟨rfl, rfl, rfl, rfl, rfl⟩
  · exact .still .refl rfl

theorem decline_effect : Effect s (.call .decline) s.decline.1 s.decline.2 := by
  unfold decline
  split
  · rename_i hstate
    exact .declines (by simp [hstate, State.isIncoming]) ⟨rfl, rfl, rfl, rfl, rfl⟩
  · exact .still .refl rfl

theorem hangUp_effect : Effect s (.call .hangUp) s.hangUp (.goOn []) := by
  unfold hangUp
  split
  · exact .fail _
  · exact .fail _
  · exact .still .refl rfl

theorem reset_effect : Effect s (.call .reset) s.reset (.goOn []) := by
  unfold reset
  split
  · rename_i hstate
    exact .resets (by simp [hstate, State.isEnded])
  · exact .still .refl rfl

theorem Effect.of_eq {a : Action} {s' : CallController} {x : Exit Action}
    {p : CallController × Exit Action} (he : Effect s a p.1 p.2) (h : some p = some (s', x)) :
    Effect s a s' x := by
  obtain rfl := Option.some.inj h
  exact he

/-- The step that follows a session's SDP: it shows the call, and sends. -/
theorem Effect.sends {a b : Action} {state : State} {signal : CallSignal} {peerKey : Data}
    (hstate : state ≠ .idle ∧ ¬state.isEnded ∧ ¬state.isIncoming) (ha : a.renews.isSome)
    (hb : b.isSending ∧ b.number = a.number) :
    Effect s a ((s.setState state).sendSignal signal peerKey) (.goOn [b]) := by
  refine .shows hstate ⟨rfl, rfl, rfl⟩ rfl (.inl ha) fun b' hb' => ?_
  obtain rfl := List.mem_singleton.mp hb'
  exact ⟨hb.1, .inl hb.2⟩

/-- What each action does. -/
theorem exec_effect {a : Action} {reply : Reply} {s' : CallController} {x : Exit Action}
    (h : exec s a reply = some (s', x)) : Effect s a s' x := by
  cases a with
  | call call =>
    cases call with
    | startCall peerKey => exact (startCall_effect reply.callID peerKey).of_eq h
    | cancelOutgoing => exact cancelOutgoing_effect.of_eq h
    | accept => exact accept_effect.of_eq h
    | decline => exact decline_effect.of_eq h
    | hangUp => exact Effect.of_eq (p := (s.hangUp, .goOn [])) hangUp_effect h
    | reset => exact Effect.of_eq (p := (s.reset, .goOn [])) reset_effect h
    | handleInbound signal peerKey => exact (handleInbound_effect signal peerKey).of_eq h
    | onConnected i =>
      obtain ⟨session, _, heq⟩ := Option.map_eq_some_iff.mp h
      exact Effect.of_eq (callback_effect rfl session).1 (congrArg some heq)
    | onFailed i =>
      obtain ⟨session, _, heq⟩ := Option.map_eq_some_iff.mp h
      exact Effect.of_eq (callback_effect rfl session).2.1 (congrArg some heq)
    | onRemoteEnded i =>
      obtain ⟨session, _, heq⟩ := Option.map_eq_some_iff.mp h
      exact Effect.of_eq (callback_effect rfl session).2.2 (congrArg some heq)
    | ringTimeout i =>
      obtain ⟨timer, _, heq⟩ := Option.map_eq_some_iff.mp h
      exact Effect.of_eq (ringTimeout_effect rfl i timer) (congrArg some heq)
  | offered n callID peerKey =>
    dsimp only [exec] at h
    split at h
    · refine Effect.of_eq ?_ h
      exact .sends (by simp [State.isEnded, State.isIncoming]) rfl ⟨rfl, rfl⟩
    · exact (Effect.fail .failed).of_eq h
  | requested n callID peerKey =>
    dsimp only [exec] at h
    split at h
    · refine Effect.of_eq ?_ h
      exact .still ⟨rfl, rfl, rfl, rfl, rfl⟩ rfl
    · exact (Effect.fail .failed).of_eq h
  | cancelled n =>
    refine Effect.of_eq ?_ h
    exact .drops rfl ⟨rfl, rfl, rfl⟩ (.inl ⟨n, .inl rfl⟩)
  | answered n callID peerKey =>
    dsimp only [exec] at h
    split at h
    · refine Effect.of_eq ?_ h
      exact .sends (by simp [State.isEnded, State.isIncoming]) rfl ⟨rfl, rfl⟩
    · exact (Effect.fail .failed).of_eq h
  | answerSent n =>
    refine Effect.of_eq ?_ h
    dsimp only
    split
    · exact .still .refl rfl
    · exact .fail _
  | declined n =>
    refine Effect.of_eq ?_ h
    exact .drops rfl ⟨rfl, rfl, rfl⟩ (.inl ⟨n, .inr rfl⟩)
  | started n =>
    refine Effect.of_eq ?_ h
    dsimp only
    split
    · exact .still .refl rfl
    · exact .fail _

end CallController

end AeroNyra
