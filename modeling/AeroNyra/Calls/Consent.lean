import AeroNyra.Calls.Controller
import Mathlib.Logic.Function.Basic

/-! Calls between devices.  Signals are sealed, so what a device is given as from a peer that runs
the app was sent by that peer, but it may be lost, come late, twice or in another order, and other
peers send what they like.  A call connects only between two users who both asked for it, one by
starting the call and the other by accepting the ring, with the offer that the caller's session
made. -/

namespace AeroNyra

namespace CallController

open Interleave

/-- What the user of a device asked for: the calls started, by the call id drawn and the peer, and
the rings accepted, with the offers that they brought. -/
structure Taps where
  started : List (Data × Data)
  accepted : List (Data × Data × String)

/-- The user's part of an action. -/
def Taps.note (taps : Taps) (s : CallController) (a : Action) (reply : Reply)
    (_ : CallController) : Taps :=
  match a, s.state with
  | .call (.startCall peerKey), .idle =>
      { taps with started := taps.started ++ [(reply.callID, peerKey)] }
  | .call .accept, .incomingRinging callID peerKey offer =>
    { taps with accepted := taps.accepted ++ [(callID, peerKey, offer)] }
  | _, _ => taps

/-- The controller with what its user asked for. -/
def tapped : Machine (CallController × Taps) Action Call Reply := machine.observed Taps.note

def Call.isInbound : Call → Bool
  | .handleInbound _ _ => true
  | _ => false

end CallController

/-- Devices with their controllers. -/
structure CallNetwork (ν : Type) where
  controllers : ν → Interleave.Config (CallController × CallController.Taps) CallController.Action

namespace CallNetwork

open Interleave CallController

variable {ν : Type} [DecidableEq ν]

inductive Event (ν : Type)
  /-- The user, a media session or a ring timer calls the controller. -/
  | start (n : ν) (call : Call)
  /-- A signal is opened at a device as one from another. -/
  | deliver (n sender : ν) (signal : CallSignal)
  | step (n : ν) (i : Nat) (reply : Reply)

def launch : CallNetwork ν := ⟨fun _ => ⟨(.new, ⟨[], []⟩), []⟩⟩

/-- The signals that a device has sent, each with the key of the peer that it is sealed for. -/
def sent (net : CallNetwork ν) (n : ν) : List (CallSignal × Data) :=
    (net.controllers n).shared.1.signals

def taps (net : CallNetwork ν) (n : ν) : Taps := (net.controllers n).shared.2

/-- One event at the controller of a device. -/
def act (net : CallNetwork ν) (n : ν) (e : Interleave.Event Call Reply) : Option (CallNetwork ν) :=
  (tapped.step (net.controllers n) e).map fun c => ⟨Function.update net.controllers n c⟩

/-- `genuine` are the devices that run the app, and `key` are the identities. -/
def step (genuine : ν → Bool) (key : ν → Data) (net : CallNetwork ν) :
    Event ν → Option (CallNetwork ν)
  | .start n call => if call.isInbound then none else net.act n (.start call)
  | .deliver n sender signal =>
    if genuine sender → (signal, key n) ∈ net.sent sender then
      net.act n (.start (.handleInbound signal (key sender)))
    else none
  | .step n i reply => net.act n (.step i reply)

end CallNetwork

namespace CallController

open Interleave

/-! ### What one action does -/

/-- The signals that an action sends, declines apart: the session's offer and its answer. -/
inductive Sends : Action → CallSignal × Data → Prop
  | request {n callID peerKey offer} : Sends (.offered n callID peerKey)
      (.request callID offer, peerKey)
  | answer {n callID peerKey answer} : Sends (.answered n callID peerKey)
      (.answer callID answer, peerKey)
  | decline {a callID peerKey} : Sends a (.decline callID, peerKey)

/-- How the state goes on. -/
inductive Goes (s : CallController) : Action → State → Prop
  | still {a} : Goes s a s.state
  | idle {a} : Goes s a .idle
  | ends {a reason} : Goes s a (.ended reason)
  | rings {callID peerKey offer} : Goes s (.call (.handleInbound (.request callID offer) peerKey))
      (.incomingRinging callID peerKey offer)
  | dials {n callID peerKey} : Goes s (.offered n callID peerKey) (.outgoingRinging callID peerKey)
  | answers {n callID peerKey} : Goes s (.answered n callID peerKey) (.connecting callID peerKey)
  | connects {callID peerKey answer} (h : s.state = .outgoingRinging callID peerKey) :
      Goes s (.call (.handleInbound (.answer callID answer) peerKey)) (.connecting callID peerKey)
  | activates {a callID peerKey} (h : s.state = .connecting callID peerKey) :
      Goes s a (.active callID peerKey)

/-- What an action brings in of the user's calls. -/
inductive Brings (s : CallController) (reply : Reply) : Action → Action → Prop
  | offer {peerKey n} (h : s.state = .idle) :
      Brings s reply (.call (.startCall peerKey)) (.offered n reply.callID peerKey)
  | answer {n callID peerKey offer} (h : s.state = .incomingRinging callID peerKey offer) :
      Brings s reply (.call .accept) (.answered n callID peerKey)
  | other {a b} (hcall : ∀ call, b ≠ .call call)
      (hoffer : ∀ n callID peerKey, b ≠ .offered n callID peerKey)
      (hanswer : ∀ n callID peerKey, b ≠ .answered n callID peerKey) : Brings s reply a b

/-- What one action does to the signals and the state, and what it brings in. -/
structure Does (s : CallController) (a : Action) (reply : Reply) (s' : CallController)
    (x : Exit Action) :
    Prop where
  signals : s'.signals = s.signals ∨ ∃ q, Sends a q ∧ s'.signals = s.signals ++ [q]
  state : Goes s a s'.state
  added : ∀ b ∈ x.added, Brings s reply a b

variable {s s' : CallController} {a : Action} {reply : Reply} {x : Exit Action}

theorem brings_nothing : ∀ b ∈ (Exit.goOn [] : Exit Action).added, Brings s reply a b :=
  fun _ h => absurd h List.not_mem_nil

theorem handleInbound_does (signal : CallSignal) (peerKey : Data) :
    Does s (.call (.handleInbound signal peerKey)) reply (s.handleInbound signal peerKey).1
      (s.handleInbound signal peerKey).2 := by
  unfold handleInbound
  split
  · exact ⟨.inl rfl, .rings, brings_nothing⟩
  · exact ⟨.inr ⟨_, .decline, rfl⟩, .still, brings_nothing⟩
  · rename_i hstate
    split
    · rename_i hours
      obtain ⟨rfl, rfl⟩ := hours
      refine ⟨.inl rfl, .connects hstate, fun b hb => ?_⟩
      have hb : b = .started s.attempt := by
        simp only [Exit.added] at hb
        split at hb
        · exact List.mem_singleton.mp hb
        · cases hb
      subst hb
      exact .other (by rintro _ ⟨⟩) (by rintro _ _ _ ⟨⟩) (by rintro _ _ _ ⟨⟩)
    · exact ⟨.inl rfl, .still, brings_nothing⟩
  · split
    · exact ⟨.inl rfl, .ends, brings_nothing⟩
    · exact ⟨.inl rfl, .still, brings_nothing⟩
  · split
    · exact ⟨.inl rfl, .ends, brings_nothing⟩
    · exact ⟨.inl rfl, .still, brings_nothing⟩
  · exact ⟨.inl rfl, .still, brings_nothing⟩

theorem callback_does (session : MediaSession) :
    Does s a reply (s.onConnected session) (.goOn []) ∧ Does s a reply (s.onFailed session)
      (.goOn []) ∧ Does s a reply (s.onRemoteEnded session) (.goOn []) := by
  refine ⟨?_, ?_, ?_⟩
  · unfold onConnected
    split
    · rename_i hstate
      split
      · exact ⟨.inl rfl, .activates hstate, brings_nothing⟩
      · exact ⟨.inl rfl, .still, brings_nothing⟩
    · exact ⟨.inl rfl, .still, brings_nothing⟩
  · unfold onFailed
    repeat' split
    all_goals first | exact ⟨.inl rfl, .ends, brings_nothing⟩ | exact ⟨.inl rfl, .still,
      brings_nothing⟩
  · unfold onRemoteEnded
    repeat' split
    all_goals first | exact ⟨.inl rfl, .ends, brings_nothing⟩ | exact ⟨.inl rfl, .still,
      brings_nothing⟩

theorem ringTimeout_does (i : Nat) (timer : RingTimer) :
    Does s a reply (s.ringTimeout i timer) (.goOn []) := by
  unfold ringTimeout
  split
  · dsimp only
    split
    · split
      · exact ⟨.inl rfl, .ends, brings_nothing⟩
      · exact ⟨.inl rfl, .still, brings_nothing⟩
    · split
      · exact ⟨.inl rfl, .ends, brings_nothing⟩
      · exact ⟨.inl rfl, .still, brings_nothing⟩
    · exact ⟨.inl rfl, .still, brings_nothing⟩
  · exact ⟨.inl rfl, .still, brings_nothing⟩

/-- The operations that wait for something. -/
theorem waiting_does (callID peerKey : Data) :
    (reply.callID = callID → Does s (.call (.startCall peerKey)) reply
      (s.startCall callID peerKey).1 (s.startCall callID peerKey).2) ∧
    Does s (.call .cancelOutgoing) reply s.cancelOutgoing.1 s.cancelOutgoing.2 ∧
    Does s (.call .accept) reply s.accept.1 s.accept.2 ∧
    Does s (.call .decline) reply s.decline.1 s.decline.2 := by
  refine ⟨?_, ?_, ?_, ?_⟩
  · rintro rfl
    unfold startCall
    split
    · rename_i hidle
      refine ⟨.inl rfl, .still, fun b hb => ?_⟩
      obtain rfl := List.mem_singleton.mp hb
      exact .offer hidle
    · exact ⟨.inl rfl, .still, brings_nothing⟩
  · unfold cancelOutgoing
    split
    · refine ⟨.inr ⟨_, .decline, rfl⟩, .still, fun b hb => ?_⟩
      obtain rfl := List.mem_singleton.mp hb
      exact .other (by rintro _ ⟨⟩) (by rintro _ _ _ ⟨⟩) (by rintro _ _ _ ⟨⟩)
    · exact ⟨.inl rfl, .still, brings_nothing⟩
  · unfold accept
    split
    · rename_i hstate
      refine ⟨.inl rfl, .still, fun b hb => ?_⟩
      obtain rfl := List.mem_singleton.mp hb
      exact .answer hstate
    · exact ⟨.inl rfl, .still, brings_nothing⟩
  · unfold decline
    split
    · refine ⟨.inr ⟨_, .decline, rfl⟩, .still, fun b hb => ?_⟩
      obtain rfl := List.mem_singleton.mp hb
      exact .other (by rintro _ ⟨⟩) (by rintro _ _ _ ⟨⟩) (by rintro _ _ _ ⟨⟩)
    · exact ⟨.inl rfl, .still, brings_nothing⟩

theorem hangUp_does : Does s a reply s.hangUp (.goOn []) := by
  unfold hangUp
  split
  · exact ⟨.inl rfl, .ends, brings_nothing⟩
  · exact ⟨.inl rfl, .ends, brings_nothing⟩
  · exact ⟨.inl rfl, .still, brings_nothing⟩

theorem reset_does : Does s a reply s.reset (.goOn []) := by
  unfold reset
  split
  · exact ⟨.inl rfl, .idle, brings_nothing⟩
  · exact ⟨.inl rfl, .still, brings_nothing⟩

theorem Does.of_eq {p : CallController × Exit Action} (hdoes : Does s a reply p.1 p.2)
    (h : some p = some (s', x)) : Does s a reply s' x := by
  obtain rfl := Option.some.inj h
  exact hdoes

theorem exec_does (h : exec s a reply = some (s', x)) : Does s a reply s' x := by
  cases a with
  | call call =>
    cases call with
    | startCall peerKey => exact ((waiting_does reply.callID peerKey).1 rfl).of_eq h
    | cancelOutgoing => exact (waiting_does [] []).2.1.of_eq h
    | accept => exact (waiting_does [] []).2.2.1.of_eq h
    | decline => exact (waiting_does [] []).2.2.2.of_eq h
    | hangUp => exact Does.of_eq (p := (s.hangUp, .goOn [])) hangUp_does h
    | reset => exact Does.of_eq (p := (s.reset, .goOn [])) reset_does h
    | handleInbound signal peerKey => exact (handleInbound_does signal peerKey).of_eq h
    | onConnected i =>
      obtain ⟨session, _, heq⟩ := Option.map_eq_some_iff.mp h
      exact Does.of_eq (callback_does session).1 (congrArg some heq)
    | onFailed i =>
      obtain ⟨session, _, heq⟩ := Option.map_eq_some_iff.mp h
      exact Does.of_eq (callback_does session).2.1 (congrArg some heq)
    | onRemoteEnded i =>
      obtain ⟨session, _, heq⟩ := Option.map_eq_some_iff.mp h
      exact Does.of_eq (callback_does session).2.2 (congrArg some heq)
    | ringTimeout i =>
      obtain ⟨timer, _, heq⟩ := Option.map_eq_some_iff.mp h
      exact Does.of_eq (ringTimeout_does i timer) (congrArg some heq)
  | offered n callID peerKey =>
    dsimp only [exec] at h
    split at h
    · refine Does.of_eq ⟨.inr ⟨_, .request, rfl⟩, .dials, fun b hb => ?_⟩ h
      obtain rfl := List.mem_singleton.mp hb
      exact .other (by rintro _ ⟨⟩) (by rintro _ _ _ ⟨⟩) (by rintro _ _ _ ⟨⟩)
    · exact Does.of_eq (p := (s.fail .failed, .goOn [])) ⟨.inl rfl, .ends, brings_nothing⟩ h
  | requested n callID peerKey =>
    dsimp only [exec] at h
    split at h
    · exact Does.of_eq (p := (s.armRingTimer n callID peerKey, .goOn []))
        ⟨.inl rfl, .still, brings_nothing⟩ h
    · exact Does.of_eq (p := (s.fail .failed, .goOn [])) ⟨.inl rfl, .ends, brings_nothing⟩ h
  | cancelled n => exact Does.of_eq (p := (s.setState (.ended .hungUp), .goOn [])) ⟨.inl rfl, .ends,
      brings_nothing⟩ h
  | answered n callID peerKey =>
    dsimp only [exec] at h
    split at h
    · refine Does.of_eq ⟨.inr ⟨_, .answer, rfl⟩, .answers, fun b hb => ?_⟩ h
      obtain rfl := List.mem_singleton.mp hb
      exact .other (by rintro _ ⟨⟩) (by rintro _ _ _ ⟨⟩) (by rintro _ _ _ ⟨⟩)
    · exact Does.of_eq (p := (s.fail .failed, .goOn [])) ⟨.inl rfl, .ends, brings_nothing⟩ h
  | declined n => exact Does.of_eq (p := (s.setState (.ended .declined), .goOn [])) ⟨.inl rfl,
      .ends, brings_nothing⟩ h
  | answerSent n | started n =>
    obtain rfl | ⟨reason, rfl⟩ : s' = s ∨ ∃ reason, s' = s.fail reason := by
      dsimp only [exec] at h
      split at h
      · exact .inl (Prod.mk.inj (Option.some.inj h)).1.symm
      · exact .inr ⟨_, (Prod.mk.inj (Option.some.inj h)).1.symm⟩
    · have hx : x = .goOn [] := (Prod.mk.inj (Option.some.inj h)).2.symm
      exact ⟨.inl rfl, .still, by simp [hx, Exit.added]⟩
    · have hx : x = .goOn [] := (Prod.mk.inj (Option.some.inj h)).2.symm
      exact ⟨.inl rfl, .ends, by simp [hx, Exit.added]⟩

/-- Where a signal that has been sent comes from. -/
theorem Does.mem_signals (h : Does s a reply s' x) {q : CallSignal × Data} (hq : q ∈ s'.signals) :
    q ∈ s.signals ∨ Sends a q := by
  rcases h.signals with hsame | ⟨q', hsends, hsent⟩
  · exact .inl (hsame ▸ hq)
  · rw [hsent] at hq
    rcases List.mem_append.mp hq with hold | hnew
    · exact .inl hold
    · obtain rfl := List.mem_singleton.mp hnew
      exact .inr hsends

/-! ### What holds of one device -/

/-- Nothing that the user asked for is forgotten. -/
structure Taps.Grows (t t' : Taps) : Prop where
  started : t.started ⊆ t'.started
  accepted : t.accepted ⊆ t'.accepted

theorem Taps.grows_note (t : Taps) (s : CallController) (a : Action) (reply : Reply)
    (s' : CallController) :
    t.Grows (t.note s a reply s') := by
  unfold Taps.note
  split
  · exact ⟨List.subset_append_left _ _, fun _ h => h⟩
  · exact ⟨fun _ h => h, List.subset_append_left _ _⟩
  · exact ⟨fun _ h => h, fun _ h => h⟩

section Device

-- Which signals the device was given, by the peer.
variable (given : Data → CallSignal → Prop) (t : Taps)

/-- What a state of the call rests on. -/
def State.Sound : State → Prop
  | .idle | .ended _ => True
  | .outgoingRinging callID peerKey => (callID, peerKey) ∈ t.started
  | .incomingRinging callID peerKey offer => given peerKey (.request callID offer)
  | .connecting callID peerKey | .active callID peerKey =>
    ((callID, peerKey) ∈ t.started ∧ ∃ answer, given peerKey (.answer callID answer)) ∨
      ∃ offer, (callID, peerKey, offer) ∈ t.accepted

/-- What a suspended call rests on. -/
def Action.Sound : Action → Prop
  | .call (.handleInbound signal peerKey) => given peerKey signal
  | .offered _ callID peerKey => (callID, peerKey) ∈ t.started
  | .answered _ callID peerKey => ∃ offer, (callID, peerKey, offer) ∈ t.accepted
  | _ => True

/-- What is sent, shown and under way at a device rests on what its user asked for and on what it
was given. -/
structure Consistent (c : Config (CallController × Taps) Action) : Prop where
  requests : ∀ callID offer peerKey, (.request callID offer, peerKey) ∈ c.shared.1.signals →
    (callID, peerKey) ∈ c.shared.2.started
  answers : ∀ callID answer peerKey, (.answer callID answer, peerKey) ∈ c.shared.1.signals →
    ∃ offer, (callID, peerKey, offer) ∈ c.shared.2.accepted
  accepted : ∀ callID peerKey offer, (callID, peerKey, offer) ∈ c.shared.2.accepted →
    given peerKey (.request callID offer)
  state : c.shared.1.state.Sound given c.shared.2
  actions : ∀ b, c.ToRun b → b.Sound given c.shared.2

variable {given t}

theorem State.Sound.mono {given' : Data → CallSignal → Prop} {t' : Taps} {state : State}
    (h : state.Sound given t)
    (hgiven : ∀ peerKey signal, given peerKey signal → given' peerKey signal)
    (ht : t.Grows t') : state.Sound given' t' := by
  cases state with
  | idle | ended reason => trivial
  | outgoingRinging callID peerKey => exact ht.started h
  | incomingRinging callID peerKey offer => exact hgiven _ _ h
  | connecting callID peerKey | active callID peerKey =>
    exact h.imp (fun ⟨hstarted, answer, hanswer⟩ =>
      ⟨ht.started hstarted, answer, hgiven _ _ hanswer⟩)
      fun ⟨offer, haccepted⟩ => ⟨offer, ht.accepted haccepted⟩

theorem Action.Sound.mono {given' : Data → CallSignal → Prop} {t' : Taps} {b : Action}
    (h : b.Sound given t) (hgiven : ∀ peerKey signal, given peerKey signal → given' peerKey signal)
    (ht : t.Grows t') : b.Sound given' t' := by
  unfold Action.Sound at h ⊢
  split at h
  · exact hgiven _ _ h
  · exact ht.started h
  · exact h.imp fun offer haccepted => ht.accepted haccepted
  · trivial

theorem Taps.Grows.refl (t : Taps) : t.Grows t := ⟨fun _ h => h, fun _ h => h⟩

theorem Consistent.mono {given' : Data → CallSignal → Prop}
    {c : Config (CallController × Taps) Action}
    (h : Consistent given c)
      (hgiven : ∀ peerKey signal, given peerKey signal → given' peerKey signal) :
    Consistent given' c where
  requests := h.requests
  answers := h.answers
  accepted callID peerKey offer haccepted := hgiven _ _ (h.accepted callID peerKey offer haccepted)
  state := h.state.mono hgiven (.refl _)
  actions b hb := (h.actions b hb).mono hgiven (.refl _)

/-- How the state goes on rests on what the action rests on. -/
theorem Goes.sound {state : State} (h : Goes s a state) (hstate : s.state.Sound given t)
    (ha : a.Sound given t) : state.Sound given t := by
  cases h with
  | still => exact hstate
  | idle | ends => trivial
  | rings => exact ha
  | dials => exact ha
  | answers => exact .inr ha
  | connects hringing =>
    rw [hringing] at hstate
    exact .inl ⟨hstate, _, ha⟩
  | activates hconnecting =>
    rw [hconnecting] at hstate
    exact hstate

/-- What an action brings in rests on what the user asked for with it. -/
theorem Brings.sound {b : Action} (h : Brings s reply a b) (s' : CallController) :
    b.Sound given (t.note s a reply s') := by
  cases h with
  | offer hidle =>
    show _ ∈ (Taps.note t s _ reply s').started
    simp [Taps.note, hidle]
  | @answer n callID peerKey offer hincoming =>
    refine ⟨offer, ?_⟩
    simp [Taps.note, hincoming]
  | other hcall hoffer hanswer =>
    unfold Action.Sound
    split
    · exact absurd rfl (hcall _)
    · exact absurd rfl (hoffer _ _ _)
    · exact absurd rfl (hanswer _ _ _)
    · trivial

/-- A ring is accepted only when it is up. -/
theorem accepted_of_note {callID peerKey : Data} {offer : String}
    (h : (callID, peerKey, offer) ∈ (t.note s a reply s').accepted) :
    (callID, peerKey, offer) ∈ t.accepted ∨ s.state = .incomingRinging callID peerKey offer := by
  unfold Taps.note at h
  split at h
  · exact .inl h
  · rename_i hincoming
    rcases List.mem_append.mp h with hold | hnew
    · exact .inl hold
    · cases List.mem_singleton.mp hnew
      exact .inr hincoming
  · exact .inl h

/-- One event at a device, which is given a signal by whoever sent it. -/
theorem consistent_step {c c' : Config (CallController × Taps) Action} {e : Event Call Reply}
    (hstep : tapped.step c e = some c') (h : Consistent given c)
    (hgiven : ∀ signal peerKey, e = .start (.handleInbound signal peerKey) → given peerKey signal) :
    Consistent given c' := by
  rcases Machine.step_cases hstep with ⟨call, he, rfl⟩ |
    ⟨i, reply, a, rest, handler, p, x, he, hi, hexec, hacts, rfl⟩
  · refine ⟨h.requests, h.answers, h.accepted, h.state, fun b hb => ?_⟩
    rcases Machine.toRun_step hstep hb with hold | ⟨call', he', hnew⟩ | ⟨a, reply, x, hacts, _⟩
    · exact h.actions b hold
    · obtain rfl : b = .call call' := by simpa [tapped, Machine.observed, machine] using hnew
      cases call' with
      | handleInbound signal peerKey => exact hgiven signal peerKey he'
      | _ => trivial
    · simp [he, Config.acts] at hacts
  · obtain ⟨hexec', hnote⟩ := Machine.observed_exec hexec
    have hdoes := exec_does hexec'
    have ha : a.Sound given c.shared.2 := h.actions a (Config.toRun_of_acts hacts)
    have hgrows : c.shared.2.Grows p.2 := by
      rw [hnote]
      exact Taps.grows_note _ _ _ _ _
    have haccepted : ∀ callID peerKey offer, (callID, peerKey, offer) ∈ p.2.accepted →
        given peerKey (.request callID offer) := fun callID peerKey offer hmem => by
      rw [hnote] at hmem
      rcases accepted_of_note hmem with hold | hincoming
      · exact h.accepted callID peerKey offer hold
      · have hstate := h.state
        rw [hincoming] at hstate
        exact hstate
    refine ⟨fun callID offer peerKey hmem => ?_, fun callID answer peerKey hmem => ?_, haccepted,
      (hdoes.state.sound h.state ha).mono (fun _ _ hg => hg) hgrows, fun b hb => ?_⟩
    · rcases hdoes.mem_signals hmem with hold | hsends
      · exact hgrows.started (h.requests callID offer peerKey hold)
      · cases hsends
        exact hgrows.started ha
    · rcases hdoes.mem_signals hmem with hold | hsends
      · exact (h.answers callID answer peerKey hold).imp fun _ hmem => hgrows.accepted hmem
      · cases hsends
        exact ha.imp fun _ hmem => hgrows.accepted hmem
    · rcases Machine.toRun_step hstep hb with hold | ⟨call, he', _⟩ |
        ⟨a', reply', x', hacts', hexec', hadded⟩
      · exact (h.actions b hold).mono (fun _ _ hg => hg) hgrows
      · rw [he] at he'
        cases he'
      · obtain ⟨hexec', hnote'⟩ := Machine.observed_exec hexec'
        show b.Sound given p.2
        rw [show p.2 = _ from hnote']
        exact ((exec_does hexec').added b hadded).sound _

end Device

end CallController

namespace CallNetwork

open Interleave CallController

variable {ν : Type} {net net' : CallNetwork ν} {n m : ν}

/-- A peer that runs the app has sent the signal to the device. -/
def SentBy (genuine : ν → Bool) (key : ν → Data) (net : CallNetwork ν) (n : ν) (peerKey : Data)
    (signal : CallSignal) : Prop :=
  ∀ m, genuine m → key m = peerKey → (signal, key n) ∈ net.sent m

/-- Two users asked for the call `callID`: that of `caller` started it towards `callee`, and that
of `callee` accepted the ring with an offer that `caller` sent. -/
def Agreed (key : ν → Data) (net : CallNetwork ν) (callID : Data) (caller callee : ν) : Prop :=
  (callID, key callee) ∈ (net.taps caller).started ∧
    ∃ offer, (callID, key caller, offer) ∈ (net.taps callee).accepted ∧
      (.request callID offer, key callee) ∈ net.sent caller

variable {genuine : ν → Bool} {key : ν → Data}

theorem consistent_launch (n : ν) :
    Consistent (SentBy genuine key launch n) ((launch : CallNetwork ν).controllers n) := by
  refine ⟨nofun, nofun, nofun, trivial, fun b hb => ?_⟩
  obtain ⟨u, hu, _⟩ := hb
  cases hu

variable [DecidableEq ν]

/-- What a device has sent stays sent. -/
theorem sent_act {e : Interleave.Event Call Reply} (h : net.act n e = some net') (m : ν) :
    net.sent m ⊆ net'.sent m := by
  obtain ⟨c, hstep, rfl⟩ := Option.map_eq_some_iff.mp h
  intro q hq
  unfold sent at hq ⊢
  dsimp only
  by_cases hm : m = n
  · subst hm
    rw [Function.update_self]
    rcases Machine.step_cases hstep with ⟨call, _, rfl⟩ |
      ⟨i, reply, a, rest, handler, p, x, _, _, hexec, _, rfl⟩
    · exact hq
    · rcases (exec_does (Machine.observed_exec hexec).1).signals with hsame | ⟨q', _, hsent⟩
      · exact hsame ▸ hq
      · show q ∈ p.1.signals
        rw [hsent]
        exact List.mem_append_left _ hq
  · rw [Function.update_of_ne hm]
    exact hq

theorem consistent_act {e : Interleave.Event Call Reply} (h : net.act n e = some net')
    (hnet : ∀ m, Consistent (SentBy genuine key net m) (net.controllers m))
    (hgiven : ∀ signal peerKey, e = .start (.handleInbound signal peerKey) →
      SentBy genuine key net n peerKey signal) :
    ∀ m, Consistent (SentBy genuine key net' m) (net'.controllers m) := by
  intro m
  have hgrows : ∀ peerKey signal, SentBy genuine key net m peerKey signal →
      SentBy genuine key net' m peerKey signal :=
    fun peerKey signal hsent k hk hkey => sent_act h k (hsent k hk hkey)
  refine Consistent.mono ?_ hgrows
  obtain ⟨c, hstep, rfl⟩ := Option.map_eq_some_iff.mp h
  by_cases hm : m = n
  · subst hm
    show Consistent _ (Function.update net.controllers m c m)
    rw [Function.update_self]
    exact consistent_step hstep (hnet m) hgiven
  · show Consistent _ (Function.update net.controllers n c m)
    rw [Function.update_of_ne hm]
    exact hnet m

theorem consistent_of_step (hkey : Function.Injective key) {event : Event ν}
    (hstep : net.step genuine key event = some net')
    (hnet : ∀ m, Consistent (SentBy genuine key net m) (net.controllers m)) :
    ∀ m, Consistent (SentBy genuine key net' m) (net'.controllers m) := by
  cases event with
  | start n call =>
    obtain ⟨hcall, hact⟩ := Option.ite_none_left_eq_some.mp hstep
    refine consistent_act hact hnet fun signal peerKey heq => ?_
    cases heq
    exact absurd rfl hcall
  | deliver n sender signal =>
    obtain ⟨hsent, hact⟩ := Option.ite_none_right_eq_some.mp hstep
    refine consistent_act hact hnet fun signal' peerKey heq => ?_
    cases heq
    intro m hm hsame
    obtain rfl := hkey hsame
    exact hsent hm
  | step n i reply => exact consistent_act hstep hnet fun signal peerKey heq => by cases heq

/-- Between two devices that run the app a call is connecting or active only if both users asked
for it. -/
theorem connected_agreed (genuine : ν → Bool) (key : ν → Data) (hkey : Function.Injective key)
    (events : List (Event ν)) (hrun : run (step genuine key) launch events = some net)
    (callID : Data) (hn : genuine n) (hm : genuine m)
    (hstate : (net.controllers n).shared.1.state = .connecting callID (key m) ∨
      (net.controllers n).shared.1.state = .active callID (key m)) :
    Agreed key net callID n m ∨ Agreed key net callID m n := by
  have hnet : ∀ m, Consistent (SentBy genuine key net m) (net.controllers m) :=
    run_invariant (fun net => ∀ m, Consistent (SentBy genuine key net m) (net.controllers m))
      (fun _ => True)
      (fun _ ht _ => consistent_of_step hkey ht) consistent_launch (fun _ _ => trivial) hrun
  have hsound := (hnet n).state
  have hrests : ((callID, key m) ∈ (net.taps n).started ∧
        ∃ answer, SentBy genuine key net n (key m) (.answer callID answer)) ∨
      ∃ offer, (callID, key m, offer) ∈ (net.taps n).accepted := by
    rcases hstate with hstate | hstate <;>
    · rw [hstate] at hsound
      exact hsound
  rcases hrests with ⟨hstarted, answer, hanswered⟩ | ⟨offer, haccepted⟩
  · obtain ⟨offer, haccepted⟩ := (hnet m).answers callID answer (key n) (hanswered m hm rfl)
    exact .inl ⟨hstarted, offer, haccepted, (hnet m).accepted callID
      (key n) offer haccepted n hn rfl⟩
  · have hrequested := (hnet n).accepted callID (key m) offer haccepted m hm rfl
    exact .inr ⟨(hnet m).requests callID offer (key n) hrequested, offer, haccepted, hrequested⟩

/-- Device `true` calls device `false`, whose user accepts. -/
def callAnswered : List (Event Bool) :=
  let offered : Reply := ⟨List.replicate 16 3, some "offer", true⟩
  let answered : Reply := ⟨[], some "answer", true⟩
  [.start true (.startCall [0]), .step true 0 offered, .step true 0 offered,
    .deliver false true (.request (List.replicate 16 3) "offer"), .step false 0 answered,
      .start false .accept,
    .step false 1 answered, .step false 1 answered,
    .deliver true false (.answer (List.replicate 16 3) "answer"), .step true 1 answered]

theorem connected_agreed_callAnswered : ∃ net,
    run (step (fun _ => true) fun n => if n then [1] else [0]) launch callAnswered = some net ∧
      (Agreed (fun n => if n then [1] else [0]) net (List.replicate 16 3) true false ∨
        Agreed (fun n => if n then [1] else [0]) net (List.replicate 16 3) false true) := by
  have hsome : (run (step (fun _ => true) fun n => if n then [1] else [0]) launch callAnswered).map
    (fun net =>
      (net.controllers true).shared.1.state) = some (.connecting (List.replicate 16 3) [0]) := by
      decide
  obtain ⟨net, hrun, hstate⟩ := Option.map_eq_some_iff.mp hsome
  exact ⟨net, hrun, connected_agreed (n := true) (m := false) _ _ (by decide) _ hrun _ rfl rfl
    (.inl hstate)⟩

end CallNetwork

end AeroNyra
