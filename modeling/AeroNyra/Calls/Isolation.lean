import AeroNyra.Calls.Controller

/-! Isolation of call attempts: one media session at a time, no write for an attempt that is over,
no attempt in another's place, and one missed call for each.  The operations take the state up
again after each suspension without a look at it, so this holds where nothing has come in
between. -/

namespace AeroNyra.CallController

open Interleave

/-- The attempt that is in progress, and those that `onMissedCall` was called for, the oldest
first. -/
structure Attempts where
  current : Option Nat
  missed : List Nat

/-- An attempt is in progress from the call or the ring that begins it until the state says that
the call has ended. -/
def Attempts.note (h : Attempts) (s : CallController) (a : Action) (_ : Reply)
    (s' : CallController) :
    Attempts where
  current :=
    if s'.state.isEnded then none
    else match a.renews with
      | some n => some n
      | none => if s'.attempt = s.attempt then h.current else some s'.attempt
  missed := if s'.missedCalls = s.missedCalls then h.missed else h.missed ++ h.current.toList

abbrev Step := Transition (Config (CallController × Attempts) Action) (Event Call Reply)

/-- The steps of a run of the controller. -/
def steps (events : List (Event Call Reply)) : List Step :=
  trace (machine.observed Attempts.note).step ⟨(new, ⟨none, []⟩), []⟩ events

/-- The attempt that an action continues: that of its suspended call, of the session that calls
back, or of the ring timer. -/
def attemptOf (s : CallController) : Action → Option Nat
  | .call (.onConnected i) | .call (.onFailed i) | .call (.onRemoteEnded i) =>
    s.sessions[i]?.map (·.attempt)
  | .call (.ringTimeout i) => s.ringTimers[i]?.map (·.attempt)
  | a => a.number

/-- The state and the ring timers of attempts other than `n` are as they were, and a new timer is
one of `n`. -/
structure Untouched (n : Nat) (s s' : CallController) : Prop where
  state : s'.state = s.state
  kept : ∀ (i : Nat) (timer : RingTimer), s.ringTimers[i]? = some timer → timer.attempt ≠ n →
    s'.ringTimers[i]? = some timer
  armed : ∀ (i : Nat) (timer : RingTimer), s'.ringTimers[i]? = some timer →
    s.ringTimers.length ≤ i → timer.attempt = n

/-- What a step keeps apart. -/
structure Isolated (t : Step) : Prop where
  oneSession : ∀ (i j : Nat) (m m' : MediaSession), t.post.shared.1.sessions[i]? = some m →
    m.closed = false → t.post.shared.1.sessions[j]? = some m' → m'.closed = false → i = j
  foreign : ∀ a reply n, t.pre.acts t.event = some (a, reply) →
    attemptOf t.pre.shared.1 a = some n →
    t.pre.shared.2.current ≠ some n → Untouched n t.pre.shared.1 t.post.shared.1
  replaced : ∀ n, t.pre.shared.2.current = some n →
    t.post.shared.2.current = some n ∨ t.post.shared.1.state.isEnded
  missedOnce : t.post.shared.2.missed.Nodup

/-- Whether an action that continues an attempt writes the state. -/
def writes (s : CallController) : Action → Reply → Bool
  | .offered _ _ _, _ | .answered _ _ _, _ | .cancelled _, _ | .declined _, _ => true
  | .requested _ _ _, reply | .answerSent _, reply | .started _, reply => !reply.carried
  | .call (.onConnected i), _ => s.sessions[i]?.any fun m => s.state.isConnecting m.callID
  | .call (.onFailed i), _ =>
    s.sessions[i]?.any fun m => s.state.isConnecting m.callID || s.state.isActive m.callID
  | .call (.onRemoteEnded i), _ => s.sessions[i]?.any fun m => s.state.isActive m.callID
  | .call (.ringTimeout i), _ =>
    s.ringTimers[i]?.any fun timer => timer.running && s.state.isRinging timer.callID
  | .call _, _ => false

/-- An action comes in between what another call has begun. -/
inductive Crosses (c : Config (CallController × Attempts) Action) : Action → Reply → Prop
  /-- A call or a ring while `startCall` waits for its offer, when the state is still idle. -/
  | duringOffer {a reply} (hidle : c.shared.1.state = .idle)
      (ha : (∃ peerKey, a = .call (.startCall peerKey)) ∨
        ∃ callID sdp peerKey, a = .call (.handleInbound (.request callID sdp) peerKey))
      (hwaits : ∃ n callID peerKey, c.Pending (.offered n callID peerKey)) : Crosses c a reply
  /-- The ring is accepted again, declined or called off while `accept` waits for its answer. -/
  | duringAnswer {a reply callID peerKey sdp}
      (hring : c.shared.1.state = .incomingRinging callID peerKey sdp)
      (ha : a = .call .accept ∨ a = .call .decline ∨
        ∃ peerKey, a = .call (.handleInbound (.decline callID) peerKey))
      (hwaits : ∃ n callID peerKey, c.Pending (.answered n callID peerKey)) : Crosses c a reply
  /-- The ring is accepted while `decline` waits for its signal to be sent. -/
  | duringDecline {reply} (hring : c.shared.1.state.isIncoming)
      (hwaits : c.Pending (.declined c.shared.1.attempt)) : Crosses c (.call .accept) reply
  /-- A continuation that writes the state runs when its attempt is no longer in progress. -/
  | late {a reply n} (hn : attemptOf c.shared.1 a = some n) (hover : c.shared.2.current ≠ some n)
      (hwrites : c.shared.1.writes a reply) : Crosses c a reply
  /-- `startCall` arms its timer, when its attempt is no longer in progress, over one that runs. -/
  | rearms {n callID peerKey reply i timer} (hover : c.shared.2.current ≠ some n)
      (hcarried : reply.carried) (harmed : c.shared.1.ringTimer = some i)
      (htimer : c.shared.1.ringTimers[i]? = some timer) (hrunning : timer.running)
      (hforeign : timer.attempt ≠ n) : Crosses c (.requested n callID peerKey) reply

/-- Every session is closed. -/
def Silent (s : CallController) : Prop := ∀ m ∈ s.sessions, m.closed

/-- The invariant: what is open is in use, and what waits to be written is for the attempt in
progress. -/
structure Orderly (s : CallController) (h : Attempts) (ts : List (Thread Action)) : Prop where
  held : ∀ (i : Nat) (m : MediaSession), s.sessions[i]? = some m → m.closed = false →
    s.media = some i
  latest : ∀ n, h.current = some n → n = s.attempt
  silent : h.current = none → s.Silent ∧ (s.state = .idle ∨ s.state.isEnded)
  ended : s.state.isEnded → h.current = none
  offering : h.current ≠ none → s.state = .idle →
    ∃ n callID peerKey, (Config.mk s ts).Pending (.offered n callID peerKey)
  ringing : s.state.isIncoming → s.Silent ∨
    ∃ n callID peerKey, (Config.mk s ts).Pending (.answered n callID peerKey)
  cancelling : h.current ≠ none → (Config.mk s ts).Pending (.cancelled s.attempt) →
    s.Silent ∧ ¬s.state.isIncoming
  declining : h.current ≠ none → (Config.mk s ts).Pending (.declined s.attempt) → s.Silent
  numbered : ∀ b n, (Config.mk s ts).Pending b → b.number = some n → n ≤ s.attempt
  missed : h.missed.Nodup
  missedOver : ∀ n ∈ h.missed, n ≤ s.attempt ∧ h.current ≠ some n

variable {s s' : CallController} {h h' : Attempts} {a : Action} {reply : Reply} {x : Exit Action}

theorem silent_teardownMedia
    (hheld : ∀ (i : Nat) (m : MediaSession), s.sessions[i]? = some m → m.closed = false →
      s.media = some i) :
    s.teardownMedia.Silent := by
  intro m hm
  by_contra hopen
  obtain ⟨j, hj⟩ := List.mem_iff_getElem?.mp hm
  unfold teardownMedia at hj
  dsimp only at hj
  cases hmedia : s.media with
  | none =>
    rw [hmedia] at hj
    cases (hheld j m hj (by simpa using hopen)).symm.trans hmedia
  | some i =>
    rw [hmedia, List.getElem?_modify] at hj
    obtain ⟨m₀, hm₀, heq⟩ := Option.map_eq_some_iff.mp hj
    by_cases hij : i = j
    · rw [if_pos hij] at heq
      exact hopen (by rw [← heq])
    · rw [if_neg hij] at heq
      subst heq
      have hused := hheld j m₀ hm₀ (by simpa using hopen)
      exact hij (Option.some.inj (hmedia.symm.trans hused))

theorem Silent.held (hs : s.Silent) (i : Nat) (m : MediaSession) (hm : s.sessions[i]? = some m)
    (hopen : m.closed = false) : s.media = some i := by
  have hclosed := hs m (List.mem_of_getElem? hm)
  rw [hopen] at hclosed
  cases hclosed

/-- A new session is the only one open. -/
theorem held_makeMediaSession (hs : s.Silent) (callID peerKey : Data) (i : Nat) (m : MediaSession)
    (hm : (s.makeMediaSession callID peerKey).sessions[i]? = some m) (hopen : m.closed = false) :
    (s.makeMediaSession callID peerKey).media = some i := by
  have hm : (s.sessions ++ [⟨callID, peerKey, s.attempt, false⟩])[i]? = some m := hm
  rcases Nat.lt_trichotomy i s.sessions.length with hlt | heq | hgt
  · rw [List.getElem?_append_left hlt] at hm
    have hclosed := hs m (List.mem_of_getElem? hm)
    rw [hopen] at hclosed
    cases hclosed
  · rw [heq]
    rfl
  · rw [List.getElem?_eq_none (by simp; omega)] at hm
    cases hm

/-! ### The history -/

theorem note_current_ended (hended : s'.state.isEnded) : (h.note s a reply s').current = none :=
  if_pos hended

theorem note_current_renews {n : Nat} (hended : ¬s'.state.isEnded) (ha : a.renews = some n) :
    (h.note s a reply s').current = some n := by
  unfold Attempts.note
  dsimp only
  rw [if_neg hended, ha]

theorem note_current_same (hended : ¬s'.state.isEnded) (ha : a.renews = none)
    (hattempt : s'.attempt = s.attempt) : (h.note s a reply s').current = h.current := by
  unfold Attempts.note
  dsimp only
  rw [if_neg hended, ha]
  exact if_pos hattempt

theorem note_current_begins (hended : ¬s'.state.isEnded) (ha : a.renews = none)
    (hattempt : s'.attempt = s.attempt + 1) :
    (h.note s a reply s').current = some (s.attempt + 1) := by
  unfold Attempts.note
  dsimp only
  rw [if_neg hended, ha, hattempt]
  exact if_neg (by omega)

theorem note_missed_same (hmissed : s'.missedCalls = s.missedCalls) :
    (h.note s a reply s').missed = h.missed :=
  if_pos hmissed

/-- Whatever the step, each attempt is missed once, if it is over when it is. -/
theorem missed_note {ts : List (Thread Action)} (ho : Orderly s h ts)
    (hattempt : s.attempt ≤ s'.attempt)
    (hcurrent : ∀ n, (h.note s a reply s').current = some n → h.current = some n ∨ s.attempt < n)
    (hmissed : s'.missedCalls = s.missedCalls ∨ (h.note s a reply s').current = none) :
    (h.note s a reply s').missed.Nodup ∧ ∀ n ∈ (h.note s a reply s').missed,
      n ≤ s'.attempt ∧ (h.note s a reply s').current ≠ some n := by
  have hold (n : Nat) (hn : n ∈ h.missed) :
      n ≤ s'.attempt ∧ (h.note s a reply s').current ≠ some n := by
    obtain ⟨hle, hover⟩ := ho.missedOver n hn
    refine ⟨by omega, fun hc => ?_⟩
    rcases hcurrent n hc with hc | hlt
    · exact hover hc
    · omega
  by_cases hsame : s'.missedCalls = s.missedCalls
  · rw [note_missed_same hsame]
    exact ⟨ho.missed, hold⟩
  · have hnone := hmissed.resolve_left hsame
    have heq : (h.note s a reply s').missed = h.missed ++ h.current.toList := if_neg hsame
    rw [heq]
    refine ⟨List.nodup_append.mpr ⟨ho.missed, ?_, ?_⟩, fun n hn => ?_⟩
    · cases h.current with
      | none => exact List.nodup_nil
      | some n => exact List.nodup_singleton n
    · intro n hn n' hn' heq
      exact (ho.missedOver n hn).2 (heq ▸ Option.mem_toList.mp hn')
    · rcases List.mem_append.mp hn with hn | hn
      · exact hold n hn
      · have hlatest := ho.latest n (Option.mem_toList.mp hn)
        exact ⟨by omega, by simp [hnone]⟩

/-! ### The steps -/

section Steps

variable {ts : List (Thread Action)} {i : Nat} {rest handler first : List Action}

theorem numbered_goOn (ho : Orderly s h ts) (hi : ts[i]? = some ⟨a :: rest, handler⟩)
    (hattempt : s.attempt ≤ s'.attempt)
    (hfirst : ∀ b ∈ first, ∀ n, b.number = some n → n ≤ s'.attempt) (b : Action) (n : Nat)
    (hb : (Config.mk s' (ts.set i (.leave rest handler (.goOn first)))).Pending b)
    (hn : b.number = some n) : n ≤ s'.attempt := by
  rcases Machine.pending_of_goOn hi hb with hold | hnew
  · have hle := ho.numbered b n hold hn
    omega
  · exact hfirst b hnew n hn

/-- A step that ends the call, with every session closed. -/
theorem orderly_ended (ho : Orderly s h ts) (hi : ts[i]? = some ⟨a :: rest, handler⟩)
    (hended : s'.state.isEnded) (hsilent : s'.Silent) (hattempt : s'.attempt = s.attempt) :
    Orderly s' (h.note s a reply s') (ts.set i (.leave rest handler (.goOn []))) := by
  have hnone : (h.note s a reply s').current = none := note_current_ended hended
  obtain ⟨hnodup, hover⟩ : (h.note s a reply s').missed.Nodup ∧ _ :=
    missed_note ho (by omega) (fun n hn => by rw [hnone] at hn; cases hn) (.inr hnone)
  exact
    { held := hsilent.held
      latest := fun n hn => by rw [hnone] at hn; cases hn
      silent := fun _ => ⟨hsilent, .inr hended⟩
      ended := fun _ => hnone
      offering := fun hn => absurd hnone hn
      ringing := fun _ => .inl hsilent
      cancelling := fun hn => absurd hnone hn
      declining := fun hn => absurd hnone hn
      numbered := numbered_goOn ho hi (by omega) (by simp)
      missed := hnodup
      missedOver := hover }

/-- A step that begins an attempt, when none is in progress. -/
theorem orderly_begins (ho : Orderly s h ts) (hi : ts[i]? = some ⟨a :: rest, handler⟩)
    (ha : a.renews = none) (hattempt : s'.attempt = s.attempt + 1)
    (hended : ¬s'.state.isEnded) (hmissed : s'.missedCalls = s.missedCalls)
    (hheld : ∀ (i : Nat) (m : MediaSession), s'.sessions[i]? = some m → m.closed = false →
      s'.media = some i)
    (hoffering : s'.state = .idle → ∃ n callID peerKey, .offered n callID peerKey ∈ first)
    (hringing : s'.state.isIncoming → s'.Silent)
    (hfirst : ∀ b ∈ first, ∃ n callID peerKey, b = .offered n callID peerKey ∧ n ≤ s'.attempt) :
    Orderly s' (h.note s a reply s') (ts.set i (.leave rest handler (.goOn first))) := by
  have hcurrent : (h.note s a reply s').current = some (s.attempt + 1) :=
    note_current_begins hended ha hattempt
  have hold (b : Action) (n : Nat) (hn : b.number = some n) (hnew : s.attempt < n)
      (hb : (Config.mk s' (ts.set i (.leave rest handler (.goOn first)))).Pending b) :
      ∃ n callID peerKey, b = .offered n callID peerKey := by
    rcases Machine.pending_of_goOn hi hb with hold | hmem
    · have hle := ho.numbered b n hold hn
      omega
    · obtain ⟨n, callID, peerKey, heq, _⟩ := hfirst b hmem
      exact ⟨n, callID, peerKey, heq⟩
  obtain ⟨hnodup, hover⟩ : (h.note s a reply s').missed.Nodup ∧ _ := by
    refine missed_note ho (by omega) (fun n hn => .inr ?_) (.inl hmissed)
    rw [hcurrent] at hn
    cases hn
    omega
  exact
    { held := hheld
      latest := fun n hn => by
        rw [hcurrent] at hn
        cases hn
        exact hattempt.symm
      silent := fun hn => by rw [hcurrent] at hn; cases hn
      ended := fun he => absurd he hended
      offering := fun _ hidle => by
        obtain ⟨n, callID, peerKey, hmem⟩ := hoffering hidle
        exact ⟨n, callID, peerKey, Machine.pending_first hi hmem⟩
      ringing := fun hin => .inl (hringing hin)
      cancelling := fun _ hp => by
        obtain ⟨_, _, _, heq⟩ := hold _ s'.attempt rfl (by omega) hp
        cases heq
      declining := fun _ hp => by
        obtain ⟨_, _, _, heq⟩ := hold _ s'.attempt rfl (by omega) hp
        cases heq
      numbered := numbered_goOn ho hi (by omega) fun b hb n hn => by
        obtain ⟨n', _, _, rfl, hle⟩ := hfirst b hb
        cases hn
        exact hle
      missed := hnodup
      missedOver := hover }

/-- A step of the attempt in progress that leaves it in progress: what it must still say about the
sessions, and about the calls that it suspends. -/
theorem orderly_goes (ho : Orderly s h ts) (hi : ts[i]? = some ⟨a :: rest, handler⟩)
    (hcurrent : (h.note s a reply s').current = h.current) (hbusy : h.current ≠ none)
    (hattempt : s'.attempt = s.attempt) (hmissed : s'.missedCalls = s.missedCalls)
    (hended : ¬s'.state.isEnded)
    (hheld : ∀ (i : Nat) (m : MediaSession), s'.sessions[i]? = some m → m.closed = false →
      s'.media = some i)
    (hoffering : s'.state = .idle → s.state = .idle ∧ a.renews = none)
    (hringing : s'.state.isIncoming → s'.Silent ∨
      (∃ n callID peerKey, .answered n callID peerKey ∈ first) ∨
        s.state.isIncoming ∧ a.renews = none ∧ (s.Silent → s'.Silent))
    (hcancelling : .cancelled s.attempt ∈ first ∨ (Config.mk s ts).Pending (.cancelled s.attempt) →
      s'.Silent ∧ ¬s'.state.isIncoming)
    (hdeclining : .declined s.attempt ∈ first ∨ (Config.mk s ts).Pending (.declined s.attempt) →
      s'.Silent)
    (hfirst : ∀ b ∈ first, ∀ n, b.number = some n → n ≤ s'.attempt) :
    Orderly s' (h.note s a reply s') (ts.set i (.leave rest handler (.goOn first))) := by
  obtain ⟨hnodup, hover⟩ : (h.note s a reply s').missed.Nodup ∧ _ :=
    missed_note ho (by omega) (fun n hn => .inl (hcurrent ▸ hn)) (.inl hmissed)
  exact
    { held := hheld
      latest := fun n hn => by
        rw [hcurrent] at hn
        rw [hattempt]
        exact ho.latest n hn
      silent := fun hn => absurd (hcurrent ▸ hn) hbusy
      ended := fun he => absurd he hended
      offering := fun _ hidle => by
        obtain ⟨hbefore, ha⟩ := hoffering hidle
        obtain ⟨n, callID, peerKey, hp⟩ := ho.offering hbusy hbefore
        refine ⟨n, callID, peerKey, Machine.pending_goOn hi hp ?_⟩
        rintro rfl
        cases ha
      ringing := fun hin => by
        rcases hringing hin with hsilent | ⟨n, callID, peerKey, hmem⟩ | ⟨hbefore, ha, hkeeps⟩
        · exact .inl hsilent
        · exact .inr ⟨n, callID, peerKey, Machine.pending_first hi hmem⟩
        · rcases ho.ringing hbefore with hsilent | ⟨n, callID, peerKey, hp⟩
          · exact .inl (hkeeps hsilent)
          · refine .inr ⟨n, callID, peerKey, Machine.pending_goOn hi hp ?_⟩
            rintro rfl
            cases ha
      cancelling := fun _ hp => by
        rw [hattempt] at hp
        exact hcancelling (Machine.pending_of_goOn hi hp).symm
      declining := fun _ hp => by
        rw [hattempt] at hp
        exact hdeclining (Machine.pending_of_goOn hi hp).symm
      numbered := numbered_goOn ho hi (by omega) hfirst
      missed := hnodup
      missedOver := hover }

/-- A step between attempts. -/
theorem orderly_rests (ho : Orderly s h ts) (hi : ts[i]? = some ⟨a :: rest, handler⟩)
    (hrests : (h.note s a reply s').current = none) (hattempt : s'.attempt = s.attempt)
    (hmissed : s'.missedCalls = s.missedCalls) (hsessions : s'.sessions = s.sessions)
    (hnone : h.current = none) (hstate : s'.state = .idle ∨ s'.state.isEnded) :
    Orderly s' (h.note s a reply s') (ts.set i (.leave rest handler (.goOn []))) := by
  have hsilent : s'.Silent := by
    unfold Silent
    rw [hsessions]
    exact (ho.silent hnone).1
  obtain ⟨hnodup, hover⟩ : (h.note s a reply s').missed.Nodup ∧ _ :=
    missed_note ho (by omega) (fun n hn => by rw [hrests] at hn; cases hn) (.inl hmissed)
  exact
    { held := hsilent.held
      latest := fun n hn => by rw [hrests] at hn; cases hn
      silent := fun _ => ⟨hsilent, hstate⟩
      ended := fun _ => hrests
      offering := fun hn => absurd hrests hn
      ringing := fun _ => .inl hsilent
      cancelling := fun hn => absurd hrests hn
      declining := fun hn => absurd hrests hn
      numbered := numbered_goOn ho hi (by omega) (by simp)
      missed := hnodup
      missedOver := hover }

/-- A continuation that writes the state, where nothing crosses, is one of the attempt in
progress. -/
theorem current_of_writes {c : Config (CallController × Attempts) Action} {n : Nat}
    (hfree : ¬Crosses c a reply) (hn : attemptOf c.shared.1 a = some n)
    (hwrites : c.shared.1.writes a reply) : c.shared.2.current = some n := by
  by_contra hover
  exact hfree (.late hn hover hwrites)

theorem renews_of_some (s : CallController) (reply : Reply) {n : Nat} (ha : a.renews = some n) :
    attemptOf s a = some n ∧ s.writes a reply := by
  cases a with
  | offered m callID peerKey =>
    cases ha
    exact ⟨rfl, rfl⟩
  | answered m callID peerKey =>
    cases ha
    exact ⟨rfl, rfl⟩
  | call call => cases ha
  | requested | cancelled | answerSent | declined | started => cases ha

theorem Orderly.busy_of_incoming (ho : Orderly s h ts) (hin : s.state.isIncoming) :
    h.current ≠ none := by
  intro hnone
  rcases (ho.silent hnone).2 with hidle | hended
  · rw [hidle] at hin
    cases hin
  · cases hs : s.state with
    | incomingRinging => simp [hs, State.isEnded] at hended
    | idle | outgoingRinging | connecting | active | ended => simp [hs, State.isIncoming] at hin

theorem exists_incoming (hin : s.state.isIncoming) :
    ∃ callID peerKey sdp, s.state = .incomingRinging callID peerKey sdp := by
  cases hs : s.state with
  | incomingRinging callID peerKey sdp => exact ⟨callID, peerKey, sdp, rfl⟩
  | idle | outgoingRinging | connecting | active | ended => simp [hs, State.isIncoming] at hin

/-- A ring has no session open when it is taken up, declined or called off, where nothing
crosses. -/
theorem Orderly.silent_of_incoming (ho : Orderly s h ts) (hin : s.state.isIncoming)
    (hfree : ¬Crosses ⟨(s, h), ts⟩ a reply)
    (ha : a = .call .accept ∨ a = .call .decline ∨ ∃ callID peerKey,
      a = .call (.handleInbound (.decline callID) peerKey) ∧
        ∃ ourPeer sdp, s.state = .incomingRinging callID ourPeer sdp) : s.Silent := by
  rcases ho.ringing hin with hsilent | hwaits
  · exact hsilent
  · refine absurd ?_ hfree
    obtain ⟨ourID, ourPeer, sdp, hring⟩ := exists_incoming hin
    rcases ha with rfl | rfl | ⟨callID, peerKey, rfl, _, _, hcalled⟩
    · exact .duringAnswer hring (.inl rfl) hwaits
    · exact .duringAnswer hring (.inr (.inl rfl)) hwaits
    · exact .duringAnswer hcalled (.inr (.inr ⟨peerKey, rfl⟩)) hwaits

theorem orderly_still (ho : Orderly s h ts) (hi : ts[i]? = some ⟨a :: rest, handler⟩)
    (hsame : SameCall s s') (ha : a.renews = none) (hfirst : ∀ b ∈ first, b = .declined s.attempt)
    (hdeclining : first ≠ [] → s.Silent ∧ s.state.isIncoming) :
    Orderly s' (h.note s a reply s') (ts.set i (.leave rest handler (.goOn first))) := by
  by_cases hnone : h.current = none
  · obtain rfl : first = [] := by
      by_contra hne
      exact ho.busy_of_incoming (hdeclining hne).2 hnone
    refine orderly_rests ho hi ?_ hsame.attempt hsame.missedCalls hsame.sessions hnone ?_
    · by_cases hended : s'.state.isEnded
      · exact note_current_ended hended
      · rw [note_current_same hended ha hsame.attempt, hnone]
    · rw [hsame.state]
      exact (ho.silent hnone).2
  · have hended : ¬s'.state.isEnded := by
      rw [hsame.state]
      exact fun he => hnone (ho.ended he)
    have hsilent (hs : s.Silent) : s'.Silent := by
      unfold Silent
      rwa [hsame.sessions]
    refine orderly_goes ho hi (note_current_same hended ha hsame.attempt) hnone hsame.attempt
      hsame.missedCalls hended ?_ ?_ ?_ ?_ ?_ ?_
    · rw [hsame.sessions, hsame.media]
      exact ho.held
    · rw [hsame.state]
      exact fun hidle => ⟨hidle, ha⟩
    · rw [hsame.state]
      exact fun hin => .inr (.inr ⟨hin, ha, hsilent⟩)
    · rintro (hmem | hp)
      · cases hfirst _ hmem
      · rw [hsame.state]
        exact ⟨hsilent (ho.cancelling hnone hp).1, (ho.cancelling hnone hp).2⟩
    · rintro (hmem | hp)
      · exact hsilent (hdeclining (List.ne_nil_of_mem hmem)).1
      · exact hsilent (ho.declining hnone hp)
    · intro b hb n hn
      obtain rfl := hfirst b hb
      cases hn
      exact hsame.attempt.ge

theorem orderly_accepts {callID peerKey : Data} (ho : Orderly s h ts)
    (hi : ts[i]? = some ⟨.call .accept :: rest, handler⟩)
    (hfree : ¬Crosses ⟨(s, h), ts⟩ (.call .accept) reply) (hin : s.state.isIncoming)
    (hsame : SameCall (s.makeMediaSession callID peerKey) s') :
    Orderly s' (h.note s (.call .accept) reply s')
      (ts.set i (.leave rest handler (.goOn [.answered s.attempt callID peerKey]))) := by
  have hsilent := ho.silent_of_incoming hin hfree (.inl rfl)
  have hbusy := ho.busy_of_incoming hin
  have hstate : s'.state = s.state := hsame.state
  have hended : ¬s'.state.isEnded := by
    rw [hstate]
    exact fun he => hbusy (ho.ended he)
  refine orderly_goes ho hi (note_current_same hended rfl hsame.attempt) hbusy hsame.attempt
    hsame.missedCalls hended ?_ ?_ ?_ ?_ ?_ ?_
  · rw [hsame.sessions, hsame.media]
    exact held_makeMediaSession hsilent callID peerKey
  · rw [hstate]
    exact fun hidle => ⟨hidle, rfl⟩
  · exact fun _ => .inr (.inl ⟨s.attempt, callID, peerKey, List.mem_singleton_self _⟩)
  · rintro (hmem | hp)
    · cases List.mem_singleton.mp hmem
    · exact absurd hin (ho.cancelling hbusy hp).2
  · rintro (hmem | hp)
    · cases List.mem_singleton.mp hmem
    · exact absurd (.duringDecline hin hp) hfree
  · intro b hb n hn
    obtain rfl := List.mem_singleton.mp hb
    cases hn
    exact hsame.attempt.ge

theorem orderly_cancels (ho : Orderly s h ts)
    (hi : ts[i]? = some ⟨.call .cancelOutgoing :: rest, handler⟩)
    (hout : ∃ callID peerKey, s.state = .outgoingRinging callID peerKey)
    (hsame : SameCall s.teardownMedia s') :
    Orderly s' (h.note s (.call .cancelOutgoing) reply s')
      (ts.set i (.leave rest handler (.goOn [.cancelled s.attempt]))) := by
  obtain ⟨callID, peerKey, hout⟩ := hout
  have hstate : s'.state = .outgoingRinging callID peerKey := hsame.state.trans hout
  have hsilent : s'.Silent := by
    unfold Silent
    rw [hsame.sessions]
    exact silent_teardownMedia ho.held
  have hbusy : h.current ≠ none := by
    intro hnone
    rcases (ho.silent hnone).2 with hidle | hended
    · cases hidle.symm.trans hout
    · simp [hout, State.isEnded] at hended
  have hended : ¬s'.state.isEnded := by simp [hstate, State.isEnded]
  refine orderly_goes ho hi (note_current_same hended rfl hsame.attempt) hbusy hsame.attempt
    hsame.missedCalls hended hsilent.held ?_ ?_ ?_ ?_ ?_
  · rw [hstate]
    exact fun hidle => by cases hidle
  · exact fun _ => .inl hsilent
  · exact fun _ => ⟨hsilent, by simp [hstate, State.isIncoming]⟩
  · exact fun _ => hsilent
  · intro b hb n hn
    obtain rfl := List.mem_singleton.mp hb
    cases hn
    exact hsame.attempt.ge

theorem orderly_shows (ho : Orderly s h ts) (hi : ts[i]? = some ⟨a :: rest, handler⟩)
    (hfree : ¬Crosses ⟨(s, h), ts⟩ a reply)
    (hstate : s'.state ≠ .idle ∧ ¬s'.state.isEnded ∧ ¬s'.state.isIncoming) (hmedia : SameMedia s s')
    (hmissed : s'.missedCalls = s.missedCalls)
    (ha : a.renews.isSome ∨ s.state ≠ .idle ∧ ¬s.state.isEnded)
    (hfirst : ∀ b ∈ first, b.isSending ∧ (b.number = a.number ∨ b.number = some s.attempt)) :
    Orderly s' (h.note s a reply s') (ts.set i (.leave rest handler (.goOn first))) := by
  obtain ⟨hidle, hended, hincoming⟩ := hstate
  have hcurrent : (h.note s a reply s').current = h.current ∧ h.current ≠ none := by
    cases hr : a.renews with
    | some n =>
      obtain ⟨hn, hwrites⟩ := renews_of_some s reply hr
      have hc : h.current = some n := current_of_writes hfree hn hwrites
      rw [note_current_renews hended hr, hc]
      exact ⟨rfl, by simp⟩
    | none =>
      refine ⟨note_current_same hended hr hmedia.attempt, fun hnone => ?_⟩
      rw [hr] at ha
      obtain ⟨hbefore, hlive⟩ := ha.resolve_left (by simp)
      rcases (ho.silent hnone).2 with h | h
      · exact hbefore h
      · exact hlive h
  have hsilent (hs : s.Silent) : s'.Silent := by
    unfold Silent
    rwa [hmedia.sessions]
  refine orderly_goes ho hi hcurrent.1 hcurrent.2 hmedia.attempt hmissed hended ?_
    (fun h => absurd h hidle) (fun h => absurd h hincoming) ?_ ?_ ?_
  · rw [hmedia.sessions, hmedia.media]
    exact ho.held
  · rintro (hmem | hp)
    · cases (hfirst _ hmem).1
    · exact ⟨hsilent (ho.cancelling hcurrent.2 hp).1, hincoming⟩
  · rintro (hmem | hp)
    · cases (hfirst _ hmem).1
    · exact hsilent (ho.declining hcurrent.2 hp)
  · intro b hb n hn
    rw [hmedia.attempt]
    rcases (hfirst b hb).2 with hsame | hnow
    · exact ho.numbered a n ⟨_, List.mem_of_getElem? hi, List.mem_cons_self⟩ (hsame.symm.trans hn)
    · cases hnow.symm.trans hn
      exact Nat.le_refl _

/-- No attempt is in progress when one begins, where nothing crosses. -/
theorem Orderly.begins_fresh (ho : Orderly s h ts) (hidle : s.state = .idle)
    (hfree : ¬Crosses ⟨(s, h), ts⟩ a reply)
    (ha : (∃ peerKey, a = .call (.startCall peerKey)) ∨
      ∃ callID sdp peerKey, a = .call (.handleInbound (.request callID sdp) peerKey)) :
    h.current = none := by
  by_contra hbusy
  exact hfree (.duringOffer hidle ha (ho.offering hbusy hidle))

/-- What each action does to the invariant, where nothing crosses. -/
theorem orderly_act (ho : Orderly s h ts) (hi : ts[i]? = some ⟨a :: rest, handler⟩)
    (hexec : exec s a reply = some (s', x)) (hfree : ¬Crosses ⟨(s, h), ts⟩ a reply) :
    Orderly s' (h.note s a reply s') (ts.set i (.leave rest handler x)) := by
  cases exec_effect hexec with
  | still hsame ha => exact orderly_still ho hi hsame ha (by simp) (by simp)
  | @starts peerKey callID hidle =>
    have hnone := ho.begins_fresh hidle hfree (.inl ⟨_, rfl⟩)
    have hsilent : Silent { s with attempt := s.attempt + 1 } := (ho.silent hnone).1
    have hstate : (makeMediaSession { s with attempt := s.attempt + 1 } callID peerKey).state =
      .idle :=
      hidle
    refine orderly_begins ho hi rfl rfl ?_ rfl
      (held_makeMediaSession hsilent callID peerKey) ?_ ?_ ?_
    · rw [hstate]
      exact Bool.false_ne_true
    · exact fun _ => ⟨_, _, _, List.mem_singleton_self _⟩
    · rw [hstate]
      exact fun hin => by cases hin
    · intro b hb
      exact ⟨_, _, _, List.mem_singleton.mp hb, Nat.le_refl _⟩
  | rings hidle hstate hmedia hmissed =>
    have hnone := ho.begins_fresh hidle hfree (.inr ⟨_, _, _, rfl⟩)
    have hsilent : s'.Silent := by
      unfold Silent
      rw [hmedia.sessions]
      exact (ho.silent hnone).1
    refine orderly_begins ho hi rfl hmedia.attempt ?_ hmissed hsilent.held ?_ (fun _ => hsilent)
      (by simp)
    · simp [hstate, State.isEnded]
    · rw [hstate]
      exact fun hidle => by cases hidle
  | accepts hin hsame => exact orderly_accepts ho hi hfree hin hsame
  | declines hin hsame =>
    have hsilent := ho.silent_of_incoming hin hfree (.inr (.inl rfl))
    exact orderly_still ho hi hsame rfl (fun b hb => List.mem_singleton.mp hb)
      fun _ => ⟨hsilent, hin⟩
  | cancels hout hsame => exact orderly_cancels ho hi hout hsame
  | shows hstate hmedia hmissed ha hfirst =>
    exact orderly_shows ho hi hfree hstate hmedia hmissed ha hfirst
  | closes hstate hmedia =>
    refine orderly_ended ho hi (by simp [hstate, State.isEnded]) ?_ hmedia.attempt
    unfold Silent
    rw [hmedia.sessions]
    exact silent_teardownMedia ho.held
  | drops hstate hmedia ha =>
    have hsilent : s.Silent := by
      rcases ha with ⟨n, ha⟩ | ⟨hin, callID, peerKey, ha, hring⟩
      · have hp : (Config.mk s ts).Pending a := ⟨_, List.mem_of_getElem? hi, List.mem_cons_self⟩
        rcases ha with rfl | rfl
        · have hc : h.current = some n := current_of_writes hfree rfl rfl
          obtain rfl := ho.latest n hc
          exact (ho.cancelling (by simp [hc]) hp).1
        · have hc : h.current = some n := current_of_writes hfree rfl rfl
          obtain rfl := ho.latest n hc
          exact ho.declining (by simp [hc]) hp
      · exact ho.silent_of_incoming hin hfree (.inr (.inr ⟨callID, peerKey, ha, hring⟩))
    refine orderly_ended ho hi (by simp [hstate, State.isEnded]) ?_ hmedia.attempt
    unfold Silent
    rw [hmedia.sessions]
    exact hsilent
  | resets hended =>
    have hnone := ho.ended hended
    have hidle : ¬(s.setState .idle).state.isEnded := Bool.false_ne_true
    have hsame : (h.note s (.call .reset) reply (s.setState .idle)).current = h.current :=
      note_current_same hidle rfl rfl
    exact orderly_rests ho hi (hsame.trans hnone) rfl rfl rfl hnone (.inl rfl)

end Steps

/-! ### Continuations of attempts that are over -/

theorem Untouched.refl (n : Nat) (s : CallController) : Untouched n s s where
  state := rfl
  kept _ _ htimer _ := htimer
  armed i timer htimer hle := by
    rw [List.getElem?_eq_none hle] at htimer
    cases htimer

theorem untouched_ringTimers {n : Nat} {finished : List RingTimer}
    (hlength : finished.length = s.ringTimers.length)
    (hkept : ∀ (i : Nat) (timer : RingTimer), s.ringTimers[i]? = some timer → timer.attempt ≠ n →
      finished[i]? = some timer) : Untouched n s { s with ringTimers := finished } where
  state := rfl
  kept := hkept
  armed i timer htimer hle := by
    rw [List.getElem?_eq_none (by dsimp only; omega)] at htimer
    cases htimer

/-- Arming a timer leaves the others alone, unless it cancels one that runs. -/
theorem untouched_armRingTimer {n : Nat} {callID peerKey : Data}
    (hstops : ∀ (i : Nat) (timer : RingTimer), s.ringTimer = some i →
      s.ringTimers[i]? = some timer →
      timer.attempt ≠ n → timer.running = false) : Untouched n s
        (s.armRingTimer n callID peerKey) := by
  have hlength : s.stopRingTimer.ringTimers.length = s.ringTimers.length := by
    unfold stopRingTimer
    cases s.ringTimer with
    | none => rfl
    | some i => exact List.length_modify _ _ _
  have hkept (i : Nat) (timer : RingTimer) (htimer : s.ringTimers[i]? = some timer)
      (hforeign : timer.attempt ≠ n) : s.stopRingTimer.ringTimers[i]? = some timer := by
    unfold stopRingTimer
    cases hj : s.ringTimer with
    | none => exact htimer
    | some j =>
      dsimp only
      rw [List.getElem?_modify, htimer]
      by_cases hij : j = i
      · subst hij
        have hstopped := hstops j timer hj htimer hforeign
        simp [← hstopped]
      · simp [hij]
  refine ⟨rfl, fun i timer htimer hforeign => ?_, fun i timer htimer hle => ?_⟩
  · have hlt := (List.getElem?_eq_some_iff.mp htimer).1
    unfold armRingTimer
    dsimp only
    rw [List.getElem?_append_left (by omega)]
    exact hkept i timer htimer hforeign
  · unfold armRingTimer at htimer
    dsimp only at htimer
    rw [List.getElem?_append_right (by omega)] at htimer
    rw [List.mem_singleton.mp (List.mem_of_getElem? htimer)]

/-- A callback that finds another call in the state, or the call in another state, does nothing. -/
theorem callback_idle (session : MediaSession) :
    (¬s.state.isConnecting session.callID → s.onConnected session = s) ∧
    (¬(s.state.isConnecting session.callID || s.state.isActive session.callID) →
      s.onFailed session = s) ∧
    (¬s.state.isActive session.callID → s.onRemoteEnded session = s) := by
  unfold onConnected onFailed onRemoteEnded
  cases hs : s.state with
  | connecting id peer => simp_all [State.isConnecting, State.isActive]
  | active id peer => simp_all [State.isConnecting, State.isActive]
  | idle | outgoingRinging | incomingRinging | ended => simp

theorem untouched_ringTimeout {i : Nat} {timer : RingTimer} (htimer : s.ringTimers[i]? = some timer)
    (hidle : ¬(timer.running && s.state.isRinging timer.callID)) :
    Untouched timer.attempt s (s.ringTimeout i timer) := by
  unfold ringTimeout
  by_cases hrunning : timer.running
  · rw [if_pos hrunning]
    have hfinished : Untouched timer.attempt s
        { s with ringTimers := s.ringTimers.modify i fun t => { t with running := false } } := by
      refine untouched_ringTimers (List.length_modify _ _ _) fun j other hother hforeign => ?_
      have hij : i ≠ j := by
        rintro rfl
        cases htimer.symm.trans hother
        exact hforeign rfl
      simp [hij, hother]
    dsimp only
    split
    · rename_i id peer hs
      have hid : id ≠ timer.callID := by simpa [hrunning, hs, State.isRinging] using hidle
      rw [if_neg hid]
      exact hfinished
    · rename_i id peer sdp hs
      have hid : id ≠ timer.callID := by simpa [hrunning, hs, State.isRinging] using hidle
      rw [if_neg hid]
      exact hfinished
    · exact hfinished
  · rw [if_neg hrunning]
    exact .refl _ s

/-- A continuation of an attempt that is over leaves the rest alone, where nothing crosses. -/
theorem foreign_act {c : Config (CallController × Attempts) Action} {n : Nat}
    (hexec : exec c.shared.1 a reply = some (s', x)) (hn : attemptOf c.shared.1 a = some n)
    (hover : c.shared.2.current ≠ some n) (hfree : ¬Crosses c a reply) :
    Untouched n c.shared.1 s' := by
  have hquiet : ¬c.shared.1.writes a reply := fun hw => hover (current_of_writes hfree hn hw)
  cases a with
  | offered | answered | cancelled | declined => exact absurd rfl hquiet
  | requested m callID peerKey =>
    cases hn
    have hcarried : reply.carried := by simpa [writes] using hquiet
    dsimp only [exec] at hexec
    rw [if_pos hcarried] at hexec
    cases hexec
    refine untouched_armRingTimer fun i timer harmed htimer hforeign => ?_
    by_contra hrunning
    exact hfree (.rearms hover hcarried harmed htimer (by simpa using hrunning) hforeign)
  | answerSent m =>
    have hcarried : reply.carried := by simpa [writes] using hquiet
    dsimp only [exec] at hexec
    rw [if_pos hcarried] at hexec
    cases hexec
    exact .refl n _
  | started m =>
    have hcarried : reply.carried := by simpa [writes] using hquiet
    dsimp only [exec] at hexec
    rw [if_pos hcarried] at hexec
    cases hexec
    exact .refl n _
  | call call =>
    cases call with
    | onConnected i =>
      obtain ⟨m, hm, heq⟩ := Option.map_eq_some_iff.mp hexec
      obtain ⟨rfl, rfl⟩ := Prod.mk.inj heq
      rw [(callback_idle m).1 (by simpa [writes, hm] using hquiet)]
      exact .refl n _
    | onFailed i =>
      obtain ⟨m, hm, heq⟩ := Option.map_eq_some_iff.mp hexec
      obtain ⟨rfl, rfl⟩ := Prod.mk.inj heq
      rw [(callback_idle m).2.1 (by simpa [writes, hm] using hquiet)]
      exact .refl n _
    | onRemoteEnded i =>
      obtain ⟨m, hm, heq⟩ := Option.map_eq_some_iff.mp hexec
      obtain ⟨rfl, rfl⟩ := Prod.mk.inj heq
      rw [(callback_idle m).2.2 (by simpa [writes, hm] using hquiet)]
      exact .refl n _
    | ringTimeout i =>
      obtain ⟨timer, htimer, heq⟩ := Option.map_eq_some_iff.mp hexec
      obtain ⟨rfl, rfl⟩ := Prod.mk.inj heq
      have hattempt : timer.attempt = n := by simpa [attemptOf, htimer] using hn
      subst hattempt
      exact untouched_ringTimeout htimer (by simpa [writes, htimer] using hquiet)
    | startCall | cancelOutgoing | accept | decline | hangUp | reset | handleInbound => cases hn

/-- The attempt in progress stays so until the call ends, where nothing crosses. -/
theorem replaced_act {ts : List (Thread Action)} {n : Nat} (ho : Orderly s h ts)
    (hexec : exec s a reply = some (s', x)) (hfree : ¬Crosses ⟨(s, h), ts⟩ a reply)
    (hn : h.current = some n) : (h.note s a reply s').current = some n ∨ s'.state.isEnded := by
  by_cases hended : s'.state.isEnded
  · exact .inr hended
  · refine .inl ?_
    cases hr : a.renews with
    | some m =>
      obtain ⟨hm, hwrites⟩ := renews_of_some s reply hr
      have hc : h.current = some m := current_of_writes hfree hm hwrites
      rw [note_current_renews hended hr, ← hc, hn]
    | none =>
      have hattempt : s'.attempt = s.attempt := by
        cases exec_effect hexec with
        | starts hidle =>
          cases (ho.begins_fresh hidle hfree (.inl ⟨_, rfl⟩)).symm.trans hn
        | rings hidle =>
          cases (ho.begins_fresh hidle hfree (.inr ⟨_, _, _, rfl⟩)).symm.trans hn
        | still hsame => exact hsame.attempt
        | accepts _ hsame => exact hsame.attempt
        | declines _ hsame => exact hsame.attempt
        | cancels _ hsame => exact hsame.attempt
        | shows _ hmedia => exact hmedia.attempt
        | closes _ hmedia => exact hmedia.attempt
        | drops _ hmedia => exact hmedia.attempt
        | resets => rfl
      rw [note_current_same hended hr hattempt, hn]

/-- Something crosses in the step. -/
def Step.Crosses (t : Step) : Prop :=
  ∃ a reply, t.pre.acts t.event = some (a, reply) ∧ CallController.Crosses t.pre a reply

theorem orderly_start {ts : List (Thread Action)} {call : Call} (ho : Orderly s h ts) :
    Orderly s h (ts ++ [⟨[.call call], []⟩]) := by
  have hold {b : Action} {n : Nat} (hn : b.number = some n)
      (hb : (Config.mk s (ts ++ [⟨[.call call], []⟩])).Pending b) : (Config.mk s ts).Pending b := by
    obtain ⟨t, ht, hmem⟩ := hb
    rcases List.mem_append.mp ht with ht | ht
    · exact ⟨t, ht, hmem⟩
    · obtain rfl := List.mem_singleton.mp ht
      obtain rfl := List.mem_singleton.mp hmem
      cases hn
  refine { ho with offering := ?_, ringing := ?_, cancelling := ?_, declining := ?_, numbered :=
    ?_ }
  · intro hbusy hidle
    obtain ⟨n, callID, peerKey, hp⟩ := ho.offering hbusy hidle
    exact ⟨n, callID, peerKey, Machine.pending_start hp⟩
  · intro hin
    rcases ho.ringing hin with hsilent | ⟨n, callID, peerKey, hp⟩
    · exact .inl hsilent
    · exact .inr ⟨n, callID, peerKey, Machine.pending_start hp⟩
  · exact fun hbusy hp => ho.cancelling hbusy (hold rfl hp)
  · exact fun hbusy hp => ho.declining hbusy (hold rfl hp)
  · exact fun b n hb hn => ho.numbered b n (hold hn hb) hn

theorem orderly_step {t : Step}
    (ht : (machine.observed Attempts.note).step t.pre t.event = some t.post)
    (hfree : ¬t.Crosses) (ho : Orderly t.pre.shared.1 t.pre.shared.2 t.pre.threads) :
    Orderly t.post.shared.1 t.post.shared.2 t.post.threads ∧ Isolated t := by
  obtain ⟨⟨⟨s, h⟩, ts⟩, event, post⟩ := t
  -- Whatever is open afterwards is in use, so there is one of it.
  have oneSession {u : CallController} {k : Attempts} {us : List (Thread Action)}
    (hu : Orderly u k us)
      (i j : Nat) (m m' : MediaSession) (hm : u.sessions[i]? = some m) (hopen : m.closed = false)
      (hm' : u.sessions[j]? = some m') (hopen' : m'.closed = false) : i = j :=
    Option.some.inj ((hu.held i m hm hopen).symm.trans (hu.held j m' hm' hopen'))
  rcases Machine.step_cases ht with ⟨call, he, hpost⟩ |
    ⟨i, reply, a, rest, handler, s', x, _, hi, hexec, hacts, hpost⟩
  · dsimp only at hpost he
    subst hpost he
    have hafter : Orderly s h (ts ++ [⟨[.call call], []⟩]) := orderly_start ho
    refine ⟨hafter, ⟨oneSession hafter, ?_, fun n hn => .inl hn, hafter.missed⟩⟩
    intro a reply n hacts
    cases hacts
  · dsimp only at hpost hi hexec
    subst hpost
    obtain ⟨s', h'⟩ := s'
    obtain ⟨hrun, hnote⟩ := Machine.observed_exec hexec
    dsimp only at hnote
    subst hnote
    have hfree' : ¬Crosses ⟨(s, h), ts⟩ a reply := fun hc => hfree ⟨a, reply, hacts, hc⟩
    have hafter := orderly_act ho hi hrun hfree'
    refine ⟨hafter,
      ⟨oneSession hafter, ?_, fun n hn => replaced_act ho hrun hfree' hn, hafter.missed⟩⟩
    intro b reply' n hacts' hn hover
    cases hacts.symm.trans hacts'
    exact foreign_act hrun hn hover hfree'

theorem orderly_new : Orderly new ⟨none, []⟩ [] where
  held _ _ hm := by cases hm
  latest _ hn := by cases hn
  silent _ := ⟨by simp [Silent, new], .inl rfl⟩
  ended _ := rfl
  offering h := absurd rfl h
  ringing h := by cases h
  cancelling h := absurd rfl h
  declining h := absurd rfl h
  numbered _ _ hb := by
    obtain ⟨_, ht, _⟩ := hb
    cases ht
  missed := List.nodup_nil
  missedOver _ hn := by cases hn

/-- In every run in which nothing crosses, call attempts are isolated. -/
theorem attempts_isolated (events : List (Event Call Reply))
    (hfree : ∀ t ∈ steps events, ¬t.Crosses) :
    ∀ t ∈ steps events, Isolated t := by
  intro t ht
  have ho : Orderly t.pre.shared.1 t.pre.shared.2 t.pre.threads :=
    trace_invariant_of
      (fun c : Config (CallController × Attempts) Action => Orderly c.shared.1 c.shared.2 c.threads)
      (fun t : Step => ¬t.Crosses)
      (fun _ ht hf ho => (orderly_step ht hf ho).1) orderly_new hfree ht
  exact (orderly_step (step_of_mem_trace ht) (hfree t ht) ho).2

/-- A sufficient check: a continuation runs for the attempt in progress, and an operation when none
is suspended. -/
def Step.sequential (t : Step) : Bool :=
  match t.pre.acts t.event with
  | some (a, _) =>
    (attemptOf t.pre.shared.1 a = none || attemptOf t.pre.shared.1 a = t.pre.shared.2.current) &&
      (a.number ≠ none || t.pre.threads.all fun u => u.todo.all fun b => b.number = none)
  | none => true

theorem Step.not_crosses {t : Step} (hsequential : t.sequential) : ¬t.Crosses := by
  rintro ⟨a, reply, hacts, hcrosses⟩
  unfold Step.sequential at hsequential
  rw [hacts] at hsequential
  obtain ⟨hattempt, hnumber⟩ := Bool.and_eq_true_iff.mp hsequential
  have hcurrent {n : Nat} (hn : attemptOf t.pre.shared.1 a = some n) :
      t.pre.shared.2.current = some n := by
    rw [hn] at hattempt
    simpa [eq_comm] using hattempt
  have halone {b : Action} {n : Nat} (hn : b.number = some n) (ha : a.number = none) :
      ¬t.pre.Pending b := by
    rintro ⟨u, hu, hmem⟩
    have hall := (Bool.or_eq_true_iff.mp hnumber).resolve_left (by simp [ha])
    have hnone := List.all_eq_true.mp (List.all_eq_true.mp hall u hu) b hmem
    rw [hn] at hnone
    simp at hnone
  cases hcrosses with
  | duringOffer _ ha hwaits =>
    obtain ⟨n, callID, peerKey, hp⟩ := hwaits
    refine halone rfl ?_ hp
    rcases ha with ⟨_, rfl⟩ | ⟨_, _, _, rfl⟩
    · rfl
    · rfl
  | duringAnswer _ ha hwaits =>
    obtain ⟨n, callID, peerKey, hp⟩ := hwaits
    refine halone rfl ?_ hp
    rcases ha with rfl | rfl | ⟨_, rfl⟩
    · rfl
    · rfl
    · rfl
  | duringDecline _ hwaits => exact halone rfl rfl hwaits
  | late hn hover => exact hover (hcurrent hn)
  | rearms hover => exact hover (hcurrent rfl)

def granted (callID : Data) : Reply := ⟨callID, some "v=0", true⟩

/-- A call that connects and is hung up, and then a ring that its caller calls off. -/
def callThenMissed : List (Event Call Reply) :=
  [.start (.startCall [7]), .step 0 (granted [1]), .step 0 (granted []), .step 0 (granted []),
    .start (.handleInbound (.answer [1] "v=0") [7]), .step 1 (granted []), .step 1 (granted []),
    .start (.onConnected 0), .step 2 (granted []), .start .hangUp, .step 3 (granted []),
    .start .reset, .step 4 (granted []),
    .start (.handleInbound (.request [2] "v=0") [8]), .step 5 (granted []),
    .start (.handleInbound (.decline [2]) [8]), .step 6 (granted [])]

theorem attempts_isolated_callThenMissed :
    (∃ t ∈ steps callThenMissed, t.post.shared.1.missedCalls = [[8]] ∧
      t.post.shared.1.sessions = [⟨[1], [7], 1, true⟩]) ∧
    ∀ t ∈ steps callThenMissed, Isolated t := by
  constructor
  · exact ⟨_, List.mem_of_getElem? (i := 16) rfl, rfl, rfl⟩
  · refine attempts_isolated callThenMissed fun t ht => ?_
    have hall : (steps callThenMissed).all Step.sequential := by decide
    exact t.not_crosses (List.all_eq_true.mp hall t ht)

/-- A second contact rings while the session of a call to the first still gathers its offer. -/
def ringDuringOffer : List (Event Call Reply) :=
  [.start (.startCall [7]), .step 0 (granted [1]),
    .start (.handleInbound (.request [2] "v=0") [8]), .step 1 (granted []), .step 0 (granted [])]

/-- The offer then takes the place of the ring that is in progress. -/
theorem attempts_not_isolated : ∃ t ∈ steps ringDuringOffer,
    t.pre.shared.1.state = .incomingRinging [2] [8] "v=0" ∧
      t.post.shared.1.state = .outgoingRinging [1] [7] ∧ ¬Isolated t := by
  refine ⟨_, List.mem_of_getElem? (i := 4) rfl, rfl, rfl, fun h => ?_⟩
  have hstate := (h.foreign _ _ 1 rfl rfl (by decide)).state
  revert hstate
  decide

end AeroNyra.CallController
