import AeroNyra.PushToTalk.Hold

/-! The walkie surface of a conversation.  A press mints a token and starts a task, which opens a
session with the peer and then the capture, and asks at its gates whether its press is still the
one that is held.  A release, or a cover that goes away, stops the capture and closes the session
that it finds. -/

namespace AeroNyra

open Interleave PTTCaptureEngine

/-! ### The surface -/

/-- What goes out to the peer, and a close that could not. -/
inductive StreamView.Outgoing
  | pttOpen (pttID : Data)
  | pttClose (pttID : Data)
  | pttCloseFailed (pttID : Data)
  | media (data : Data)
  deriving DecidableEq

structure StreamView where
  showWalkie : Bool
  /-- The globe of the cover that is up, and whether a finger is on it. -/
  globe : Option Bool
  pttHolding : Bool
  pttHoldToken : Int64
  pttSessionID : Option Data
  pttCapture : PTTCaptureEngine
  showMicDenied : Bool
  /-- What the coordinator records of the session with the peer. -/
  pttInitiatorID : Option Data
  sent : List StreamView.Outgoing

namespace StreamView

inductive Call
  | pressDown
  | pressUp
  /-- The cover is asked for, or dismissed. -/
  | setShowWalkie (shown : Bool)
  | disappear
  deriving DecidableEq

inductive Action
  | call (call : Call)
  /-- The view follows `showWalkie`. -/
  | update
  | gateA (token : Int64)
  | openPTT (token : Int64)
  /-- `openPTT` once the open is on its way. -/
  | routed (token : Int64) (pttID : Data)
  | gateB (token : Int64) (live : Option Data)
  | start (token : Int64) (live : Option Data)
  /-- `start` once the permission is known. -/
  | permitted (hold : Nat) (token : Int64) (live : Option Data)
  | gateC (token : Int64) (live : Option Data)
  | closePTT (pttID : Data)
  | sendMedia (data : Data)
  deriving DecidableEq

/-- The identifier of the session that is opened, if that succeeds, whether a close is routed, and
what the capture finds. -/
structure Reply where
  pttID : Option Data
  routesClose : Bool
  capture : PTTCaptureEngine.Reply

def launch : StreamView := ⟨false, none, false, 0, none, .new, false, none, []⟩

variable (s : StreamView)

/-- The press is still the one that is held. -/
def Current (token : Int64) : Prop := s.pttHolding = true ∧ s.pttHoldToken = token

instance (token : Int64) : Decidable (s.Current token) := inferInstanceAs (Decidable (_ ∧ _))

def closes (pttID : Option Data) : List Action := pttID.toList.map .closePTT

def beginPTT : StreamView × List Action :=
  ({ s with pttHolding := true, pttHoldToken := s.pttHoldToken + 1 }, [.gateA (s.pttHoldToken + 1)])

def teardownPTTIfHolding (reply : Reply) : StreamView × List Action :=
  if s.pttHolding then
    ({ s with
      pttHolding := false
      pttCapture := s.pttCapture.cancelUnowned reply.capture
      pttSessionID := none }, closes s.pttSessionID)
  else (s, [])

/-- The session is closed before the note goes out. -/
def endPTT (reply : Reply) : StreamView × List Action :=
  if s.pttHolding then
    let stopped := s.pttCapture.stop s.pttHoldToken reply.capture
    ({ s with pttHolding := false, pttCapture := stopped.1, pttSessionID := none },
      closes s.pttSessionID ++ stopped.2.toList.map .sendMedia)
  else (s, [])

def pressDown : StreamView × List Action :=
  if s.globe = some false then beginPTT { s with globe := some true } else (s, [])

def pressUp (reply : Reply) : StreamView × List Action :=
  if s.globe = some true then endPTT { s with globe := some false } reply else (s, [])

/-- The cover comes up with a globe of its own, or goes with what it held. -/
def update (reply : Reply) : StreamView × List Action :=
  if s.showWalkie then ({ s with globe := some (s.globe.getD false) }, [])
  else teardownPTTIfHolding { s with globe := none } reply

def gateA (token : Int64) : StreamView × List Action :=
    (s, if s.Current token then [.openPTT token] else [])

/-- The identifier is new; without one the hold goes on with a note only. -/
def openPTT (token : Int64) (pttID : Option Data) : Option (StreamView × List Action) :=
  match pttID with
  | none => some (s, [.gateB token none])
  | some id =>
    if .pttOpen id ∈ s.sent then none
    else some ({ s with sent := s.sent ++ [.pttOpen id] }, [.routed token id])

/-- The coordinator records the session. -/
def routed (token : Int64) (pttID : Data) : StreamView × List Action :=
  ({ s with pttInitiatorID := some pttID }, [.gateB token (some pttID)])

def gateB (token : Int64) (live : Option Data) : StreamView × List Action :=
  if s.Current token then ({ s with pttSessionID := live }, [.start token live])
    else (s, closes live)

def start (token : Int64) (live : Option Data) : StreamView × List Action :=
  ({ s with pttCapture := (s.pttCapture.start live.isSome token).1 },
    if s.pttCapture.state = .idle then [.permitted (s.pttCapture.hold + 1) token live]
      else [.gateC token live])

def permitted (token : Int64) (live : Option Data) (reply : Reply) : StreamView × List Action :=
  ({ s with pttCapture := s.pttCapture.permitted live.isSome reply.capture }, [.gateC token live])

/-- The gate after the capture, and what follows where the microphone is denied. -/
def gateC (token : Int64) (live : Option Data) (reply : Reply) : StreamView × List Action :=
  if s.Current token then
    if s.pttCapture.permissionDenied then
      ({ s with showMicDenied := s.showMicDenied ||
        !s.showWalkie, pttHolding := false, pttSessionID := none },
        closes live)
    else (s, [])
  else
    let s := { s with pttCapture := (s.pttCapture.stop token reply.capture).1 }
    if live.isSome ∧ s.pttSessionID = live then ({ s with pttSessionID := none }, closes live)
      else (s, [])

/-- Only the session that is recorded gives up the record. -/
def slotAfterClose (current : Option Data) (pttID : Data) : Option Data :=
  if current = some pttID then none else current

/-- The record is given up whether or not the close goes out. -/
def closePTT (pttID : Data) (routesClose : Bool) : StreamView :=
  { s with
    pttInitiatorID := slotAfterClose s.pttInitiatorID pttID
    sent := s.sent ++ [if routesClose then .pttClose pttID else .pttCloseFailed pttID] }

def act : Action → Reply → Option (StreamView × List Action)
  | .call .pressDown, _ => some s.pressDown
  | .call .pressUp, reply => some (s.pressUp reply)
  | .call (.setShowWalkie shown), _ => some ({ s with showWalkie := shown }, [.update])
  | .call .disappear, reply => some (s.teardownPTTIfHolding reply)
  | .update, reply => some (s.update reply)
  | .gateA token, _ => some (s.gateA token)
  | .openPTT token, reply => s.openPTT token reply.pttID
  | .routed token pttID, _ => some (s.routed token pttID)
  | .gateB token live, _ => some (s.gateB token live)
  | .start token live, _ => some (s.start token live)
  | .permitted _ token live, reply => some (s.permitted token live reply)
  | .gateC token live, reply => some (s.gateC token live reply)
  | .closePTT pttID, reply => some (s.closePTT pttID reply.routesClose, [])
  | .sendMedia data, _ => some ({ s with sent := s.sent ++ [.media data] }, [])

def exec (s : StreamView) (a : Action) (reply : Reply) : Option (StreamView × Exit Action) :=
  (s.act a reply).map fun p => (p.1, .goOn p.2)

def machine : Machine StreamView Action Call Reply where
  thread call := ⟨[.call call], []⟩
  exec := exec

end StreamView

/-! ### What the steps do -/

namespace PTTCaptureEngine

theorem build_frame (s : PTTCaptureEngine) (reply : Reply) :
    (s.build reply).1.currentHoldToken = s.currentHoldToken ∧
      (s.build reply).1.permissionDenied = s.permissionDenied := by
  obtain ⟨engine, hread⟩ := readInput_activate s reply
  unfold build
  rw [hread]
  dsimp only
  split
  · exact ⟨rfl, rfl⟩
  · split
    · exact ⟨rfl, rfl⟩
    · split
      · exact ⟨rfl, rfl⟩
      · split
        · exact ⟨rfl, rfl⟩
        · split <;> exact ⟨rfl, rfl⟩

/-- The permission decides what the engine says of it; the owner stays. -/
theorem permitted_frame (s : PTTCaptureEngine) (live : Bool) (reply : Reply) :
    (s.permitted live reply).currentHoldToken = s.currentHoldToken ∧
      ((s.permitted live reply).state = .recording → (s.permitted live reply).permissionDenied =
        false) := by
  unfold permitted
  split
  · dsimp only
    split
    · exact ⟨rfl, by rintro ⟨⟩⟩
    · obtain ⟨howner, hpermission⟩ := build_frame { s with permissionDenied := false } reply
      generalize hb : build { s with permissionDenied := false } reply = b at howner hpermission
      obtain ⟨s₁, done⟩ := b
      cases done with
      | true =>
        dsimp only at howner hpermission ⊢
        split
        · exact ⟨howner, by rintro ⟨⟩⟩
        · exact ⟨howner, fun _ => hpermission⟩
      | false => exact ⟨howner, by rintro ⟨⟩⟩
  · exact ⟨rfl, by rintro ⟨⟩⟩

/-- A stop or a cancel: it comes to nothing, asks for an abort, or ends the recording. -/
inductive Stops (e e' : PTTCaptureEngine) (releases : Prop) : Prop
  | ignored (hsame : e' = e) (hnot : ¬(releases ∧ e.state ≠ .idle))
  | aborts (hstate : e'.state = .starting) (hstarting : e.state = .starting)
      (howner : e'.currentHoldToken = e.currentHoldToken)
  | ends (hstate : e'.state = .idle) (hrecording : e.state = .recording)

theorem stops_of_effect {e e' : PTTCaptureEngine} {call : Call} {reply : Reply}
    (hcall : ∀ live holdToken, call ≠ .start live holdToken)
    (h : Effect e (.call call) reply e' (.goOn [])) :
    Stops e e' ((Action.call call).releases e) := by
  cases h with
  | ignored hnot => exact .ignored rfl hnot
  | aborts _ hstarting => exact .aborts hstarting hstarting rfl
  | ends _ hrecording hended => exact .ends hended.state hrecording

theorem stop_stops (e : PTTCaptureEngine) (holdToken : Int64) (reply : Reply) :
    Stops e (e.stop holdToken reply).1 (holdToken = e.currentHoldToken) := by
  have h := stops_of_effect (by rintro _ _ ⟨⟩) (stop_effect (s := e) holdToken reply)
  simpa using h

theorem cancelUnowned_stops (e : PTTCaptureEngine) (reply : Reply) :
    Stops e (e.cancelUnowned reply) True := by
  have h := stops_of_effect (by rintro _ _ ⟨⟩) (cancelUnowned_effect (s := e) reply)
  simpa using h

end PTTCaptureEngine

namespace StreamView

/-- A call, or the view that follows its flag. -/
def Action.isInput : Action → Bool
  | .call _ | .update => true
  | _ => false

def Action.isNote : Action → Bool
  | .sendMedia _ => true
  | _ => false

inductive Effect (s : StreamView) : Action → StreamView → List Action → Prop
  | presses (hglobe : s.globe = some false) :
      Effect s (.call .pressDown)
        { s with globe := some true, pttHolding := true, pttHoldToken := s.pttHoldToken + 1 }
        [.gateA (s.pttHoldToken + 1)]
  | looks {a shown globe bs} (ha : a.isInput)
      (hglobe : s.pttHolding = true → s.globe = some true → globe = some true)
      (hbs : ∀ b ∈ bs, b = .update) : Effect s a { s with showWalkie := shown, globe } bs
  /-- The hold ends, by a release or with the cover. -/
  | lets {a globe pttCapture releases notes} (ha : a.isInput) (hholds : s.pttHolding = true)
      (hstops : Stops s.pttCapture pttCapture releases)
      (hreleases : s.pttHoldToken = s.pttCapture.currentHoldToken → releases)
      (hnotes : ∀ b ∈ notes, b.isNote) :
      Effect s a { s with globe, pttHolding := false, pttCapture, pttSessionID := none }
        (closes s.pttSessionID ++ notes)
  | passes {token} (hcurrent : s.Current token) : Effect s (.gateA token) s [.openPTT token]
  | drops {token} : Effect s (.gateA token) s []
  | fails {token} : Effect s (.openPTT token) s [.gateB token none]
  | opens {token id} (hnew : .pttOpen id ∉ s.sent) :
      Effect s (.openPTT token) { s with sent := s.sent ++ [.pttOpen id] } [.routed token id]
  | records {token id} : Effect s (.routed token id) { s with pttInitiatorID := some id }
      [.gateB token (some id)]
  | takes {token live} (hcurrent : s.Current token) :
      Effect s (.gateB token live) { s with pttSessionID := live } [.start token live]
  | gives {token live} (hstale : ¬s.Current token) : Effect s (.gateB token live) s (closes live)
  | starts {token live} (hidle : s.pttCapture.state = .idle) :
      Effect s (.start token live) { s with pttCapture := s.pttCapture.begin token }
        [.permitted (s.pttCapture.hold + 1) token live]
  | waits {token live} : Effect s (.start token live) s [.gateC token live]
  | permits {n token live pttCapture} (hstate : pttCapture.state ≠ .starting)
      (howner : pttCapture.currentHoldToken = s.pttCapture.currentHoldToken)
      (hpermission : pttCapture.state = .recording → pttCapture.permissionDenied = false) :
      Effect s (.permitted n token live) { s with pttCapture } [.gateC token live]
  | stays {token live} (hcurrent : s.Current token) : Effect s (.gateC token live) s []
  | denies {token live shown} (hcurrent : s.Current token)
      (hdenied : s.pttCapture.permissionDenied = true) :
      Effect s (.gateC token live)
        { s with showMicDenied := shown, pttHolding := false, pttSessionID := none } (closes live)
  | stops {token live pttCapture} (hstale : ¬s.Current token)
      (hstops : Stops s.pttCapture pttCapture (token = s.pttCapture.currentHoldToken))
      (hnot : live = none ∨ s.pttSessionID ≠ live) :
      Effect s (.gateC token live) { s with pttCapture } []
  | reclaims {token id pttCapture} (hstale : ¬s.Current token)
      (hstops : Stops s.pttCapture pttCapture (token = s.pttCapture.currentHoldToken))
      (hsession : s.pttSessionID = some id) :
      Effect s (.gateC token (some id)) { s with pttCapture, pttSessionID := none } [.closePTT id]
  | sends {id routesClose} : Effect s (.closePTT id) (s.closePTT id routesClose) []
  | notes {data} : Effect s (.sendMedia data) { s with sent := s.sent ++ [.media data] } []

variable {s s' : StreamView} {a : Action} {bs : List Action} {reply : Reply}

theorem teardown_effect (ha : a.isInput) (globe : Option Bool) (reply : Reply) :
    Effect s a (teardownPTTIfHolding { s with globe } reply).1
      (teardownPTTIfHolding { s with globe } reply).2 := by
  unfold teardownPTTIfHolding
  split
  · rename_i hholds
    have hlets : Effect s a { s with
        globe, pttHolding := false, pttCapture := s.pttCapture.cancelUnowned reply.capture,
          pttSessionID := none }
        (closes s.pttSessionID ++ []) :=
      .lets ha hholds (cancelUnowned_stops s.pttCapture reply.capture) (fun _ => trivial) (by simp)
    rwa [List.append_nil] at hlets
  · rename_i hfree
    exact .looks ha (fun hholds => absurd hholds hfree) (by simp)

theorem endPTT_effect (ha : a.isInput) (globe : Option Bool) (reply : Reply) :
    Effect s a (endPTT { s with globe } reply).1 (endPTT { s with globe } reply).2 := by
  unfold endPTT
  split
  · rename_i hholds
    refine .lets ha hholds (stop_stops s.pttCapture s.pttHoldToken reply.capture) id fun b hb => ?_
    obtain ⟨data, _, rfl⟩ := List.mem_map.mp hb
    rfl
  · rename_i hfree
    exact .looks ha (fun hholds => absurd hholds hfree) (by simp)

theorem looks_self (ha : a.isInput) : Effect s a s [] :=
    .looks ha (fun _ hglobe => hglobe) (by simp)

/-- What each action does. -/
theorem act_effect (h : s.act a reply = some (s', bs)) : Effect s a s' bs := by
  cases a with
  | call call =>
    cases call with
    | pressDown =>
      simp only [act, pressDown, beginPTT] at h
      split at h
      · rename_i hglobe
        cases h
        exact .presses hglobe
      · cases h
        exact looks_self rfl
    | pressUp =>
      simp only [act, pressUp] at h
      split at h
      · have heffect := endPTT_effect (s := s) (a := .call .pressUp) rfl (some false) reply
        rwa [Option.some.inj h] at heffect
      · cases h
        exact looks_self rfl
    | setShowWalkie shown =>
      cases h
      exact .looks rfl (fun _ hglobe => hglobe) (by simp)
    | disappear =>
      have heffect := teardown_effect (s := s) (a := .call .disappear) rfl s.globe reply
      rwa [Option.some.inj h] at heffect
  | update =>
    simp only [act, update] at h
    split at h
    · cases h
      exact .looks rfl (fun _ hglobe => by rw [hglobe]; rfl) (by simp)
    · have heffect := teardown_effect (s := s) (a := .update) rfl none reply
      rwa [Option.some.inj h] at heffect
  | gateA token =>
    simp only [act, gateA] at h
    split at h
    · rename_i hcurrent
      cases h
      exact .passes hcurrent
    · cases h
      exact .drops
  | openPTT token =>
    simp only [act, openPTT] at h
    split at h
    · cases h
      exact .fails
    · split at h
      · cases h
      · rename_i hnew
        cases h
        exact .opens hnew
  | routed token id =>
    cases h
    exact .records
  | gateB token live =>
    simp only [act, gateB] at h
    split at h
    · rename_i hcurrent
      cases h
      exact .takes hcurrent
    · rename_i hstale
      cases h
      exact .gives hstale
  | start token live =>
    simp only [act, start, PTTCaptureEngine.start] at h
    split at h
    · rename_i hidle
      cases h
      exact .starts hidle
    · cases h
      exact .waits
  | permitted n token live =>
    cases h
    obtain ⟨howner, hpermission⟩ := permitted_frame s.pttCapture live.isSome reply.capture
    refine .permits ?_ howner hpermission
    cases permitted_effect (s := s.pttCapture) n live.isSome reply.capture with
    | givesUp hgiven => simp [hgiven.state]
    | records _ _ _ hrecorded => simp [hrecorded.state]
  | gateC token live =>
    simp only [act, gateC] at h
    have hstops := stop_stops s.pttCapture token reply.capture
    split at h
    · rename_i hcurrent
      split at h
      · rename_i hdenied
        cases h
        exact .denies hcurrent hdenied
      · cases h
        exact .stays hcurrent
    · rename_i hstale
      cases live with
      | none =>
        rw [if_neg (by simp)] at h
        cases h
        exact .stops hstale hstops (.inl rfl)
      | some id =>
        split at h
        · rename_i hsession
          cases h
          exact .reclaims hstale hstops hsession.2
        · rename_i hsession
          cases h
          exact .stops hstale hstops (.inr fun hsame => hsession ⟨rfl, hsame⟩)
  | closePTT id =>
    cases h
    exact .sends
  | sendMedia data =>
    cases h
    exact .notes

/-! ### The microphone -/

def Action.isPermitted : Action → Bool
  | .permitted _ _ _ => true
  | _ => false

/-- Who has the capture: the hold that goes on, or a task that is still to stop it. -/
structure Held (c : Config StreamView Action) : Prop where
  globe : c.shared.pttHolding = true → c.shared.globe = some true
  waiting : c.countP Action.isPermitted = if c.shared.pttCapture.state = .starting then 1 else 0
  owner : ∀ n token live, c.ToRun (.permitted n token live) →
    c.shared.pttCapture.currentHoldToken = token
  permission : c.shared.pttCapture.state = .recording → c.shared.pttCapture.permissionDenied = false
  recording : c.shared.pttCapture.state = .recording →
    c.shared.Current c.shared.pttCapture.currentHoldToken ∨
      ∃ live, c.ToRun (.gateC c.shared.pttCapture.currentHoldToken live)

variable {c c' : Config StreamView Action} {ts : List (Thread Action)} {first : List Action}

theorem held_launch : Held ⟨launch, []⟩ := by
  refine ⟨by rintro ⟨⟩, rfl, fun n token live h => ?_, by rintro ⟨⟩, by rintro ⟨⟩⟩
  obtain ⟨t, ht, _⟩ := h
  cases ht

theorem Held.comesIn (h : Held c) {call : Call} (hin : Machine.ComesIn c [.call call] c') :
    Held c' := by
  obtain ⟨hshared, hcount, htoRun⟩ := hin
  refine ⟨hshared ▸ h.globe, ?_, fun n token live hrun => ?_, hshared ▸ h.permission, ?_⟩
  · rw [hcount, hshared]
    exact h.waiting
  · rw [hshared]
    exact h.owner n token live (((htoRun _).mp hrun).resolve_right (by simp))
  · rw [hshared]
    exact fun hrecording => (h.recording hrecording).imp_right fun ⟨live, hrun⟩ =>
      ⟨live, (htoRun _).mpr (.inl hrun)⟩

/-! What is true of every close, note or input, whatever it carries. -/

theorem eq_of_mem_closes {β : Type} {f : Action → β} {v : β} {pttID : Option Data} {b : Action}
    (hf : ∀ id, f (.closePTT id) = v) (hb : b ∈ closes pttID) : f b = v := by
  obtain ⟨id, _, rfl⟩ := List.mem_map.mp hb
  exact hf id

theorem eq_of_isNote {β : Type} {f : Action → β} {v : β} {b : Action}
    (hf : ∀ data, f (.sendMedia data) = v) (hb : b.isNote) : f b = v := by
  cases b with
  | sendMedia data => exact hf data
  | _ => cases hb

theorem eq_of_isInput {β : Type} {f : Action → β} {v : β} (hcall : ∀ call, f (.call call) = v)
    (hupdate : f .update = v) (ha : a.isInput) : f a = v := by
  cases a with
  | call call => exact hcall call
  | update => exact hupdate
  | _ => cases ha

/-- A step that leaves the capture as it is. -/
theorem Held.same (h : Held c) (hgo : Machine.GoesOn c a first ⟨s', ts⟩)
    (hcapture : s'.pttCapture = c.shared.pttCapture) (ha : a.isPermitted = false)
    (hfirst : ∀ b ∈ first, b.isPermitted = false)
    (hglobe : s'.pttHolding = true → s'.globe = some true)
    (hcurrent : c.shared.pttCapture.state = .recording →
      c.shared.Current c.shared.pttCapture.currentHoldToken →
      s'.Current c.shared.pttCapture.currentHoldToken)
    (hgate : ∀ live, a = .gateC c.shared.pttCapture.currentHoldToken live →
      c.shared.pttCapture.state = .recording → s'.Current c.shared.pttCapture.currentHoldToken) :
      Held ⟨s', ts⟩ := by
  refine ⟨hglobe, ?_, fun n token live hrun => ?_, hcapture ▸ h.permission, ?_⟩
  · rw [hgo.countP_of_none Action.isPermitted ha hfirst, h.waiting, hcapture]
  · rw [hcapture]
    exact h.owner n token live (hgo.toRun_of_none hrun fun hmem => by cases hfirst _ hmem)
  · dsimp only
    rw [hcapture]
    intro hrecording
    rcases h.recording hrecording with hnow | ⟨live, hrun⟩
    · exact .inl (hcurrent hrecording hnow)
    · by_cases hthis : a = .gateC c.shared.pttCapture.currentHoldToken live
      · exact .inl (hgate live hthis hrecording)
      · exact .inr ⟨live, hgo.stays _ hrun (Ne.symm hthis)⟩

/-- A step that stops the capture, if the stop is not ignored. -/
theorem Held.stopped (h : Held c) (hgo : Machine.GoesOn c a first ⟨s', ts⟩) {releases : Prop}
    (hstops : Stops c.shared.pttCapture s'.pttCapture releases) (ha : a.isPermitted = false)
    (hfirst : ∀ b ∈ first, b.isPermitted = false)
    (hglobe : s'.pttHolding = true → s'.globe = some true)
    (hkept : s'.pttCapture = c.shared.pttCapture → ¬(releases ∧ c.shared.pttCapture.state ≠ .idle) →
      Held ⟨s', ts⟩) : Held ⟨s', ts⟩ := by
  have hcount := (hgo.countP_of_none Action.isPermitted ha hfirst).trans h.waiting
  have horigin : ∀ n token live, Config.ToRun ⟨s', ts⟩ (.permitted n token live) →
      c.ToRun (.permitted n token live) :=
    fun n token live hrun => hgo.toRun_of_none hrun fun hmem => by cases hfirst _ hmem
  cases hstops with
  | ignored hsame hnot => exact hkept hsame hnot
  | aborts hstate hstarting howner =>
    refine ⟨hglobe, ?_, fun n token live hrun => ?_, fun hrecording => ?_, fun hrecording => ?_⟩
    · rw [hcount, hstarting, hstate]
    · exact howner.trans (h.owner n token live (horigin n token live hrun))
    · cases hstate.symm.trans hrecording
    · cases hstate.symm.trans hrecording
  | ends hstate hrecording =>
    refine ⟨hglobe, ?_, fun n token live hrun => ?_, fun hlater => ?_, fun hlater => ?_⟩
    · rw [hcount, hrecording, hstate]
      rfl
    · have hpos := Config.countP_pos_of_toRun (p := Action.isPermitted)
        (horigin n token live hrun) rfl
      rw [h.waiting, hrecording] at hpos
      cases hpos
    · cases hstate.symm.trans hlater
    · cases hstate.symm.trans hlater

theorem Held.goesOn (h : Held c) (hgo : Machine.GoesOn c a first ⟨s', ts⟩)
    (heffect : Effect c.shared a s' first) :
    Held ⟨s', ts⟩ := by
  have hcloses : ∀ pttID, ∀ b ∈ closes pttID, b.isPermitted = false :=
    fun _ _ hb => eq_of_mem_closes (fun _ => rfl) hb
  cases heffect with
  | presses hglobe =>
    refine h.same hgo rfl rfl (by simp [Action.isPermitted]) (fun _ => rfl) (fun _ hcurrent => ?_)
      (by rintro _ ⟨⟩)
    have htrue := hglobe.symm.trans (h.globe hcurrent.1)
    cases htrue
  | looks ha hglobe hbs =>
    refine h.same hgo rfl ?_ (fun b hb => ?_) (fun hholds => hglobe hholds (h.globe hholds))
      (fun _ hcurrent => hcurrent) fun live hthis => ?_
    · exact eq_of_isInput (fun _ => rfl) rfl ha
    · rw [hbs b hb]
      rfl
    · rw [hthis] at ha
      cases ha
  | lets ha hholds hstops hreleases hnotes =>
    have hinput : a.isPermitted = false := eq_of_isInput (fun _ => rfl) rfl ha
    have hfirst : ∀ b ∈ closes c.shared.pttSessionID ++ _, b.isPermitted = false := fun b hb =>
      (List.mem_append.mp hb).elim (hcloses _ b) fun hnote => eq_of_isNote (fun _ => rfl)
      (hnotes b hnote)
    refine h.stopped hgo hstops hinput hfirst (by rintro ⟨⟩) fun hsame hnot => ?_
    refine h.same hgo hsame hinput hfirst (by rintro ⟨⟩) (fun hrecording hcurrent => ?_)
      fun live hthis => ?_
    · exact absurd ⟨hreleases hcurrent.2, by rw [hrecording]; decide⟩ hnot
    · rw [hthis] at ha
      cases ha
  | passes | drops | fails | waits =>
    exact h.same hgo rfl rfl (by simp [Action.isPermitted]) h.globe (fun _ hcurrent => hcurrent)
      (by rintro _ ⟨⟩)
  | gives hstale =>
    exact h.same hgo rfl rfl (hcloses _) h.globe (fun _ hcurrent => hcurrent) (by rintro _ ⟨⟩)
  | opens | records =>
    exact h.same hgo rfl rfl (by simp [Action.isPermitted]) h.globe (fun _ hcurrent => hcurrent)
      (by rintro _ ⟨⟩)
  | takes hcurrent =>
    exact h.same hgo rfl rfl (by simp [Action.isPermitted]) h.globe (fun _ hcurrent => hcurrent)
      (by rintro _ ⟨⟩)
  | @starts token live hidle =>
    have hnone : c.countP Action.isPermitted = 0 := by rw [h.waiting, hidle]; rfl
    refine ⟨h.globe, ?_, fun n token' live' hrun => ?_, by rintro ⟨⟩, by rintro ⟨⟩⟩
    · have hcount := hgo.count Action.isPermitted
      rw [hnone] at hcount
      exact hcount
    · rcases hgo.origin _ hrun with hold | hnew
      · have hpos := Config.countP_pos_of_toRun (p := Action.isPermitted) hold rfl
        rw [hnone] at hpos
        cases hpos
      · cases List.mem_singleton.mp hnew
        rfl
  | @permits n token live pttCapture hstate howner hpermission =>
    have hone : c.countP Action.isPermitted = 1 := by
      have hpos := Config.countP_pos_of_toRun (p := Action.isPermitted) hgo.ran rfl
      rw [h.waiting] at hpos ⊢
      split
      · rfl
      · rename_i hnot
        rw [if_neg hnot] at hpos
        cases hpos
    have hnone : Config.countP ⟨{ c.shared with pttCapture }, ts⟩ Action.isPermitted = 0 := by
      have hcount := hgo.count Action.isPermitted
      rw [hone] at hcount
      exact Nat.succ.inj hcount
    have hmine : pttCapture.currentHoldToken = token := howner.trans (h.owner n token live hgo.ran)
    refine ⟨h.globe, ?_, fun n' token' live' hrun => ?_, hpermission, fun _ => .inr ⟨live, ?_⟩⟩
    · rw [hnone, if_neg hstate]
    · have hpos := Config.countP_pos_of_toRun (p := Action.isPermitted) hrun rfl
      rw [hnone] at hpos
      cases hpos
    · rw [hmine]
      exact hgo.added _ (List.mem_singleton_self _)
  | stays hcurrent =>
    refine h.same hgo rfl rfl (by simp) h.globe (fun _ hnow => hnow) fun live hthis _ => ?_
    cases hthis
    exact hcurrent
  | denies hcurrent hdenied =>
    have hnot : c.shared.pttCapture.state ≠ .recording := fun hrecording => by
      cases hdenied.symm.trans (h.permission hrecording)
    exact h.same hgo rfl rfl (hcloses _) (by rintro ⟨⟩) (fun hrecording => absurd hrecording hnot)
      fun _ _ hrecording => absurd hrecording hnot
  | stops hstale hstops hnot =>
    refine h.stopped hgo hstops rfl (by simp) h.globe fun hsame hignored => ?_
    refine h.same hgo hsame rfl (by simp) h.globe (fun _ hnow => hnow) fun live hthis hrecording =>
      ?_
    cases hthis
    exact absurd ⟨rfl, by rw [hrecording]; decide⟩ hignored
  | reclaims hstale hstops hsession =>
    refine h.stopped hgo hstops rfl (by simp [Action.isPermitted]) h.globe fun hsame hignored => ?_
    refine h.same hgo hsame rfl (by simp [Action.isPermitted]) h.globe (fun _ hnow => hnow)
      fun live hthis hrecording => ?_
    cases hthis
    exact absurd ⟨rfl, by rw [hrecording]; decide⟩ hignored
  | sends | notes =>
    exact h.same hgo rfl rfl (by simp) h.globe (fun _ hcurrent => hcurrent) (by rintro _ ⟨⟩)

theorem exec_goOn (s : StreamView) (a : Action) (reply : Reply) (s' : StreamView) (x : Exit Action)
    (h : machine.exec s a reply = some (s', x)) : ∃ first, x = .goOn first := by
  obtain ⟨p, _, heq⟩ := Option.map_eq_some_iff.mp h
  cases heq
  exact ⟨_, rfl⟩

/-- What one event does: a call comes in, or an action has its effect. -/
theorem step_effect {e : Event Call Reply} (h : machine.step c e = some c') :
    (∃ call, e = .start call ∧ Machine.ComesIn c [.call call] c') ∨
      ∃ a first, Machine.GoesOn c a first c' ∧ Effect c.shared a c'.shared first := by
  rcases Machine.goOn_cases exec_goOn h with hcall | ⟨a, reply, first, hexec, hgo⟩
  · exact .inl hcall
  · obtain ⟨⟨s', bs⟩, hact, heq⟩ := Option.map_eq_some_iff.mp hexec
    obtain ⟨hshared, hbrought⟩ := Prod.mk.inj heq
    have heffect := act_effect hact
    rw [show s' = c'.shared from hshared, show bs = first from Exit.goOn.inj hbrought] at heffect
    exact .inr ⟨a, first, hgo, heffect⟩

theorem held_step {e : Event Call Reply} (h : machine.step c e = some c') (hheld : Held c) :
    Held c' := by
  rcases step_effect h with ⟨call, _, hin⟩ | ⟨a, first, hgo, heffect⟩
  · exact hheld.comesIn hin
  · exact hheld.goesOn hgo heffect

/-- The press whose task an action belongs to. -/
def Action.token? : Action → Option Int64
  | .gateA token | .openPTT token | .routed token _ | .gateB token _ | .start token _ |
      .permitted _ token _
  | .gateC token _ => some token
  | .call _ | .update | .closePTT _ | .sendMedia _ => none

/-! ### The sessions -/

/-- The session that an action has in hand. -/
def Action.live? : Action → Option Data
  | .routed _ pttID => some pttID
  | .gateB _ live | .start _ live | .permitted _ _ live | .gateC _ live => live
  | .call _ | .update | .gateA _ | .openPTT _ | .closePTT _ | .sendMedia _ => none

/-- The action comes after the second gate. -/
def Action.isLate : Action → Bool
  | .start _ _ | .permitted _ _ _ | .gateC _ _ => true
  | _ => false

def Action.ofToken (token : Int64) (a : Action) : Bool := a.token? = some token

/-- Whose turn a press has among all that were made. -/
def serial (token : Int64) : Nat := token.toBitVec.toNat

theorem add_one_ne (token : Int64) : token + 1 ≠ token := by
  intro h
  have hbits : token.toBitVec + 1#64 = token.toBitVec := congrArg Int64.toBitVec h
  bv_omega

theorem serial_add_one_le (token : Int64) : serial (token + 1) ≤ serial token + 1 := by
  rw [serial, Int64.toBitVec_add, BitVec.toNat_add]
  exact Nat.mod_le _ _

theorem serial_add_one {token : Int64} (h : serial token + 1 < 2 ^ 64) :
    serial (token + 1) = serial token + 1 := by
  rw [serial, Int64.toBitVec_add, BitVec.toNat_add]
  exact Nat.mod_eq_of_lt h

def Action.carries (id : Data) (a : Action) : Bool := a.live? = some id

/-- The action is to close the session, or to hand it to the view. -/
def Action.owes (id : Data) : Action → Bool
  | .routed _ pttID | .closePTT pttID => pttID = id
  | .gateB _ live => live = some id
  | _ => false

/-- A press that was made has at most one action to run, and no other press has one. -/
def Minted (c : Config StreamView Action) : Prop :=
  ∀ token, c.countP (Action.ofToken token) ≤ if serial token ≤ serial c.shared.pttHoldToken
  then 1 else 0

/-- How often a close of the session was asked for. -/
def closings (id : Data) (sent : List Outgoing) : Nat :=
    sent.count (.pttClose id) + sent.count (.pttCloseFailed id)

theorem closings_closePTT (s : StreamView) (closing : Data) (routesClose : Bool) (id : Data) :
    closings id (s.closePTT closing routesClose).sent = closings id s.sent +
      if closing = id then 1 else 0 := by
  cases routesClose <;> simp [closings, closePTT, List.count_append, List.count_singleton] <;> omega

theorem count_pttOpen_closePTT (s : StreamView) (closing : Data) (routesClose : Bool) (id : Data) :
    (s.closePTT closing routesClose).sent.count (.pttOpen id) = s.sent.count (.pttOpen id) := by
  cases routesClose <;> simp [closePTT]

/-- Where every session that was opened is: with the view, with an action that is to be run, or
closed. -/
structure Accounted (c : Config StreamView Action) : Prop where
  holding : c.shared.pttSessionID ≠ none → c.shared.pttHolding = true
  minted : Minted c
  early : ∀ a, c.ToRun a → a.isLate = false → a.token? = some c.shared.pttHoldToken →
    c.shared.pttSessionID = none
  current : ∀ a, c.ToRun a → a.isLate = true → c.shared.pttHolding = true →
    a.token? = some c.shared.pttHoldToken → c.shared.pttSessionID = a.live?
  stale : ∀ a id, c.ToRun a → a.isLate = true → a.live? = some id →
    c.shared.pttSessionID = some id → a.token? = some c.shared.pttHoldToken
  carried : ∀ id, c.countP (Action.carries id) ≤ c.shared.sent.count (.pttOpen id)
  opened : ∀ id, c.shared.sent.count (.pttOpen id) ≤ 1
  balance : ∀ id, c.shared.sent.count (.pttOpen id) =
    (if c.shared.pttSessionID = some id then 1 else 0) + c.countP (Action.owes id) +
    closings id c.shared.sent
  slot : ∀ id, c.shared.pttInitiatorID = some id → .pttOpen id ∈ c.shared.sent ∧
    closings id c.shared.sent = 0

theorem accounted_launch : Accounted ⟨launch, []⟩ := by
  have hnone : ∀ a, ¬Config.ToRun (⟨launch, []⟩ : Config StreamView Action) a := by
    rintro a ⟨t, ht, _⟩
    cases ht
  refine ⟨fun h => absurd rfl h, fun token => Nat.zero_le _, fun a ha => absurd ha (hnone a),
    fun a ha => absurd ha (hnone a), fun a _ ha => absurd ha (hnone a), fun _ => Nat.le_refl 0,
      fun _ => Nat.zero_le 1,
    fun id => rfl, by rintro id ⟨⟩⟩

theorem Accounted.comesIn (h : Accounted c) {call : Call}
    (hin : Machine.ComesIn c [.call call] c') :
    Accounted c' := by
  obtain ⟨hshared, hcount, htoRun⟩ := hin
  have hback : ∀ a, a.token? ≠ none → c'.ToRun a → c.ToRun a := by
    intro a ha hrun
    refine ((htoRun a).mp hrun).resolve_right fun hmem => ha ?_
    rw [List.mem_singleton.mp hmem]
    rfl
  have hlate : ∀ a : Action, a.isLate = true → a.token? ≠ none := by
    intro a ha
    cases a <;> simp_all [Action.isLate, Action.token?]
  have hsame : ∀ p : Action → Bool, p (.call call) = false → c'.countP p = c.countP p := by
    intro p hp
    rw [hcount, List.countP_singleton, hp, if_neg (by simp), Nat.add_zero]
  refine ⟨hshared ▸ h.holding, fun token => ?_, fun a ha => ?_, fun a ha hl => ?_,
    fun a id ha hl => ?_, fun id => ?_, hshared ▸ h.opened, fun id => ?_, hshared ▸ h.slot⟩
  · rw [hsame _ rfl, hshared]
    exact h.minted token
  · rw [hshared]
    exact fun hl htoken => h.early a (hback a (by simp [htoken]) ha) hl htoken
  · rw [hshared]
    exact h.current a (hback a (hlate a hl) ha) hl
  · rw [hshared]
    exact h.stale a id (hback a (hlate a hl) ha) hl
  · rw [hsame _ rfl, hshared]
    exact h.carried id
  · rw [hsame _ rfl, hshared]
    exact h.balance id

theorem countP_zero {p : Action → Bool} {l : List Action} (h : ∀ b ∈ l, p b = false) :
    l.countP p = 0 :=
  List.countP_eq_zero.mpr fun b hb => by simp [h b hb]

theorem countP_owes_closes (pttID : Option Data) (id : Data) :
    (closes pttID).countP (Action.owes id) = if pttID = some id then 1 else 0 := by
  cases pttID <;> simp [closes, Action.owes, List.countP_cons]

/-- What an input brings in besides a new press: the view that follows, a close, or a note. -/
theorem Effect.brought (h : Effect s a s' first) (hinput : a.isInput)
    (htoken : s'.pttHoldToken = s.pttHoldToken) :
    ∀ b ∈ first, b.token? = none := by
  cases h with
  | presses => exact absurd htoken (add_one_ne _)
  | looks _ _ hbs =>
    intro b hb
    rw [hbs b hb]
    rfl
  | lets _ _ _ _ hnotes =>
    intro b hb
    rcases List.mem_append.mp hb with hclose | hnote
    · exact eq_of_mem_closes (fun _ => rfl) hclose
    · exact eq_of_isNote (fun _ => rfl) (hnotes b hnote)
  | _ => cases hinput

/-- The task of a press goes on with one action at most. -/
theorem Effect.countP_ofToken (h : Effect s a s' first) (htoken : s'.pttHoldToken = s.pttHoldToken)
    (token : Int64) :
    first.countP (Action.ofToken token) ≤ [a].countP (Action.ofToken token) := by
  by_cases hinput : a.isInput
  · rw [countP_zero fun b hb => by simp [Action.ofToken, h.brought hinput htoken b hb]]
    exact Nat.zero_le _
  · cases h with
    | presses => exact absurd htoken (add_one_ne _)
    | looks ha => exact absurd ha hinput
    | lets ha => exact absurd ha hinput
    | gives | denies =>
      rw [countP_zero fun b hb => eq_of_mem_closes (fun _ => rfl) hb]
      exact Nat.zero_le _
    | _ => simp [Action.ofToken, Action.token?, List.countP_cons]

/-- Only a press mints a token, for a globe that no finger is on. -/
theorem Effect.mints (h : Effect s a s' first) :
    s'.pttHoldToken = s.pttHoldToken ∨
      (s.globe = some false ∧ s'.pttHoldToken = s.pttHoldToken + 1 ∧
        first = [.gateA (s.pttHoldToken + 1)] ∧ a = .call .pressDown) := by
  cases h with
  | presses hglobe => exact .inr ⟨hglobe, rfl, rfl, rfl⟩
  | _ => exact .inl rfl

theorem Accounted.minted_goesOn (h : Accounted c) (hgo : Machine.GoesOn c a first ⟨s', ts⟩)
    (heffect : Effect c.shared a s' first)
    (hroom : a = .call .pressDown → serial c.shared.pttHoldToken + 1 < 2 ^ 64) :
    Minted ⟨s', ts⟩ := by
  intro token
  have hcount := hgo.count (Action.ofToken token)
  have hold := h.minted token
  rcases heffect.mints with hsame | ⟨_, hnext, rfl, rfl⟩
  · have hfirst := heffect.countP_ofToken hsame token
    rw [hsame]
    omega
  · have hserial : serial s'.pttHoldToken = serial c.shared.pttHoldToken + 1 := by
      rw [hnext]
      exact serial_add_one (hroom rfl)
    have hpress : [Action.call .pressDown].countP (Action.ofToken token) = 0 :=
      countP_zero (by simp [Action.ofToken, Action.token?])
    by_cases hmine : token = c.shared.pttHoldToken + 1
    · have hmine' : serial token = serial c.shared.pttHoldToken + 1 := by
        rw [hmine]
        exact serial_add_one (hroom rfl)
      rw [if_neg (by omega)] at hold
      have hone : List.countP (Action.ofToken token) [.gateA (c.shared.pttHoldToken + 1)] ≤ 1 :=
        List.countP_le_length
      rw [if_pos (by rw [hserial, hmine'])]
      omega
    · have hnone : List.countP (Action.ofToken token) [.gateA (c.shared.pttHoldToken + 1)] = 0 :=
        countP_zero (by simp [Action.ofToken, Action.token?, Ne.symm hmine])
      by_cases hle : serial token ≤ serial c.shared.pttHoldToken
      · rw [if_pos hle] at hold
        rw [if_pos (by show serial token ≤ serial s'.pttHoldToken; omega)]
        omega
      · rw [if_neg hle] at hold
        omega

/-- A session goes from hand to hand, and a new one has an identifier that was never sent. -/
theorem Effect.countP_carries (h : Effect s a s' first) (id : Data) :
    first.countP (Action.carries id) + s.sent.count (.pttOpen id) ≤
      [a].countP (Action.carries id) + s'.sent.count (.pttOpen id) := by
  have hcloses : ∀ pttID, (closes pttID).countP (Action.carries id) = 0 := fun pttID =>
    countP_zero fun b hb => eq_of_mem_closes (fun _ => rfl) hb
  cases h with
  | presses => exact Nat.le_refl _
  | looks _ _ hbs =>
    rw [countP_zero fun b hb => by rw [hbs b hb]; rfl]
    exact Nat.add_le_add (Nat.zero_le _) (Nat.le_refl _)
  | lets _ _ _ _ hnotes =>
    rw [List.countP_append, hcloses, countP_zero fun b hb => eq_of_isNote (fun _ => rfl)
      (hnotes b hb)]
    exact Nat.add_le_add (Nat.zero_le _) (Nat.le_refl _)
  | gives | denies =>
    rw [hcloses]
    exact Nat.add_le_add (Nat.zero_le _) (Nat.le_refl _)
  | @opens token new _ =>
    simp only [List.countP_singleton, Action.carries, Action.live?, List.count_append,
      List.count_singleton]
    by_cases hsame : new = id <;> simp [hsame]
    omega
  | @sends closing routesClose =>
    rw [count_pttOpen_closePTT]
    simp [Action.carries, Action.live?]
  | notes => simp
  | stops | reclaims | drops | stays => exact Nat.add_le_add (Nat.zero_le _) (Nat.le_refl _)
  | passes | fails | records | takes | starts | waits | permits => exact Nat.le_refl _

/-- No session is opened twice. -/
theorem Effect.opened (h : Effect s a s' first) (id : Data)
    (hold : s.sent.count (.pttOpen id) ≤ 1) :
    s'.sent.count (.pttOpen id) ≤ 1 := by
  cases h with
  | @opens token new hnew =>
    by_cases hsame : new = id
    · subst hsame
      have hnone : s.sent.count (.pttOpen new) = 0 := List.count_eq_zero.mpr hnew
      rw [List.count_append, hnone]
      simp
    · simpa [List.count_append, hsame] using hold
  | sends =>
    rw [count_pttOpen_closePTT]
    exact hold
  | notes => simpa using hold
  | _ => exact hold

/-- Who owes a close passes it on: to the view, to an action, or to the peer. -/
theorem Effect.owes (h : Effect s a s' first) (id : Data)
    (htakes : ∀ token live, a = .gateB token live → s.Current token → s.pttSessionID = none)
    (hdenies : ∀ token live, a = .gateC token live → s.Current token → s.pttSessionID = live) :
    s'.sent.count (.pttOpen id) + (if s.pttSessionID = some id then 1 else 0) + [a].countP
      (Action.owes id) +
        closings id s.sent =
      s.sent.count (.pttOpen id) + (if s'.pttSessionID = some id then 1 else 0) + first.countP
        (Action.owes id) + closings id s'.sent := by
  cases h with
  | presses => rfl
  | looks ha _ hbs =>
    have hnone : [a].countP (Action.owes id) = 0 := countP_zero fun b hb => by
      rw [List.mem_singleton.mp hb]
      exact eq_of_isInput (fun _ => rfl) rfl ha
    rw [hnone, countP_zero fun b hb => by rw [hbs b hb]; rfl]
  | lets ha _ _ _ hnotes =>
    have hnone : [a].countP (Action.owes id) = 0 := countP_zero fun b hb => by
      rw [List.mem_singleton.mp hb]
      exact eq_of_isInput (fun _ => rfl) rfl ha
    rw [List.countP_append, countP_owes_closes, countP_zero fun b hb => eq_of_isNote (fun _ => rfl)
      (hnotes b hb), hnone]
    simp
  | opens hnew =>
    simp [closings, Action.owes, List.countP_cons, List.count_append, List.count_singleton]
    omega
  | records => simp [Action.owes, List.countP_cons]
  | @takes token live hcurrent =>
    rw [htakes token live rfl hcurrent]
    simp [Action.owes, List.countP_cons]
  | gives =>
    rw [countP_owes_closes]
    simp [Action.owes, List.countP_cons]
  | @denies token live shown hcurrent =>
    rw [countP_owes_closes, hdenies token live rfl hcurrent]
    simp [Action.owes]
  | reclaims _ _ hsession =>
    rw [hsession]
    simp [Action.owes, List.countP_cons]
  | @sends closing routesClose =>
    have howes : [Action.closePTT closing].countP (Action.owes id) =
      if closing = id then 1 else 0 := by
      simp [Action.owes, List.countP_cons]
    have hsession : (s.closePTT closing routesClose).pttSessionID = s.pttSessionID := rfl
    rw [count_pttOpen_closePTT, closings_closePTT, hsession, howes, List.countP_nil]
    omega
  | notes => simp [closings, Action.owes, List.count_append]
  | _ => rfl

theorem Effect.holding (h : Effect s a s' first)
    (hold : s.pttSessionID ≠ none → s.pttHolding = true) :
    s'.pttSessionID ≠ none → s'.pttHolding = true := by
  cases h with
  | presses => exact fun _ => rfl
  | takes hcurrent => exact fun _ => hcurrent.1
  | lets | denies | reclaims => exact fun hnone => absurd rfl hnone
  | _ => exact hold

/-- A session that is recorded with the coordinator was opened, and no close of it was asked for. -/
theorem Effect.slot (h : Effect s a s' first)
    (hold : ∀ id, s.pttInitiatorID = some id → .pttOpen id ∈ s.sent ∧ closings id s.sent = 0)
    (hrecords : ∀ token id, a = .routed token id → .pttOpen id ∈ s.sent ∧ closings id s.sent = 0)
    (id : Data)
    (hslot : s'.pttInitiatorID = some id) : .pttOpen id ∈ s'.sent ∧ closings id s'.sent = 0 := by
  cases h with
  | records =>
    obtain rfl := Option.some.inj hslot
    exact hrecords _ _ rfl
  | @sends closing routesClose =>
    simp only [closePTT, slotAfterClose] at hslot
    split at hslot
    · cases hslot
    · rename_i hother
      obtain ⟨hopen, hclose⟩ := hold id hslot
      have hne : closing ≠ id := fun hsame => hother (hsame ▸ hslot)
      refine ⟨by simp [closePTT, hopen], ?_⟩
      rw [closings_closePTT, hclose, if_neg hne]
  | opens | notes =>
    obtain ⟨hopen, hclose⟩ := hold id hslot
    simp only [closings, List.count_append] at hclose ⊢
    simp [hopen]
    omega
  | _ => exact hold id hslot

/-- A press that is held has at most one action of its task to run. -/
theorem Minted.unique (hminted : Minted c) {b b' : Action} {token : Int64} (hb : c.ToRun b)
    (hb' : c.ToRun b')
    (htoken : b.token? = some token) (htoken' : b'.token? = some token) : b = b' := by
  by_contra hne
  have htwo := Config.two_le_of_toRun (p := Action.ofToken token) hb hb' hne
    (by simp [Action.ofToken, htoken])
    (by simp [Action.ofToken, htoken'])
  have hone := hminted token
  split at hone <;> omega

theorem Minted.not_toRun (hminted : Minted c) (hroom : serial c.shared.pttHoldToken + 1 < 2 ^ 64)
    {b : Action} (htoken : b.token? = some (c.shared.pttHoldToken + 1)) : ¬c.ToRun b := by
  intro hb
  have hpos := Config.countP_pos_of_toRun (p := Action.ofToken (c.shared.pttHoldToken + 1)) hb
    (by simp [Action.ofToken, htoken])
  have hnone := hminted (c.shared.pttHoldToken + 1)
  rw [serial_add_one hroom, if_neg (by omega)] at hnone
  omega

/-- A press that the task is of is current while its session is with the view. -/
theorem Accounted.not_reclaims (h : Accounted c) {token : Int64} {id : Data}
    (hran : c.ToRun (.gateC token (some id)))
    (hsession : c.shared.pttSessionID = some id) : c.shared.Current token :=
  ⟨h.holding (by simp [hsession]), (Option.some.inj (h.stale _ id hran rfl rfl hsession)).symm⟩

/-- No finger is on the globe, so that the view has no session. -/
theorem Accounted.session_of_free (h : Accounted c) (hheld : Held c)
    (hglobe : c.shared.globe = some false) :
    c.shared.pttSessionID = none := by
  by_contra hsession
  have htrue := hglobe.symm.trans (hheld.globe (h.holding hsession))
  cases htrue

theorem Accounted.early_goesOn (h : Accounted c) (hheld : Held c) (hminted : Minted ⟨s', ts⟩)
    (hgo : Machine.GoesOn c a first ⟨s', ts⟩) (heffect : Effect c.shared a s' first) (b : Action)
    (hb : Config.ToRun ⟨s', ts⟩ b) (hlate : b.isLate = false)
    (htoken : b.token? = some s'.pttHoldToken) :
    s'.pttSessionID = none := by
  cases heffect with
  | presses hglobe => exact h.session_of_free hheld hglobe
  | lets | denies | reclaims => rfl
  | takes hcurrent =>
    have hnext := hgo.added _ (List.mem_singleton_self _)
    have hsame := hminted.unique hb hnext htoken (by rw [← hcurrent.2]; rfl)
    rw [hsame] at hlate
    cases hlate
  | passes | fails | opens | records =>
    rcases hgo.origin b hb with hold | hnew
    · exact h.early b hold hlate htoken
    · rw [List.mem_singleton.mp hnew] at htoken
      exact h.early _ hgo.ran rfl htoken
  | looks _ _ hbs =>
    refine h.early b (hgo.toRun_of_none hb fun hmem => ?_) hlate htoken
    rw [hbs b hmem] at htoken
    cases htoken
  | gives =>
    refine h.early b (hgo.toRun_of_none hb fun hmem => ?_) hlate htoken
    rw [eq_of_mem_closes (f := Action.token?) (fun _ => rfl) hmem] at htoken
    cases htoken
  | starts | waits | permits =>
    refine h.early b (hgo.toRun_of_none hb fun hmem => ?_) hlate htoken
    rw [List.mem_singleton.mp hmem] at hlate
    cases hlate
  | drops | stays | stops | sends | notes =>
    exact h.early b (hgo.toRun_of_none hb List.not_mem_nil) hlate htoken

theorem Accounted.current_goesOn (h : Accounted c) (hminted : Minted ⟨s', ts⟩)
    (hroom : a = .call .pressDown → serial c.shared.pttHoldToken + 1 < 2 ^ 64)
    (hgo : Machine.GoesOn c a first ⟨s', ts⟩) (heffect : Effect c.shared a s' first) (b : Action)
    (hb : Config.ToRun ⟨s', ts⟩ b) (hlate : b.isLate = true) (hholds : s'.pttHolding = true)
    (htoken : b.token? = some s'.pttHoldToken) : s'.pttSessionID = b.live? := by
  cases heffect with
  | presses =>
    refine absurd (hgo.toRun_of_none hb fun hmem => ?_) (h.minted.not_toRun (hroom rfl) htoken)
    rw [List.mem_singleton.mp hmem] at hlate
    cases hlate
  | lets | denies => cases hholds
  | reclaims hstale _ hsession => exact absurd (h.not_reclaims hgo.ran hsession) hstale
  | takes hcurrent =>
    have hnext := hgo.added _ (List.mem_singleton_self _)
    rw [hminted.unique hb hnext htoken (by rw [← hcurrent.2]; rfl)]
    rfl
  | starts | waits | permits =>
    rcases hgo.origin b hb with hold | hnew
    · exact h.current b hold hlate hholds htoken
    · rw [List.mem_singleton.mp hnew] at htoken ⊢
      have hsame := h.current _ hgo.ran rfl hholds htoken
      exact hsame
  | passes | fails | opens | records =>
    refine h.current b (hgo.toRun_of_none hb fun hmem => ?_) hlate hholds htoken
    rw [List.mem_singleton.mp hmem] at hlate
    cases hlate
  | looks _ _ hbs =>
    refine h.current b (hgo.toRun_of_none hb fun hmem => ?_) hlate hholds htoken
    rw [hbs b hmem] at htoken
    cases htoken
  | gives =>
    refine h.current b (hgo.toRun_of_none hb fun hmem => ?_) hlate hholds htoken
    rw [eq_of_mem_closes (f := Action.token?) (fun _ => rfl) hmem] at htoken
    cases htoken
  | drops | stays | stops | sends | notes =>
    exact h.current b (hgo.toRun_of_none hb List.not_mem_nil) hlate hholds htoken

theorem Accounted.stale_goesOn (h : Accounted c) (hheld : Held c)
    (hopened : ∀ id, s'.sent.count (.pttOpen id) ≤ 1)
    (hcarried : ∀ id, Config.countP ⟨s', ts⟩ (Action.carries id) ≤ s'.sent.count (.pttOpen id))
    (hgo : Machine.GoesOn c a first ⟨s', ts⟩) (heffect : Effect c.shared a s' first)
    (b : Action) (id : Data)
    (hb : Config.ToRun ⟨s', ts⟩ b) (hlate : b.isLate = true) (hlive : b.live? = some id)
    (hsession : s'.pttSessionID = some id) : b.token? = some s'.pttHoldToken := by
  cases heffect with
  | presses hglobe => cases (h.session_of_free hheld hglobe).symm.trans hsession
  | lets | denies | reclaims => cases hsession
  | @takes token live hcurrent =>
    have hnext := hgo.added _ (List.mem_singleton_self _)
    by_cases hsame : b = .start token live
    · rw [hsame, ← hcurrent.2]
      rfl
    · have htwo := Config.two_le_of_toRun (p := Action.carries id) hb hnext hsame
        (by simp [Action.carries, hlive]) (decide_eq_true hsession)
      have hle := hcarried id
      have hone := hopened id
      omega
  | starts | waits | permits =>
    rcases hgo.origin b hb with hold | hnew
    · exact h.stale b id hold hlate hlive hsession
    · rw [List.mem_singleton.mp hnew] at hlive ⊢
      have hsame := h.stale _ id hgo.ran rfl hlive hsession
      exact hsame
  | passes | fails | opens | records =>
    refine h.stale b id (hgo.toRun_of_none hb fun hmem => ?_) hlate hlive hsession
    rw [List.mem_singleton.mp hmem] at hlate
    cases hlate
  | looks _ _ hbs =>
    refine h.stale b id (hgo.toRun_of_none hb fun hmem => ?_) hlate hlive hsession
    rw [hbs b hmem] at hlate
    cases hlate
  | gives =>
    refine h.stale b id (hgo.toRun_of_none hb fun hmem => ?_) hlate hlive hsession
    rw [eq_of_mem_closes (f := Action.isLate) (fun _ => rfl) hmem] at hlate
    cases hlate
  | drops | stays | stops | sends | notes =>
    exact h.stale b id (hgo.toRun_of_none hb List.not_mem_nil) hlate hlive hsession

theorem Accounted.goesOn (h : Accounted c) (hheld : Held c)
    (hgo : Machine.GoesOn c a first ⟨s', ts⟩) (heffect : Effect c.shared a s' first)
    (hroom : a = .call .pressDown → serial c.shared.pttHoldToken + 1 < 2 ^ 64) :
    Accounted ⟨s', ts⟩ := by
  have hminted := h.minted_goesOn hgo heffect hroom
  have hopened : ∀ id, s'.sent.count (.pttOpen id) ≤ 1 := fun id => heffect.opened id (h.opened id)
  have hcarried : ∀ id, Config.countP ⟨s', ts⟩ (Action.carries id) ≤ s'.sent.count
    (.pttOpen id) := by
    intro id
    have hcount := hgo.count (Action.carries id)
    have hfirst := heffect.countP_carries id
    have hold := h.carried id
    omega
  have hbalance : ∀ id, s'.sent.count (.pttOpen id) = (if s'.pttSessionID = some id then 1 else 0) +
      Config.countP ⟨s', ts⟩ (Action.owes id) + closings id s'.sent := by
    intro id
    have hcount := hgo.count (Action.owes id)
    have hold := h.balance id
    have howes := heffect.owes id
      (fun token live hthis hcurrent => h.early a hgo.ran (by rw [hthis]; rfl)
        (by rw [hthis, ← hcurrent.2]; rfl))
      fun token live hthis hcurrent => by
        have hlive := h.current a hgo.ran (by rw [hthis]; rfl) hcurrent.1
          (by rw [hthis, ← hcurrent.2]; rfl)
        rwa [hthis] at hlive
    omega
  have hslot := heffect.slot h.slot fun token id hthis => by
    have hold := h.balance id
    have hone := h.opened id
    have howed := Config.countP_pos_of_toRun (p := Action.owes id) hgo.ran
      (by rw [hthis]; simp [Action.owes])
    exact ⟨List.count_pos_iff.mp (by omega), by omega⟩
  refine ⟨heffect.holding h.holding, hminted, ?_, ?_, ?_, hcarried, hopened, hbalance, hslot⟩
  · exact h.early_goesOn hheld hminted hgo heffect
  · exact h.current_goesOn hminted hroom hgo heffect
  · exact h.stale_goesOn hheld hopened hcarried hgo heffect

/-! ### Runs -/

/-- The call of a finger that goes down. -/
def Action.isPress (a : Action) : Bool := a = .call .pressDown

/-- The fingers that went down. -/
def presses (events : List (Event Call Reply)) : Nat := (started events).count .pressDown

theorem Effect.countP_isPress (h : Effect s a s' first) : first.countP Action.isPress = 0 := by
  cases h with
  | looks _ _ hbs => exact countP_zero fun b hb => by rw [hbs b hb]; rfl
  | lets _ _ _ _ hnotes =>
    rw [List.countP_append, countP_zero fun b hb => eq_of_mem_closes (fun _ => rfl) hb,
      countP_zero fun b hb => eq_of_isNote (fun _ => rfl) (hnotes b hb)]
  | gives | denies => exact countP_zero fun b hb => eq_of_mem_closes (fun _ => rfl) hb
  | _ => rfl

/-- No more tokens are minted than fingers go down. -/
theorem numbered_step {e : Event Call Reply} (h : machine.step c e = some c') {n : Nat}
    (hnumbered : serial c.shared.pttHoldToken + c.countP Action.isPress ≤ n) :
    serial c'.shared.pttHoldToken + c'.countP Action.isPress ≤ n + presses [e] ∧
      ∀ a first, Machine.GoesOn c a first c' → a = .call .pressDown →
      serial c.shared.pttHoldToken + 1 ≤ n := by
  refine ⟨?_, fun a first hgo ha => ?_⟩
  · rcases step_effect h with ⟨call, rfl, hin⟩ | ⟨a, first, hgo, heffect⟩
    · have hcount : presses [.start call] = [Action.call call].countP Action.isPress := by
        cases call <;> rfl
      rw [hin.shared, hin.count, hcount]
      omega
    · have hcount := hgo.count Action.isPress
      rw [heffect.countP_isPress] at hcount
      rcases heffect.mints with hsame | ⟨_, hnext, _, rfl⟩
      · rw [hsame]
        omega
      · have hone : [Action.call .pressDown].countP Action.isPress = 1 := rfl
        have hserial := serial_add_one_le c.shared.pttHoldToken
        rw [hnext]
        omega
  · have hpos := Config.countP_pos_of_toRun (p := Action.isPress) hgo.ran
      (by simp [Action.isPress, ha])
    omega

/-- The sessions are accounted for as long as the tokens do not come round. -/
structure Counted (past : List (Transition (Config StreamView Action) (Event Call Reply)))
    (c : Config StreamView Action) : Prop where
  numbered : serial c.shared.pttHoldToken + c.countP Action.isPress ≤
    presses (past.map Transition.event)
  held : Held c
  accounted : presses (past.map Transition.event) < 2 ^ 64 → Accounted c

theorem counted_step (past : List (Transition (Config StreamView Action) (Event Call Reply)))
    (t : Transition (Config StreamView Action) (Event Call Reply))
    (h : machine.step t.pre t.event = some t.post)
    (hcounted : Counted past t.pre) : Counted (past ++ [t]) t.post := by
  obtain ⟨hnumbered, hmade⟩ := numbered_step h hcounted.numbered
  have hsplit : presses ((past ++ [t]).map Transition.event) =
      presses (past.map Transition.event) + presses [t.event] := by
    simp [presses, started, List.filterMap_append, List.count_append]
  refine ⟨hsplit ▸ hnumbered, held_step h hcounted.held, fun hfew => ?_⟩
  rw [hsplit] at hfew
  have haccounted := hcounted.accounted (by omega)
  rcases step_effect h with ⟨call, _, hin⟩ | ⟨a, first, hgo, heffect⟩
  · exact haccounted.comesIn hin
  · refine haccounted.goesOn hcounted.held hgo heffect fun ha => ?_
    have hroom := hmade a first hgo ha
    omega

theorem counted_of_run {events : List (Event Call Reply)}
    (hrun : run machine.step ⟨launch, []⟩ events = some c) :
    Counted (trace machine.step ⟨launch, []⟩ events) c :=
  run_history Counted counted_step ⟨Nat.le_refl 0, held_launch, fun _ => accounted_launch⟩ hrun

/-- Whatever is pressed, released, covered and dismissed, in whatever order the tasks run: the
microphone is on only for the press that is held, or until the gate of the task that turned it on;
and once the tasks have run it is off, or a finger is on the globe.  The tasks of two presses have
different tokens, as long as fewer than 2^64 fingers go down. -/
theorem microphone_held {events : List (Event Call Reply)}
    (hrun : run machine.step ⟨launch, []⟩ events = some c) :
    (c.shared.pttCapture.state = .recording →
      c.shared.Current c.shared.pttCapture.currentHoldToken ∨
      ∃ live, c.ToRun (.gateC c.shared.pttCapture.currentHoldToken live)) ∧
    ((∀ a, c.ToRun a → a.token? = none) → c.shared.pttCapture.state = .idle ∨
      c.shared.pttCapture.state = .recording ∧ c.shared.globe = some true ∧
        c.shared.Current c.shared.pttCapture.currentHoldToken) ∧
    (presses events < 2 ^ 64 → ∀ a b token, c.ToRun a → c.ToRun b → a.token? = some token →
      b.token? = some token → a = b) := by
  have hcounted := counted_of_run hrun
  have hheld := hcounted.held
  refine ⟨hheld.recording, fun hdone => ?_, fun hfew a b token ha hb htoken htoken' => ?_⟩
  · cases hstate : c.shared.pttCapture.state with
    | idle => exact .inl rfl
    | starting =>
      have hpos : 0 < c.countP Action.isPermitted := by rw [hheld.waiting, hstate]; decide
      obtain ⟨a, ha, hpermitted⟩ := Config.toRun_of_countP hpos
      cases a <;> cases hpermitted
      cases hdone _ ha
    | recording =>
      rcases hheld.recording hstate with hcurrent | ⟨live, hgate⟩
      · exact .inr ⟨rfl, hheld.globe hcurrent.1, hcurrent⟩
      · cases hdone _ hgate
  · exact (hcounted.accounted (by rwa [map_event_trace hrun])).minted.unique ha hb htoken htoken'

/-- The session opens, and the microphone comes on. -/
def granting : Reply := ⟨some [1], true, { deadEngine with startsEngine := true }⟩

/-- The cover comes up, the globe is pressed, and the task of the press runs. -/
def pressing : List (Event Call Reply) :=
  ([.start (.setShowWalkie true), .step 0 granting, .step 0 granting, .start .pressDown] :
    List (Event Call Reply)) ++ (List.replicate 8 (.step 1 granting) : List (Event Call Reply))

theorem microphone_held_pressing :
    ∃ c, run machine.step ⟨launch, []⟩ pressing = some c ∧ c.shared.pttCapture.state = .recording ∧
      c.shared.globe = some true ∧ c.shared.Current c.shared.pttCapture.currentHoldToken := by
  obtain ⟨s, hrun, hstate⟩ : ∃ s,
      run machine.step ⟨launch, []⟩ pressing = some ⟨s, List.replicate 2 ⟨[], []⟩⟩ ∧
        s.pttCapture.state = .recording :=
    ⟨_, rfl, rfl⟩
  have hdone := Config.not_toRun_replicate (α := Action) s 2
  exact ⟨_, hrun, ((microphone_held hrun).2.1 fun a ha => absurd ha (hdone a)).resolve_left
    (by simp [hstate])⟩

/-- Once nothing is to run, a session that no close was asked for is the one that the view has. -/
theorem Accounted.session_of_open (h : Accounted c) (hdone : ∀ a, ¬c.ToRun a) {id : Data}
    (hopen : .pttOpen id ∈ c.shared.sent) (hclose : closings id c.shared.sent = 0) :
    c.shared.pttSessionID = some id := by
  have hbalance := h.balance id
  have howed : c.countP (Action.owes id) = 0 := by
    by_contra hpos
    obtain ⟨a, ha, _⟩ := Config.toRun_of_countP (Nat.pos_of_ne_zero hpos)
    exact hdone a ha
  have hopened := List.count_pos_iff.mpr hopen
  by_contra hother
  rw [howed, hclose, if_neg hother] at hbalance
  omega

/-- As long as fewer than 2^64 fingers go down, each session is opened once, and a close of it is
asked for at most once and only when it was opened, never while the view has it.  Once the tasks
have run, every session that was opened is closed, or its close could not be routed, or a finger is
on the globe that it belongs to; and the coordinator has no other on record. -/
theorem sessions_closed {events : List (Event Call Reply)}
    (hrun : run machine.step ⟨launch, []⟩ events = some c) (hfew : presses events < 2 ^ 64) :
    (∀ id, c.shared.sent.count (.pttOpen id) ≤ 1 ∧ closings id c.shared.sent ≤ c.shared.sent.count
      (.pttOpen id)) ∧
    (∀ id, c.shared.pttSessionID = some id → closings id c.shared.sent = 0 ∧
      ¬c.ToRun (.closePTT id)) ∧
    ((∀ a, ¬c.ToRun a) →
      (∀ id, .pttOpen id ∈ c.shared.sent → .pttClose id ∈ c.shared.sent ∨ .pttCloseFailed id ∈
        c.shared.sent ∨ c.shared.pttSessionID = some id ∧ c.shared.globe = some true) ∧
      ∀ id, c.shared.pttInitiatorID = some id → c.shared.pttSessionID = some id) := by
  have hcounted := counted_of_run hrun
  have hheld := hcounted.held
  have h := hcounted.accounted (by rwa [map_event_trace hrun])
  refine ⟨fun id => ⟨h.opened id, ?_⟩, fun id hsession => ?_, fun hdone =>
    ⟨fun id hopen => ?_, fun id hslot => ?_⟩⟩
  · have hbalance := h.balance id
    omega
  · have hbalance := h.balance id
    have hopened := h.opened id
    rw [if_pos hsession] at hbalance
    refine ⟨by omega, fun howed => ?_⟩
    have hpos := Config.countP_pos_of_toRun (p := Action.owes id) howed (by simp [Action.owes])
    omega
  · by_cases hclose : closings id c.shared.sent = 0
    · have hsession := h.session_of_open hdone hopen hclose
      exact .inr (.inr ⟨hsession, hheld.globe (h.holding (by simp [hsession]))⟩)
    · by_cases hrouted : .pttClose id ∈ c.shared.sent
      · exact .inl hrouted
      · rw [closings, List.count_eq_zero.mpr hrouted, Nat.zero_add] at hclose
        exact .inr (.inl (List.count_pos_iff.mp (Nat.pos_of_ne_zero hclose)))
  · obtain ⟨hopen, hclose⟩ := h.slot id hslot
    exact h.session_of_open hdone hopen hclose

/-- The press is let go. -/
theorem sessions_closed_released :
    ∃ c, run machine.step ⟨launch, []⟩
    (pressing ++ [.start .pressUp, .step 2 granting, .step 2 granting]) = some c ∧
      .pttOpen [1] ∈ c.shared.sent ∧ .pttClose [1] ∈ c.shared.sent := by
  obtain ⟨s, hrun, hopen, hfailed, hglobe⟩ : ∃ s,
      run machine.step ⟨launch, []⟩ (pressing ++ [.start .pressUp, .step 2 granting,
        .step 2 granting]) =
        some ⟨s, List.replicate 3 ⟨[], []⟩⟩ ∧ .pttOpen [1] ∈ s.sent ∧ .pttCloseFailed [1] ∉ s.sent ∧
          s.globe = some false :=
    ⟨_, rfl, by decide, by decide, rfl⟩
  have hclosed := ((sessions_closed hrun (by decide)).2.2 (Config.not_toRun_replicate s 3)).1
    [1] hopen
  refine ⟨_, hrun, hopen, (hclosed.resolve_right fun hopen => ?_)⟩
  rcases hopen with hlost | ⟨_, hheld⟩
  · exact hfailed hlost
  · simp [hglobe] at hheld

end StreamView

end AeroNyra
