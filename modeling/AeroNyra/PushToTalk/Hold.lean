import AeroNyra.Core.Message
import AeroNyra.Lib.Interleave

/-! The capture of a push-to-talk hold: `start` waits for the microphone permission and then builds
the audio session, the engine and the recording in one go, and a release or a cancel that lands in
between asks for an abort.  A hold owns what it built until it ends. -/

namespace AeroNyra

namespace PTTCaptureEngine

inductive CaptureState
  | idle
  | starting
  | recording
  deriving DecidableEq

/-- The audio engine, as far as its input node goes. -/
structure AudioEngine where
  isRunning : Bool := false
  tapInstalled : Bool := false
  deriving DecidableEq

end PTTCaptureEngine

structure PTTCaptureEngine where
  state : PTTCaptureEngine.CaptureState
  abortRequested : Bool
  liveHold : Bool
  currentHoldToken : Int64
  permissionDenied : Bool
  engine : PTTCaptureEngine.AudioEngine
  /-- The pipeline in use, by the file that it writes. -/
  pipeline : Option UUID
  fileURL : Option UUID
  /-- The engine has activated the audio session, and not released it since. -/
  sessionActive : Bool
  /-- The temporary recordings on disk, by the identifier in their name. -/
  files : List UUID
  /-- How many holds have begun.  The suspended `start` carries the number of its hold, which no
  step reads. -/
  hold : Nat

namespace PTTCaptureEngine

open Interleave

inductive Call
  | start (live : Bool) (holdToken : Int64)
  | stop (holdToken : Int64)
  | cancelUnowned
  deriving DecidableEq

inductive Action
  | call (call : Call)
  /-- `start` once the permission is known. -/
  | permitted (hold : Nat) (live : Bool)
  deriving DecidableEq

/-- What the environment answers: the permission, which statements of `start` succeed, what the
render thread has sent, what is read back, and whether the system does what `try?` asks for. -/
structure Reply where
  permission : Bool
  setsCategory : Bool
  activates : Bool
  inputLive : Bool
  rebuiltInputLive : Bool
  formsTarget : Bool
  converts : Bool
  opensFile : Bool
  makesEncoder : Bool
  startsEngine : Bool
  url : UUID
  sentFrames : Nat
  contents : Option Data
  deactivates : Bool
  removes : Bool

def new : PTTCaptureEngine :=
  ⟨.idle, false, false, 0, false, {}, none, none, false, [], 0⟩

variable (s : PTTCaptureEngine)

def teardownEngine : PTTCaptureEngine :=
  { s with engine := { isRunning := false, tapInstalled := false } }

/-- A new engine takes the place of the torn down one. -/
def rebuildEngine : PTTCaptureEngine := { s.teardownEngine with engine := {} }

def deactivateSession (reply : Reply) : PTTCaptureEngine :=
  { s with sessionActive := s.sessionActive && !reply.deactivates }

def removeItem (url : UUID) (reply : Reply) : PTTCaptureEngine :=
  { s with files := if reply.removes then s.files.filter (· ≠ url) else s.files }

def reset : PTTCaptureEngine := { s with pipeline := none, fileURL := none, liveHold := false }

/-- The hold that starts is to be given up. -/
def requestAbort : PTTCaptureEngine := { s with abortRequested := true }

/-- The next hold starts. -/
def begin (holdToken : Int64) : PTTCaptureEngine :=
  { s with state := .starting, currentHoldToken := holdToken, hold := s.hold + 1 }

def finish (reply : Reply) : PTTCaptureEngine :=
  (({ s.teardownEngine with pipeline := none, state := .idle } : PTTCaptureEngine).deactivateSession
    reply).reset

def start (live : Bool) (holdToken : Int64) : PTTCaptureEngine × Exit Action :=
  if s.state = .idle then
    (s.begin holdToken, .goOn [.permitted (s.hold + 1) live])
  else (s, .goOn [])

def activate : PTTCaptureEngine := { s with sessionActive := true }

/-- A dead input read is tried again on a new engine. -/
def readInput (reply : Reply) : PTTCaptureEngine := if reply.inputLive then s else s.rebuildEngine

def createFile (url : UUID) : PTTCaptureEngine := { s with files := s.files.insert url }

def installTap : PTTCaptureEngine := { s with engine := { s.engine with tapInstalled := true } }

def startEngine : PTTCaptureEngine := { s with engine := { s.engine with isRunning := true } }

/-- The statements of `start` after the permission, up to the first that throws; none throws if the
second component says so. -/
def build (reply : Reply) : PTTCaptureEngine × Bool :=
  if !(reply.setsCategory && reply.activates) then (s, false)
  else
    let s := s.activate.readInput reply
    if !(reply.inputLive || reply.rebuiltInputLive) then (s, false)
    else if !(reply.formsTarget && reply.converts && reply.opensFile) then (s, false)
    else
      let s := s.createFile reply.url
      if !reply.makesEncoder then (s, false)
      else
        let s := s.installTap
        if !reply.startsEngine then (s, false) else (s.startEngine, true)

/-- The rest of `start`. -/
def permitted (live : Bool) (reply : Reply) : PTTCaptureEngine :=
  if reply.permission then
    let s := { s with permissionDenied := false }
    if s.abortRequested then { s with abortRequested := false, state := .idle }
    else
      match s.build reply with
      | (s, true) =>
        if s.abortRequested then
          { ((({ s with abortRequested := false } :
            PTTCaptureEngine).teardownEngine.removeItem reply.url
            reply).deactivateSession reply).reset with state := .idle }
        else
          { s with pipeline := some reply.url, fileURL := some reply.url, liveHold := live, state :=
            .recording }
      | (s, false) => { (s.teardownEngine.deactivateSession reply).reset with state := .idle }
  else { s with permissionDenied := true, abortRequested := false, state := .idle }

def noteSuppressionMinFrames : Nat := 25

def shouldSuppressNote (liveHold : Bool) (sentFrames : Nat) : Bool :=
  liveHold && decide (noteSuppressionMinFrames ≤ sentFrames)

/-- The engine after `stop`, with the note that it returns. -/
def stop (holdToken : Int64) (reply : Reply) : PTTCaptureEngine × Option Data :=
  if holdToken = s.currentHoldToken then
    match s.state with
    | .idle => (s, none)
    | .starting => (s.requestAbort, none)
    | .recording =>
      match s.fileURL with
      | none => (s.finish reply, none)
      | some url =>
        let sentFrames := if s.pipeline.isSome then reply.sentFrames else 0
        let ended := ({ s.teardownEngine with pipeline := none, state := .idle } : PTTCaptureEngine)
        (((ended.removeItem url reply).deactivateSession reply).reset,
          if shouldSuppressNote s.liveHold sentFrames then none else reply.contents)
  else (s, none)

def cancel (reply : Reply) : PTTCaptureEngine :=
  match s.state with
  | .idle => s
  | .starting => s.requestAbort
  | .recording =>
    let ended := ({ s.teardownEngine with pipeline := none, state := .idle } : PTTCaptureEngine)
    let removed := match s.fileURL with
      | some url => ended.removeItem url reply
      | none => ended
    (removed.deactivateSession reply).reset

def cancelUnowned (reply : Reply) : PTTCaptureEngine := s.cancel reply

def exec : Action → Reply → Option (PTTCaptureEngine × Exit Action)
  | .call (.start live holdToken), _ => some (s.start live holdToken)
  | .call (.stop holdToken), reply => some ((s.stop holdToken reply).1, .goOn [])
  | .call .cancelUnowned, reply => some (s.cancelUnowned reply, .goOn [])
  | .permitted _ live, reply => some (s.permitted live reply, .goOn [])

def machine : Machine PTTCaptureEngine Action Call Reply where
  thread call := ⟨[.call call], []⟩
  exec := exec

/-! ### What a hold owns -/

/-- A stop by the owner, or a cancel. -/
def Action.releases (s : PTTCaptureEngine) : Action → Bool
  | .call (.stop holdToken) => holdToken = s.currentHoldToken
  | .call .cancelUnowned => true
  | _ => false

section

variable (s : PTTCaptureEngine) (live : Bool) (holdToken : Int64) (hold : Nat)

@[simp] theorem releases_start : (Action.call (.start live holdToken)).releases s = false := rfl

@[simp] theorem releases_stop :
    (Action.call (.stop holdToken)).releases s = decide (holdToken = s.currentHoldToken) := rfl

@[simp] theorem releases_cancelUnowned : (Action.call .cancelUnowned).releases s = true := rfl

@[simp] theorem releases_permitted : (Action.permitted hold live).releases s = false := rfl

end

/-- The holds whose owner's stop, or a cancel, has landed, the oldest first. -/
def noteReleased (released : List Nat) (s : PTTCaptureEngine) (a : Action) (_ : Reply)
    (_ : PTTCaptureEngine) : List Nat :=
  if a.releases s ∧ s.state ≠ .idle then released ++ [s.hold] else released

abbrev Step := Transition (Config (PTTCaptureEngine × List Nat) Action) (Event Call Reply)

/-- The steps of a run of the engine. -/
def steps (events : List (Event Call Reply)) : List Step :=
  trace (machine.observed noteReleased).step ⟨(new, []), []⟩ events

/-- A `start` that waits for the permission. -/
def Action.isPermitted : Action → Bool
  | .permitted _ _ => true
  | .call _ => false

/-- Nothing is hot, and nothing is left. -/
structure Clean (s : PTTCaptureEngine) : Prop where
  engine : s.engine = {}
  session : ¬s.sessionActive
  files : s.files = []

/-- The statements of `start` up to the one that creates the recording file succeed. -/
def Reply.opens (reply : Reply) : Bool :=
  (reply.setsCategory && reply.activates) && (reply.inputLive || reply.rebuiltInputLive) &&
    (reply.formsTarget && reply.converts && reply.opensFile)

/-- Every statement of `start` after the permission succeeds. -/
def Reply.builds (reply : Reply) : Bool := reply.opens && reply.makesEncoder && reply.startsEngine

structure Owned (t : Step) : Prop where
  oneHold : t.post.countP Action.isPermitted +
    (if t.post.shared.1.state = .recording then 1 else 0) ≤ 1
  stranger : ∀ holdToken reply, t.pre.acts t.event = some (.call (.stop holdToken), reply) →
    holdToken ≠ t.pre.shared.1.currentHoldToken → t.post.shared.1 = t.pre.shared.1
  released : ∀ n ∈ t.post.shared.2, ¬(t.post.shared.1.state = .recording ∧ t.post.shared.1.hold = n)
  starts : ∀ n live reply, t.pre.acts t.event = some (.permitted n live, reply) →
    n ∉ t.pre.shared.2 → reply.permission → reply.builds →
    t.post.shared.1.state = .recording ∧ t.post.shared.1.hold = n
  idle : t.post.shared.1.state = .idle → Clean t.post.shared.1

/-- A step that leaves something behind. -/
inductive Leaks (s : PTTCaptureEngine) : Action → Reply → Prop
  /-- `start` throws after it created the recording file. -/
  | recording {n live} {reply : Reply} (hpermission : reply.permission) (hgo : ¬s.abortRequested)
      (hopens : reply.opens) (hthrows : ¬reply.builds) : Leaks s (.permitted n live) reply
  /-- `start` throws, and the system keeps the session that it activated. -/
  | session {n live} {reply : Reply} (hpermission : reply.permission) (hgo : ¬s.abortRequested)
      (hactive : reply.setsCategory && reply.activates) (hthrows : ¬reply.builds)
      (hkept : ¬reply.deactivates) : Leaks s (.permitted n live) reply
  /-- A recording ends, and the system keeps its session or its file. -/
  | ending {a} {reply : Reply} (hreleases : a.releases s) (hrecording : s.state = .recording)
      (hkept : ¬(reply.deactivates && reply.removes)) : Leaks s a reply

def Step.Leaks (t : Step) : Prop :=
  ∃ a reply, t.pre.acts t.event = some (a, reply) ∧ PTTCaptureEngine.Leaks t.pre.shared.1 a reply

/-! ### What the operations do -/

variable {s s' : PTTCaptureEngine} {a : Action} {reply : Reply} {x : Exit Action}

/-- What `build` leaves, whether or not it throws. -/
structure Built (s : PTTCaptureEngine) (reply : Reply) (s' : PTTCaptureEngine) : Prop where
  state : s'.state = s.state
  abortRequested : s'.abortRequested = s.abortRequested
  hold : s'.hold = s.hold
  session : s'.sessionActive = (s.sessionActive || reply.setsCategory && reply.activates)
  files : s'.files = if reply.opens then s.files.insert reply.url else s.files

theorem readInput_activate (s : PTTCaptureEngine) (reply : Reply) : ∃ engine,
    s.activate.readInput reply = { s with sessionActive := true, engine } := by
  unfold readInput
  split
  · exact ⟨s.engine, rfl⟩
  · exact ⟨{}, rfl⟩

theorem build_spec (s : PTTCaptureEngine) (reply : Reply) :
    (s.build reply).2 = reply.builds ∧ Built s reply (s.build reply).1 := by
  obtain ⟨engine, hread⟩ := readInput_activate s reply
  suffices h : (s.build reply).2 = reply.builds ∧
      (s.build reply).1.state = s.state ∧ (s.build reply).1.abortRequested = s.abortRequested ∧
      (s.build reply).1.hold = s.hold ∧
      (s.build reply).1.sessionActive = (s.sessionActive || reply.setsCategory && reply.activates) ∧
      (s.build reply).1.files = if reply.opens then s.files.insert reply.url else s.files by
    exact ⟨h.1, h.2.1, h.2.2.1, h.2.2.2.1, h.2.2.2.2.1, h.2.2.2.2.2⟩
  unfold build Reply.builds Reply.opens
  rw [hread]
  generalize (reply.setsCategory && reply.activates) = active
  generalize (reply.inputLive || reply.rebuiltInputLive) = live
  generalize (reply.formsTarget && reply.converts && reply.opensFile) = opened
  cases active with
  | false => simp
  | true =>
    cases live with
    | false => simp
    | true =>
      cases opened with
      | false => simp
      | true =>
        cases reply.makesEncoder with
        | false => simp [createFile]
        | true => cases reply.startsEngine <;> simp [createFile, installTap, startEngine]

/-- What the end of a recording leaves. -/
structure Ended (s : PTTCaptureEngine) (reply : Reply) (s' : PTTCaptureEngine) : Prop where
  state : s'.state = .idle
  abortRequested : s'.abortRequested = s.abortRequested
  hold : s'.hold = s.hold
  engine : s'.engine = {}
  session : s'.sessionActive = (s.sessionActive && !reply.deactivates)
  files : s'.files = if reply.removes then s.files.filter (some · ≠ s.fileURL) else s.files

/-- What the rest of `start` leaves if it does not record. -/
structure GivenUp (s : PTTCaptureEngine) (reply : Reply) (s' : PTTCaptureEngine) : Prop where
  state : s'.state = .idle
  abortRequested : s'.abortRequested = false
  hold : s'.hold = s.hold
  leaves : (reply.permission = false ∨ s.abortRequested) ∧ s'.engine = s.engine ∧
      s'.sessionActive = s.sessionActive ∧ s'.files = s.files ∨
    (reply.permission ∧ ¬s.abortRequested ∧ ¬reply.builds) ∧ s'.engine = {} ∧
      s'.sessionActive = ((s.sessionActive || reply.setsCategory && reply.activates) &&
        !reply.deactivates) ∧
      s'.files = if reply.opens then s.files.insert reply.url else s.files

structure Recorded (s : PTTCaptureEngine) (reply : Reply) (s' : PTTCaptureEngine) : Prop where
  state : s'.state = .recording
  abortRequested : s'.abortRequested = false
  hold : s'.hold = s.hold
  fileURL : s'.fileURL = some reply.url
  session : s'.sessionActive
  files : s'.files = s.files.insert reply.url

inductive Effect (s : PTTCaptureEngine) : Action → Reply → PTTCaptureEngine → Exit Action → Prop
  | ignored {call reply} (h : ¬((Action.call call).releases s ∧ s.state ≠ .idle)) :
      Effect s (.call call) reply s (.goOn [])
  | begins {live holdToken reply} (hidle : s.state = .idle) :
      Effect s (.call (.start live holdToken)) reply (s.begin holdToken)
        (.goOn [.permitted (s.hold + 1) live])
  | aborts {call reply} (hreleases : (Action.call call).releases s)
      (hstarting : s.state = .starting) :
      Effect s (.call call) reply s.requestAbort (.goOn [])
  | ends {call reply s'} (hreleases : (Action.call call).releases s)
      (hrecording : s.state = .recording)
      (hended : Ended s reply s') : Effect s (.call call) reply s' (.goOn [])
  | givesUp {n live reply s'} (h : GivenUp s reply s') : Effect s (.permitted n live) reply s'
      (.goOn [])
  | records {n live reply s'} (hpermission : reply.permission) (hgo : ¬s.abortRequested)
      (hbuilds : reply.builds) (h : Recorded s reply s') :
      Effect s (.permitted n live) reply s' (.goOn [])

theorem permitted_effect (n : Nat) (live : Bool) (reply : Reply) :
    Effect s (.permitted n live) reply (s.permitted live reply) (.goOn []) := by
  unfold permitted
  by_cases hpermission : reply.permission
  · rw [if_pos hpermission]
    dsimp only
    by_cases habort : s.abortRequested
    · rw [if_pos habort]
      exact .givesUp ⟨rfl, rfl, rfl, .inl ⟨.inr habort, rfl, rfl, rfl⟩⟩
    · rw [if_neg habort]
      obtain ⟨hsnd, hbuilt⟩ := build_spec { s with permissionDenied := false } reply
      generalize hb : build { s with permissionDenied := false } reply = b at hsnd hbuilt
      obtain ⟨s₁, done⟩ := b
      dsimp only at hsnd hbuilt
      have hflag : s₁.abortRequested = false := by simpa [habort] using hbuilt.abortRequested
      cases done with
      | true =>
        dsimp only
        rw [if_neg (by simp [hflag])]
        have hopens : reply.opens := by simp_all [Reply.builds]
        have hactive : s₁.sessionActive := by
          rw [hbuilt.session]
          simp_all [Reply.opens]
        refine .records hpermission habort hsnd.symm ⟨rfl, hflag, hbuilt.hold, rfl, hactive, ?_⟩
        exact hbuilt.files.trans (if_pos hopens)
      | false =>
        refine .givesUp
          ⟨rfl, hflag, hbuilt.hold, .inr ⟨⟨hpermission, habort, by simp [← hsnd]⟩, rfl, ?_, ?_⟩⟩
        · show (s₁.sessionActive && !reply.deactivates) = _
          rw [hbuilt.session]
        · exact hbuilt.files
  · rw [if_neg hpermission]
    exact .givesUp ⟨rfl, rfl, rfl, .inl ⟨.inl (by simpa using hpermission), rfl, rfl, rfl⟩⟩

theorem stop_effect (holdToken : Int64) (reply : Reply) :
    Effect s (.call (.stop holdToken)) reply (s.stop holdToken reply).1 (.goOn []) := by
  unfold stop
  by_cases htoken : holdToken = s.currentHoldToken
  · have hreleases : (Action.call (.stop holdToken)).releases s := decide_eq_true htoken
    rw [if_pos htoken]
    cases hstate : s.state with
    | idle => exact .ignored fun h => h.2 hstate
    | starting => exact .aborts hreleases hstate
    | recording =>
      refine .ends hreleases hstate ?_
      cases hurl : s.fileURL with
      | none => exact ⟨rfl, rfl, rfl, rfl, rfl,
          by simp [finish, reset, deactivateSession, teardownEngine, hurl]⟩
      | some url => exact ⟨rfl, rfl, rfl, rfl, rfl,
          by simp [reset, deactivateSession, removeItem, teardownEngine, hurl]⟩
  · rw [if_neg htoken]
    exact .ignored fun h => htoken (of_decide_eq_true h.1)

theorem cancelUnowned_effect (reply : Reply) :
    Effect s (.call .cancelUnowned) reply (s.cancelUnowned reply) (.goOn []) := by
  unfold cancelUnowned cancel
  cases hstate : s.state with
  | idle => exact .ignored fun h => h.2 hstate
  | starting => exact .aborts rfl hstate
  | recording =>
    refine .ends rfl hstate ?_
    cases hurl : s.fileURL with
    | none => exact ⟨rfl, rfl, rfl, rfl, rfl,
        by simp [reset, deactivateSession, teardownEngine, hurl]⟩
    | some url => exact ⟨rfl, rfl, rfl, rfl, rfl,
        by simp [reset, deactivateSession, removeItem, teardownEngine, hurl]⟩

/-- What each action does. -/
theorem exec_effect (h : exec s a reply = some (s', x)) : Effect s a reply s' x := by
  cases a with
  | permitted n live =>
    cases h
    exact permitted_effect n live reply
  | call call =>
    cases call with
    | stop holdToken =>
      cases h
      exact stop_effect holdToken reply
    | cancelUnowned =>
      cases h
      exact cancelUnowned_effect reply
    | start live holdToken =>
      by_cases hidle : s.state = .idle
      · simp only [exec, start, if_pos hidle] at h
        cases h
        exact .begins hidle
      · simp only [exec, start, if_neg hidle] at h
        cases h
        exact .ignored (by simp)

/-! ### Runs -/

/-- The invariant of the engine: a flag is for the hold that starts, and what is there belongs to
the one that records. -/
structure Sound (s : PTTCaptureEngine) (released : List Nat) : Prop where
  known : ∀ n ∈ released, n ≤ s.hold
  abort : s.abortRequested → s.state = .starting
  released : s.state ≠ .idle → (s.hold ∈ released ↔ s.abortRequested)
  clean : s.state ≠ .recording → Clean s
  recording : s.state = .recording → s.sessionActive ∧ ∃ url, s.fileURL = some url ∧ s.files = [url]

/-- The invariant of the calls: what waits for the permission is the hold that starts. -/
structure Kept (c : Config (PTTCaptureEngine × List Nat) Action) : Prop where
  sound : Sound c.shared.1 c.shared.2
  waiting : c.countP Action.isPermitted ≤ if c.shared.1.state = .starting then 1 else 0
  numbered : ∀ n live, c.ToRun (.permitted n live) → n = c.shared.1.hold

theorem kept_new : Kept ⟨(new, []), []⟩ where
  sound :=
    { known := fun n hn => by cases hn
      abort := fun h => by cases h
      released := fun h => absurd rfl h
      clean := fun _ => ⟨rfl, by simp [new], rfl⟩
      recording := fun h => by cases h }
  waiting := Nat.zero_le _
  numbered n live h := by
    obtain ⟨_, ht, _⟩ := h
    cases ht

theorem noteReleased_of_not {released : List Nat} (h : ¬(a.releases s ∧ s.state ≠ .idle)) :
    noteReleased released s a reply s' = released := if_neg h

theorem noteReleased_of_releases {released : List Nat} (h : a.releases s)
    (hbusy : s.state ≠ .idle) :
    noteReleased released s a reply s' = released ++ [s.hold] := if_pos ⟨h, hbusy⟩

theorem known_append {released : List Nat} (hknown : ∀ n ∈ released, n ≤ s.hold) :
    ∀ n ∈ released ++ [s.hold], n ≤ s.hold := by
  intro n hn
  rcases List.mem_append.mp hn with hn | hn
  · exact hknown n hn
  · exact Nat.le_of_eq (List.mem_singleton.mp hn)

/-- The rest of a `start` that does not record leaves nothing exactly if it does not leak. -/
theorem GivenUp.clean_iff {n : Nat} {live : Bool} (h : GivenUp s reply s') (hclean : Clean s) :
    Clean s' ↔ ¬Leaks s (.permitted n live) reply := by
  obtain ⟨hengine, hsession, hfiles⟩ := hclean
  rcases h.leaves with ⟨hearly, hengine', hsession', hfiles'⟩ |
    ⟨⟨hpermission, hgo, hthrows⟩, hengine', hsession', hfiles'⟩
  · refine iff_of_true ⟨hengine'.trans hengine, by rwa [hsession'], hfiles'.trans hfiles⟩
      fun hleaks => ?_
    cases hleaks with
    | recording hp hg => simp_all
    | session hp hg => simp_all
    | ending hreleases => cases hreleases
  · constructor
    · rintro ⟨_, hs, hf⟩ hleaks
      cases hleaks with
      | recording _ _ hopens => simp [hfiles', hopens, hfiles] at hf
      | session _ _ hactive _ hkept => simp [hsession', hactive, hkept] at hs
      | ending hreleases => cases hreleases
    · intro hfree
      refine ⟨hengine', fun hs => ?_, ?_⟩
      · rw [hsession'] at hs
        simp only [Bool.and_eq_true, Bool.or_eq_true] at hs
        refine hfree (.session hpermission hgo ?_ hthrows (by simpa using hs.2))
        simpa using hs.1.resolve_left hsession
      · rw [hfiles', if_neg fun hopens => hfree (.recording hpermission hgo hopens hthrows)]
        exact hfiles

/-- The end of a recording leaves nothing exactly if it does not leak. -/
theorem Ended.clean_iff {released : List Nat} (h : Ended s reply s') (hsound : Sound s released)
    (hreleases : a.releases s) (hrecording : s.state = .recording) :
    Clean s' ↔ ¬Leaks s a reply := by
  obtain ⟨hactive, url, hurl, hfiles⟩ := hsound.recording hrecording
  constructor
  · rintro ⟨_, hs, hf⟩ hleaks
    have hkept : ¬(reply.deactivates && reply.removes) := by
      cases hleaks with
      | recording | session => cases hreleases
      | ending _ _ hkept => exact hkept
    rw [h.session, hactive] at hs
    rw [h.files, hfiles] at hf
    simp_all
  · intro hfree
    have hdone : reply.deactivates && reply.removes := by
      by_contra hkept
      exact hfree (.ending hreleases hrecording hkept)
    obtain ⟨hdeactivates, hremoves⟩ := Bool.and_eq_true_iff.mp hdone
    exact ⟨h.engine, by simp [h.session, hdeactivates], by simp [h.files, hremoves, hfiles, hurl]⟩

theorem sound_act {released : List Nat} (heffect : Effect s a reply s' x)
    (hsound : Sound s released)
    (hstarting : ∀ n live, a = .permitted n live → s.state = .starting) (hfree : ¬Leaks s a reply) :
    Sound s' (noteReleased released s a reply s') := by
  cases heffect with
  | ignored h =>
    rw [noteReleased_of_not h]
    exact hsound
  | begins hidle =>
    rw [noteReleased_of_not (by simp)]
    have hflag : ¬s.abortRequested := fun h => by cases hidle.symm.trans (hsound.abort h)
    refine ⟨fun n hn => Nat.le_succ_of_le (hsound.known n hn), fun _ => rfl, fun _ => ?_,
      fun _ => ?_,
      fun h => by cases h⟩
    · exact iff_of_false (fun hn => absurd (hsound.known _ hn) (by simp [begin])) hflag
    · have hclean := hsound.clean (by simp [hidle])
      exact ⟨hclean.engine, hclean.session, hclean.files⟩
  | aborts hreleases hstarts =>
    rw [noteReleased_of_releases hreleases (by simp [hstarts])]
    refine ⟨known_append hsound.known, fun _ => hstarts, fun _ => ?_, fun _ => ?_, fun h => ?_⟩
    · exact iff_of_true (by simp [requestAbort]) rfl
    · have hclean := hsound.clean (by simp [hstarts])
      exact ⟨hclean.engine, hclean.session, hclean.files⟩
    · cases hstarts.symm.trans h
  | ends hreleases hrecording h =>
    rw [noteReleased_of_releases hreleases (by simp [hrecording])]
    have hflag : ¬s.abortRequested :=
      fun habort => by cases hrecording.symm.trans (hsound.abort habort)
    refine ⟨?_, fun habort => ?_, fun hbusy => absurd h.state hbusy, fun _ => ?_, fun hrec => ?_⟩
    · rw [h.hold]
      exact known_append hsound.known
    · exact absurd (h.abortRequested ▸ habort) hflag
    · exact (h.clean_iff hsound hreleases hrecording).mpr hfree
    · cases h.state.symm.trans hrec
  | givesUp h =>
    rw [noteReleased_of_not (by simp)]
    have hclean := hsound.clean (by simp [hstarting _ _ rfl])
    refine ⟨?_, fun habort => ?_, fun hbusy => absurd h.state hbusy, fun _ => ?_, fun hrec => ?_⟩
    · rw [h.hold]
      exact hsound.known
    · cases h.abortRequested.symm.trans habort
    · exact (h.clean_iff hclean).mpr hfree
    · cases h.state.symm.trans hrec
  | records hpermission hgo hbuilds h =>
    rw [noteReleased_of_not (by simp)]
    have hstarts := hstarting _ _ rfl
    have hclean := hsound.clean (by simp [hstarts])
    refine ⟨?_, fun habort => ?_, fun _ => ?_, fun hnot => absurd h.state hnot,
      fun _ => ⟨h.session, _, h.fileURL, ?_⟩⟩
    · rw [h.hold]
      exact hsound.known
    · cases h.abortRequested.symm.trans habort
    · rw [h.hold, h.abortRequested]
      exact iff_of_false (fun hn => hgo ((hsound.released (by simp [hstarts])).mp hn)) (by simp)
    · rw [h.files, hclean.files]
      rfl

theorem starting_of_acts {c : Config (PTTCaptureEngine × List Nat) Action} {e : Event Call Reply}
    {n : Nat} {live : Bool} (hk : Kept c) (h : c.acts e = some (.permitted n live, reply)) :
    c.shared.1.state = .starting ∧ n = c.shared.1.hold ∧ c.countP Action.isPermitted = 1 := by
  have hpending := Config.toRun_of_acts h
  have hpos : 0 < c.countP Action.isPermitted := Config.countP_pos_of_toRun hpending rfl
  have hle := hk.waiting
  split at hle
  · rename_i hstarting
    exact ⟨hstarting, hk.numbered n live hpending, by omega⟩
  · omega

theorem kept_start {c : Config (PTTCaptureEngine × List Nat) Action} {call : Call} (hk : Kept c) :
    Kept { c with threads := c.threads ++ [⟨[.call call], []⟩] } where
  sound := hk.sound
  waiting := by
    have hsame : (Config.mk c.shared
      (c.threads ++ [⟨[.call call], []⟩])).countP Action.isPermitted =
        c.countP Action.isPermitted := by
      simp [Config.countP, Action.isPermitted]
    rw [hsame]
    exact hk.waiting
  numbered n live h := by
    obtain ⟨u, hu, hmem⟩ := h
    rcases List.mem_append.mp hu with hu | hu
    · exact hk.numbered n live ⟨u, hu, hmem⟩
    · obtain rfl := List.mem_singleton.mp hu
      simp at hmem

/-- Who waits for the permission after an action. -/
theorem waiting_act {c c' : Config (PTTCaptureEngine × List Nat) Action} {e : Event Call Reply}
    (hk : Kept c) (hacts : c.acts e = some (a, reply))
      (heffect : Effect c.shared.1 a reply c'.shared.1 x)
    (hcount : c'.countP Action.isPermitted + [a].countP Action.isPermitted ≤
      c.countP Action.isPermitted + x.added.countP Action.isPermitted) :
    c'.countP Action.isPermitted ≤ if c'.shared.1.state = .starting then 1 else 0 := by
  have hwaiting := hk.waiting
  generalize hs : c.shared.1 = s at *
  generalize hs' : c'.shared.1 = s' at *
  cases heffect with
  | ignored h =>
      exact (by simpa [Exit.added, Action.isPermitted] using hcount : _ ≤ _).trans hwaiting
  | begins hidle =>
    rw [hidle, if_neg (by decide)] at hwaiting
    rw [if_pos (by simp [begin])]
    simp only [Exit.added, List.countP_singleton, Action.isPermitted] at hcount
    simp at hcount
    omega
  | aborts hreleases hstarts =>
    rw [hstarts, if_pos rfl] at hwaiting
    rw [if_pos (by simp [requestAbort, hstarts])]
    simp [Exit.added, Action.isPermitted] at hcount
    omega
  | ends hreleases hrecording h =>
    rw [hrecording, if_neg (by decide)] at hwaiting
    simp [Exit.added, Action.isPermitted] at hcount
    omega
  | givesUp | records =>
    have hone := (starting_of_acts hk hacts).2.2
    simp [Exit.added, Action.isPermitted] at hcount
    omega

theorem Effect.hold (h : Effect s a reply s' x) :
    s'.hold = s.hold ∨ s.state = .idle ∧ s'.hold = s.hold + 1 := by
  cases h with
  | ignored | aborts => exact .inl rfl
  | begins hidle => exact .inr ⟨hidle, rfl⟩
  | ends _ _ h => exact .inl h.hold
  | givesUp h => exact .inl h.hold
  | records _ _ _ h => exact .inl h.hold

theorem Effect.added (h : Effect s a reply s' x) {n : Nat} {live : Bool}
    (hb : .permitted n live ∈ x.added) : n = s'.hold := by
  cases h with
  | begins hidle =>
    obtain ⟨rfl, _⟩ := Action.permitted.inj (List.mem_singleton.mp hb)
    rfl
  | ignored | aborts | ends | givesUp | records => cases hb

theorem kept_step {t : Step} (ht : (machine.observed noteReleased).step t.pre t.event = some t.post)
    (hk : Kept t.pre) (hfree : ¬t.Leaks) : Kept t.post := by
  rcases Machine.countP_step Action.isPermitted ht with ⟨call, he, hshared, hcount⟩ |
    ⟨a, reply, x, hacts, hexec, hcount⟩
  · have hpost : t.post = { t.pre with threads := t.pre.threads ++ [⟨[.call call], []⟩] } := by
      rw [he] at ht
      exact (Option.some.inj ht).symm
    rw [hpost]
    exact kept_start hk
  · obtain ⟨hrun, hnote⟩ := Machine.observed_exec hexec
    have heffect := exec_effect hrun
    refine ⟨?_, waiting_act hk hacts heffect hcount, fun n live h => ?_⟩
    · rw [hnote]
      refine sound_act heffect hk.sound (fun n live ha => ?_) fun hleaks =>
        hfree ⟨a, reply, hacts, hleaks⟩
      subst ha
      exact (starting_of_acts hk hacts).1
    · rcases Machine.toRun_step ht h with hold | ⟨call, he, _⟩ | ⟨b, reply', y, hacts', hexec', hb⟩
      · rcases heffect.hold with hsame | ⟨hidle, _⟩
        · rw [hsame]
          exact hk.numbered n live hold
        · have hpos := Config.countP_pos_of_toRun (p := Action.isPermitted) hold rfl
          have hwaiting := hk.waiting
          rw [hidle, if_neg (by decide)] at hwaiting
          omega
      · rw [he] at hacts
        cases hacts
      · cases hacts.symm.trans hacts'
        cases hexec.symm.trans hexec'
        exact heffect.added hb

/-- A leak is seen: the engine is idle after it, and not clean. -/
theorem not_clean_of_leaks {released : List Nat} (hsound : Sound s released)
    (hstarting : ∀ n live, a = .permitted n live → s.state = .starting)
    (heffect : Effect s a reply s' x)
    (hleaks : Leaks s a reply) : s'.state = .idle ∧ ¬Clean s' := by
  cases heffect with
  | ignored h =>
    cases hleaks with
    | ending hreleases hrecording => exact absurd ⟨hreleases, by simp [hrecording]⟩ h
  | begins hidle =>
    cases hleaks with
    | ending hreleases => cases hreleases
  | aborts _ hstarts =>
    cases hleaks with
    | ending _ hrecording => cases hstarts.symm.trans hrecording
  | ends hreleases hrecording h =>
    exact ⟨h.state, fun hclean => (h.clean_iff hsound hreleases hrecording).mp hclean hleaks⟩
  | givesUp h =>
    have hclean := hsound.clean (by simp [hstarting _ _ rfl])
    exact ⟨h.state, fun hclean' => (h.clean_iff hclean).mp hclean' hleaks⟩
  | records _ _ hbuilds =>
    cases hleaks with
    | recording _ _ _ hthrows => exact absurd hbuilds hthrows
    | session _ _ _ hthrows => exact absurd hbuilds hthrows
    | ending hreleases => cases hreleases

/-- A step leaves the microphone to its owner exactly where it does not leak. -/
theorem Step.owned_iff {t : Step}
    (ht : (machine.observed noteReleased).step t.pre t.event = some t.post)
    (hk : Kept t.pre) : Owned t ↔ ¬t.Leaks := by
  have heffect {a : Action} {reply : Reply} (hacts : t.pre.acts t.event = some (a, reply)) :
      ∃ x, exec t.pre.shared.1 a reply = some (t.post.shared.1, x) := by
    rcases Machine.countP_step Action.isPermitted ht with ⟨call, he, _⟩ |
      ⟨_, _, x, hacts', hexec, _⟩
    · rw [he] at hacts
      cases hacts
    · cases hacts.symm.trans hacts'
      exact ⟨x, (Machine.observed_exec hexec).1⟩
  constructor
  · rintro howned ⟨a, reply, hacts, hleaks⟩
    obtain ⟨x, hexec⟩ := heffect hacts
    obtain ⟨hidle, hdirty⟩ := not_clean_of_leaks hk.sound
      (fun n live ha => (@starting_of_acts reply _ _ n live hk (ha ▸ hacts)).1)
      (exec_effect hexec) hleaks
    exact hdirty (howned.idle hidle)
  · intro hfree
    have hk' := kept_step ht hk hfree
    have hflag (hrecording : t.post.shared.1.state = .recording) : t.post.shared.1.hold ∉
      t.post.shared.2 := by
      intro hmem
      have habort := (hk'.sound.released (by simp [hrecording])).mp hmem
      cases hrecording.symm.trans (hk'.sound.abort habort)
    refine ⟨?_, fun holdToken reply hacts hother => ?_, ?_,
      fun n live reply hacts hn hpermission hbuilds => ?_,
      fun hidle => hk'.sound.clean (by simp [hidle])⟩
    · have hwaiting := hk'.waiting
      by_cases hrecording : t.post.shared.1.state = .recording
      · rw [hrecording, if_neg (by decide)] at hwaiting
        rw [if_pos hrecording]
        omega
      · rw [if_neg hrecording]
        split at hwaiting
        · exact hwaiting
        · omega
    · obtain ⟨x, hexec⟩ := heffect hacts
      have hstop : (t.pre.shared.1.stop holdToken reply).1 = t.post.shared.1 :=
        congrArg Prod.fst (Option.some.inj hexec)
      rw [← hstop, stop, if_neg hother]
    · rintro n hn ⟨hrecording, rfl⟩
      exact hflag hrecording hn
    · obtain ⟨x, hexec⟩ := heffect hacts
      obtain ⟨hstarts, rfl, _⟩ := starting_of_acts hk hacts
      have hgo : ¬t.pre.shared.1.abortRequested := fun h =>
        hn ((hk.sound.released (by simp [hstarts])).mpr h)
      cases exec_effect hexec with
      | records _ _ _ h => exact ⟨h.state, h.hold⟩
      | givesUp h =>
        rcases h.leaves with ⟨hearly, _⟩ | ⟨⟨_, _, hthrows⟩, _⟩
        · simp [hpermission, hgo] at hearly
        · exact absurd hbuilds hthrows

/-- A hold owns the microphone in every step of a run exactly where no step leaks. -/
theorem holds_own_microphone (events : List (Event Call Reply)) :
    (∀ t ∈ steps events, Owned t) ↔ ∀ t ∈ steps events, ¬t.Leaks :=
  forall_trace_iff_of_kept Kept kept_new (fun _ ht hk => Step.owned_iff ht hk) fun _ ht hk =>
    kept_step ht hk

/-- All goes well until the engine does not start. -/
def deadEngine : Reply where
  permission := true
  setsCategory := true
  activates := true
  inputLive := true
  rebuiltInputLive := true
  formsTarget := true
  converts := true
  opensFile := true
  makesEncoder := true
  startsEngine := false
  url := 7
  sentFrames := 0
  contents := none
  deactivates := true
  removes := true

/-- The recording file stays, although the hold is over. -/
theorem hold_leaves_recording :
    ∃ t ∈ steps [.start (.start false 1), .step 0 deadEngine, .step 0 deadEngine],
      t.post.shared.1.state = .idle ∧ t.post.shared.1.files = [7] ∧ ¬Owned t := by
  refine ⟨_, List.mem_of_getElem? (i := 2) rfl, rfl, rfl, fun howned => ?_⟩
  exact absurd (howned.idle rfl).files (by decide)

end PTTCaptureEngine

end AeroNyra
