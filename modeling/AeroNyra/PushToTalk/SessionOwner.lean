import AeroNyra.PushToTalk.Hold
import AeroNyra.PushToTalk.Listener

/-! The audio session of the process.  The live push-to-talk sessions share it with the voice
notes, the stories, the calls and the capture of a hold, and whoever is done with it deactivates it
for everybody.  All of them but the capture ask first whether a push-to-talk session is live.  They
come and go with their screens, and a note or a recording that goes in the middle leaves the
session as it is. -/

namespace AeroNyra

open Interleave

/-! ### Those who use the session -/

namespace AVAudioSession

/-- Whether the session is active after `setActive`, which the system may refuse. -/
def setActive (requested granted active : Bool) : Bool := if granted then requested else active

/-- The session is handed back unless a push-to-talk session is live. -/
def handBack (isLive granted active : Bool) : Bool :=
  if isLive then active else setActive false granted active

end AVAudioSession

open AVAudioSession

namespace PTTSessionOwner

variable (owner : PTTSessionOwner) (active : Bool)

/-- `opened` and the audio session: the first session activates it, and an activation that throws
leaves no trace. -/
def openedWith (pttID : Data) (setsCategory activates : Bool) : PTTSessionOwner × Bool :=
  (owner.opened pttID (setsCategory && activates),
    if pttID ∉ owner.openSessions ∧ owner.openSessions = [] ∧ setsCategory && activates then true
      else active)

/-- `closed` and the audio session: the last session deactivates it. -/
def closedWith (pttID : Data) (deactivates : Bool) : PTTSessionOwner × Bool :=
  (owner.closed pttID,
    if pttID ∈ owner.openSessions ∧ (owner.closed pttID).openSessions = []
      then setActive false deactivates active
    else active)

/-- `interruptionBegan` and the audio session. -/
def interruptionBeganWith (deactivates : Bool) : PTTSessionOwner × Bool :=
  owner.openSessions.foldl (fun s pttID => closedWith s.1 s.2 pttID deactivates) (owner, active)

/-- What an operation does to the audio session: it goes live with it, hands it back as it lowers
the flag, or leaves both as they were. -/
inductive Does (granted : Bool) (p : PTTSessionOwner × Bool) : Prop
  | raises (hactive : p.2 = true) (hlive : p.1.isLive = true)
  | lowers (hactive : p.2 = setActive false granted active) (hlive : p.1.isLive = false)
  | leaves (hactive : p.2 = active) (hlive : p.1.isLive = owner.isLive)

variable {owner active}

theorem isLive_iff : owner.isLive = true ↔ owner.openSessions ≠ [] := by
  rw [owner.live]
  simp

theorem isLive_of_empty (h : owner.openSessions = []) : owner.isLive = false := by
  rw [owner.live, h]
  rfl

theorem openedWith_does (pttID : Data) (setsCategory activates granted : Bool) :
    Does owner active granted (owner.openedWith active pttID setsCategory activates) := by
  by_cases hmem : pttID ∈ owner.openSessions
  · have hsame : owner.opened pttID (setsCategory && activates) = owner := if_pos hmem
    exact .leaves (if_neg fun h => h.1 hmem) (congrArg isLive hsame)
  · by_cases hopen : owner.openSessions = []
    · cases htakes : setsCategory && activates with
      | true => exact .raises (if_pos ⟨hmem, hopen,
          htakes⟩) (by simp [openedWith, opened, hmem, htakes])
      | false =>
        exact .leaves (if_neg fun h => by simp [htakes] at h)
          (by simp [openedWith, opened, hopen, htakes])
    · have hjoins : (owner.opened pttID (setsCategory && activates)).isLive = true := by
        simp [opened, hmem, hopen]
      exact .leaves (if_neg fun h => hopen h.2.1) (hjoins.trans (isLive_iff.mpr hopen).symm)

theorem closedWith_does (pttID : Data) (deactivates : Bool) :
    Does owner active deactivates (owner.closedWith active pttID deactivates) := by
  by_cases hmem : pttID ∈ owner.openSessions
  · by_cases hlast : (owner.closed pttID).openSessions = []
    · exact .lowers (if_pos ⟨hmem, hlast⟩) (isLive_of_empty hlast)
    · have hbefore := isLive_iff.mpr (List.ne_nil_of_mem hmem)
      exact .leaves (if_neg fun h => hlast h.2) ((isLive_iff.mpr hlast).trans hbefore.symm)
  · have hsame : owner.closed pttID = owner := if_neg hmem
    exact .leaves (if_neg fun h => hmem h.1) (congrArg isLive hsame)

/-- Closing all that is open leaves nothing open, and the last of them hands the audio session
back, once. -/
theorem foldl_closedWith {ids : List Data} (hall : owner.openSessions ⊆ ids) (deactivates : Bool) :
    let s := ids.foldl (fun s pttID => closedWith s.1 s.2 pttID deactivates) (owner, active)
    s.1.openSessions = [] ∧ s.2 = if owner.openSessions = [] then active
      else setActive false deactivates active := by
  induction ids generalizing owner active with
  | nil =>
    have hempty : owner.openSessions = [] := List.subset_nil.mp hall
    exact ⟨hempty, (if_pos hempty).symm⟩
  | cons pttID ids ih =>
    have hrest : (owner.closed pttID).openSessions ⊆ ids := by
      intro j hj
      obtain ⟨hopen, hne⟩ := mem_closed.mp hj
      exact (List.mem_cons.mp (hall hopen)).resolve_left hne
    obtain ⟨hnone, hactive⟩ := @ih (owner.closed pttID)
      (owner.closedWith active pttID deactivates).2 hrest
    refine ⟨hnone, hactive.trans ?_⟩
    by_cases hmem : pttID ∈ owner.openSessions
    · rw [if_neg (List.ne_nil_of_mem hmem)]
      by_cases hlast : (owner.closed pttID).openSessions = []
      · rw [if_pos hlast]
        exact if_pos ⟨hmem, hlast⟩
      · rw [if_neg hlast, closedWith, if_neg fun h => hlast h.2]
    · have hsame : owner.closed pttID = owner := if_neg hmem
      have hkept : (owner.closedWith active pttID deactivates).2 = active :=
        if_neg fun h => hmem h.1
      rw [hsame, hkept]

theorem interruptionBeganWith_does (deactivates : Bool) :
    Does owner active deactivates (owner.interruptionBeganWith active deactivates) := by
  obtain ⟨hnone, hactive⟩ := @foldl_closedWith owner active _
    (List.Subset.refl owner.openSessions) deactivates
  by_cases hopen : owner.openSessions = []
  · exact .leaves (hactive.trans (if_pos hopen))
      ((isLive_of_empty hnone).trans (isLive_of_empty hopen).symm)
  · exact .lowers (hactive.trans (if_neg hopen)) (isLive_of_empty hnone)

/-- The owner is that of the interruption. -/
theorem interruptionBeganWith_fst (deactivates : Bool) :
    (owner.interruptionBeganWith active deactivates).1 = owner.interruptionBegan := by
  unfold interruptionBeganWith interruptionBegan
  generalize owner.openSessions = ids
  induction ids generalizing owner active with
  | nil => rfl
  | cons pttID ids ih => exact ih

end PTTSessionOwner

/-- A voice note in its bubble; `player` tells whether its clip could be read. -/
structure VoicePlayer where
  player : Bool
  isPlaying : Bool

namespace VoicePlayer

variable (p : VoicePlayer) (isLive active : Bool)

def play (activates : Bool) : VoicePlayer × Bool :=
  if p.player then ({ p with isPlaying := true }, setActive true activates active) else (p, active)

def pause (deactivates : Bool) : VoicePlayer × Bool :=
  ({ p with isPlaying := false }, handBack isLive deactivates active)

def toggle (granted : Bool) : VoicePlayer × Bool :=
  if p.isPlaying then p.pause isLive active granted else p.play active granted

/-- One turn of the loop that follows the clip, which has ended or not. -/
def tick (ended deactivates : Bool) : VoicePlayer × Bool :=
  if p.isPlaying && p.player && ended then
    ({ p with isPlaying := false }, handBack isLive deactivates active)
  else (p, active)

end VoicePlayer

/-- `waiting` counts the calls of `start` that wait for the permission. -/
structure VoiceRecorder where
  isRecording : Bool
  permissionDenied : Bool
  /-- The recorder and the URL of its file. -/
  recorder : Option UUID
  waiting : Nat

namespace VoiceRecorder

/-- The permission, and which statements of `start` succeed. -/
structure Reply where
  permission : Bool
  setsCategory : Bool
  activates : Bool
  makesRecorder : Bool
  url : UUID
  deactivates : Bool

variable (r : VoiceRecorder) (isLive active : Bool)

def reset : VoiceRecorder := { r with recorder := none }

def start : VoiceRecorder := if r.isRecording then r else { r with waiting := r.waiting + 1 }

/-- The rest of `start`. -/
def permitted (reply : Reply) : VoiceRecorder × Bool :=
  let r := { r with waiting := r.waiting - 1 }
  if reply.permission then
    let r := { r with permissionDenied := false }
    if !(reply.setsCategory && reply.activates)
      then (r.reset, handBack isLive reply.deactivates active)
    else if !reply.makesRecorder then (r.reset, handBack isLive reply.deactivates true)
    else ({ r with recorder := some reply.url, isRecording := true }, true)
  else ({ r with permissionDenied := true }, active)

def finish (deactivates : Bool) : VoiceRecorder × Bool :=
  (({ r with isRecording := false } : VoiceRecorder).reset, handBack isLive deactivates active)

/-- The third component is the clip, as it is read back from its file. -/
def stop (contents : UUID → Option Data) (deactivates : Bool) :
    VoiceRecorder × Bool × Option Data :=
  match r.isRecording, r.recorder with
  | true, some url =>
    (({ r with isRecording := false } : VoiceRecorder).reset, handBack isLive deactivates active,
      contents url)
  | _, _ => ((r.finish isLive active deactivates).1, (r.finish isLive active deactivates).2, none)

def cancel (deactivates : Bool) : VoiceRecorder × Bool :=
  if r.isRecording then
    (({ r with isRecording := false } : VoiceRecorder).reset, handBack isLive deactivates active)
  else (r, active)

end VoiceRecorder

/-- A view that takes the session for its clip and remembers that it did. -/
structure ManagedAudio where
  audioActive : Bool

namespace ManagedAudio

variable (v : ManagedAudio) (isLive active : Bool)

def activate (activates : Bool) : ManagedAudio × Bool :=
  if v.audioActive then (v, active) else (⟨true⟩, setActive true activates active)

def deactivate (deactivates : Bool) : ManagedAudio × Bool :=
  if v.audioActive then (⟨false⟩, handBack isLive deactivates active) else (v, active)

end ManagedAudio

namespace StoryViewer

def activateAudio : ManagedAudio → Bool → Bool → ManagedAudio × Bool := ManagedAudio.activate

def deactivateAudio : ManagedAudio → Bool → Bool → Bool → ManagedAudio × Bool :=
    ManagedAudio.deactivate

end StoryViewer

namespace StoryComposerView

def activatePreviewAudio : ManagedAudio → Bool → Bool → ManagedAudio × Bool := ManagedAudio.activate

def deactivatePreviewAudio : ManagedAudio → Bool → Bool → Bool → ManagedAudio × Bool :=
  ManagedAudio.deactivate

end StoryComposerView

structure WebRTCCallMedia where
  managesAudioSession : Bool
  isClosed : Bool

namespace WebRTCCallMedia

variable (m : WebRTCCallMedia) (isLive active : Bool)

/-- It runs after a wait, at the end of `makeAnswer` and of `start`. -/
def configureAudioSession (activates : Bool) : Bool :=
  if m.managesAudioSession then setActive true activates active else active

/-- The session is deactivated twice, through the wrapper of WebRTC and by itself. -/
def deactivateAudioSession (wrapperDeactivates deactivates : Bool) : Bool :=
  if m.managesAudioSession then
    handBack isLive deactivates (handBack isLive wrapperDeactivates active)
  else active

def close (wrapperDeactivates deactivates : Bool) : WebRTCCallMedia × Bool :=
  if m.isClosed then (m, active)
  else
    let m := { m with isClosed := true }
    (m, m.deactivateAudioSession isLive active wrapperDeactivates deactivates)

end WebRTCCallMedia

/-- Those who share the audio session with the live sessions. -/
inductive AudioParty
  | voicePlayer (p : VoicePlayer)
  | voiceRecorder (r : VoiceRecorder)
  | storyViewer (v : ManagedAudio)
  | storyComposer (v : ManagedAudio)
  | call (m : WebRTCCallMedia)
  | capture (e : PTTCaptureEngine)

namespace AudioParty

inductive Action
  | play (activates : Bool)
  | pause (deactivates : Bool)
  | toggle (granted : Bool)
  | tick (ended deactivates : Bool)
  | start
  | permitted (reply : VoiceRecorder.Reply)
  | stop (contents : UUID → Option Data) (deactivates : Bool)
  | cancel (deactivates : Bool)
  | activate (activates : Bool)
  | deactivate (deactivates : Bool)
  | configure (activates : Bool)
  | close (wrapperDeactivates deactivates : Bool)
  | capture (a : PTTCaptureEngine.Action) (reply : PTTCaptureEngine.Reply)

/-- The capture, whose session is that of the process, goes on after its permission only while it
starts. -/
def captured (active : Bool) (e : PTTCaptureEngine) (a : PTTCaptureEngine.Action)
    (reply : PTTCaptureEngine.Reply) : Option (AudioParty × Bool) :=
  if a.isPermitted → e.state = .starting then
    (PTTCaptureEngine.exec { e with sessionActive := active } a reply).map fun (e, _) =>
      (.capture e, e.sessionActive)
  else none

/-- The party and the audio session after an action; none where the party has no such action. -/
def step (isLive active : Bool) : AudioParty → Action → Option (AudioParty × Bool)
  | .voicePlayer p, .play activates => some ((p.play active activates).map .voicePlayer id)
  | .voicePlayer p, .pause deactivates =>
      some ((p.pause isLive active deactivates).map .voicePlayer id)
  | .voicePlayer p, .toggle granted => some ((p.toggle isLive active granted).map .voicePlayer id)
  | .voicePlayer p, .tick ended deactivates =>
    some ((p.tick isLive active ended deactivates).map .voicePlayer id)
  | .voiceRecorder r, .start => some (.voiceRecorder r.start, active)
  | .voiceRecorder r, .permitted reply =>
    if 0 < r.waiting then some ((r.permitted isLive active reply).map .voiceRecorder id) else none
  | .voiceRecorder r, .stop contents deactivates =>
    some ((r.stop isLive active contents deactivates).map .voiceRecorder Prod.fst)
  | .voiceRecorder r, .cancel deactivates =>
    some ((r.cancel isLive active deactivates).map .voiceRecorder id)
  | .storyViewer v, .activate activates =>
    some ((StoryViewer.activateAudio v active activates).map .storyViewer id)
  | .storyViewer v, .deactivate deactivates =>
    some ((StoryViewer.deactivateAudio v isLive active deactivates).map .storyViewer id)
  | .storyComposer v, .activate activates =>
    some ((StoryComposerView.activatePreviewAudio v active activates).map .storyComposer id)
  | .storyComposer v, .deactivate deactivates =>
    some ((StoryComposerView.deactivatePreviewAudio v isLive active deactivates).map
      .storyComposer id)
  | .call m, .configure activates => some (.call m, m.configureAudioSession active activates)
  | .call m, .close wrapperDeactivates deactivates =>
    some ((m.close isLive active wrapperDeactivates deactivates).map .call id)
  | .capture e, .capture a reply => captured active e a reply
  | _, _ => none

/-- What the screen of a party does as it goes: a story is torn down.  A note or a recording is let
go as it is. -/
def disappear (isLive active deactivates : Bool) : AudioParty → AudioParty × Bool
  | .storyViewer v => (StoryViewer.deactivateAudio v isLive active deactivates).map .storyViewer id
  | .storyComposer v => (StoryComposerView.deactivatePreviewAudio v isLive active deactivates).map
      .storyComposer id
  | p => (p, active)

/-- The party plays, records or holds a call. -/
def InUse : AudioParty → Prop
  | .voicePlayer p => p.isPlaying
  | .voiceRecorder r => r.isRecording
  | .storyViewer v | .storyComposer v => v.audioActive
  | .call m => m.managesAudioSession ∧ ¬m.isClosed
  | .capture e => e.state = .recording

end AudioParty

namespace PTTCaptureEngine

variable {s : PTTCaptureEngine} {a : Action} {reply : Reply}

/-- The capture deactivates the audio session: a hold ends, or its start throws. -/
def LetsGo (s : PTTCaptureEngine) (a : Action) (reply : Reply) : Prop :=
  reply.deactivates ∧ (a.releases s ∧ s.state = .recording ∨
    ∃ n live, a = .permitted n live ∧ reply.permission ∧ ¬s.abortRequested ∧ ¬reply.builds)

theorem not_letsGo_permitted {n : Nat} {live : Bool}
    (h : reply.permission = false ∨ s.abortRequested ∨ reply.builds) :
    ¬s.LetsGo (.permitted n live) reply := by
  rintro ⟨_, ⟨hreleases, _⟩ | ⟨_, _, _, hpermission, hgo, hbuilds⟩⟩
  · cases hreleases
  · rcases h with hdenied | habort | hbuilt
    · rw [hdenied] at hpermission
      cases hpermission
    · exact hgo habort
    · exact hbuilds hbuilt

theorem letsGo_call {call : Call} (h : s.LetsGo (.call call) reply) :
    (Action.call call).releases s ∧ s.state = .recording := by
  obtain ⟨_, h | ⟨_, _, hother, _⟩⟩ := h
  · exact h
  · cases hother

/-- What the capture does to an active session. -/
theorem active_of_effect {s' : PTTCaptureEngine} {x : Exit Action} (h : Effect s a reply s' x)
    (hactive : s.sessionActive = true) : s'.sessionActive = true ↔ ¬s.LetsGo a reply := by
  cases h with
  | ignored hignored =>
    refine iff_of_true hactive fun hlets => hignored ?_
    obtain ⟨hreleases, hrecording⟩ := letsGo_call hlets
    exact ⟨hreleases, by simp [hrecording]⟩
  | begins hidle =>
    refine iff_of_true hactive fun hlets => ?_
    cases (letsGo_call hlets).1
  | aborts hreleases hstarting =>
    refine iff_of_true hactive fun hlets => ?_
    cases hstarting.symm.trans (letsGo_call hlets).2
  | ends hreleases hrecording hended =>
    rw [hended.session, hactive, Bool.true_and, Bool.not_eq_true']
    constructor
    · rintro hkept ⟨hdeactivates, _⟩
      cases hkept.symm.trans hdeactivates
    · intro hnot
      cases hdeactivates : reply.deactivates with
      | false => rfl
      | true => exact absurd ⟨hdeactivates, .inl ⟨hreleases, hrecording⟩⟩ hnot
  | givesUp hgiven =>
    rcases hgiven.leaves with ⟨hearly, _, hsession, _⟩ | ⟨hthrows, _, hsession, _⟩
    · rw [hsession]
      exact iff_of_true hactive (not_letsGo_permitted (hearly.imp_right .inl))
    · rw [hsession, hactive, Bool.true_or, Bool.true_and, Bool.not_eq_true']
      constructor
      · rintro hkept ⟨hdeactivates, _⟩
        cases hkept.symm.trans hdeactivates
      · intro hnot
        cases hdeactivates : reply.deactivates with
        | false => rfl
        | true => exact absurd ⟨hdeactivates, .inr ⟨_, _, rfl, hthrows⟩⟩ hnot
  | records hpermission hgo hbuilds hrecorded =>
    exact iff_of_true hrecorded.session (not_letsGo_permitted (.inr (.inr hbuilds)))

end PTTCaptureEngine

namespace AudioParty

variable {p p' : AudioParty} {a : Action} {isLive active active' : Bool}

/-- Only the capture takes the session from a live one. -/
def LetsGo : AudioParty → Action → Prop
  | .capture e, .capture a reply => e.LetsGo a reply
  | _, _ => False

/-- The system grants what the action hands back. -/
def Action.Granted : Action → Bool
  | .pause deactivates | .tick _ deactivates | .stop _ deactivates | .cancel deactivates
  | .deactivate deactivates => deactivates
  | .toggle granted => granted
  | .permitted reply => reply.deactivates
  | .close wrapperDeactivates deactivates => wrapperDeactivates || deactivates
  | .capture _ reply => reply.deactivates
  | .play _ | .start | .activate _ | .configure _ => true

/-- A call that has ended takes the session for its audio. -/
def TooLate (p : AudioParty) (a : Action) : Prop :=
  ∃ m, p = .call m ∧ a = .configure true ∧ m.managesAudioSession ∧ m.isClosed

/-- What the others do to the session. -/
inductive Moves (isLive active : Bool) (p : AudioParty) (a : Action) (p' : AudioParty)
    (active' : Bool) : Prop
  | keeps (hactive : active' = active) (huse : p.InUse → p'.InUse)
  | takes (hactive : active = true → active' = true) (huse : p'.InUse)
  | handsBack {granted before : Bool} (hgranted : a.Granted = true → granted = true)
      (hbefore : active = true → before = true) (hactive : active' = handBack isLive granted before)
  | tooLate (hactive : active = true → active' = true) (hlate : p.TooLate a)

theorem active_setActive (granted : Bool) (h : active = true) :
    setActive true granted active = true := by
  rw [h, setActive]
  split <;> rfl

theorem Moves.of_eq {q : AudioParty} {b : Bool} (hmoves : Moves isLive active p a q b)
    (h : some (q, b) = some (p', active')) : Moves isLive active p a p' active' := by
  obtain ⟨rfl, rfl⟩ := Prod.mk.inj (Option.some.inj h)
  exact hmoves

theorem moves_play (q : VoicePlayer) (activates : Bool) : Moves isLive active (.voicePlayer q) a
    (.voicePlayer (q.play active activates).1) (q.play active activates).2 := by
  unfold VoicePlayer.play
  split
  · exact .takes (active_setActive activates) rfl
  · exact .keeps rfl id

theorem moves_toggle (q : VoicePlayer) (granted : Bool) : Moves isLive active (.voicePlayer q)
    (.toggle granted)
    (.voicePlayer (q.toggle isLive active granted).1) (q.toggle isLive active granted).2 := by
  unfold VoicePlayer.toggle
  split
  · exact .handsBack id id rfl
  · exact moves_play q granted

theorem moves_tick (q : VoicePlayer) (ended deactivates : Bool) :
    Moves isLive active (.voicePlayer q) (.tick ended deactivates)
      (.voicePlayer (q.tick isLive active ended deactivates).1)
      (q.tick isLive active ended deactivates).2 := by
  unfold VoicePlayer.tick
  split
  · exact .handsBack id id rfl
  · exact .keeps rfl id

theorem moves_start (r : VoiceRecorder) :
    Moves isLive active (.voiceRecorder r) .start (.voiceRecorder r.start) active := by
  refine .keeps rfl fun huse => ?_
  unfold VoiceRecorder.start
  split <;> exact huse

theorem moves_permitted (r : VoiceRecorder) (reply : VoiceRecorder.Reply) :
    Moves isLive active (.voiceRecorder r) (.permitted reply)
      (.voiceRecorder (r.permitted isLive active reply).1) (r.permitted isLive active reply).2 := by
  unfold VoiceRecorder.permitted
  dsimp only
  split
  · split
    · exact .handsBack id id rfl
    · split
      · exact .handsBack id (fun _ => rfl) rfl
      · exact .takes (fun _ => rfl) rfl
  · exact .keeps rfl id

theorem moves_stop (r : VoiceRecorder) (contents : UUID → Option Data) (deactivates : Bool) :
    Moves isLive active (.voiceRecorder r) (.stop contents deactivates)
      (.voiceRecorder (r.stop isLive active contents deactivates).1)
      (r.stop isLive active contents deactivates).2.1 := by
  unfold VoiceRecorder.stop
  split <;> exact .handsBack id id rfl

theorem moves_cancel (r : VoiceRecorder) (deactivates : Bool) :
    Moves isLive active (.voiceRecorder r) (.cancel deactivates)
      (.voiceRecorder (r.cancel isLive active deactivates).1)
      (r.cancel isLive active deactivates).2 := by
  unfold VoiceRecorder.cancel
  split
  · exact .handsBack id id rfl
  · exact .keeps rfl id

/-- The two views that manage their audio alike. -/
theorem moves_managed {party : ManagedAudio → AudioParty}
    (hparty : ∀ v, (party v).InUse ↔ v.audioActive) (v : ManagedAudio) (granted : Bool) :
    Moves isLive active (party v) (.activate granted) (party (v.activate active granted).1)
        (v.activate active granted).2 ∧
      Moves isLive active (party v) (.deactivate granted)
        (party (v.deactivate isLive active granted).1) (v.deactivate isLive active granted).2 := by
  unfold ManagedAudio.activate ManagedAudio.deactivate
  split
  · exact ⟨.keeps rfl id, .handsBack id id rfl⟩
  · exact ⟨.takes (active_setActive granted) ((hparty _).mpr rfl), .keeps rfl id⟩

theorem moves_configure (m : WebRTCCallMedia) (activates : Bool) :
    Moves isLive active (.call m) (.configure activates) (.call m)
      (m.configureAudioSession active activates) := by
  unfold WebRTCCallMedia.configureAudioSession
  split
  · rename_i hmanages
    by_cases hclosed : m.isClosed
    · cases activates with
      | false => exact .keeps rfl id
      | true => exact .tooLate (fun _ => rfl) ⟨m, rfl, rfl, hmanages, hclosed⟩
    · exact .takes (active_setActive activates) ⟨hmanages, hclosed⟩
  · exact .keeps rfl id

theorem moves_close (m : WebRTCCallMedia) (wrapperDeactivates deactivates : Bool) :
    Moves isLive active (.call m) (.close wrapperDeactivates deactivates)
      (.call (m.close isLive active wrapperDeactivates deactivates).1)
      (m.close isLive active wrapperDeactivates deactivates).2 := by
  unfold WebRTCCallMedia.close
  split
  · exact .keeps rfl id
  · dsimp only [WebRTCCallMedia.deactivateAudioSession]
    split
    · have honce : handBack isLive deactivates (handBack isLive wrapperDeactivates active) =
          handBack isLive (wrapperDeactivates || deactivates) active := by
        unfold handBack setActive
        cases isLive <;> cases wrapperDeactivates <;> cases deactivates <;> rfl
      exact .handsBack id id honce
    · rename_i hmanages
      exact .keeps rfl fun huse => absurd huse.1 hmanages

/-- Every party but the capture asks for the live flag before it hands the session back. -/
theorem moves_of_step (hcapture : ∀ e, p ≠ .capture e)
    (h : p.step isLive active a = some (p', active')) :
    Moves isLive active p a p' active' := by
  cases p with
  | voicePlayer q =>
    cases a with
    | play activates => exact (moves_play q activates).of_eq h
    | pause deactivates =>
      have hpause : Moves isLive active (.voicePlayer q) (.pause deactivates)
          (.voicePlayer { q with isPlaying := false }) (handBack isLive deactivates active) :=
        .handsBack id id rfl
      exact hpause.of_eq h
    | toggle granted => exact (moves_toggle q granted).of_eq h
    | tick ended deactivates => exact (moves_tick q ended deactivates).of_eq h
    | _ => cases h
  | voiceRecorder r =>
    cases a with
    | start => exact (moves_start r).of_eq h
    | permitted reply =>
      simp only [step] at h
      split at h
      · exact (moves_permitted r reply).of_eq h
      · cases h
    | stop contents deactivates => exact (moves_stop r contents deactivates).of_eq h
    | cancel deactivates => exact (moves_cancel r deactivates).of_eq h
    | _ => cases h
  | storyViewer v =>
    cases a with
    | activate activates => exact (moves_managed (fun _ => Iff.rfl) v activates).1.of_eq h
    | deactivate deactivates => exact (moves_managed (fun _ => Iff.rfl) v deactivates).2.of_eq h
    | _ => cases h
  | storyComposer v =>
    cases a with
    | activate activates => exact (moves_managed (fun _ => Iff.rfl) v activates).1.of_eq h
    | deactivate deactivates => exact (moves_managed (fun _ => Iff.rfl) v deactivates).2.of_eq h
    | _ => cases h
  | call m =>
    cases a with
    | configure activates => exact (moves_configure m activates).of_eq h
    | close wrapperDeactivates deactivates =>
        exact (moves_close m wrapperDeactivates deactivates).of_eq h
    | _ => cases h
  | capture e => exact absurd rfl (hcapture e)

/-- A step of the capture, with the session of the process as its own. -/
theorem captured_step {e : PTTCaptureEngine}
    (h : step isLive active (.capture e) a = some (p', active')) :
    ∃ b reply e' x, a = .capture b reply ∧ p' = .capture e' ∧ active' = e'.sessionActive ∧
      (b.isPermitted → e.state = .starting) ∧
      PTTCaptureEngine.Effect { e with sessionActive := active } b reply e' x := by
  cases a with
  | capture b reply =>
    simp only [step, captured] at h
    split at h
    · rename_i hstarting
      obtain ⟨⟨e', x⟩, hexec, heq⟩ := Option.map_eq_some_iff.mp h
      obtain ⟨rfl, rfl⟩ := Prod.mk.inj heq
      exact ⟨b, reply, e', x, rfl, rfl, rfl, hstarting, PTTCaptureEngine.exec_effect hexec⟩
    · cases h
  | _ => cases h

/-- While a session is live no other party than the capture ends it. -/
theorem step_live (h : p.step true true a = some (p', active')) : active' = true ↔ ¬p.LetsGo a := by
  by_cases hcapture : ∃ e, p = .capture e
  · obtain ⟨e, rfl⟩ := hcapture
    obtain ⟨b, reply, e', x, rfl, rfl, rfl, _, heffect⟩ := captured_step h
    have hends := PTTCaptureEngine.active_of_effect heffect rfl
    exact hends
  · have hother : ∀ e, p ≠ .capture e := fun e he => hcapture ⟨e, he⟩
    have hno : ¬p.LetsGo a := by
      cases p with
      | capture e => exact absurd rfl (hother e)
      | _ => exact id
    refine iff_of_true ?_ hno
    cases moves_of_step hother h with
    | keeps hactive => exact hactive
    | takes hactive => exact hactive rfl
    | handsBack _ hbefore hactive => exact hactive.trans (hbefore rfl)
    | tooLate hactive => exact hactive rfl

/-- A party that goes hands the session back, or leaves everything as it was. -/
theorem disappear_cases (p : AudioParty) (isLive active deactivates : Bool) :
    (p.disappear isLive active deactivates).2 = handBack isLive deactivates active ∨
      p.disappear isLive active deactivates = (p, active) := by
  have hmanaged (v : ManagedAudio) : (v.deactivate isLive active deactivates).2 =
    handBack isLive deactivates active ∨
      v.deactivate isLive active deactivates = (v, active) := by
    unfold ManagedAudio.deactivate
    split
    · exact .inl rfl
    · exact .inr rfl
  cases p with
  | storyViewer v => exact (hmanaged v).imp_right (congrArg (Prod.map AudioParty.storyViewer id))
  | storyComposer v => exact (hmanaged v).imp_right (congrArg
      (Prod.map AudioParty.storyComposer id))
  | _ => exact .inr rfl

end AudioParty

/-! ### The whole process -/

/-- The session of the process and everyone who uses it; `present` tells whose screen, or call, is
there. -/
structure SharedSession where
  active : Bool
  owner : PTTSessionOwner
  parties : Nat → AudioParty
  present : Nat → Bool

namespace SharedSession

inductive Event
  | opened (pttID : Data) (setsCategory activates : Bool)
  | closed (pttID : Data) (deactivates : Bool)
  /-- The system takes the session. -/
  | interrupted
  /-- The task that the notification of an interruption starts. -/
  | interruptionBegan (deactivates : Bool)
  /-- A session stack is built, with a new owner. -/
  | makeSessionStack
  | appears (i : Nat)
  | disappears (i : Nat) (deactivates : Bool)
  /-- Also of a party that is gone: what it had suspended goes on. -/
  | party (i : Nat) (action : AudioParty.Action)

variable (s : SharedSession)

/-- The owner and the session as an operation of the owner leaves them. -/
def own (p : PTTSessionOwner × Bool) : SharedSession := { s with owner := p.1, active := p.2 }

/-- None where a party has no such action. -/
def step : Event → Option SharedSession
  | .opened pttID setsCategory activates =>
    some (s.own (s.owner.openedWith s.active pttID setsCategory activates))
  | .closed pttID deactivates => some (s.own (s.owner.closedWith s.active pttID deactivates))
  | .interrupted => some { s with active := false }
  | .interruptionBegan deactivates =>
      some (s.own (s.owner.interruptionBeganWith s.active deactivates))
  | .makeSessionStack => some { s with owner := .new }
  | .appears i => some { s with present := Function.update s.present i true }
  | .disappears i deactivates =>
    let gone := (s.parties i).disappear s.owner.isLive s.active deactivates
    some { s with
      active := gone.2
      parties := Function.update s.parties i gone.1
      present := Function.update s.present i false }
  | .party i action =>
    ((s.parties i).step s.owner.isLive s.active action).map fun (party, active) =>
      { s with active, parties := Function.update s.parties i party }

def launch (parties : Nat → AudioParty) : SharedSession := ⟨false, .new, parties, fun _ => false⟩

/-- A party that is there plays, records or holds a call. -/
def InUse (i : Nat) : Prop := s.present i = true ∧ (s.parties i).InUse

/-- A step that takes the session from a live push-to-talk session. -/
inductive Cuts : Event → Prop
  | system (hlive : s.owner.isLive) : Cuts .interrupted
  | capture {i action} (hlive : s.owner.isLive) (hlets : (s.parties i).LetsGo action) : Cuts
      (.party i action)

/-- A step that leaves the session active though nobody may be there to hand it back. -/
inductive Leaks : Event → Prop
  /-- The system keeps a session that is handed back. -/
  | closed {pttID} : Leaks (.closed pttID false)
  | interruptionBegan : Leaks (.interruptionBegan false)
  | party {i action} (hrefused : action.Granted = false) : Leaks (.party i action)
  | disappears {i} : Leaks (.disappears i false)
  /-- A note or a recording goes with its screen. -/
  | abandoned {i deactivates}
      (huse : ((s.parties i).disappear s.owner.isLive s.active deactivates).1.InUse) :
      Leaks (.disappears i deactivates)
  /-- A party takes the session though its screen is gone: a story that was still loading, a
  recording that waited for the permission. -/
  | gone {i action party} (hgone : s.present i = false) (hidle : s.active = false)
      (htakes : (s.parties i).step s.owner.isLive s.active action = some (party, true)) :
      Leaks (.party i action)
  /-- A call that ended while it was being set up takes the session afterwards. -/
  | late {i action} (hlate : (s.parties i).TooLate action) : Leaks (.party i action)
  /-- The owner of a live session is replaced. -/
  | replaced (hlive : s.owner.isLive) : Leaks .makeSessionStack

/-- An active session is in use. -/
def Used : Prop := s.active = true → s.owner.isLive = true ∨ ∃ i, s.InUse i

variable {s s' : SharedSession} {e : Event}

@[simp] theorem own_owner (p : PTTSessionOwner × Bool) : (s.own p).owner = p.1 := rfl

@[simp] theorem own_active (p : PTTSessionOwner × Bool) : (s.own p).active = p.2 := rfl

theorem InUse.congr {i : Nat} (huse : s.InUse i) (hpresent : s'.present i = s.present i)
    (hparty : s'.parties i = s.parties i) : s'.InUse i :=
  ⟨hpresent.trans huse.1, hparty ▸ huse.2⟩

/-- What the owner does leaves a live session with the audio session. -/
theorem live_own {granted : Bool} {p : PTTSessionOwner × Bool}
    (hdoes : s.owner.Does s.active granted p)
    (hlive : s.owner.isLive = true → s.active = true) (hup : (s.own p).owner.isLive = true) :
    (s.own p).active = true := by
  cases hdoes with
  | raises hactive => exact hactive
  | lowers _ hdown => cases hdown.symm.trans hup
  | leaves hactive hsame => exact hactive.trans (hlive (hsame.symm.trans hup))

/-- One step leaves a live session with the audio session exactly when it does not cut it. -/
theorem live_step (h : s.step e = some s') (hlive : s.owner.isLive = true → s.active = true) :
    (s'.owner.isLive = true → s'.active = true) ↔ ¬s.Cuts e := by
  cases e with
  | opened pttID setsCategory activates =>
    obtain rfl := Option.some.inj h
    exact iff_of_true (live_own (PTTSessionOwner.openedWith_does pttID setsCategory activates true)
      hlive) (by rintro ⟨⟩)
  | closed pttID deactivates =>
    obtain rfl := Option.some.inj h
    exact iff_of_true (live_own (PTTSessionOwner.closedWith_does pttID deactivates) hlive)
      (by rintro ⟨⟩)
  | interrupted =>
    obtain rfl := Option.some.inj h
    constructor
    · rintro hkept ⟨hup⟩
      cases hkept hup
    · intro hnot hup
      exact absurd (.system hup) hnot
  | interruptionBegan deactivates =>
    obtain rfl := Option.some.inj h
    exact iff_of_true (live_own (PTTSessionOwner.interruptionBeganWith_does deactivates) hlive)
      (by rintro ⟨⟩)
  | makeSessionStack =>
    obtain rfl := Option.some.inj h
    exact iff_of_true (fun hup => by cases hup) (by rintro ⟨⟩)
  | appears i =>
    obtain rfl := Option.some.inj h
    exact iff_of_true hlive (by rintro ⟨⟩)
  | disappears i deactivates =>
    obtain rfl := Option.some.inj h
    refine iff_of_true (fun hup => ?_) (by rintro ⟨⟩)
    change s.owner.isLive = true at hup
    change ((s.parties i).disappear s.owner.isLive s.active deactivates).2 = true
    rw [hup, hlive hup]
    rcases (s.parties i).disappear_cases true true deactivates with hback | hsame
    · exact hback
    · rw [hsame]
  | party i action =>
    obtain ⟨⟨party, active⟩, hstep, rfl⟩ := Option.map_eq_some_iff.mp h
    by_cases hup : s.owner.isLive = true
    · rw [hup, hlive hup] at hstep
      have hends := AudioParty.step_live hstep
      constructor
      · rintro hkept (_ | ⟨_, hlets⟩)
        exact hends.mp (hkept hup) hlets
      · intro hnot _
        exact hends.mpr fun hlets => hnot (.capture hup hlets)
    · refine iff_of_true (fun hlater => absurd hlater hup) ?_
      rintro (_ | ⟨hlater, _⟩)
      exact hup hlater

/-- In every run, a live session has the audio session at each step exactly when no step cuts it:
no hold of the capture ends under it, and the system does not take the session from it. -/
theorem live_session_kept (parties : Nat → AudioParty) (events : List Event) :
    (∀ t ∈ trace step (launch parties) events, t.post.owner.openSessions ≠ [] →
      t.post.active = true) ↔ ∀ t ∈ trace step (launch parties) events, ¬t.pre.Cuts t.event := by
  simp only [← PTTSessionOwner.isLive_iff]
  refine forall_trace_iff_of_kept (fun s => s.owner.isLive = true → s.active = true) ?_ ?_ ?_
  · rintro ⟨⟩
  · intro t hstep hlive
    exact live_step hstep hlive
  · intro t hstep hlive hcuts
    exact (live_step hstep hlive).mpr hcuts

end SharedSession

end AeroNyra
