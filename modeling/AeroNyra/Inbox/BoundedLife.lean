import AeroNyra.Inbox.Acknowledged
import AeroNyra.Inbox.Ephemerality

/-! How long the blob of a received photo, video or story lives.  The window runs from the arrival,
whatever the manifest says, and the row that survives its blob keeps a replay of the transfer out:
as long as the store answers, and the wiping of the blob is saved before the app stops. -/

namespace AeroNyra

open MediaEphemeralityPolicy

namespace SessionEvent

/-- How long the blob of a transfer may live.  Nothing bounds the life of a voice note that nobody
listens to. -/
def window? : SessionEvent → Option Int
  | received .. => none
  | receivedMedia _ done _ =>
    if done.isStory then some storyWindow
    else
      match done.mime with
      | .jpeg | .mp4 => some photoWindow
      | .m4a => none

/-- The row that the inbox made of the event at its arrival, but for the marks of a transcript and
the blob. -/
def Made (event : SessionEvent) (arrival : Date) (m : Message) : Prop :=
  ∃ isRead listenedAt mediaData, m = { event.message arrival with isRead, listenedAt, mediaData }

variable {event : SessionEvent} {arrival now : Date} {m : Message}

theorem made_message (event : SessionEvent) (arrival : Date) :
    event.Made arrival (event.message arrival) :=
  ⟨_, _, _, rfl⟩

theorem Made.inbound (h : event.Made arrival m) : m.isOutbound = false := by
  obtain ⟨isRead, listenedAt, mediaData, rfl⟩ := h
  cases event <;> rfl

theorem Made.wireID (h : event.Made arrival m) : m.wireID = some event.wireID := by
  obtain ⟨isRead, listenedAt, mediaData, rfl⟩ := h
  cases event <;> rfl

theorem Made.marked (h : event.Made arrival m) (isRead : Bool) (listenedAt : Option Date) :
    event.Made arrival { m with isRead, listenedAt } := by
  obtain ⟨_, _, mediaData, rfl⟩ := h
  exact ⟨isRead, listenedAt, mediaData, rfl⟩

theorem Made.wiped (h : event.Made arrival m) :
    event.Made arrival { m with mediaData := none } := by
  obtain ⟨isRead, listenedAt, _, rfl⟩ := h
  exact ⟨isRead, listenedAt, none, rfl⟩

theorem Made.reaped (h : event.Made arrival m) (now : Date) :
    event.Made arrival (m.reaped now) := by
  rcases m.reaped_cases now with ⟨_, _, heq⟩ | heq
  · rw [heq]
    exact h.wiped
  · rwa [heq]

/-- A photo, a video or a story has a kind. -/
theorem Made.mediaMime (h : event.Made arrival m) {window : Int}
    (hwindow : event.window? = some window) :
    m.mediaMime.isSome := by
  obtain ⟨isRead, listenedAt, mediaData, rfl⟩ := h
  cases event with
  | received => cases hwindow
  | receivedMedia => rfl

/-- The blob is expired when its window has passed since the arrival: a story counts from the stamp
of its manifest, which is taken for the arrival when it lies after it. -/
theorem Made.expired (h : event.Made arrival m) {window : Int}
    (hwindow : event.window? = some window) (hdue : window ≤ now - arrival) : m.isExpired now := by
  obtain ⟨isRead, listenedAt, mediaData, rfl⟩ := h
  cases event with
  | received => cases hwindow
  | receivedMedia peerKey done wireID =>
    have hlate {anchor : Int} (hanchor : anchor ≤ arrival) : window ≤ now - anchor :=
      Int.le_trans hdue (Int.sub_le_sub_left hanchor now)
    simp only [window?] at hwindow
    unfold Message.isExpired MediaEphemeralityPolicy.isExpired
    split at hwindow
    · rename_i hstory
      obtain rfl := Option.some.inj hwindow
      simp only [message, hstory, if_true, Option.getD_some]
      exact decide_eq_true (hlate (min_le_right _ _))
    · rename_i hstory
      simp only [message, hstory]
      split at hwindow
      · rename_i hmime
        obtain rfl := Option.some.inj hwindow
        simp only [hmime]
        exact decide_eq_true hdue
      · rename_i hmime
        obtain rfl := Option.some.inj hwindow
        simp only [hmime]
        exact decide_eq_true hdue
      · cases hwindow

/-- A pass of the reaper at the end of the window leaves no blob. -/
theorem Made.taken (h : event.Made arrival m) {window : Int} (hwindow : event.window? = some window)
    (hdue : window ≤ now - arrival) : (m.reaped now).mediaData = none := by
  cases hblob : m.mediaData with
  | none =>
    rcases m.reaped_cases now with ⟨_, _, heq⟩ | heq
    · rw [heq]
    · rwa [heq]
  | some data =>
    have hreapable : m.isReapable := by simp [Message.isReapable, hblob, h.inbound]
    have hexpired := h.expired hwindow hdue
    have heq : m.reaped now = { m with mediaData := none } := if_pos (by simp [hreapable, hexpired])
    rw [heq]

end SessionEvent

/-- No blob is in the row. -/
def Rows.Lacks (rows : Rows) (row : UUID) : Prop := ∀ m, rows.lookup row = some m →
    m.mediaData = none

namespace Receiver

open Interleave

/-- An event of the device, or a pass of its reaper at any reading of the clock.  A pass whose fetch
fails takes nothing.  The save that follows is an event of its own. -/
inductive Turn
  | event (e : Event)
  | reapExpiredMedia (now : Date) (fetched : Bool)

variable (rawKeyOf : Data → Option Data) (hashHex : Data → String)
  (decodeManifest : Data → Option MediaManifest) (launch : Node) (s : Receiver)

/-- The identifier of a fresh row is no other row's, on disk either. -/
def turn : Turn → Option Receiver
  | .event (.take row now counted) =>
    if (s.store.lookup row).isNone then
      s.step rawKeyOf hashHex decodeManifest launch (.take row now counted)
    else none
  | .event e => s.step rawKeyOf hashHex decodeManifest launch e
  | .reapExpiredMedia now fetched =>
    some { s with context := if fetched then s.context.reapExpiredMedia now else s.context }

abbrev Stage := Transition Receiver Turn

/-- The steps of a run over any number of launches, the first of which found `store`. -/
def stages (store : Rows) (turns : List Turn) : List Stage :=
  trace (turn rawKeyOf hashHex decodeManifest launch) (start launch store) turns

/-- The row is there. -/
def Has (row : UUID) : Prop := (s.context.lookup row).isSome

/-- The event that the inbox takes next. -/
def next : Option SessionEvent := s.node.shared.events[s.taken]?

/-- The inbox makes a row of the event, which arrives at `arrival`. -/
def Stage.Creates (t : Stage) (row : UUID) (event : SessionEvent) (arrival : Date) : Prop :=
  ∃ counted, t.event = .event (.take row arrival counted) ∧ t.pre.next = some event ∧
    t.pre.context.lookup row = none ∧ t.post.context.lookup row = some (event.message arrival)

/-- The inbox makes a row of a transfer with the identifier. -/
def Stage.Rematerializes (t : Stage) (id : MessageID) : Prop :=
  ∃ row event arrival, t.Creates row event arrival ∧ event.media.isSome ∧ event.wireID = id

/-- The blob of a received photo, video or story does not outlive its window: the first pass of the
reaper from then on takes it, and while the row is there, nothing brings it back, neither into the
row, nor into the row on disk, nor into another row. -/
def Bounded (steps : List Stage) : Prop :=
  ∀ (before : List Stage) (c : Stage) (kept : List Stage) (r : Stage) (after : List Stage)
    row event arrival window now fetched,
    steps = before ++ c :: (kept ++ r :: after) → c.Creates row event arrival →
    event.window? = some window → (∀ u ∈ kept, u.post.Has row) →
    r.event = .reapExpiredMedia now fetched → window ≤ now - arrival →
    r.post.Has row ∧ r.post.context.Lacks row ∧
    ∀ (later : List Stage) (u : Stage) (rest : List Stage), after = later ++ u :: rest →
      (∀ v ∈ later, v.post.Has row) → u.post.Has row →
      u.post.context.Lacks row ∧ (u.pre.store.Lacks row → u.post.store.Lacks row) ∧
        ¬u.Rematerializes event.wireID

/-! ### Where the store fails the inbox -/

/-- A received row of which the blob is gone. -/
def isWiped (m : Message) : Bool := !m.isOutbound && m.isTombstone

/-- The inbox takes a transfer of which it has the row, without the blob, and fails to find the
row. -/
def miscounts : Turn → Bool
  | .event (.take _ _ false) => s.next.any fun event =>
    event.media.isSome && s.context.pairs.any fun p => isWiped p.2 &&
      p.2.wireID == some event.wireID
  | _ => false

/-- The app stops while a row on disk has a blob that is wiped. -/
def restores : Turn → Bool
  | .event .relaunch => s.context.pairs.any fun p =>
    isWiped p.2 && (s.store.lookup p.1).any (·.mediaData.isSome)
  | _ => false

/-- The fetch of the reaper fails while a received blob is due. -/
def skips : Turn → Bool
  | .reapExpiredMedia now false => s.context.pairs.any fun p =>
    !p.2.isOutbound && p.2.isReapable && p.2.isExpired now
  | _ => false

/-- The store fails the inbox: it does not count, does not fetch, or has not been written to. -/
def fails (e : Turn) : Bool := s.miscounts e || s.restores e || s.skips e

/-! ### What a turn does to a received row -/

/-- What becomes of a received row that stays in the context. -/
inductive Becomes (m : Message) : Message → Prop
  | marked (isRead : Bool) (listenedAt : Option Date) : Becomes m { m with isRead, listenedAt }
  | wiped : Becomes m { m with mediaData := none }

variable {rawKeyOf hashHex decodeManifest launch} {s s' : Receiver} {e : Turn} {row : UUID}
    {m : Message}

theorem becomes_refl (m : Message) : Becomes m m := .marked m.isRead m.listenedAt

/-- A received row that is still there is the one that was, or the one that a launch found on
disk. -/
theorem row_turn (h : turn rawKeyOf hashHex decodeManifest launch s e = some s')
    (hrow : s.context.lookup row = some m) (hin : m.isOutbound = false) (hhas : s'.Has row) :
    ∃ m', s'.context.lookup row = some m' ∧
      (Becomes m m' ∨ e = .event .relaunch ∧ s.store.lookup row = some m') := by
  have hsame (hcontext : s'.context.lookup row = s.context.lookup row) :
      ∃ m', s'.context.lookup row = some m' ∧
        (Becomes m m' ∨ e = .event .relaunch ∧ s.store.lookup row = some m') :=
    ⟨m, hcontext.trans hrow, .inl (becomes_refl m)⟩
  have hfresh {other : UUID} {new : Message} (hother : s.context.lookup other = none) :
      AList.lookup row (AList.insert other new s.context) = s.context.lookup row := by
    rw [Dict.lookup_insert, if_neg]
    rintro rfl
    cases hother.symm.trans hrow
  have hmodify (other : UUID) (f : Message → Message) (hf : Becomes m (f m)) :
      ∃ m', AList.lookup row (s.context.modify other f) = some m' ∧ Becomes m m' := by
    rw [Dict.lookup_modify]
    split
    · exact ⟨f m, by rw [← ‹row = other›, hrow]; rfl, hf⟩
    · exact ⟨m, hrow, becomes_refl m⟩
  cases e with
  | reapExpiredMedia now fetched =>
    cases h
    cases fetched with
    | false => exact hsame rfl
    | true =>
      refine ⟨m.reaped now, ?_, .inl ?_⟩
      · show (s.context.reapExpiredMedia now).lookup row = _
        rw [Rows.lookup_reapExpiredMedia, hrow, Option.map_some]
      · rcases m.reaped_cases now with ⟨_, _, heq⟩ | heq
        · rw [heq]
          exact .wiped
        · rw [heq]
          exact becomes_refl m
  | event e =>
    cases e with
    | node e =>
      obtain ⟨node, _, rfl⟩ := Option.map_eq_some_iff.mp h
      exact hsame rfl
    | take other now counted =>
      simp only [turn] at h
      split at h
      · obtain ⟨event, _, hhandle⟩ := Option.bind_eq_some_iff.mp h
        rcases handle_cases hhandle with ⟨_, rfl⟩ | ⟨_, hother, rfl⟩
        · exact hsame rfl
        · exact hsame (hfresh hother)
      · cases h
    | save =>
      cases h
      exact hsame rfl
    | writeOutbound other new =>
      simp only [turn, step] at h
      split at h
      · rename_i hguard
        cases h
        refine hsame ?_
        rw [Dict.lookup_insert, if_neg]
        rintro rfl
        simp [hrow, hin] at hguard
      · cases h
    | recordMissedCall other peer now =>
      obtain ⟨hother, rfl⟩ := insert_eq_some h
      exact hsame (hfresh hother)
    | mark other isRead listenedAt =>
      cases h
      obtain ⟨m', hm', hbecomes⟩ := hmodify other ({ · with isRead, listenedAt })
        (.marked isRead listenedAt)
      exact ⟨m', hm', .inl hbecomes⟩
    | delete other =>
      cases h
      obtain ⟨m', hm'⟩ := Option.isSome_iff_exists.mp hhas
      have hm' : AList.lookup row (AList.erase other s.context) = some m' := hm'
      rw [Dict.lookup_erase] at hm'
      split at hm'
      · cases hm'
      · refine hsame ?_
        rw [Dict.lookup_erase, if_neg ‹_›]
    | reap other =>
      cases h
      obtain ⟨m', hm', hbecomes⟩ := hmodify other ({ · with mediaData := none }) .wiped
      exact ⟨m', hm', .inl hbecomes⟩
    | relaunch =>
      cases h
      obtain ⟨m', hm'⟩ := Option.isSome_iff_exists.mp hhas
      exact ⟨m', hm', .inr ⟨rfl, hm'⟩⟩
    | wipe =>
      cases h
      cases hhas

/-- A row on disk was there, or has just been saved. -/
theorem store_turn (h : turn rawKeyOf hashHex decodeManifest launch s e = some s')
    (hrow : s'.store.lookup row = some m) :
    s.store.lookup row = some m ∨ e = .event .save ∧ s.context.lookup row = some m := by
  cases e with
  | reapExpiredMedia now fetched =>
    cases h
    exact .inl hrow
  | event e =>
    have hstep : s.step rawKeyOf hashHex decodeManifest launch e = some s' := by
      cases e with
      | take other now counted =>
        simp only [turn] at h
        split at h
        · exact h
        · cases h
      | node | save | writeOutbound | recordMissedCall | mark | delete | reap | relaunch | wipe =>
          exact h
    by_cases hsave : e = .save
    · subst hsave
      cases hstep
      exact .inr ⟨rfl, hrow⟩
    · by_cases hwipe : e = .wipe
      · subst hwipe
        cases hstep
        cases hrow
      · rw [store_step hstep hsave hwipe] at hrow
        exact .inl hrow

theorem Becomes.made {m' : Message} {event : SessionEvent} {arrival : Date} (h : Becomes m m')
    (hm : event.Made arrival m) : event.Made arrival m' := by
  cases h with
  | marked isRead listenedAt => exact hm.marked isRead listenedAt
  | wiped => exact hm.wiped

theorem Becomes.lacks {m' : Message} (h : Becomes m m') (hm : m.mediaData = none) :
    m'.mediaData = none := by
  cases h with
  | marked => exact hm
  | wiped => rfl

/-- The row is the one that the inbox made of the event, in the context and on disk. -/
structure Keeps (event : SessionEvent) (arrival : Date) (row : UUID) (s : Receiver) : Prop where
  context : ∃ m, s.context.lookup row = some m ∧ event.Made arrival m
  store : ∀ m, s.store.lookup row = some m → event.Made arrival m

variable {event : SessionEvent} {arrival : Date}

theorem keeps_created {t : Stage}
    (h : turn rawKeyOf hashHex decodeManifest launch t.pre t.event = some t.post)
    (hcreates : t.Creates row event arrival) : Keeps event arrival row t.post := by
  obtain ⟨counted, he, _, _, hpost⟩ := hcreates
  refine ⟨⟨_, hpost, SessionEvent.made_message event arrival⟩, fun m hm => ?_⟩
  rw [he] at h
  rcases store_turn h hm with hold | ⟨hsave, _⟩
  · simp only [turn, hold] at h
    cases h
  · cases hsave

theorem keeps_turn (h : turn rawKeyOf hashHex decodeManifest launch s e = some s')
    (hs : Keeps event arrival row s) (hhas : s'.Has row) : Keeps event arrival row s' := by
  obtain ⟨m, hrow, hm⟩ := hs.context
  constructor
  · obtain ⟨m', hrow', hbecomes | ⟨_, hstored⟩⟩ := row_turn h hrow hm.inbound hhas
    · exact ⟨m', hrow', hbecomes.made hm⟩
    · exact ⟨m', hrow', hs.store m' hstored⟩
  · intro m' hm'
    rcases store_turn h hm' with hold | ⟨_, hsaved⟩
    · exact hs.store m' hold
    · obtain rfl := Option.some.inj (hrow.symm.trans hsaved)
      exact hm

/-- A pass after the window leaves the row without its blob, unless its fetch fails. -/
theorem lacks_reaped {now : Date} {fetched : Bool} {window : Int}
    (h : turn rawKeyOf hashHex decodeManifest launch s (.reapExpiredMedia now fetched) = some s')
    (hs : Keeps event arrival row s) (hskips : ¬s.skips (.reapExpiredMedia now fetched))
    (hwindow : event.window? = some window) (hdue : window ≤ now - arrival) :
    s'.Has row ∧ s'.context.Lacks row := by
  obtain ⟨m, hrow, hm⟩ := hs.context
  cases h
  cases fetched with
  | true =>
    have hreaped : (s.context.reapExpiredMedia now).lookup row = some (m.reaped now) := by
      rw [Rows.lookup_reapExpiredMedia, hrow, Option.map_some]
    refine ⟨by rw [Has, if_pos rfl, hreaped]; rfl, fun m' hm' => ?_⟩
    rw [if_pos rfl, hreaped] at hm'
    rw [← Option.some.inj hm']
    exact hm.taken hwindow hdue
  | false =>
    refine ⟨by rw [Has, if_neg Bool.false_ne_true, hrow]; rfl, fun m' hm' => ?_⟩
    rw [if_neg Bool.false_ne_true, hrow] at hm'
    obtain rfl := Option.some.inj hm'
    by_contra hblob
    have hmem : (row, m) ∈ s.context.pairs := Dict.mem_pairs.mpr hrow
    refine hskips (List.any_eq_true.mpr ⟨_, hmem, ?_⟩)
    simp [hm.inbound, Message.isReapable, hm.expired hwindow hdue, Option.isSome_iff_ne_none, hblob]

/-- A row without its blob stays so, if no launch finds it with its blob on disk. -/
theorem lacks_turn (h : turn rawKeyOf hashHex decodeManifest launch s e = some s')
    (hs : Keeps event arrival row s) (hhas : s'.Has row) (hlacks : s.context.Lacks row)
    (hkind : ∀ m, s.context.lookup row = some m → m.mediaMime.isSome) (hrestores : ¬s.restores e) :
    s'.context.Lacks row := by
  intro m' hm'
  obtain ⟨m, hrow, hm⟩ := hs.context
  obtain ⟨m'', hrow', hcases⟩ := row_turn h hrow hm.inbound hhas
  obtain rfl := Option.some.inj (hrow'.symm.trans hm')
  rcases hcases with hbecomes | ⟨rfl, hstored⟩
  · exact hbecomes.lacks (hlacks m hrow)
  · by_contra hblob
    have hmem : (row, m) ∈ s.context.pairs := Dict.mem_pairs.mpr hrow
    refine hrestores (List.any_eq_true.mpr ⟨_, hmem, ?_⟩)
    simp [isWiped, Message.isTombstone, hm.inbound, hkind m hrow, hlacks m hrow, hstored,
      Option.isSome_iff_ne_none, hblob]

/-- While the row is there without its blob, its transfer is not stored again. -/
theorem not_rematerializes {t : Stage}
    (h : turn rawKeyOf hashHex decodeManifest launch t.pre t.event = some t.post)
    (hs : Keeps event arrival row t.pre) (hlacks : t.pre.context.Lacks row)
    (hkind : ∀ m, t.pre.context.lookup row = some m → m.mediaMime.isSome)
    (hmiscounts : ¬t.pre.miscounts t.event) : ¬t.Rematerializes event.wireID := by
  rintro ⟨other, again, now, ⟨counted, he, hnext, hfresh, hpost⟩, hmedia, hid⟩
  obtain ⟨m, hrow, hm⟩ := hs.context
  have hmem : (row, m) ∈ t.pre.context.pairs := Dict.mem_pairs.mpr hrow
  have hwire : m.wireID = some again.wireID := by rw [hm.wireID, hid]
  have hstored : t.pre.context.alreadyStored again.wireID :=
    List.any_eq_true.mpr ⟨_, hmem, by simp [hwire]⟩
  rw [he] at h hmiscounts
  simp only [turn] at h
  split at h
  · obtain ⟨taken, htaken, hhandle⟩ := Option.bind_eq_some_iff.mp h
    obtain rfl := Option.some.inj (hnext.symm.trans htaken)
    rcases handle_cases hhandle with ⟨_, heq⟩ | ⟨hcount, _⟩
    · rw [heq] at hpost
      cases hfresh.symm.trans hpost
    · rw [hstored, Bool.and_true] at hcount
      subst hcount
      apply hmiscounts
      simp only [miscounts, hnext, Option.any_some, hmedia, Bool.true_and]
      refine List.any_eq_true.mpr ⟨_, hmem, ?_⟩
      simp [isWiped, Message.isTombstone, hm.inbound, hkind m hrow, hlacks m hrow, hwire]
  · cases h

theorem not_fails (h : ¬s.fails e) : ¬s.miscounts e ∧ ¬s.restores e ∧ ¬s.skips e := by
  simp only [fails, Bool.or_eq_true, not_or] at h
  exact ⟨h.1.1, h.1.2, h.2⟩

/-- In every run over any number of launches in which the store does not fail the inbox: whatever
the manifest of a photo, a video or a story says, its blob is gone with the first pass of the
reaper after the window that begins with its arrival, and no replay of the transfer brings it back
while the row is there. -/
theorem bounded_life (rawKeyOf : Data → Option Data) (hashHex : Data → String)
    (decodeManifest : Data → Option MediaManifest) (launch : Node) (store : Rows)
    (turns : List Turn)
    (hfails : ∀ t ∈ stages rawKeyOf hashHex decodeManifest launch store turns,
      ¬t.pre.fails t.event) :
    Bounded (stages rawKeyOf hashHex decodeManifest launch store turns) := by
  intro before c kept r after row event arrival window now fetched heq hcreates hwindow hkept hr
    hdue
  have hmem {t : Stage} (ht : t ∈ c :: (kept ++ r :: after)) :
      turn rawKeyOf hashHex decodeManifest launch t.pre t.event = some t.post ∧
        ¬t.pre.fails t.event := by
    have ht : t ∈ stages rawKeyOf hashHex decodeManifest launch store turns := by
      rw [heq]
      exact List.mem_append_right before ht
    exact ⟨step_of_mem_trace ht, hfails t ht⟩
  have hlater {t : Stage} (ht : t ∈ r :: after) : t ∈ c :: (kept ++ r :: after) :=
    List.mem_cons_of_mem c (List.mem_append_right kept ht)
  have hcreated := keeps_created (hmem List.mem_cons_self).1 hcreates
  -- the row stays the one that was created, up to the pass
  obtain ⟨fs, hfs⟩ := trace_of_trace_eq heq
  have hpass : Keeps event arrival row r.pre := invariant_before (Keeps event arrival row)
    (fun t => t.post.Has row) (fun t ht hhas hs => keeps_turn ht hs hhas) hcreated hfs hkept
  obtain ⟨hstep, hmeets⟩ := hmem (hlater List.mem_cons_self)
  have htaken : r.post.Has row ∧ r.post.context.Lacks row := by
    rw [hr] at hstep hmeets
    exact lacks_reaped hstep hpass (not_fails hmeets).2.2 hwindow hdue
  refine ⟨htaken.1, htaken.2, fun later u rest hafter hlast hhas => ?_⟩
  -- from the pass on it stays without its blob
  obtain ⟨gs, hgs⟩ := trace_of_trace_eq hfs
  have hkind {s : Receiver} (hs : Keeps event arrival row s) (m : Message)
      (hrow : s.context.lookup row = some m) : m.mediaMime.isSome := by
    obtain ⟨m', hrow', hm'⟩ := hs.context
    obtain rfl := Option.some.inj (hrow'.symm.trans hrow)
    exact hm'.mediaMime hwindow
  have hpre : Keeps event arrival row u.pre ∧ u.pre.context.Lacks row := by
    refine invariant_before (fun s => Keeps event arrival row s ∧ s.context.Lacks row)
      (fun t => t.post.Has row ∧ ¬t.pre.fails t.event) (fun t ht hC hs => ?_)
      ⟨keeps_turn hstep hpass htaken.1, htaken.2⟩ (hgs.trans hafter) fun v hv => ?_
    · exact ⟨keeps_turn ht hs.1 hC.1, lacks_turn ht hs.1 hC.1 hs.2 (hkind hs.1)
        (not_fails hC.2).2.1⟩
    · refine ⟨hlast v hv, (hmem (hlater (List.mem_cons_of_mem r ?_))).2⟩
      rw [hafter]
      exact List.mem_append_left _ hv
  have hu : u ∈ r :: after := by
    rw [hafter]
    exact List.mem_cons_of_mem r (List.mem_append_right later List.mem_cons_self)
  obtain ⟨hturn, hgood⟩ := hmem (hlater hu)
  obtain ⟨hcounts, hsaved, _⟩ := not_fails hgood
  refine ⟨lacks_turn hturn hpre.1 hhas hpre.2 (hkind hpre.1) hsaved, fun hdisk m hm => ?_,
    not_rematerializes hturn hpre.1 hpre.2 (hkind hpre.1) hcounts⟩
  rcases store_turn hturn hm with hold | ⟨_, hsave⟩
  · exact hdisk m hold
  · exact hpre.2 m hsave

/-! ### A photo that is sent again -/

/-- The manifest of a photo of one byte, in one chunk. -/
def photo : MediaManifest := ⟨hex (.replicate 16 1), .jpeg, 1, 1, "", none, false, false⟩

def photoEvent : SessionEvent :=
  .receivedMedia (.replicate 32 5) ⟨hex (.replicate 16 1), .jpeg, [7], none, false, false⟩
    (.filled 1)

/-- Stand-ins for the digest and the manifest decoder, on a launch with one relay. -/
abbrev photoTurn : Receiver → Turn → Option Receiver :=
  turn (fun _ => none) (fun _ => "") (fun _ => some photo) online

/-- The peer is verified. -/
def verifyingPeer : List Turn :=
  [.node (.start (.presence (.enableReconnect [.replicate 32 5] [.replicate 32 5]))),
    .node (.step 0 (.presence ⟨false, none⟩))].map .event

/-- The manifest and the chunk of the photo are opened, in the calls at `i` and after it. -/
def openingPhoto (i : Nat) : List Turn :=
  [.node (.start (.receive (.new (.filled 2) []))),
    .node (.step i (.opened (.replicate 32 5)
      (MessagePayload.sealedPlaintext ⟨.mediaManifest, []⟩) none)),
    .node (.start (.receive (.new (.filled 3) []))),
    .node (.step (i + 1) (.opened (.replicate 32 5)
      (MessagePayload.sealedPlaintext
        ⟨.mediaChunk, MediaChunker.chunk (.replicate 16 1) 0 1 [7]⟩) none))].map .event

/-- The photo comes again in the next launch, and its row keeps it out. -/
theorem bounded_life_replayed :
    let turns := verifyingPeer ++ openingPhoto 1 ++
      ([.event (.take 7 0 true), .event .save, .reapExpiredMedia 86400 true, .event .save,
        .event .relaunch] : List Turn) ++
      verifyingPeer ++ openingPhoto 1 ++ ([.event (.take 8 90000 true)] : List Turn)
    (run photoTurn (start online ∅) turns).any (fun s =>
      decide (s.next = none ∧ s.context.pairs.map (fun p => (p.1, p.2.mediaData)) = [(7, none)])) ∧
    Bounded (stages (fun _ => none) (fun _ => "") (fun _ => some photo) online ∅ turns) := by
  intro turns
  have hall : (stages (fun _ => none) (fun _ => "") (fun _ => some photo) online ∅ turns).all
      fun t => !t.pre.fails t.event := by decide +kernel
  refine ⟨by decide +kernel, bounded_life _ _ _ _ _ _ fun t ht => ?_⟩
  simpa using List.all_eq_true.mp hall t ht

/-- The count of the rows fails when the photo comes again, and it is stored once more. -/
theorem photo_stored_again : ¬∀ (rawKeyOf : Data → Option Data) (hashHex : Data → String)
    (decodeManifest : Data → Option MediaManifest) (launch : Node) (store : Rows)
    (turns : List Turn),
    Bounded (stages rawKeyOf hashHex decodeManifest launch store turns) := by
  intro hbounded
  have hruns : (run photoTurn (start online ∅) (verifyingPeer ++ openingPhoto 1)).any fun s₁ =>
      (photoTurn s₁ (.event (.take 7 0 true))).any fun s₂ =>
      (photoTurn s₂ (.reapExpiredMedia 86400 true)).any fun s₃ =>
      (run photoTurn s₃ (openingPhoto 3)).any fun s₄ =>
      (photoTurn s₄ (.event (.take 8 90000 false))).any fun s₅ =>
        decide (s₁.next = some photoEvent ∧ s₁.context.lookup 7 = none ∧
          s₂.context.lookup 7 = some (photoEvent.message 0) ∧
          (trace photoTurn s₃ (openingPhoto 3)).all (fun v => (v.post.context.lookup 7).isSome) ∧
          s₄.next = some photoEvent ∧ s₄.context.lookup 8 = none ∧
          (s₅.context.lookup 7).isSome ∧ s₅.context.lookup 8 =
          some (photoEvent.message 90000)) := by
    decide +kernel
  obtain ⟨s₁, hfirst, hruns⟩ := (Option.any_eq_true _ _).mp hruns
  obtain ⟨s₂, htake, hruns⟩ := (Option.any_eq_true _ _).mp hruns
  obtain ⟨s₃, hreap, hruns⟩ := (Option.any_eq_true _ _).mp hruns
  obtain ⟨s₄, hagain, hruns⟩ := (Option.any_eq_true _ _).mp hruns
  obtain ⟨s₅, hretake, hruns⟩ := (Option.any_eq_true _ _).mp hruns
  obtain ⟨hnext, hfresh, hcreated, hkept, hnext', hfresh', hhas, hstored⟩ := of_decide_eq_true hruns
  have htrace : stages (fun _ => none) (fun _ => "") (fun _ => some photo) online ∅
      (verifyingPeer ++ openingPhoto 1 ++ .event (.take 7 0 true) ::
        .reapExpiredMedia 86400 true :: (openingPhoto 3 ++ [.event (.take 8 90000 false)])) =
      trace photoTurn (start online ∅) (verifyingPeer ++ openingPhoto 1) ++
        ⟨s₁, .event (.take 7 0 true), s₂⟩ :: ([] ++ ⟨s₂, .reapExpiredMedia 86400 true, s₃⟩ ::
          (trace photoTurn s₃ (openingPhoto 3) ++ [⟨s₄, .event (.take 8 90000 false), s₅⟩])) := by
    rw [stages, trace_append hfirst, trace_cons htake, trace_cons hreap, trace_append hagain,
      trace_cons hretake]
    rfl
  have hcreates : Stage.Creates ⟨s₁, .event (.take 7 0 true), s₂⟩ 7 photoEvent 0 :=
    ⟨true, rfl, hnext, hfresh, hcreated⟩
  obtain ⟨_, _, hlater⟩ :=
    hbounded _ _ _ _ _ _ _ _ _ _ _ 7 photoEvent 0 photoWindow 86400 true htrace
    hcreates rfl (fun u hu => absurd hu List.not_mem_nil) rfl (by decide)
  obtain ⟨_, _, hagain⟩ := hlater _ _ [] rfl (fun v hv => List.all_eq_true.mp hkept v hv) hhas
  exact hagain ⟨8, photoEvent, 90000, ⟨false, rfl, hnext', hfresh', hstored⟩, rfl, rfl⟩

end Receiver

end AeroNyra
