import AeroNyra.Inbox.Message

/-! How long ephemeral media lives, and the pass over the rows that wipes the blobs whose time is
over.  A row survives its blob, so its identifier still tells a replay. -/

namespace AeroNyra

namespace MediaEphemeralityPolicy

/-- From the arrival of a photo or of a video. -/
def photoWindow : Int := 24 * 60 * 60

/-- From the end of the listening, or from the first confirmation of a note that was sent. -/
def voiceListenWindow : Int := 120

/-- From the sending of a story. -/
def storyWindow : Int := 8 * 60 * 60

/-- The blob is past its window. -/
def isExpired (isStory : Bool) (mime : Option MediaMimeType) (timestamp : Date)
    (sentAt listenedAt deliveredAt : Option Date) (now : Date) : Bool :=
  if isStory then decide (storyWindow ≤ now - sentAt.getD timestamp)
  else
    match mime with
    | some .jpeg | some .mp4 => decide (photoWindow ≤ now - timestamp)
    | some .m4a =>
      match listenedAt, deliveredAt with
      | some listenedAt, _ => decide (voiceListenWindow ≤ now - listenedAt)
      -- nothing tells the sender that its note was played
      | none, some deliveredAt => decide (voiceListenWindow ≤ now - deliveredAt)
      | none, none => false
    | none => false

/-- When the window of the blob ends, if it has begun. -/
def deadline (isStory : Bool) (mime : Option MediaMimeType) (timestamp : Date)
    (sentAt listenedAt deliveredAt : Option Date) : Option Date :=
  if isStory then some (sentAt.getD timestamp + storyWindow)
  else
    mime.bind fun
      | .jpeg | .mp4 => some (timestamp + photoWindow)
      | .m4a => (listenedAt.or deliveredAt).map (· + voiceListenWindow)

theorem le_sub_iff (window anchor now : Int) :
    decide (window ≤ now - anchor) = decide (anchor + window ≤ now) := by
  apply decide_eq_decide.mpr
  omega

/-- A blob is expired from its deadline on. -/
theorem isExpired_eq (isStory : Bool) (mime : Option MediaMimeType) (timestamp : Date)
    (sentAt listenedAt deliveredAt : Option Date) (now : Date) :
    isExpired isStory mime timestamp sentAt listenedAt deliveredAt now =
      (deadline isStory mime timestamp sentAt listenedAt deliveredAt).any (· ≤ now) := by
  cases isStory with
  | true => exact le_sub_iff ..
  | false =>
    match mime with
    | none => rfl
    | some .jpeg | some .mp4 => exact le_sub_iff ..
    | some .m4a =>
      match listenedAt, deliveredAt with
      | some _, _ | none, some _ => exact le_sub_iff ..
      | none, none => rfl

/-- What has expired stays expired. -/
theorem isExpired_mono {isStory : Bool} {mime : Option MediaMimeType} {timestamp now now' : Date}
    {sentAt listenedAt deliveredAt : Option Date} (hle : now ≤ now')
    (h : isExpired isStory mime timestamp sentAt listenedAt deliveredAt now) :
    isExpired isStory mime timestamp sentAt listenedAt deliveredAt now' := by
  rw [isExpired_eq, Option.any_eq_true] at h ⊢
  obtain ⟨d, hd, hdue⟩ := h
  exact ⟨d, hd, decide_eq_true (Int.le_trans (of_decide_eq_true hdue) hle)⟩

end MediaEphemeralityPolicy

namespace Message

variable (m : Message)

/-- What the reaper fetches: of the outbound rows only stories, and voice notes that were confirmed
once. -/
def isReapable : Bool :=
  m.mediaData.isSome &&
    (!m.isOutbound || m.isStory || m.mediaMime == some .m4a && m.deliveredAt.isSome)

def isExpired (now : Date) : Bool :=
  MediaEphemeralityPolicy.isExpired m.isStory m.mediaMime m.timestamp m.sentAt m.listenedAt
    m.deliveredAt now

/-- What a pass of the reaper leaves of the row. -/
def reaped (now : Date) : Message :=
  if m.isReapable && m.isExpired now then { m with mediaData := none } else m

/-- A pass takes the blob of a row that it fetches and that has expired, and nothing else. -/
theorem reaped_cases (now : Date) :
    m.isReapable ∧ m.isExpired now ∧ m.reaped now = { m with mediaData := none } ∨
    m.reaped now = m := by
  unfold reaped
  split
  · rename_i h
    rw [Bool.and_eq_true] at h
    exact .inl ⟨h.1, h.2, rfl⟩
  · exact .inr rfl

/-- A pass that follows another does what it would do alone. -/
theorem reaped_reaped {now now' : Date} (h : now ≤ now') :
    (m.reaped now).reaped now' = m.reaped now' := by
  rcases m.reaped_cases now with ⟨hreapable, hexpired, heq⟩ | heq
  · have hlater : m.isExpired now' := MediaEphemeralityPolicy.isExpired_mono h hexpired
    have htaken : m.reaped now' = { m with mediaData := none } :=
      if_pos (by simp [hreapable, hlater])
    rw [heq, htaken]
    rfl
  · rw [heq]

end Message

/-- One pass of the reaper over the rows. -/
def Rows.reapExpiredMedia (rows : Rows) (now : Date) : Rows := Dict.mapValues (·.reaped now) rows

theorem Rows.lookup_reapExpiredMedia (rows : Rows) (now : Date) (row : UUID) :
    (rows.reapExpiredMedia now).lookup row = (rows.lookup row).map (·.reaped now) :=
  Dict.lookup_mapValues ..

end AeroNyra
