import AeroNyra.Lib.Dict
import AeroNyra.Media.Chunker

/-! The rows of the message store, and what the inbox reads and writes of them. -/

namespace AeroNyra

structure Message where
  content : String
  isOutbound : Bool
  isRead : Bool
  timestamp : Date
  listenedAt : Option Date
  deliveredAt : Option Date
  wireID : Option MessageID
  deliveryState : MessageDeliveryState
  nostrRedriveDone : Bool
  mediaData : Option Data
  mediaMime : Option MediaMimeType
  isStory : Bool
  isPushToTalk : Bool
  sentAt : Option Date
  /-- The key of the peer whose direct conversation holds the row. -/
  peer : Option Data
  deriving DecidableEq

namespace Message

variable (m : Message)

def isMedia : Bool := m.mediaData.isSome

/-- Sets the delivery state, and stamps the first confirmation of an outbound row. -/
def setDeliveryState (state : MessageDeliveryState) (now : Date) : Message :=
  { m with
    deliveryState := state
    deliveredAt :=
      if m.deliveredAt.isNone && m.isOutbound && state.isConfirmed then some now
      else m.deliveredAt }

/-- A received text. -/
def received (peer : Data) (content : String) (wireID : Option MessageID) (now : Date) : Message :=
  { content, isOutbound := false, isRead := false, timestamp := now, listenedAt := none
    deliveredAt := none, wireID, deliveryState := .delivered, nostrRedriveDone := false
    mediaData := none, mediaMime := none, isStory := false, isPushToTalk := false, sentAt := none
    peer := some peer }

/-- A row whose blob expired and is gone: `resend` never touches it. -/
def isTombstone : Bool := m.mediaMime.isSome && m.mediaData.isNone

end Message

/-- The rows that a context holds. -/
abbrev Rows := Dict UUID Message

namespace Rows

variable (rows : Rows)

/-- Some row, inbound or outbound, has the identifier. -/
def alreadyStored (wireID : MessageID) : Bool :=
  rows.pairs.any fun row => row.2.wireID == some wireID

end Rows

end AeroNyra
