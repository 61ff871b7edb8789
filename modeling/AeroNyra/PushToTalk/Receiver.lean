import AeroNyra.Enrollment.Invite

/-! The receiving half of live audio: the layout of a sealed frame, the opener with its replay
window, and the receive context of each link.  The two operations of the cipher are parameters, and
the environment says what the Opus decoder makes of a frame. -/

namespace AeroNyra

/-- One decoded frame of 20 ms. -/
abbrev Pcm := List Int

/-- The key that a session secret gives the initiator's frames, and the authenticated opening of a
frame under a key and a counter. -/
structure PTTSessionCrypto where
  initiatorToResponder : Data → Data
  openSealed : Data → Nat → Data → Data → Option Data

namespace PTTAudioWire

def seqBytes : Nat := 8

def tagBytes : Nat := 16

/-- The sequence number, the ciphertext and the tag. -/
def unpack (frame : Data) : Option (Nat × Data × Data) :=
  if seqBytes + tagBytes ≤ frame.length then
    some (number (frame.take seqBytes),
      (frame.drop seqBytes).take (frame.length - seqBytes - tagBytes),
      frame.drop (frame.length - tagBytes))
  else none

end PTTAudioWire

/-- The opener of one direction: bit `i` of the window says that `highest - i` was accepted. -/
structure PTTFrameOpener where
  key : Data
  highest : Nat := 0
  bitmap : BitVec 64 := 0
  seenAny : Bool := false

namespace PTTFrameOpener

inductive Failure
  | replayed
  | authenticationFailed
  deriving DecidableEq

def windowSize : Nat := 64

variable (crypto : PTTSessionCrypto) (o : PTTFrameOpener)

/-- A duplicate, or older than the window. -/
def replays (counter : Nat) : Bool :=
  o.seenAny && decide (counter ≤ o.highest) &&
    (decide (windowSize ≤ o.highest - counter) || o.bitmap.getLsbD (o.highest - counter))

def commit (counter : Nat) : PTTFrameOpener :=
  if !o.seenAny then { o with highest := counter, bitmap := 1, seenAny := true }
  else if o.highest < counter then
    let shift := counter - o.highest
    { o with
      highest := counter
      bitmap := (if windowSize ≤ shift then 0 else o.bitmap <<< shift) ||| 1 }
  else { o with bitmap := o.bitmap ||| (1 <<< (o.highest - counter)) }

/-- Only an authentic frame advances the window. -/
def openFrame (counter : Nat) (ciphertext tag : Data) : PTTFrameOpener × Except Failure Data :=
  if o.replays counter then (o, .error .replayed)
  else
    match crypto.openSealed o.key counter ciphertext tag with
    | none => (o, .error .authenticationFailed)
    | some plaintext => (o.commit counter, .ok plaintext)

end PTTFrameOpener

inductive PTTReceiveOutcome
  | decoded (seq : Nat) (pcm : Pcm)
  | replayed
  | authFailed
  | malformed
  | noSession
  | decodeError
  deriving DecidableEq

/-- The openers of the links with a session. -/
structure PTTReceiver where
  contexts : Dict UUID PTTFrameOpener

namespace PTTReceiver

variable (crypto : PTTSessionCrypto) (r : PTTReceiver)

/-- A context that replaces the link's old one, unless no decoder can be created for it. -/
def openSession (link : UUID) (recvKey : Data) (created : Bool) : PTTReceiver :=
  if created then ⟨AList.insert link { key := recvKey } r.contexts⟩ else r

def dropLink (link : UUID) : PTTReceiver := ⟨AList.erase link r.contexts⟩

/-- One sealed frame of a link; the decoder makes `pcm` of what it opens to, or throws. -/
def receive (link : UUID) (frame : Data) (pcm : Option Pcm) : PTTReceiver × PTTReceiveOutcome :=
  match PTTAudioWire.unpack frame with
  | none => (r, .malformed)
  | some (seq, ciphertext, tag) =>
    match r.contexts.lookup link with
    | none => (r, .noSession)
    | some opener =>
      let opened := opener.openFrame crypto seq ciphertext tag
      let r := { r with contexts := AList.insert link opened.1 r.contexts }
      match opened.2, pcm with
      | .error .replayed, _ => (r, .replayed)
      | .error .authenticationFailed, _ => (r, .authFailed)
      | .ok _, some pcm => (r, .decoded seq pcm)
      | .ok _, none => (r, .decodeError)

/-- The link has a receive context. -/
def HasContext (link : UUID) : Prop := (r.contexts.lookup link).isSome

instance (link : UUID) : Decidable (r.HasContext link) :=
  inferInstanceAs (Decidable (_ = true))

variable {r} {link j : UUID} {frame : Data} {pcm : Option Pcm}

/-- A frame gives no link a context and takes none away. -/
theorem hasContext_receive :
    (r.receive crypto link frame pcm).1.HasContext j ↔ r.HasContext j := by
  unfold receive
  split
  · rfl
  · split
    · rfl
    · rename_i opener hopener
      have hinsert (o : PTTFrameOpener) :
          HasContext { r with contexts := AList.insert link o r.contexts } j ↔ r.HasContext j := by
        unfold HasContext
        rw [Dict.lookup_insert]
        split
        · rename_i hj
          rw [hj, hopener]
          rfl
        · rfl
      dsimp only
      split <;> exact hinsert _

end PTTReceiver

end AeroNyra
