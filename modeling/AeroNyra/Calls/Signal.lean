import AeroNyra.Media.Payload

/-! Call-signaling frames, which ring, answer and decline a call, with their bodies and the parsers
of these. -/

namespace AeroNyra

inductive CallSignal
  | request (callID : Data) (sdp : String)
  | answer (callID : Data) (sdp : String)
  | decline (callID : Data)
  deriving DecidableEq

namespace CallSignal

def callIDByteCount : Nat := 16

def maxSDPBytes : Nat := 32 * 1024

/-- The body of a sealed call payload. -/
def encodedBody : CallSignal → Data
  | .request callID sdp | .answer callID sdp => callID ++ utf8 sdp
  | .decline callID => callID

def splitIDAndSDP (body : Data) : Option (Data × String) :=
  if callIDByteCount < body.length ∧ body.length ≤ callIDByteCount + maxSDPBytes then
    ((String.fromUTF8? ⟨⟨body.drop callIDByteCount⟩⟩).filter (· ≠ "")).map fun sdp =>
      (body.take callIDByteCount, sdp)
  else none

def parseRequestBody (body : Data) : Option CallSignal :=
  (splitIDAndSDP body).map fun p => .request p.1 p.2

def parseAnswerBody (body : Data) : Option CallSignal :=
  (splitIDAndSDP body).map fun p => .answer p.1 p.2

def parseDeclineBody (body : Data) : Option CallSignal :=
  if body.length = callIDByteCount then some (.decline body) else none

end CallSignal

/-- A signal in its tagged payload. -/
def MessagePayload.callSignal (signal : CallSignal) : MessagePayload :=
  match signal with
  | .request _ _ => ⟨.callRequest, signal.encodedBody⟩
  | .answer _ _ => ⟨.callAnswer, signal.encodedBody⟩
  | .decline _ => ⟨.callDecline, signal.encodedBody⟩

end AeroNyra
