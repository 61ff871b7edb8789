import Mathlib.Data.List.Basic
import Mathlib.Data.UInt
import Mathlib.Tactic.Common

/-! The types that the layers share: message identifiers, envelopes, and the delivery state of an
outbound message. -/

namespace AeroNyra

/-- `Data` and `[UInt8]` alike. -/
abbrev Data := List UInt8

abbrev UUID := BitVec 128

/-- A string, by its Unicode scalars. -/
abbrev Text := List Char

instance : LawfulBEq Data := inferInstance

instance : LawfulBEq UUID := inferInstance

/-- A point in time, in seconds. -/
abbrev Date := Int

/-- A random identifier of `MessageID.byteCount` bytes. -/
structure MessageID where
  bytes : Data
  size : bytes.length = 16
  deriving DecidableEq

namespace MessageID

def byteCount : Nat := 16

/-- Wraps exactly `byteCount` bytes. -/
def ofBytes? (bytes : Data) : Option MessageID :=
  if h : bytes.length = byteCount then some ⟨bytes, h⟩ else none

/-- The identifier whose bytes all equal `b`. -/
def filled (b : UInt8) : MessageID := ⟨List.replicate 16 b, List.length_replicate⟩

end MessageID

/-- The sizes that plaintexts are padded to. -/
def PayloadBucket.sizes : List Nat := [256, 1024, 4096, 16384]

/-- A sealed message with its routing header. -/
structure Envelope where
  version : UInt8
  ttl : UInt8
  id : MessageID
  ciphertext : Data
  deriving DecidableEq

namespace Envelope

def currentVersion : UInt8 := 1

/-- The most hops that a message may take. -/
def maxHops : UInt8 := 7

/-- An envelope that this device sends. -/
def new (id : MessageID) (ciphertext : Data) : Envelope :=
  ⟨currentVersion, maxHops, id, ciphertext⟩

end Envelope

/-- The lifecycle of an outbound message. -/
inductive MessageDeliveryState
  | waitingForRange
  | sent
  | cast
  | delivered
  | relayed (hops : Int)
  | findingPath
  | notDelivered
  deriving DecidableEq

namespace MessageDeliveryState

/-- The states with no further automatic transitions. -/
def isTerminal : MessageDeliveryState → Bool
  | delivered | relayed _ | notDelivered => true
  | waitingForRange | sent | cast | findingPath => false

/-- The two states that an acknowledgement gives. -/
def isConfirmed : MessageDeliveryState → Bool
  | delivered | relayed _ => true
  | waitingForRange | sent | cast | findingPath | notDelivered => false

theorem isTerminal_of_isConfirmed {s : MessageDeliveryState} (h : s.isConfirmed) :
    s.isTerminal := by
  cases s <;> simp_all [isConfirmed, isTerminal]

end MessageDeliveryState

end AeroNyra
