import Mathlib.Data.List.Basic

/-! The one-time code Poly1305, and what of a sealed box it authenticates. -/

namespace AeroNyra.Poly1305

/-- The number of bytes, the least significant first. -/
def number (bytes : List UInt8) : Nat := bytes.foldr (fun b n => n * 256 + b.toNat) 0

/-- The first bytes of a number. -/
def bytes : Nat → Nat → List UInt8
  | 0, _ => []
  | count + 1, n => .ofNat n :: bytes count (n / 256)

/-- `2 ^ 130 - 5`. -/
def prime : Nat := 0x3fffffffffffffffffffffffffffffffb

/-- The blocks of a message one after the other, each with a bit behind it. -/
def accumulate (r : Nat) : Nat → List UInt8 → Nat → Nat
  | 0, _, sum => sum
  | count + 1, message, sum =>
    accumulate r count (message.drop 16) ((sum + number (message.take 16 ++ [1])) * r % prime)

def tag (key message : List UInt8) : List UInt8 :=
  let r := number (key.take 16) &&& 0x0ffffffc0ffffffc0ffffffc0fffffff
  bytes 16 (accumulate r ((message.length + 15) / 16) message 0 + number (key.drop 16))

/-- Zeros up to a whole block. -/
def padded (data : List UInt8) :
    List UInt8 := data ++ List.replicate ((16 - data.length % 16) % 16) 0

def authenticated (aad ciphertext : List UInt8) : List UInt8 :=
  padded aad ++ padded ciphertext ++ bytes 8 aad.length ++ bytes 8 ciphertext.length

theorem length_bytes (count n : Nat) : (bytes count n).length = count := by
  induction count generalizing n with
  | zero => rfl
  | succ count ih => rw [bytes, List.length_cons, ih]

theorem length_tag (key message : List UInt8) : (tag key message).length = 16 := length_bytes _ _

end AeroNyra.Poly1305
