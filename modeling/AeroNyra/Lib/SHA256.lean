import Mathlib.Data.List.Basic

/-! SHA-256, and the authentication codes and the derived keys that are computed with it.  Words are
numbers below `2 ^ 32`. -/

namespace AeroNyra.SHA256

/-! ### The hash -/

/-- Rotated to the right. -/
def rotr (x n : Nat) : Nat := (x >>> n ||| x <<< (32 - n)) % 0x100000000

def bigSigma0 (x : Nat) : Nat := rotr x 2 ^^^ rotr x 13 ^^^ rotr x 22

def bigSigma1 (x : Nat) : Nat := rotr x 6 ^^^ rotr x 11 ^^^ rotr x 25

def smallSigma0 (x : Nat) : Nat := rotr x 7 ^^^ rotr x 18 ^^^ x >>> 3

def smallSigma1 (x : Nat) : Nat := rotr x 17 ^^^ rotr x 19 ^^^ x >>> 10

def choose (x y z : Nat) : Nat := (x &&& y) ^^^ ((0xffffffff - x) &&& z)

def majority (x y z : Nat) : Nat := (x &&& y) ^^^ (x &&& z) ^^^ (y &&& z)

/-- The first bits of the fractional parts of the cube roots of the primes. -/
def roundConstants : List Nat :=
  [0x428a2f98, 0x71374491, 0xb5c0fbcf, 0xe9b5dba5, 0x3956c25b, 0x59f111f1, 0x923f82a4,
    0xab1c5ed5, 0xd807aa98, 0x12835b01, 0x243185be, 0x550c7dc3, 0x72be5d74, 0x80deb1fe,
    0x9bdc06a7, 0xc19bf174, 0xe49b69c1, 0xefbe4786, 0x0fc19dc6, 0x240ca1cc, 0x2de92c6f,
    0x4a7484aa, 0x5cb0a9dc, 0x76f988da, 0x983e5152, 0xa831c66d, 0xb00327c8, 0xbf597fc7,
    0xc6e00bf3, 0xd5a79147, 0x06ca6351, 0x14292967, 0x27b70a85, 0x2e1b2138, 0x4d2c6dfc,
    0x53380d13, 0x650a7354, 0x766a0abb, 0x81c2c92e, 0x92722c85, 0xa2bfe8a1, 0xa81a664b,
    0xc24b8b70, 0xc76c51a3, 0xd192e819, 0xd6990624, 0xf40e3585, 0x106aa070, 0x19a4c116,
    0x1e376c08, 0x2748774c, 0x34b0bcb5, 0x391c0cb3, 0x4ed8aa4a, 0x5b9cca4f, 0x682e6ff3,
    0x748f82ee, 0x78a5636f, 0x84c87814, 0x8cc70208, 0x90befffa, 0xa4506ceb, 0xbef9a3f7,
    0xc67178f2]

structure State where
  a : Nat
  b : Nat
  c : Nat
  d : Nat
  e : Nat
  f : Nat
  g : Nat
  h : Nat

/-- The first bits of the fractional parts of the square roots of the primes. -/
def initial : State :=
  ⟨0x6a09e667, 0xbb67ae85, 0x3c6ef372, 0xa54ff53a, 0x510e527f, 0x9b05688c, 0x1f83d9ab,
    0x5be0cd19⟩

def State.words (s : State) : List Nat := [s.a, s.b, s.c, s.d, s.e, s.f, s.g, s.h]

def State.round (s : State) (constant word : Nat) : State :=
  let first := s.h + bigSigma1 s.e + choose s.e s.f s.g + constant + word
  let second := bigSigma0 s.a + majority s.a s.b s.c
  ⟨(first + second) % 0x100000000, s.a, s.b, s.c, (s.d + first) % 0x100000000, s.e, s.f, s.g⟩

def State.add (s t : State) : State :=
  ⟨(s.a + t.a) % 0x100000000, (s.b + t.b) % 0x100000000, (s.c + t.c) % 0x100000000,
  (s.d + t.d) % 0x100000000,
    (s.e + t.e) % 0x100000000, (s.f + t.f) % 0x100000000, (s.g + t.g) % 0x100000000,
    (s.h + t.h) % 0x100000000⟩

/-- The next word of the schedule, of which the words so far are listed with the last one first. -/
def scheduled (words : List Nat) : Nat :=
  (words.getD 15 0 + smallSigma0 (words.getD 14 0) + words.getD 6 0 + smallSigma1
    (words.getD 1 0)) % 0x100000000

def extend : Nat → List Nat → List Nat
  | 0, words => words
  | count + 1, words => extend count (scheduled words :: words)

def State.rounds : List Nat → List Nat → State → State
  | constant :: constants, word :: words, s => State.rounds constants words (s.round constant word)
  | _, _, s => s

/-- The number of bytes, the most significant first. -/
def number (bytes : List UInt8) : Nat := bytes.foldl (fun n b => n * 256 + b.toNat) 0

/-- The last bytes of a number. -/
def bytes : Nat → Nat → List UInt8
  | 0, _ => []
  | count + 1, n => bytes count (n / 256) ++ [.ofNat n]

def wordsOf : Nat → List UInt8 → List Nat
  | 0, _ => []
  | count + 1, block => number (block.take 4) :: wordsOf count (block.drop 4)

/-- The sixteen words of a block, and the 48 that follow from them. -/
def schedule (block : List UInt8) : List Nat := (extend 48 (wordsOf 16 block).reverse).reverse

/-- The blocks of a message one after the other. -/
def compress : Nat → List UInt8 → State → State
  | 0, _, s => s
  | count + 1, message, s =>
    compress count (message.drop 64) (s.add (s.rounds roundConstants (schedule (message.take 64))))

/-- The message with a bit, zeros and its length in bits behind it, as whole blocks. -/
def padded (message : List UInt8) : List UInt8 :=
  message ++ [0x80] ++ List.replicate ((119 - message.length % 64) % 64) 0 ++
    bytes 8 (8 * message.length)

def hash (message : List UInt8) : List UInt8 :=
  (compress ((padded message).length / 64) (padded message) initial).words.flatMap (bytes 4)

theorem length_bytes (count n : Nat) : (bytes count n).length = count := by
  induction count generalizing n with
  | zero => rfl
  | succ count ih => rw [bytes, List.length_append, ih, List.length_singleton]

theorem length_hash (message : List UInt8) : (hash message).length = 32 := by
  simp only [hash, State.words, List.flatMap_cons, List.flatMap_nil, List.length_append,
    length_bytes, List.length_nil]

example : hash [97, 98, 99] =
    bytes 32 0xba7816bf8f01cfea414140de5dae2223b00361a396177a9cb410ff61f20015ad := by
  decide +kernel

/-! ### Codes and keys -/

def hmac (key message : List UInt8) : List UInt8 :=
  let short := if 64 < key.length then hash key else key
  let block := short ++ List.replicate (64 - short.length) 0
  hash (block.map (· ^^^ 0x5c) ++ hash (block.map (· ^^^ 0x36) ++ message))

/-- A key of 32 bytes. -/
def hkdf (secret salt info : List UInt8) : List UInt8 := hmac (hmac salt secret) (info ++ [1])

theorem length_hmac (key message : List UInt8) : (hmac key message).length = 32 := length_hash _

end AeroNyra.SHA256
