import AeroNyra.Core.Message
import AeroNyra.Lib.Dict
import AeroNyra.Lib.Unicode

/-! The spoken phrases of the safety number: bytes as words of two lists, in turn.  A word that is
in both lists is known at every position, and a phrase with such words may lose or swap words
unnoticed. -/

namespace AeroNyra

namespace SASWordList

/-- What a dictionary of words tells apart: the lowercase form, up to canonical equivalence. -/
def key (u : Unicode) (w : Text) : Text := u.decomposed (u.lowercased w)

inductive ListError
  | wrongCount (even odd : Nat)
  | duplicateWord
  deriving DecidableEq

def listSize : Nat := 256

/-- The words with their places, under their lowercase forms. -/
def index (u : Unicode) (words : List Text) : Dict Text Nat :=
  (∅ : Dict Text Nat).insertAll (words.zipIdx.map fun (w, i) => (key u w, i))

end SASWordList

open SASWordList in
/-- Two lists as the constructor lets them through, with their indices. -/
structure SASWordList (u : Unicode) where
  even : List Text
  odd : List Text
  evenIndex : Dict Text Nat
  oddIndex : Dict Text Nat
  evenCount : even.length = listSize
  oddCount : odd.length = listSize
  evenIndexed : evenIndex = index u even
  oddIndexed : oddIndex = index u odd
  evenDistinct : evenIndex.keys.length = listSize
  oddDistinct : oddIndex.keys.length = listSize

namespace SASWordList

variable {u : Unicode}

def init (u : Unicode) (even odd : List Text) : Except ListError (SASWordList u) :=
  if hcount : even.length = listSize ∧ odd.length = listSize then
    let ei := index u even
    let oi := index u odd
    if hdistinct : ei.keys.length = listSize ∧ oi.keys.length = listSize then
      .ok ⟨even, odd, ei, oi, hcount.1, hcount.2, rfl, rfl, hdistinct.1, hdistinct.2⟩
    else .error .duplicateWord
  else .error (.wrongCount even.length odd.length)

variable (list : SASWordList u)

/-- A byte is a place in a list. -/
def wordAt {words : List Text} (h : words.length = listSize) (b : UInt8) : Text :=
  words.get ⟨b.toNat, by rw [h]; exact b.toNat_lt⟩

/-- The word for a byte at a position. -/
def word (b : UInt8) (position : Nat) : Text :=
  if position % 2 = 0 then wordAt list.evenCount b else wordAt list.oddCount b

/-- The byte that a word stands for at a position. -/
def byte (w : Text) (position : Nat) : Option UInt8 :=
  let table := if position % 2 = 0 then list.evenIndex else list.oddIndex
  (table.lookup (key u w)).map .ofNat

end SASWordList

namespace SASWordPhrase

variable {u : Unicode} (list : SASWordList u)

def encode (bytes : Data) : List Text := bytes.zipIdx.map fun (b, offset) => list.word b offset

/-- The loop over the words from an offset on, with the bytes so far. -/
def loop (out : Data) (offset : Nat) : List Text → Option Data
  | [] => some out
  | w :: rest => (list.byte w offset).bind fun b => loop (out ++ [b]) (offset + 1) rest

def decode (words : List Text) : Option Data := loop list [] 0 words

end SASWordPhrase

/-! ### The two tables -/

namespace SASWordList

section Index

variable {u : Unicode} {words : List Text}

end Index

variable {u : Unicode} {list : SASWordList u} {w w' : Text} {b : UInt8} {k : Nat}

/-- The words of a position. -/
def wordsAt (list : SASWordList u) (position : Nat) : List Text :=
    if position % 2 = 0 then list.even else list.odd

/-- A word is known at a position where it is one of the words there, up to its case. -/
def Known (list : SASWordList u) (w : Text) (k : Nat) : Prop :=
    ∃ known ∈ list.wordsAt k, key u known = key u w

/-- A word of both lists, up to its case. -/
def Shared (list : SASWordList u) (w : Text) : Prop := list.Known w 0 ∧ list.Known w 1

theorem Shared.known (h : list.Shared w) (k : Nat) : list.Known w k := by
  rcases Nat.mod_two_eq_zero_or_one k with hk | hk
  · have hsame : list.wordsAt k = list.wordsAt 0 := by simp [wordsAt, hk]
    rw [Known, hsame]
    exact h.1
  · have hsame : list.wordsAt k = list.wordsAt 1 := by simp [wordsAt, hk]
    rw [Known, hsame]
    exact h.2

end SASWordList

/-! ### Phrases -/

namespace SASWordPhrase

open SASWordList

variable {u : Unicode} {list : SASWordList u} {bytes : Data} {words words' front back : List Text}
    {x y z : Text}
  {k : Nat}

/-- The last word of the phrase is in one list only, and so is one of every two adjacent words. -/
structure Apart (list : SASWordList u) (bytes : Data) : Prop where
  last {front : List Text} {x : Text} : encode list bytes = front ++ [x] → ¬list.Shared x
  adjacent {front back : List Text} {x y : Text} : encode list bytes = front ++ x :: y :: back →
    ¬(list.Shared x ∧ list.Shared y)

end SASWordPhrase

end AeroNyra
