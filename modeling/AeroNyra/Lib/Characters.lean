import Mathlib.Data.List.Basic
import Mathlib.Tactic.Common

/-! Texts as scalars and as characters, each of which is one scalar or several.  Where the
characters of a text begin depends on tables of Unicode; the texts whose scalars are all simple
need none of them. -/

/-- What holds of all scalars of a text is decided over the text. -/
instance (priority := 2000) decidableForallScalar {p : Char → Prop} [DecidablePred p]
    (t : List Char) :
    Decidable (∀ c ∈ t, p c) := List.decidableBAll p t

/-- A space of Unicode, or an end of a line. -/
def isSpaceOrNewline (c : Char) : Bool :=
  (9 ≤ c.toNat && c.toNat ≤ 13) || (0x2000 ≤ c.toNat && c.toNat ≤ 0x200A) ||
    [0x20, 0x85, 0xA0, 0x1680, 0x2028, 0x2029, 0x202F, 0x205F, 0x3000].contains c.toNat

/-- A scalar that joins no other one, but for a line feed behind a carriage return. -/
def isSimple (c : Char) : Bool :=
  c.toNat < 128 || isSpaceOrNewline c || (0x2018 ≤ c.toNat && c.toNat ≤ 0x201F)

/-- The characters of a text of simple scalars. -/
def simpleCharacters : List Char → List (List Char)
  | '\r' :: '\n' :: rest => ['\r', '\n'] :: simpleCharacters rest
  | c :: rest => [c] :: simpleCharacters rest
  | [] => []

/-- How texts are split into characters. -/
structure Characters where
  split : List Char → List (List Char)
  joined (t : List Char) : (split t).flatten = t
  simple (t : List Char) : t.all isSimple → split t = simpleCharacters t

namespace Characters

theorem simple_joined (t : List Char) : (simpleCharacters t).flatten = t := by
  fun_induction simpleCharacters t with
  | case1 rest ih => rw [List.flatten_cons, ih]; rfl
  | case2 c rest _ ih => rw [List.flatten_cons, ih]; rfl
  | case3 => rfl

theorem simple_cons {c : Char} (h : c ≠ '\r') (t : List Char) :
    simpleCharacters (c :: t) = [c] :: simpleCharacters t := by
  rw [simpleCharacters]
  rintro rest rfl
  exact absurd rfl h

/-- Without carriage returns every scalar is a character. -/
theorem simple_append {s : List Char} (h : '\r' ∉ s) (t : List Char) :
    simpleCharacters (s ++ t) = s.map ([·]) ++ simpleCharacters t := by
  induction s with
  | nil => rfl
  | cons c s ih =>
    have hc : c ≠ '\r' := fun hc => h (by rw [hc]; exact List.mem_cons_self)
    rw [List.cons_append, simple_cons hc, ih fun hs => h (List.mem_cons_of_mem _ hs)]
    rfl

/-- A last scalar that is no line feed is a character. -/
theorem simple_concat {c : Char} (h : c ≠ '\n') (t : List Char) :
    simpleCharacters (t ++ [c]) = simpleCharacters t ++ [[c]] := by
  fun_induction simpleCharacters t with
  | case1 rest ih => exact congrArg (['\r', '\n'] :: ·) ih
  | case2 d rest hjoin ih =>
    rw [List.cons_append, List.cons_append, ← ih, simpleCharacters]
    intro rest' hd hrest
    cases rest with
    | nil => exact h (List.cons.inj hrest).1
    | cons e rest =>
      obtain ⟨rfl, _⟩ := List.cons.inj hrest
      exact hjoin rest hd rfl
  | case3 =>
    rw [List.nil_append, simpleCharacters]
    · rfl
    · intro rest' _ hrest
      cases hrest

/-- The texts whose scalars are not simple are split like those whose scalars are. -/
def allSimple : Characters := ⟨simpleCharacters, simple_joined, fun _ _ => rfl⟩

variable (σ : Characters)

def count (t : List Char) : Nat := (σ.split t).length

/-- The first `n` characters. -/
def pre (n : Nat) (t : List Char) : List Char := ((σ.split t).take n).flatten

def dropFirst (n : Nat) (t : List Char) : List Char := ((σ.split t).drop n).flatten

variable {σ}

theorem pre_append_dropFirst (n : Nat) (t : List Char) : σ.pre n t ++ σ.dropFirst n t = t := by
  rw [pre, dropFirst, ← List.flatten_append, List.take_append_drop, σ.joined]

section Simple

variable {s t : List Char} (hs : '\r' ∉ s) (hall : (s ++ t).all isSimple)
include hs hall

theorem pre_append : σ.pre s.length (s ++ t) = s := by
  have hpre := @List.take_left _ (s.map ([·])) (simpleCharacters t)
  rw [List.length_map] at hpre
  rw [pre, σ.simple _ hall, simple_append hs, hpre]
  exact List.flatMap_singleton' s

theorem dropFirst_append : σ.dropFirst s.length (s ++ t) = t := by
  have h := @pre_append_dropFirst σ s.length (s ++ t)
  rw [pre_append hs hall] at h
  exact List.append_cancel_left h

theorem length_le_count : s.length ≤ σ.count (s ++ t) := by
  rw [count, σ.simple _ hall, simple_append hs, List.length_append, List.length_map]
  exact Nat.le_add_right _ _

end Simple

end Characters
