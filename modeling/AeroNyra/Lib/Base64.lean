import Mathlib.Data.List.Basic
import Mathlib.Data.UInt
import Mathlib.Tactic.Common

/-! Base64 with padding: four characters for three bytes, the last bytes filled up with `=`.  The
decoder takes no other character, and ignores the bits that the padding leaves over. -/

namespace Base64

/-- The character for six bits. -/
def digit (n : Nat) : Char :=
  if n < 26 then Char.ofNat ('A'.toNat + n)
  else if n < 52 then Char.ofNat ('a'.toNat + (n - 26))
  else if n < 62 then Char.ofNat ('0'.toNat + (n - 52))
  else if n = 62 then '+'
  else '/'

def value? (c : Char) : Option Nat :=
  if 'A' ≤ c ∧ c ≤ 'Z' then some (c.toNat - 'A'.toNat)
  else if 'a' ≤ c ∧ c ≤ 'z' then some (c.toNat - 'a'.toNat + 26)
  else if '0' ≤ c ∧ c ≤ '9' then some (c.toNat - '0'.toNat + 52)
  else if c = '+' then some 62
  else if c = '/' then some 63
  else none

/-- The four characters for three bytes. -/
def quad (a b c : Nat) : List Char :=
  [digit (a / 4), digit (a % 4 * 16 + b / 16), digit (b % 16 * 4 + c / 64), digit (c % 64)]

def encode : List UInt8 → List Char
  | [] => []
  | [a] => (quad a.toNat 0 0).take 2 ++ ['=', '=']
  | [a, b] => (quad a.toNat b.toNat 0).take 3 ++ ['=']
  | a :: b :: c :: rest => quad a.toNat b.toNat c.toNat ++ encode rest

/-- The three bytes for four groups of six bits. -/
def triple (w x y z : Nat) : List UInt8 :=
  [.ofNat (w * 4 + x / 16), .ofNat (x % 16 * 16 + y / 4), .ofNat (y % 4 * 64 + z)]

def decode : List Char → Option (List UInt8)
  | [] => some []
  | a :: b :: c :: d :: rest =>
    if rest.isEmpty && c == '=' && d == '=' then do
      let w ← value? a
      let x ← value? b
      return (triple w x 0 0).take 1
    else if rest.isEmpty && d == '=' then do
      let w ← value? a
      let x ← value? b
      let y ← value? c
      return (triple w x y 0).take 2
    else do
      let w ← value? a
      let x ← value? b
      let y ← value? c
      let z ← value? d
      let bytes ← decode rest
      return triple w x y z ++ bytes
  | _ => none

theorem value?_digit {n : Nat} (h : n < 64) : value? (digit n) = some n := by
  have hall : ∀ n : Fin 64, value? (digit n) = some n.val := by decide
  exact hall ⟨n, h⟩

theorem digit_ne_pad {n : Nat} (h : n < 64) : (digit n == '=') = false := by
  rw [beq_eq_false_iff_ne]
  intro hpad
  have hvalue := value?_digit h
  rw [hpad] at hvalue
  cases hvalue

/-- What is encoded decodes to itself. -/
theorem decode_encode (bytes : List UInt8) : decode (encode bytes) = some bytes := by
  have hgroups (a b c : UInt8) : triple (a.toNat / 4) (a.toNat % 4 * 16 + b.toNat / 16)
      (b.toNat % 16 * 4 + c.toNat / 64) (c.toNat % 64) = [a, b, c] := by
    have ha := a.toNat_lt
    have hb := b.toNat_lt
    have hc := c.toNat_lt
    simp only [triple, List.cons.injEq, and_true]
    refine ⟨?_, ?_, ?_⟩ <;> apply UInt8.toNat_inj.mp <;> rw [UInt8.toNat_ofNat'] <;> omega
  have hsmall (a b c : UInt8) : a.toNat / 4 < 64 ∧ a.toNat % 4 * 16 + b.toNat / 16 < 64 ∧
      b.toNat % 16 * 4 + c.toNat / 64 < 64 ∧ c.toNat % 64 < 64 := by
    have ha := a.toNat_lt
    have hb := b.toNat_lt
    have hc := c.toNat_lt
    omega
  induction bytes using encode.induct with
  | case1 => rfl
  | case2 a =>
    obtain ⟨hw, hx, _, _⟩ := hsmall a 0 0
    have hfirst := congrArg (List.take 1) (hgroups a 0 0)
    simp only [UInt8.toNat_zero, Nat.zero_div, Nat.add_zero, Nat.zero_mod,
      Nat.zero_mul] at hfirst hx
    simpa [encode, quad, decode, value?_digit hw, value?_digit hx] using hfirst
  | case3 a b =>
    obtain ⟨hw, hx, hy, _⟩ := hsmall a b 0
    have hfirst := congrArg (List.take 2) (hgroups a b 0)
    simp only [UInt8.toNat_zero, Nat.zero_div, Nat.add_zero, Nat.zero_mod] at hfirst hy
    simpa [encode, quad, decode, value?_digit hw, value?_digit hx, value?_digit hy, digit_ne_pad hy]
      using hfirst
  | case4 a b c rest ih =>
    obtain ⟨hw, hx, hy, hz⟩ := hsmall a b c
    simp [encode, quad, decode, value?_digit hw, value?_digit hx, value?_digit hy, value?_digit hz,
      digit_ne_pad hz, ih, hgroups a b c]

theorem length_encode (bytes : List UInt8) :
    (encode bytes).length = 4 * ((bytes.length + 2) / 3) := by
  induction bytes using encode.induct with
  | case1 => rfl
  | case2 a => simp [encode, quad]
  | case3 a b => simp [encode, quad]
  | case4 a b c rest ih =>
    rw [encode, List.length_append, ih]
    simp only [quad, List.length_cons, List.length_nil]
    omega

/-- The encoding has the characters of the alphabet, and the padding. -/
theorem mem_encode {bytes : List UInt8} {c : Char} (h : c ∈ encode bytes) :
    c = '=' ∨ ∃ n < 64, c = digit n := by
  have hquad {a b d : UInt8} (h : c ∈ quad a.toNat b.toNat d.toNat) : ∃ n < 64, c = digit n := by
    have ha := a.toNat_lt
    have hb := b.toNat_lt
    have hd := d.toNat_lt
    simp only [quad, List.mem_cons, List.not_mem_nil, or_false] at h
    rcases h with h | h | h | h <;> exact ⟨_, by omega, h⟩
  induction bytes using encode.induct with
  | case1 => cases h
  | case2 a =>
    rcases List.mem_append.mp h with h | h
    · exact .inr (hquad (b := 0) (d := 0) (List.mem_of_mem_take h))
    · left
      simpa using h
  | case3 a b =>
    rcases List.mem_append.mp h with h | h
    · exact .inr (hquad (d := 0) (List.mem_of_mem_take h))
    · left
      simpa using h
  | case4 a b d rest ih =>
    rcases List.mem_append.mp h with h | h
    · exact .inr (hquad h)
    · exact ih h

/-- The padding is what makes the count of the characters divisible by four. -/
theorem filter_encode_append (bytes : List UInt8) :
    let digits := (encode bytes).filter (· ≠ '=')
    digits ++ List.replicate ((4 - digits.length % 4) % 4) '=' = encode bytes := by
  have hdigit {n : Nat} (hn : n < 64) : digit n ≠ '=' := ne_of_beq_false (digit_ne_pad hn)
  have hquad (a b c : UInt8) : (quad a.toNat b.toNat c.toNat).filter (· ≠ '=') =
    quad a.toNat b.toNat c.toNat := by
    have ha := a.toNat_lt
    have hb := b.toNat_lt
    have hc := c.toNat_lt
    apply List.filter_eq_self.mpr
    simp only [quad, List.forall_mem_cons, decide_eq_true_eq]
    exact ⟨hdigit (by omega), hdigit (by omega), hdigit (by omega), hdigit (by omega), nofun⟩
  induction bytes using encode.induct with
  | case1 => rfl
  | case2 a =>
    have ha := a.toNat_lt
    have h₁ := @hdigit (a.toNat / 4) (by omega)
    have h₂ := @hdigit (a.toNat % 4 * 16) (by omega)
    simp [encode, quad, h₁, h₂]
  | case3 a b =>
    have ha := a.toNat_lt
    have hb := b.toNat_lt
    have h₁ := @hdigit (a.toNat / 4) (by omega)
    have h₂ := @hdigit (a.toNat % 4 * 16 + b.toNat / 16) (by omega)
    have h₃ := @hdigit (b.toNat % 16 * 4) (by omega)
    simp [encode, quad, h₁, h₂, h₃]
  | case4 a b c rest ih =>
    dsimp only at ih ⊢
    rw [encode, List.filter_append, hquad, List.length_append]
    have hfour : (quad a.toNat b.toNat c.toNat).length = 4 := rfl
    rw [hfour, Nat.add_mod_left, List.append_assoc, ih]

end Base64
