import Mathlib.Algebra.Group.Nat.Defs
import Mathlib.Data.List.Basic
import Mathlib.Tactic.Common

/-! Lists that are read by subscripts.  A subscript out of range and a sum beyond the integers trap,
which is told apart from an error that the reader throws. -/

universe u v w

/-- How a reader ends without a value. -/
inductive Halt (ε : Type u)
  | threw (error : ε)
  | trapped
  deriving DecidableEq

abbrev Access (ε : Type u) (α : Type v) := Except (Halt ε) α

namespace Access

variable {ε : Type u} {α : Type v} {β : Type v}

/-- A `guard` that throws. -/
def ensure (condition : Prop) [Decidable condition] (error : ε) : Access ε Unit :=
  if condition then .ok () else .error (.threw error)

/-- A `guard let` that throws. -/
def unwrapped (error : ε) : Option α → Access ε α
  | some a => .ok a
  | none => .error (.threw error)

/-- What a checked access yields. -/
def inRange : Option α → Access ε α
  | some a => .ok a
  | none => .error .trapped

/-- `l[lower..<upper]`. -/
def slice (l : List α) (lower upper : Nat) : Access ε (List α) :=
  if lower ≤ upper ∧ upper ≤ l.length then .ok ((l.drop lower).take (upper - lower))
  else .error .trapped

/-- A sum of `Int`s that are not negative. -/
def sum (a b : Nat) : Access ε Nat := if a + b < 2 ^ 63 then .ok (a + b) else .error .trapped

/-! ### What a reader that returns has passed -/

theorem bind_ok {ε' : Type w} {x : Except ε' α} {f : α → Except ε' β} {b : β} :
    x >>= f = .ok b ↔ ∃ a, x = .ok a ∧ f a = .ok b := by
  cases x with
  | error s => simp [bind, Except.bind]
  | ok a => simp [bind, Except.bind]

variable {e : ε}

@[simp]
theorem ensure_ok {c : Prop} [Decidable c] {u : Unit} : ensure c e = .ok u ↔ c := by
  by_cases hc : c <;> simp [ensure, hc]

@[simp]
theorem unwrapped_ok {o : Option α} {a : α} : unwrapped e o = .ok a ↔ o = some a := by
  cases o <;> simp [unwrapped]

@[simp]
theorem inRange_ok {o : Option α} {a : α} : (inRange o : Access ε α) = .ok a ↔ o = some a := by
  cases o <;> simp [inRange]

theorem slice_ok {l r : List α} {lower upper : Nat} : (slice l lower upper : Access ε _) = .ok r ↔
    lower ≤ upper ∧ upper ≤ l.length ∧ r = (l.drop lower).take (upper - lower) := by
  by_cases hc : lower ≤ upper ∧ upper ≤ l.length
  · rw [slice, if_pos hc]
    simp [hc, eq_comm]
  · rw [slice, if_neg hc]
    simp only [reduceCtorEq, false_iff]
    exact fun ⟨hlower, hupper, _⟩ => hc ⟨hlower, hupper⟩

theorem sum_ok {a b c : Nat} : (sum a b : Access ε Nat) = .ok c ↔ a + b < 2 ^ 63 ∧ c = a + b := by
  by_cases hc : a + b < 2 ^ 63
  · rw [sum, if_pos hc, and_iff_right hc, Except.ok.injEq, eq_comm]
  · rw [sum, if_neg hc]
    exact ⟨nofun, fun h => absurd h.1 hc⟩

/-- The range in the middle of three parts. -/
theorem slice_append (x y z : List α) {lower upper : Nat} (hlower : lower = x.length)
    (hupper : upper = x.length + y.length) :
    (slice (x ++ y ++ z) lower upper : Access ε _) = .ok y := by
  rw [hlower, hupper, slice_ok]
  refine ⟨by omega, by simp only [List.length_append]; omega, ?_⟩
  rw [List.append_assoc, List.drop_left, Nat.add_sub_cancel_left, List.take_left]

/-! ### Readers that do not trap -/

def Safe (x : Access ε α) : Prop := x ≠ .error .trapped

theorem Safe.bind {x : Access ε α} {f : α → Access ε β} (hx : Safe x)
    (hf : ∀ a, x = .ok a → Safe (f a)) :
    Safe (x >>= f) := by
  cases x with
  | error s => simpa [Safe, Bind.bind, Except.bind] using hx
  | ok a => exact hf a rfl

theorem Safe.ok (a : α) : Safe (.ok a : Access ε α) := nofun

theorem Safe.threw : Safe (.error (.threw e) : Access ε α) := nofun

theorem Safe.ensure {c : Prop} [Decidable c] : Safe (ensure c e) := by
  by_cases hc : c <;> simp [Safe, Access.ensure, hc]

theorem Safe.unwrapped (o : Option α) : Safe (unwrapped e o) := by
  cases o <;> simp [Safe, Access.unwrapped]

theorem Safe.inRange {o : Option α} (ho : o.isSome) : Safe (inRange o : Access ε α) := by
  obtain ⟨a, rfl⟩ := Option.isSome_iff_exists.mp ho
  exact .ok a

theorem Safe.slice {l : List α} {lower upper : Nat} (hlower : lower ≤ upper)
    (hupper : upper ≤ l.length) :
    Safe (slice l lower upper : Access ε _) := by
  rw [slice_ok.mpr ⟨hlower, hupper, rfl⟩]
  exact .ok _

theorem Safe.sum {a b : Nat} (h : a + b < 2 ^ 63) : Safe (sum a b : Access ε Nat) := by
  rw [sum_ok.mpr ⟨h, rfl⟩]
  exact .ok _

end Access
