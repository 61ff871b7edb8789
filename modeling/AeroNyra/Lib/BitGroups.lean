import Mathlib.Data.List.Basic
import Mathlib.Data.Nat.Bitwise
import Mathlib.Tactic.Common

/-! Numbers of a fixed width as their bits, the highest first, and what an accumulator of bits
holds while groups of one width are cut into groups of another. -/

namespace BitGroups

/-- The lowest `k` bits of a number, the highest first. -/
def bits : ℕ → ℕ → List Bool
  | 0, _ => []
  | k + 1, n => n.testBit k :: bits k n

variable {j k m n a b v acc : ℕ}

@[simp] theorem length_bits (k n : ℕ) : (bits k n).length = k := by
  induction k with
  | zero => rfl
  | succ k ih => rw [bits, List.length_cons, ih]

theorem bits_congr (h : ∀ i < k, a.testBit i = b.testBit i) : bits k a = bits k b := by
  induction k with
  | zero => rfl
  | succ k ih =>
      rw [bits, bits, h k (Nat.lt_succ_self k), ih fun i hi => h i (Nat.lt_succ_of_lt hi)]

theorem testBit_of_bits (h : bits k a = bits k b) {i : ℕ} (hi : i < k) :
    a.testBit i = b.testBit i := by
  induction k with
  | zero => omega
  | succ k ih =>
    obtain ⟨hfirst, hrest⟩ := List.cons.inj h
    rcases Nat.lt_succ_iff_lt_or_eq.mp hi with hi | rfl
    · exact ih hrest hi
    · exact hfirst

/-- Numbers within the width are told apart by their bits. -/
theorem eq_of_bits (ha : a < 2 ^ k) (hb : b < 2 ^ k) (h : bits k a = bits k b) : a = b := by
  apply Nat.eq_of_testBit_eq
  intro i
  by_cases hi : i < k
  · exact testBit_of_bits h hi
  · have hpow : 2 ^ k ≤ 2 ^ i := Nat.pow_le_pow_right (by decide) (Nat.not_lt.mp hi)
    rw [Nat.testBit_lt_two_pow (lt_of_lt_of_le ha hpow),
      Nat.testBit_lt_two_pow (lt_of_lt_of_le hb hpow)]

/-- The bits above and below a place. -/
theorem bits_append (j k n : ℕ) : bits (j + k) n = bits j (n >>> k) ++ bits k n := by
  induction j with
  | zero => rw [Nat.zero_add, bits, List.nil_append]
  | succ j ih => rw [Nat.add_right_comm, bits, bits, ih, Nat.testBit_shiftRight, Nat.add_comm k,
      List.cons_append]

theorem bits_zero (k : ℕ) : bits k 0 = List.replicate k false := by
  induction k with
  | zero => rfl
  | succ k ih => rw [bits, ih, Nat.zero_testBit, List.replicate_succ]

/-- A mask of the width keeps the bits. -/
theorem bits_mask (k n : ℕ) : bits k (n &&& (2 ^ k - 1)) = bits k n := by
  apply bits_congr
  intro i hi
  rw [Nat.testBit_and, Nat.testBit_two_pow_sub_one, decide_eq_true hi, Bool.and_true]

theorem mask_lt (k n : ℕ) : n &&& (2 ^ k - 1) < 2 ^ k := by
  rw [Nat.and_two_pow_sub_one_eq_mod]
  exact Nat.mod_lt _ (Nat.two_pow_pos k)

/-! ### The accumulator -/

/-- A group is pushed behind the bits of the accumulator, which is masked to at least as many. -/
theorem bits_push (hv : v < 2 ^ k) (hm : j + k ≤ m) :
    bits (j + k) (((acc <<< k) ||| v) &&& (2 ^ m - 1)) = bits j acc ++ bits k v := by
  have hkept {i : ℕ} (hi : i < j + k) : (((acc <<< k) ||| v) &&& (2 ^ m - 1)).testBit i =
      ((decide (k ≤ i) && acc.testBit (i - k)) || v.testBit i) := by
    rw [Nat.testBit_and, Nat.testBit_two_pow_sub_one, decide_eq_true (by omega : i < m),
      Bool.and_true, Nat.testBit_or, Nat.testBit_shiftLeft]
  rw [bits_append]
  congr 1
  · apply bits_congr
    intro i hi
    have hhigh : v.testBit (k + i) = false :=
      Nat.testBit_lt_two_pow (lt_of_lt_of_le hv (Nat.pow_le_pow_right (by decide) (by omega)))
    rw [Nat.testBit_shiftRight, hkept (by omega), hhigh, Nat.add_sub_cancel_left]
    simp
  · apply bits_congr
    intro i hi
    rw [hkept (by omega), decide_eq_false (by omega : ¬k ≤ i)]
    simp

/-- A group is taken off the front of the bits of the accumulator. -/
theorem bits_take (h : k ≤ j) : bits j acc = bits k ((acc >>> (j - k)) &&& (2 ^ k - 1)) ++ bits
    (j - k) acc := by
  have hsplit := bits_append k (j - k) acc
  rwa [Nat.add_sub_cancel' h, ← bits_mask k] at hsplit

/-- The rest of the bits, filled up to a group with zeros. -/
theorem bits_pad (h : j ≤ k) :
    bits k ((acc <<< (k - j)) &&& (2 ^ k - 1)) = bits j acc ++ List.replicate (k - j) false := by
  have hpush := @bits_push j (k - j) k 0 acc (Nat.two_pow_pos _) (by omega)
  rwa [Nat.add_sub_cancel' h, Nat.or_zero, bits_zero] at hpush

/-! ### Groups -/

/-- The bits of groups of one width, one behind the other. -/
def grouped (k : ℕ) (l : List ℕ) : List Bool := l.flatMap (bits k)

theorem length_grouped (k : ℕ) (l : List ℕ) : (grouped k l).length = l.length * k := by
  induction l with
  | nil => simp [grouped]
  | cons n l ih =>
    rw [grouped, List.flatMap_cons, List.length_append, length_bits, ← grouped, ih,
      List.length_cons, Nat.succ_mul, Nat.add_comm]

theorem grouped_append (k : ℕ) (l l' : List ℕ) :
    grouped k (l ++ l') = grouped k l ++ grouped k l' :=
  List.flatMap_append

/-- Groups within their width are told apart by their bits. -/
theorem eq_of_grouped {l l' : List ℕ} (hl : ∀ n ∈ l, n < 2 ^ k) (hl' : ∀ n ∈ l', n < 2 ^ k)
    (hlength : l.length = l'.length) (h : grouped k l = grouped k l') : l = l' := by
  induction l generalizing l' with
  | nil => exact (List.length_eq_zero_iff.mp hlength.symm).symm
  | cons n l ih =>
    cases l' with
    | nil => cases hlength
    | cons n' l' =>
      obtain ⟨hfirst, hrest⟩ := List.append_inj (show bits k n ++ grouped k l =
        bits k n' ++ grouped k l' from h) (by rw [length_bits, length_bits])
      rw [eq_of_bits (hl n List.mem_cons_self) (hl' n' List.mem_cons_self) hfirst,
        ih (fun i hi => hl i (List.mem_cons_of_mem _ hi))
          (fun i hi => hl' i (List.mem_cons_of_mem _ hi)) (Nat.succ.inj hlength) hrest]

/-- Groups with less than a group of bits behind them are determined by all the bits. -/
theorem groups_unique {l l' : List ℕ} {r r' : List Bool} (hl : ∀ n ∈ l, n < 2 ^ k)
    (hl' : ∀ n ∈ l', n < 2 ^ k)
    (hr : r.length < k) (hr' : r'.length < k) (h : grouped k l ++ r = grouped k l' ++ r') :
    l = l' ∧ r = r' := by
  have hlength := congrArg List.length h
  rw [List.length_append, List.length_append, length_grouped, length_grouped] at hlength
  have hcount : l.length = l'.length := by
    have hdiv : (l.length * k + r.length) / k = (l'.length * k + r'.length) / k := by rw [hlength]
    rw [Nat.mul_comm, Nat.mul_add_div (by omega), Nat.div_eq_of_lt hr, Nat.mul_comm l'.length,
      Nat.mul_add_div (by omega), Nat.div_eq_of_lt hr'] at hdiv
    exact hdiv
  obtain ⟨hgroups, hrest⟩ := List.append_inj h (by rw [length_grouped, length_grouped, hcount])
  exact ⟨eq_of_grouped hl hl' hcount hgroups, hrest⟩

end BitGroups
