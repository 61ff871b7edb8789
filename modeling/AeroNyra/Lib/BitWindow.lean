import Mathlib.Data.Set.Insert
import Mathlib.Tactic.Common

/-! The numbers seen within a window below the highest one, as the bits of a word. -/

namespace BitWindow

variable {w : ℕ} {seen : Set ℕ} {highest n : ℕ} {bits : BitVec w}

/-- `highest` is the highest number seen, and bit `i` tells whether `highest - i` was seen. -/
structure Describes (seen : Set ℕ) (highest : ℕ) (bits : BitVec w) : Prop where
  top : highest ∈ seen
  le : ∀ n ∈ seen, n ≤ highest
  bit : ∀ i < w, bits.getLsbD i = true ↔ i ≤ highest ∧ highest - i ∈ seen

theorem getLsbD_one_shiftLeft {i k : ℕ} (hi : i < w) :
    (1#w <<< k).getLsbD i = true ↔ i = k := by
  rw [← BitVec.twoPow_eq, BitVec.getLsbD_twoPow, Bool.and_eq_true, decide_eq_true_eq,
    decide_eq_true_eq]
  omega

theorem getLsbD_one {i : ℕ} (hi : i < w) : (1#w).getLsbD i = true ↔ i = 0 := by
  have h := getLsbD_one_shiftLeft (w := w) (k := 0) hi
  rwa [BitVec.shiftLeft_zero] at h

/-- The first number seen. -/
theorem describes_first (n : ℕ) : Describes {n} n (1#w) := by
  refine ⟨Set.mem_singleton n, ?_, ?_⟩
  · intro m hm
    exact Nat.le_of_eq (Set.mem_singleton_iff.mp hm)
  · intro i hi
    rw [getLsbD_one hi, Set.mem_singleton_iff]
    omega

/-- A number above the highest one moves the window. -/
theorem Describes.advance (h : Describes seen highest bits) (hlt : highest < n) :
    Describes (insert n seen) n
      ((if w ≤ n - highest then 0 else bits <<< (n - highest)) ||| 1#w) := by
  refine ⟨Set.mem_insert n seen, ?_, ?_⟩
  · intro m hm
    rcases Set.mem_insert_iff.mp hm with rfl | hm
    · exact Nat.le_refl _
    · exact Nat.le_trans (h.le m hm) (Nat.le_of_lt hlt)
  · intro i hi
    rw [BitVec.getLsbD_or, Bool.or_eq_true, getLsbD_one hi, Set.mem_insert_iff]
    by_cases hi0 : i = 0
    · subst hi0
      simp
    · have hne : n - i ≠ n := by omega
      by_cases hshift : w ≤ n - highest
      · have hnot : n - i ∉ seen := fun hmem => by
          have := h.le _ hmem
          omega
        simp [hshift, hi0, hnot]
        omega
      · rw [if_neg hshift, BitVec.getLsbD_shiftLeft]
        by_cases hlow : i < n - highest
        · have hnot : n - i ∉ seen := fun hmem => by
            have := h.le _ hmem
            omega
          simp [hlow, hi0, hnot]
          omega
        · have hbit := h.bit (i - (n - highest)) (by omega)
          have hsame : highest - (i - (n - highest)) = n - i := by omega
          rw [hsame] at hbit
          have hin : i - (n - highest) ≤ highest ↔ i ≤ n := by omega
          rw [hin] at hbit
          simp [hi, hlow, hi0, hbit, hne]

/-- A number within the window, or below it, sets its bit at most. -/
theorem Describes.mark (h : Describes seen highest bits) (hle : n ≤ highest) :
    Describes (insert n seen) highest (bits ||| 1#w <<< (highest - n)) := by
  refine ⟨Set.mem_insert_of_mem n h.top, ?_, ?_⟩
  · intro m hm
    rcases Set.mem_insert_iff.mp hm with rfl | hm
    · exact hle
    · exact h.le m hm
  · intro i hi
    rw [BitVec.getLsbD_or, Bool.or_eq_true, getLsbD_one_shiftLeft hi, h.bit i hi,
      Set.mem_insert_iff]
    constructor
    · rintro (⟨hi, hmem⟩ | rfl)
      · exact ⟨hi, .inr hmem⟩
      · exact ⟨by omega, .inl (by omega)⟩
    · rintro ⟨hi, heq | hmem⟩
      · exact .inr (by omega)
      · exact .inl ⟨hi, hmem⟩

/-- Within the window, the bit tells whether the number was seen. -/
theorem Describes.mem_iff (h : Describes seen highest bits) (hle : n ≤ highest)
    (hwindow : highest - n < w) : n ∈ seen ↔ bits.getLsbD (highest - n) = true := by
  have hsame : highest - (highest - n) = n := by omega
  rw [h.bit _ hwindow, hsame]
  exact (and_iff_right (Nat.sub_le highest n)).symm

end BitWindow
