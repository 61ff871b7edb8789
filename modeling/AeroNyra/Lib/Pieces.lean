import Mathlib.Algebra.GroupWithZero.Nat
import Mathlib.Data.List.Basic
import Mathlib.Data.List.ReduceOption
import Mathlib.Tactic.Common

/-! Cutting a list into pieces of one size, and putting numbered pieces back in their places, in
whatever order and however often they come. -/

namespace Pieces

variable {α β : Type*}

/-- `l` in pieces of `n` elements, the last one possibly shorter, up to `fuel` of them. -/
def cutFrom (n : Nat) : Nat → List α → List (List α)
  | 0, _ => []
  | _ + 1, [] => []
  | fuel + 1, l => l.take n :: cutFrom n fuel (l.drop n)

/-- `l` in pieces of `n` elements, the last one possibly shorter. -/
def cut (n : Nat) (l : List α) : List (List α) := cutFrom n l.length l

theorem cutFrom_cons {n fuel : Nat} {l : List α} (hl : l ≠ []) :
    cutFrom n (fuel + 1) l = l.take n :: cutFrom n fuel (l.drop n) := by
  cases l with
  | nil => exact absurd rfl hl
  | cons a l => rfl

theorem flatten_cutFrom {n fuel : Nat} {l : List α} (hn : 0 < n) (hf : l.length ≤ fuel) :
    (cutFrom n fuel l).flatten = l := by
  induction fuel generalizing l with
  | zero => simp [List.length_eq_zero_iff.mp (Nat.le_zero.mp hf), cutFrom]
  | succ fuel ih =>
    by_cases hl : l = []
    · simp [hl, cutFrom]
    · have hpos := List.length_pos_iff.mpr hl
      have hdrop : (l.drop n).length ≤ fuel := by rw [List.length_drop]; omega
      rw [cutFrom_cons hl, List.flatten_cons, ih hdrop, List.take_append_drop]

theorem length_cutFrom {n fuel : Nat} {l : List α} (hn : 0 < n) (hf : l.length ≤ fuel) :
    (cutFrom n fuel l).length = (l.length + n - 1) / n := by
  induction fuel generalizing l with
  | zero =>
    have hl : l.length = 0 := Nat.le_zero.mp hf
    rw [hl, Nat.div_eq_of_lt (by omega)]
    rfl
  | succ fuel ih =>
    by_cases hl : l = []
    · rw [hl, List.length_nil, Nat.div_eq_of_lt (by omega)]
      rfl
    · have hpos := List.length_pos_iff.mpr hl
      have hdrop : (l.drop n).length ≤ fuel := by rw [List.length_drop]; omega
      rw [cutFrom_cons hl, List.length_cons, ih hdrop, List.length_drop]
      by_cases hle : n ≤ l.length
      · have hsum : l.length + n - 1 = l.length - n + n - 1 + n := by omega
        rw [hsum, Nat.add_div_right _ hn]
      · rw [Nat.div_eq_of_lt (by omega), Nat.div_eq_of_lt_le (k := 1) (by omega) (by omega)]

theorem flatten_cut {n : Nat} (hn : 0 < n) (l : List α) : (cut n l).flatten = l :=
  flatten_cutFrom hn (Nat.le_refl _)

theorem cut_ne_nil {n : Nat} {l : List α} (hn : 0 < n) (hl : l ≠ []) : cut n l ≠ [] := by
  intro hnil
  have hflat := flatten_cut hn l
  rw [hnil] at hflat
  exact hl hflat.symm

theorem length_cut {n : Nat} (hn : 0 < n) (l : List α) :
    (cut n l).length = (l.length + n - 1) / n :=
  length_cutFrom hn (Nat.le_refl _)

theorem ne_nil_of_mem_cutFrom {n fuel : Nat} {l p : List α} (hn : 0 < n)
    (hp : p ∈ cutFrom n fuel l) :
    p ≠ [] := by
  induction fuel generalizing l with
  | zero => simp [cutFrom] at hp
  | succ fuel ih =>
    by_cases hl : l = []
    · simp [hl, cutFrom] at hp
    · rw [cutFrom_cons hl] at hp
      rcases List.mem_cons.mp hp with rfl | hp
      · have hpos := List.length_pos_iff.mpr hl
        apply List.ne_nil_of_length_pos
        rw [List.length_take]
        omega
      · exact ih hp

theorem ne_nil_of_mem_cut {n : Nat} {l p : List α} (hn : 0 < n) (hp : p ∈ cut n l) : p ≠ [] :=
  ne_nil_of_mem_cutFrom hn hp

theorem length_le_of_mem_cutFrom {n fuel : Nat} {l p : List α} (hp : p ∈ cutFrom n fuel l) :
    p.length ≤ n := by
  induction fuel generalizing l with
  | zero => simp [cutFrom] at hp
  | succ fuel ih =>
    by_cases hl : l = []
    · simp [hl, cutFrom] at hp
    · rw [cutFrom_cons hl] at hp
      rcases List.mem_cons.mp hp with rfl | hp
      · exact List.length_take_le n l
      · exact ih hp

theorem length_le_of_mem_cut {n : Nat} {l p : List α} (hp : p ∈ cut n l) : p.length ≤ n :=
  length_le_of_mem_cutFrom hp

theorem map_length_cutFrom {n fuel fuel' : Nat} {l : List α} {l' : List β} (hn : 0 < n)
    (hlength : l.length = l'.length) (hf : l.length ≤ fuel) (hf' : l'.length ≤ fuel') :
    (cutFrom n fuel l).map List.length = (cutFrom n fuel' l').map List.length := by
  induction fuel generalizing l l' fuel' with
  | zero =>
    have hl : l = [] := List.length_eq_zero_iff.mp (by omega)
    have hl' : l' = [] := List.length_eq_zero_iff.mp (by omega)
    subst hl hl'
    cases fuel' <;> rfl
  | succ fuel ih =>
    by_cases hl : l = []
    · have hl' : l' = [] := List.length_eq_zero_iff.mp (by rw [← hlength, hl, List.length_nil])
      subst hl hl'
      cases fuel' <;> rfl
    · have hpos := List.length_pos_iff.mpr hl
      have hl' : l' ≠ [] := List.ne_nil_of_length_pos (by omega)
      obtain ⟨rest, rfl⟩ : ∃ rest, fuel' = rest + 1 := ⟨fuel' - 1, by omega⟩
      have hdrop : (l.drop n).length = (l'.drop n).length := by
        rw [List.length_drop, List.length_drop, hlength]
      rw [cutFrom_cons hl, cutFrom_cons hl', List.map_cons, List.map_cons, List.length_take,
        List.length_take, hlength, ih hdrop]
      · rw [List.length_drop]
        omega
      · rw [List.length_drop]
        omega

/-- The lengths of the pieces depend on the length of the list alone. -/
theorem map_length_cut {n : Nat} {l : List α} {l' : List β} (hn : 0 < n)
    (h : l.length = l'.length) :
    (cut n l).map List.length = (cut n l').map List.length :=
  map_length_cutFrom hn h (Nat.le_refl _) (Nat.le_refl _)

theorem sum_length_cut {n : Nat} (hn : 0 < n) (l : List α) :
    ((cut n l).map List.length).sum = l.length := by
  rw [← List.length_flatten, flatten_cut hn]

theorem cutFrom_flatten {n fuel : Nat} {pieces : List (List α)} (hn : 0 < n)
    (h : ∀ p ∈ pieces, p.length = n) (hf : pieces.flatten.length ≤ fuel) :
    cutFrom n fuel pieces.flatten = pieces := by
  induction pieces generalizing fuel with
  | nil => cases fuel <;> rfl
  | cons p pieces ih =>
    have hp := h p List.mem_cons_self
    rw [List.flatten_cons, List.length_append] at hf
    obtain ⟨rest, rfl⟩ : ∃ rest, fuel = rest + 1 := ⟨fuel - 1, by omega⟩
    have hne : (p :: pieces).flatten ≠ [] := by
      rw [List.flatten_cons]
      exact List.append_ne_nil_of_left_ne_nil (List.ne_nil_of_length_pos (by omega)) _
    rw [cutFrom_cons hne, List.flatten_cons, List.take_left' hp, List.drop_left' hp]
    congr 1
    exact ih (fun q hq => h q (List.mem_cons_of_mem _ hq)) (by omega)

/-- Pieces that are all full are cut where they were joined. -/
theorem cut_flatten {n : Nat} {pieces : List (List α)} (hn : 0 < n)
    (h : ∀ p ∈ pieces, p.length = n) :
    cut n pieces.flatten = pieces :=
  cutFrom_flatten hn h (Nat.le_refl _)

theorem cut_of_length_le {n : Nat} {l : List α} (hl : l ≠ []) (hn : l.length ≤ n) :
    cut n l = [l] := by
  have hpos := List.length_pos_iff.mpr hl
  obtain ⟨fuel, hfuel⟩ : ∃ fuel, l.length = fuel + 1 := ⟨l.length - 1, by omega⟩
  rw [cut, hfuel, cutFrom_cons hl, List.take_of_length_le hn, List.drop_of_length_le hn]
  cases fuel <;> rfl

/-- The slots with `p` in its place; none when there is no such place. -/
def place (slots : List (Option β)) (p : Nat × β) : Option (List (Option β)) :=
  if p.1 < slots.length then some (slots.set p.1 (some p.2)) else none

/-- Slots that hold pieces of `xs` at their places. -/
structure PartlyFilled (xs : List β) (slots : List (Option β)) : Prop where
  length : slots.length = xs.length
  agree : ∀ (i : Nat) (v : β), slots[i]? = some (some v) → xs[i]? = some v

/-- A place is filled. -/
def Filled (slots : List (Option β)) (i : Nat) : Prop := ∃ v, slots[i]? = some (some v)

theorem place_partlyFilled {xs : List β} {slots : List (Option β)} {p : Nat × β}
    (h : PartlyFilled xs slots) (hp : xs[p.1]? = some p.2) :
    ∃ slots', place slots p = some slots' ∧ PartlyFilled xs slots' ∧
      ∀ i, Filled slots' i ↔ i = p.1 ∨ Filled slots i := by
  have hlt : p.1 < slots.length := by
    rw [h.length]
    exact (List.getElem?_eq_some_iff.mp hp).1
  refine ⟨slots.set p.1 (some p.2), by simp [place, hlt], ⟨by simp [h.length], fun i v hv => ?_⟩,
    fun i => ?_⟩
  · by_cases hi : i = p.1
    · subst hi
      rw [List.getElem?_set_self hlt, Option.some.injEq, Option.some.injEq] at hv
      exact hv ▸ hp
    · rw [List.getElem?_set_ne (Ne.symm hi)] at hv
      exact h.agree i v hv
  · by_cases hi : i = p.1
    · subst hi
      simp [Filled, List.getElem?_set_self hlt]
    · simp [Filled, List.getElem?_set_ne (Ne.symm hi), hi]

/-- Pieces of `xs`, in any order and with any repetitions, all find their places. -/
theorem foldlM_place {xs : List β} {ps : List (Nat × β)} {slots : List (Option β)}
    (h : PartlyFilled xs slots) (hps : ∀ p ∈ ps, xs[p.1]? = some p.2) :
    ∃ slots', ps.foldlM place slots = some slots' ∧ PartlyFilled xs slots' ∧
      ∀ i, Filled slots' i ↔ i ∈ ps.map Prod.fst ∨ Filled slots i := by
  induction ps generalizing slots with
  | nil => exact ⟨slots, rfl, h, by simp⟩
  | cons p ps ih =>
    obtain ⟨slots₁, hplace, h₁, hfill₁⟩ := place_partlyFilled h (hps p List.mem_cons_self)
    obtain ⟨slots₂, hfold, h₂, hfill₂⟩ := ih h₁ fun q hq => hps q (List.mem_cons_of_mem _ hq)
    refine ⟨slots₂, ?_, h₂, fun i => ?_⟩
    · rw [List.foldlM_cons, hplace]
      exact hfold
    · rw [hfill₂, hfill₁, List.map_cons, List.mem_cons]
      tauto

theorem partlyFilled_replicate (xs : List β) : PartlyFilled xs (List.replicate xs.length none) := by
  refine ⟨by simp, fun i v hv => ?_⟩
  rw [List.getElem?_replicate] at hv
  split at hv <;> cases hv

/-- Slots that hold every piece of `xs`. -/
theorem PartlyFilled.eq_map {xs : List β} {slots : List (Option β)} (h : PartlyFilled xs slots)
    (hall : ∀ i < xs.length, Filled slots i) : slots = xs.map some := by
  refine List.ext_getElem? fun i => ?_
  rw [List.getElem?_map]
  by_cases hi : i < xs.length
  · obtain ⟨v, hv⟩ := hall i hi
    rw [hv, h.agree i v hv]
    rfl
  · rw [List.getElem?_eq_none (by rw [h.length]; omega), List.getElem?_eq_none (by omega)]
    rfl

theorem reduceOption_map_some (xs : List β) : (xs.map some).reduceOption = xs := by
  simp [List.reduceOption, List.filterMap_map]

/-! ### Fronts -/

/-- A front of each of the lists, one behind the other. -/
inductive Fronts : List (List α) → List α → Prop
  | nil : Fronts [] []
  | cons {front piece l : List α} {pieces : List (List α)} :
      front <+: piece → Fronts pieces l → Fronts (piece :: pieces) (front ++ l)

namespace Fronts

variable {pieces pieces' : List (List α)} {l l' : List α}

theorem none (pieces : List (List α)) : Fronts pieces [] := by
  induction pieces with
  | nil => exact nil
  | cons piece pieces ih => exact cons List.nil_prefix ih

theorem append (h : Fronts pieces l) (h' : Fronts pieces' l') : Fronts (pieces ++ pieces')
    (l ++ l') := by
  induction h with
  | nil => exact h'
  | cons hfront _ ih =>
    rw [List.cons_append, List.append_assoc]
    exact cons hfront ih

theorem single {front piece : List α} (h : front <+: piece) : Fronts [piece] front := by
  have hone := cons h nil
  rwa [List.append_nil] at hone

end Fronts

/-! ### Full blocks -/

/-- The consecutive full blocks of `k` elements. -/
def blocks (k : Nat) (l : List α) : List (List α) :=
  (List.range (l.length / k)).map fun i => (l.drop (i * k)).take k

/-- What is behind the full blocks. -/
def remainder (k : Nat) (l : List α) : List α := l.drop (l.length / k * k)

variable {k : Nat} {l : List α}

theorem blocks_of_lt (h : l.length < k) : blocks k l = [] ∧ remainder k l = l := by
  rw [blocks, remainder, Nat.div_eq_of_lt h, Nat.zero_mul, List.drop_zero]
  exact ⟨rfl, rfl⟩

theorem blocks_of_le (hk : 0 < k) (h : k ≤ l.length) :
    blocks k l = l.take k :: blocks k (l.drop k) ∧ remainder k l = remainder k (l.drop k) := by
  have hdiv : l.length / k = (l.drop k).length / k + 1 := by
    rw [List.length_drop, ← Nat.add_div_right _ hk, Nat.sub_add_cancel h]
  constructor
  · rw [blocks, hdiv, List.range_succ_eq_map, List.map_cons, List.map_map, blocks, Nat.zero_mul,
      List.drop_zero]
    congr 1
    apply List.map_congr_left
    intro i _
    rw [List.drop_drop, Function.comp_apply, Nat.succ_mul, Nat.add_comm k]
  · rw [remainder, remainder, hdiv, List.drop_drop, Nat.add_mul, Nat.one_mul, Nat.add_comm k]

theorem length_remainder (hk : 0 < k) (l : List α) : (remainder k l).length < k := by
  rw [remainder, List.length_drop, ← Nat.mod_eq_sub_div_mul]
  exact Nat.mod_lt _ hk

theorem length_of_mem_blocks {b : List α} (hb : b ∈ blocks k l) : b.length = k := by
  obtain ⟨i, hi, rfl⟩ := List.mem_map.mp hb
  have hlt : (i + 1) * k ≤ l.length :=
    Nat.le_trans (Nat.mul_le_mul_right k (List.mem_range.mp hi)) (Nat.div_mul_le_self _ _)
  rw [Nat.succ_mul] at hlt
  rw [List.length_take, List.length_drop]
  omega

/-- What comes behind is cut together with the remainder. -/
theorem blocks_append (hk : 0 < k) (l more : List α) :
    blocks k (l ++ more) = blocks k l ++ blocks k (remainder k l ++ more) ∧
    remainder k (l ++ more) = remainder k (remainder k l ++ more) := by
  induction hn : l.length using Nat.strongRecOn generalizing l with
  | ind n ih =>
    subst hn
    by_cases hlt : l.length < k
    · obtain ⟨hnone, hall⟩ := blocks_of_lt hlt
      rw [hnone, hall]
      exact ⟨rfl, rfl⟩
    · have hle : k ≤ l.length := Nat.not_lt.mp hlt
      have hle' : k ≤ (l ++ more).length := by
        rw [List.length_append]
        omega
      have hshorter : (l.drop k).length < l.length := by
        rw [List.length_drop]
        omega
      obtain ⟨hblocks, hremainder⟩ := ih _ hshorter (l.drop k) rfl
      obtain ⟨hfirst, hlast⟩ := blocks_of_le hk hle
      obtain ⟨hfirst', hlast'⟩ := blocks_of_le hk hle'
      rw [List.drop_append_of_le_length hle] at hfirst' hlast'
      rw [List.take_append_of_le_length hle] at hfirst'
      rw [hfirst', hlast', hfirst, hlast, hblocks, hremainder]
      exact ⟨rfl, rfl⟩

theorem flatten_blocks (hk : 0 < k) (l : List α) : (blocks k l).flatten ++ remainder k l = l := by
  induction hn : l.length using Nat.strongRecOn generalizing l with
  | ind n ih =>
    subst hn
    by_cases hlt : l.length < k
    · obtain ⟨hnone, hall⟩ := blocks_of_lt hlt
      rw [hnone, hall]
      rfl
    · have hle : k ≤ l.length := Nat.not_lt.mp hlt
      have hshorter : (l.drop k).length < l.length := by
        rw [List.length_drop]
        omega
      obtain ⟨hfirst, hlast⟩ := blocks_of_le hk hle
      rw [hfirst, hlast, List.flatten_cons, List.append_assoc, ih _ hshorter (l.drop k) rfl,
        List.take_append_drop]

end Pieces
