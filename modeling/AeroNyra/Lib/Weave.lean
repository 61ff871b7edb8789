import Mathlib.Data.List.DropRight
import Mathlib.Tactic.Common

/-! Lists with gaps woven into them, what is trimmed off the ends of a list, and what is left of one
without the occurrences of a pattern. -/

universe u

variable {α : Type u}

/-- `s` is `t` with a gap before each element. -/
inductive Woven (Gap : List α → Prop) : List α → List α → Prop
  | nil : Woven Gap [] []
  | cons {g t s : List α} {a : α} : Gap g → Woven Gap t s → Woven Gap (a :: t) (g ++ a :: s)

namespace Woven

variable {Gap : List α → Prop} {s t : List α}

theorem self (hnil : Gap []) (t : List α) : Woven Gap t t := by
  induction t with
  | nil => exact nil
  | cons a t ih => exact cons hnil ih

theorem append {s' t' : List α} (h : Woven Gap t s) (h' : Woven Gap t' s') :
    Woven Gap (t ++ t') (s ++ s') := by
  induction h with
  | nil => exact h'
  | cons hg _ ih =>
    rw [List.cons_append, List.append_assoc, List.cons_append]
    exact cons hg ih

/-- What a function that drops the gaps leaves. -/
theorem apply_eq {f : List α → List α} (h : Woven Gap t s) (hnil : f [] = [])
    (hgap : ∀ g, Gap g → ∀ x, f (g ++ x) = f x) (hcons : ∀ a ∈ t, ∀ x, f (a :: x) = a :: f x) :
    f s = t := by
  induction h with
  | nil => exact hnil
  | cons hg _ ih =>
    rw [hgap _ hg, hcons _ List.mem_cons_self, ih fun a ha => hcons a (List.mem_cons_of_mem _ ha)]

/-- An element is one of the list or one of a gap. -/
theorem mem_of_mem {a : α} (h : Woven Gap t s) (ha : a ∈ s) : a ∈ t ∨ ∃ g, Gap g ∧ a ∈ g := by
  induction h with
  | nil => exact .inl ha
  | @cons g t s b hg _ ih =>
    rcases List.mem_append.mp ha with ha | ha
    · exact .inr ⟨g, hg, ha⟩
    · rcases List.mem_cons.mp ha with rfl | ha
      · exact .inl List.mem_cons_self
      · exact (ih ha).imp (List.mem_cons_of_mem _) id

theorem getLast?_eq (h : Woven Gap t s) : s.getLast? = t.getLast? := by
  induction h with
  | nil => rfl
  | @cons g t s a hg h ih =>
    rw [List.getLast?_append, List.getLast?_cons, List.getLast?_cons, ih]
    rfl

/-- A front that is made of gaps goes to the first gap. -/
theorem cons_gap {g : List α} (hjoin : ∀ g', Gap g' → Gap (g ++ g')) (h : Woven Gap t s)
    (ht : t ≠ []) :
    Woven Gap t (g ++ s) := by
  cases h with
  | nil => exact absurd rfl ht
  | cons hg h =>
    rw [← List.append_assoc]
    exact cons (hjoin _ hg) h

/-- A filter that drops the gaps leaves what it leaves of the list. -/
theorem filter_eq {p : α → Bool} (h : Woven Gap t s) (hgap : ∀ g, Gap g → ∀ a ∈ g, p a = false) :
    s.filter p = t.filter p := by
  induction h with
  | nil => rfl
  | @cons g t s a hg _ ih =>
    have hnil : g.filter p = [] :=
      List.filter_eq_nil_iff.mpr fun b hb => by rw [hgap g hg b hb]; exact Bool.false_ne_true
    rw [List.filter_append, hnil, List.nil_append, List.filter_cons, List.filter_cons, ih]

end Woven

/-- `s` is `t` with a gap before each element and one at the end. -/
def WovenThrough (Gap : List α → Prop) (t s : List α) : Prop :=
  ∃ core g, Woven Gap t core ∧ Gap g ∧ s = core ++ g

namespace WovenThrough

variable {Gap : List α → Prop} {s t : List α}

/-- A front that joins the gaps. -/
theorem front {g : List α} (h : WovenThrough Gap t s) (hjoin : ∀ g', Gap g' → Gap (g ++ g')) :
    WovenThrough Gap t (g ++ s) := by
  obtain ⟨core, last, hcore, hlast, rfl⟩ := h
  by_cases ht : t = []
  · subst ht
    cases hcore
    exact ⟨[], g ++ last, .nil, hjoin _ hlast, rfl⟩
  · exact ⟨g ++ core, last, hcore.cons_gap hjoin ht, hlast, (List.append_assoc _ _ _).symm⟩

theorem cons (h : WovenThrough Gap t s) (hnil : Gap []) (a : α) : WovenThrough Gap (a :: t)
    (a :: s) := by
  obtain ⟨core, last, hcore, hlast, rfl⟩ := h
  exact ⟨a :: core, last, Woven.cons hnil hcore, hlast, rfl⟩

/-- Without a gap at the end, if every gap that is not empty ends in a way that `s` does not. -/
theorem woven {p : α → Bool} (h : WovenThrough Gap t s)
    (hp : ∀ a, s.getLast? = some a → p a = false)
    (hgap : ∀ g, Gap g → ∀ a, g.getLast? = some a → p a) : Woven Gap t s := by
  obtain ⟨core, last, hcore, hlast, rfl⟩ := h
  cases hend : last.getLast? with
  | none =>
    rw [List.getLast?_eq_none_iff] at hend
    rwa [hend, List.append_nil]
  | some a =>
    have hsame := hp a (by rw [List.getLast?_append, hend]; rfl)
    rw [hgap _ hlast a hend] at hsame
    cases hsame

end WovenThrough

/-! ### Trimming -/

namespace List

variable (p : α → Bool)

/-- The list without the elements at both ends that satisfy `p`. -/
def trimming (s : List α) : List α := (s.dropWhile p).rdropWhile p

variable {p}

/-- No element at an end satisfies `p`. -/
def Trimmed (p : α → Bool) (s : List α) : Prop :=
  (∀ a, s.head? = some a → p a = false) ∧ ∀ a, s.getLast? = some a → p a = false

theorem trimming_append_left {w s : List α} (hw : ∀ a ∈ w, p a) :
    trimming p (w ++ s) = trimming p s := by
  rw [trimming, trimming, List.dropWhile_append_of_pos hw]

theorem trimming_append_right {w s : List α} (hw : ∀ a ∈ w, p a) :
    trimming p (s ++ w) = trimming p s := by
  have hdrop (x : List α) : (x ++ w).rdropWhile p = x.rdropWhile p := by
    rw [rdropWhile, List.reverse_append, List.dropWhile_append_of_pos (by simpa using hw),
      rdropWhile]
  rw [trimming, trimming, List.dropWhile_append]
  split
  · rename_i hall
    have hleft : s.dropWhile p = [] := by simpa using hall
    have hright : w.dropWhile p = [] := List.dropWhile_eq_nil_iff.mpr hw
    rw [hleft, hright]
  · exact hdrop _

theorem Trimmed.trimming_eq {s : List α} (h : Trimmed p s) : trimming p s = s := by
  have hhead : s.dropWhile p = s := by
    cases s with
    | nil => rfl
    | cons a s => rw [List.dropWhile_cons_of_neg (by rw [h.1 a rfl]; exact Bool.false_ne_true)]
  rw [trimming, hhead, List.rdropWhile_eq_self_iff]
  intro hne hp
  rw [h.2 _ (List.getLast?_eq_some_getLast hne)] at hp
  exact Bool.false_ne_true hp

theorem trimmed_trimming (p : α → Bool) (s : List α) : Trimmed p (trimming p s) := by
  constructor
  · intro a ha
    obtain ⟨w, hw⟩ : trimming p s <+: s.dropWhile p := List.rdropWhile_prefix p _
    have hfirst : (s.dropWhile p).head? = some a := by
      rw [← hw, List.head?_append, ha]
      rfl
    have hnot := List.head?_dropWhile_not p s
    rwa [hfirst] at hnot
  · intro a ha
    have hne : trimming p s ≠ [] := fun hnil => by
      rw [hnil] at ha
      cases ha
    have hnot : ¬p ((trimming p s).getLast hne) := List.rdropWhile_last_not p (s.dropWhile p) hne
    rw [List.getLast?_eq_some_getLast hne] at ha
    obtain rfl := Option.some.inj ha
    simpa using hnot

/-- What is trimmed off satisfies `p`. -/
theorem exists_trimming (p : α → Bool) (s : List α) :
    ∃ v w : List α, (∀ a ∈ v, p a) ∧ (∀ a ∈ w, p a) ∧ s = v ++ (trimming p s ++ w) := by
  refine ⟨s.takeWhile p, (s.dropWhile p).rtakeWhile p, fun a ha => List.mem_takeWhile_imp ha,
    fun a ha => List.mem_rtakeWhile_imp ha, ?_⟩
  rw [trimming, List.rdropWhile_append_rtakeWhile, List.takeWhile_append_dropWhile]

/-! ### Occurrences of a pattern -/

variable [DecidableEq α]

/-- The list from behind its first `skip` elements on, without the occurrences of the pattern. -/
def removingFrom (pattern : List α) : Nat → List α → List α
  | _, [] => []
  | skip + 1, _ :: s => removingFrom pattern skip s
  | 0, a :: s =>
    if pattern <+: a :: s then removingFrom pattern (pattern.length - 1) s
    else a :: removingFrom pattern 0 s

/-- The list without the occurrences of the pattern, the first one at each place. -/
def removing (s pattern : List α) : List α := removingFrom pattern 0 s

variable {pattern : List α}

@[simp]
theorem removing_nil : removing [] pattern = [] := rfl

theorem removing_cons {a : α} {s : List α} (h : ¬pattern <+: a :: s) :
    removing (a :: s) pattern = a :: removing s pattern := by
  rw [removing, removingFrom, if_neg h, removing]

theorem removingFrom_append (g s : List α) : removingFrom pattern g.length (g ++ s) =
    removing s pattern := by
  induction g with
  | nil => rfl
  | cons a g ih => exact ih

theorem removing_append (a : α) (g s : List α) : removing (a :: (g ++ s))
    (a :: g) = removing s (a :: g) := by
  have hfront : (a :: g) <+: a :: (g ++ s) := List.prefix_append (a :: g) s
  rw [removing, removingFrom, if_pos hfront]
  exact removingFrom_append g s

end List
