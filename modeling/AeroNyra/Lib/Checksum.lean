import Mathlib.Data.List.Basic
import Mathlib.Data.Set.Basic
import Mathlib.Tactic.Common

/-! Checksums that are folds of one step over symbols: what a linear step computes of a sum, and
that a step which merges nothing tells texts apart which differ in one symbol. -/

universe u v

namespace Checksum

variable {σ : Type u} {α : Type v} {step : σ → α → σ}

/-- The step of a sum is the sum of the steps. -/
def Linear (step : σ → α → σ) (add : σ → σ → σ) (plus : α → α → α) : Prop :=
  ∀ s t a b, step (add s t) (plus a b) = add (step s a) (step t b)

theorem Linear.foldl {add : σ → σ → σ} {plus : α → α → α} (h : Linear step add plus) {l l' : List α}
    (hlength : l.length = l'.length) (s t : σ) :
    (List.zipWith plus l l').foldl step (add s t) = add (l.foldl step s) (l'.foldl step t) := by
  induction l generalizing l' s t with
  | nil =>
    rw [List.eq_nil_of_length_eq_zero hlength.symm]
    rfl
  | cons a l ih =>
    cases l' with
    | nil => cases hlength
    | cons b l' =>
      rw [List.zipWith_cons_cons, List.foldl_cons, h, ih (Nat.succ.inj hlength)]
      rfl

/-- Over some symbols, the step stays within a set of states and merges neither two of these nor two
symbols. -/
structure Separating (step : σ → α → σ) (S : Set σ) (A : Set α) : Prop where
  kept {s : σ} {a : α} : s ∈ S → a ∈ A → step s a ∈ S
  states {s t : σ} {a : α} : s ∈ S → t ∈ S → a ∈ A → step s a = step t a → s = t
  symbols {s : σ} {a b : α} : s ∈ S → a ∈ A → b ∈ A → step s a = step s b → a = b

namespace Separating

variable {S : Set σ} {A : Set α} (h : Separating step S A)
include h

theorem foldl_kept {l : List α} (hl : ∀ a ∈ l, a ∈ A) {s : σ} (hs : s ∈ S) :
    l.foldl step s ∈ S := by
  induction l generalizing s with
  | nil => exact hs
  | cons a l ih =>
    exact ih (fun b hb => hl b (List.mem_cons_of_mem _ hb)) (h.kept hs (hl a List.mem_cons_self))

theorem foldl_states {l : List α} (hl : ∀ a ∈ l, a ∈ A) {s t : σ} (hs : s ∈ S) (ht : t ∈ S)
    (heq : l.foldl step s = l.foldl step t) : s = t := by
  induction l generalizing s t with
  | nil => exact heq
  | cons a l ih =>
    have ha := hl a List.mem_cons_self
    exact h.states hs ht ha
      (ih (fun b hb => hl b (List.mem_cons_of_mem _ hb)) (h.kept hs ha) (h.kept ht ha) heq)

/-- A symbol that is changed changes the checksum. -/
theorem symbol_unique {front back : List α} {a b : α} (hfront : ∀ c ∈ front, c ∈ A)
    (hback : ∀ c ∈ back, c ∈ A) (ha : a ∈ A) (hb : b ∈ A) {s : σ} (hs : s ∈ S)
    (heq : (front ++ a :: back).foldl step s = (front ++ b :: back).foldl step s) : a = b := by
  have hmiddle := h.foldl_kept hfront hs
  rw [List.foldl_append, List.foldl_append, List.foldl_cons, List.foldl_cons] at heq
  apply h.symbols hmiddle ha hb
  exact h.foldl_states hback (h.kept hmiddle ha) (h.kept hmiddle hb) heq

end Separating

end Checksum
