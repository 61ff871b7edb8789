import Mathlib.Data.List.Basic
import Mathlib.Tactic.Common

/-! Codes that can be read off the front of a word: what follows a code word has no influence on
where it ends. -/

universe u v w

namespace PrefixCode

variable {α : Type u} {γ : Type w} {β : Type v}

/-- The word of `a` can be told from what follows it. -/
def Readable (f : α → List β) : Prop :=
  ∀ a b rest rest', f a ++ rest = f b ++ rest' → a = b ∧ rest = rest'

variable {f : α → List β} {g : γ → List β} {t : β}

theorem Readable.injective (hf : Readable f) : Function.Injective f := fun a b h =>
  (hf a b [] [] (congrArg (· ++ []) h)).1

/-- Words with a letter that they do not have behind them. -/
theorem readable_terminated (hf : Function.Injective f) (ht : ∀ a, t ∉ f a) :
    Readable fun a => f a ++ [t] := by
  have hsplit (x y rest rest' : List β) (hx : t ∉ x) (hy : t ∉ y)
    (h : x ++ t :: rest = y ++ t :: rest') :
      x = y ∧ rest = rest' := by
    induction x generalizing y with
    | nil =>
      cases y with
      | nil => exact ⟨rfl, (List.cons.inj h).2⟩
      | cons c y => exact absurd (List.cons.inj h).1 fun hc => hy (hc ▸ List.mem_cons_self)
    | cons b x ih =>
      cases y with
      | nil => exact absurd (List.cons.inj h).1.symm fun hc => hx (hc ▸ List.mem_cons_self)
      | cons c y =>
        obtain ⟨hbc, htail⟩ := List.cons.inj h
        obtain ⟨hxy, hrest⟩ := ih y (fun hmem => hx (List.mem_cons_of_mem _ hmem))
          (fun hmem => hy (List.mem_cons_of_mem _ hmem)) htail
        exact ⟨by rw [hbc, hxy], hrest⟩
  intro a b rest rest' h
  simp only [List.append_assoc, List.singleton_append] at h
  obtain ⟨hword, hrest⟩ := hsplit _ _ _ _ (ht a) (ht b) h
  exact ⟨hf hword, hrest⟩

/-- Lists of words with a letter behind them that starts no word. -/
theorem Readable.flatMap (hf : Readable f) (ht : ∀ a rest rest', f a ++ rest ≠ t :: rest') :
    Readable fun l : List α => l.flatMap f ++ [t] := by
  intro l
  induction l with
  | nil =>
    intro l' rest rest' h
    cases l' with
    | nil => exact ⟨rfl, (List.cons.inj h).2⟩
    | cons b l' =>
      simp only [List.flatMap_cons, List.append_assoc] at h
      exact absurd h.symm (ht b _ _)
  | cons a l ih =>
    intro l' rest rest' h
    cases l' with
    | nil =>
      simp only [List.flatMap_cons, List.append_assoc] at h
      exact absurd h (ht a _ _)
    | cons b l' =>
      simp only [List.flatMap_cons, List.append_assoc] at h
      obtain ⟨rfl, hrest⟩ := hf _ _ _ _ h
      simp only [← List.append_assoc] at hrest
      obtain ⟨rfl, hbehind⟩ := ih _ _ _ hrest
      exact ⟨rfl, hbehind⟩

/-- A letter in front. -/
theorem Readable.cons (hf : Readable f) (b : β) : Readable fun a => b :: f a :=
    fun a a' rest rest' h =>
  hf a a' rest rest' (List.cons.inj h).2

end PrefixCode
