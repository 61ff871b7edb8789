import AeroNyra.Lib.Interleave
import Mathlib.Data.List.DropRight
import Mathlib.Data.List.Nodup
import Mathlib.Tactic.Common

/-! The window of a replay guard: the items recorded last, up to a capacity, with first-in-first-out
eviction, and what it says about the history of all items ever recorded. -/

/-- The items recorded last, the oldest first. -/
structure Window (κ : Type*) where
  order : List κ
  capacity : Nat
  nodup : order.Nodup
  bounded : order.length ≤ capacity
  positive : 1 ≤ capacity

namespace Window

variable {κ : Type*}

def new (capacity : Nat) : Window κ where
  order := []
  capacity := max 1 capacity
  nodup := List.nodup_nil
  bounded := Nat.zero_le _
  positive := Nat.le_max_left _ _

theorem nodup_snoc {items : List κ} {k : κ} (hnodup : items.Nodup) (hk : k ∉ items) :
    (items ++ [k]).Nodup := by
  rw [← List.concat_eq_append]
  exact hnodup.concat hk

variable (w : Window κ)

/-! ### The window and its history -/

/-- The window is the end of the history, all of it unless the window is full, and no stretch of the
history that is at most one longer than the window has an item twice. -/
structure Guards (history : List κ) : Prop where
  recent : w.order <:+ history
  full : w.order = history ∨ w.order.length = w.capacity
  once : ∀ stretch, stretch <:+: history → stretch.length ≤ w.capacity + 1 → stretch.Nodup

variable {w} {history : List κ}

theorem guards_self (w : Window κ) : w.Guards w.order where
  recent := List.suffix_rfl
  full := .inl rfl
  once _ hinfix _ := w.nodup.sublist hinfix.sublist

/-- A stretch at the end of the history that is no longer than the window lies in the window. -/
theorem Guards.mem_order (hw : w.Guards history) {stretch : List κ} (hsuffix : stretch <:+ history)
    (hlength : stretch.length ≤ w.capacity) {j : κ} (hj : j ∈ stretch) : j ∈ w.order := by
  rcases hw.full with hall | hfull
  · rw [hall]
    exact hsuffix.mem hj
  · have hinside : stretch <:+ w.order :=
      List.suffix_of_suffix_length_le hsuffix hw.recent (hfull ▸ hlength)
    exact hinside.mem hj

/-- The window is what the history ends with. -/
theorem Guards.order_eq (hw : w.Guards history) : w.order = history.rtake w.capacity := by
  unfold List.rtake
  rcases hw.full with hall | hfull
  · have hbounded := w.bounded
    rw [hall] at hbounded ⊢
    rw [Nat.sub_eq_zero_of_le hbounded, List.drop_zero]
  · obtain ⟨older, rfl⟩ := hw.recent
    rw [List.length_append, hfull, Nat.add_sub_cancel, List.drop_left]

section Insertion

/-! ### Insertion -/

variable [DecidableEq κ] (w)

def contains (k : κ) : Bool := decide (k ∈ w.order)

/-- Whether `k` was there already, and the window with `k` inserted. -/
def containsOrInsert (k : κ) : Bool × Window κ :=
  if present : k ∈ w.order then (true, w)
  else if full : w.capacity < (w.order ++ [k]).length then
    (false, { w with
      order := (w.order ++ [k]).tail
      nodup := (nodup_snoc w.nodup present).sublist (List.tail_sublist _)
      bounded := by
        have hbounded := w.bounded
        simp only [List.length_tail, List.length_append, List.length_singleton]
        omega })
  else
    (false, { w with
      order := w.order ++ [k]
      nodup := nodup_snoc w.nodup present
      bounded := Nat.not_lt.mp full })

variable {w} {k : κ}

@[simp] theorem contains_iff : w.contains k ↔ k ∈ w.order := decide_eq_true_iff

theorem containsOrInsert_of_mem (h : k ∈ w.order) : w.containsOrInsert k = (true, w) := by
  simp [containsOrInsert, h]

@[simp] theorem containsOrInsert_capacity (k : κ) :
    (w.containsOrInsert k).2.capacity = w.capacity := by
  unfold containsOrInsert
  split
  · rfl
  · split
    · rfl
    · rfl

/-- What is inserted goes to the end, at the cost of the oldest item if the window is full. -/
theorem containsOrInsert_order (h : k ∉ w.order) :
    ((w.containsOrInsert k).2.order = w.order ++ [k] ∧ w.order.length < w.capacity) ∨
      (w.containsOrInsert k).2.order = (w.order ++ [k]).tail ∧ w.order.length = w.capacity := by
  have hbounded := w.bounded
  unfold containsOrInsert
  rw [dif_neg h]
  split
  · rename_i hfull
    rw [List.length_append, List.length_singleton] at hfull
    exact .inr ⟨rfl, by omega⟩
  · rename_i hroom
    rw [List.length_append, List.length_singleton] at hroom
    exact .inl ⟨rfl, by omega⟩

/-- An item that the window does not hold extends the history. -/
theorem Guards.insert (hw : w.Guards history) (h : k ∉ w.order) :
    (w.containsOrInsert k).2.Guards (history ++ [k]) := by
  obtain ⟨older, hhistory⟩ := hw.recent
  refine ⟨?_, ?_, fun stretch hinfix hlength => ?_⟩
  · rcases containsOrInsert_order h with ⟨horder, _⟩ | ⟨horder, _⟩
    · exact ⟨older, by rw [horder, ← hhistory, List.append_assoc]⟩
    · have hsuffix : w.order ++ [k] <:+ history ++ [k] :=
        ⟨older, by rw [← hhistory, List.append_assoc]⟩
      rw [horder]
      exact (List.tail_suffix _).trans hsuffix
  · rcases containsOrInsert_order h with ⟨horder, hroom⟩ | ⟨horder, hfull⟩
    · rcases hw.full with hall | hfull
      · exact .inl (by rw [horder, hall])
      · omega
    · refine .inr ?_
      rw [horder, containsOrInsert_capacity, List.length_tail, List.length_append]
      simpa using hfull
  · rw [containsOrInsert_capacity] at hlength
    rcases List.infix_concat_iff.mp hinfix with hlast | hold
    · obtain ⟨before, hbefore⟩ := hlast
      rcases List.eq_nil_or_concat stretch with rfl | ⟨front, last, rfl⟩
      · exact List.nodup_nil
      · rw [List.concat_eq_append, ← List.append_assoc] at hbefore
        obtain ⟨hfront, hlast⟩ := List.append_inj' hbefore rfl
        cases hlast
        have hsuffix : front <:+ history := ⟨before, hfront⟩
        rw [List.concat_eq_append, List.length_append, List.length_singleton] at hlength
        have hnodup : front.Nodup := hw.once front hsuffix.isInfix (by omega)
        have hnew : k ∉ front := fun hk => h (hw.mem_order hsuffix (by omega) hk)
        rw [List.concat_eq_append]
        exact nodup_snoc hnodup hnew
    · exact hw.once stretch hold hlength

theorem containsOrInsert_fst : (w.containsOrInsert k).1 = true ↔ k ∈ w.order := by
  unfold containsOrInsert
  split
  · rename_i hpresent
    simp [hpresent]
  · rename_i habsent
    split <;> simp [habsent]

end Insertion

/-! ### Implementations -/

/-- A state that represents a window, and its version of `containsOrInsert`. -/
structure Impl (σ κ : Type*) [DecidableEq κ] where
  containsOrInsert : σ → κ → Bool × σ
  Represents : σ → Window κ → Prop
  answers : ∀ {s w} k, Represents s w → (containsOrInsert s k).1 = (w.containsOrInsert k).1
  represents : ∀ {s w} k, Represents s w → Represents (containsOrInsert s k).2
    (w.containsOrInsert k).2

namespace Impl

open Interleave

variable {σ : Type*} [DecidableEq κ] (impl : Impl σ κ)

def step (s : σ) (k : κ) : Option σ := some (impl.containsOrInsert s k).2

/-- The step finds its item in the state. -/
def found (t : Transition σ κ) : Bool := (impl.containsOrInsert t.pre t.event).1

/-- The items that were inserted; a hit inserts nothing. -/
def inserted (past : List (Transition σ κ)) : List κ :=
  (past.filter fun t => !impl.found t).map Transition.event

variable {impl} {s : σ}

theorem inserted_append (past : List (Transition σ κ)) (t : Transition σ κ) :
    impl.inserted (past ++ [t]) = impl.inserted past ++ if impl.found t then [] else [t.event] := by
  unfold inserted
  rw [List.filter_append, List.map_append]
  cases hfound : impl.found t with
  | true => simp [hfound]
  | false => simp [hfound]

/-- In every run the state represents a window that guards what it started with and what was
inserted. -/
theorem guards (hs : impl.Represents s w) {ks : List κ} {before after : List (Transition σ κ)}
    {t : Transition σ κ} (htrace : trace impl.step s ks = before ++ t :: after) :
    ∃ w', impl.Represents t.pre w' ∧ w'.capacity = w.capacity ∧
      w'.Guards (w.order ++ impl.inserted before) := by
  refine trace_history (fun past s => ∃ w', impl.Represents s w' ∧ w'.capacity = w.capacity ∧
    w'.Guards (w.order ++ impl.inserted past)) (fun past u hstep hpast => ?_) ?_ htrace
  · obtain ⟨w', hrep, hcapacity, hguards⟩ := hpast
    have hpost : (impl.containsOrInsert u.pre u.event).2 = u.post := Option.some.inj hstep
    rw [← hpost]
    have hfound : impl.found u = (w'.containsOrInsert u.event).1 := impl.answers u.event hrep
    refine ⟨(w'.containsOrInsert u.event).2, impl.represents u.event hrep, ?_, ?_⟩
    · rw [containsOrInsert_capacity, hcapacity]
    · by_cases hin : u.event ∈ w'.order
      · rw [inserted_append, hfound, containsOrInsert_of_mem hin, if_pos rfl, List.append_nil]
        exact hguards
      · have hanswer : (w'.containsOrInsert u.event).1 = false := by
          rw [← Bool.not_eq_true, containsOrInsert_fst]
          exact hin
        rw [inserted_append, hfound, hanswer, if_neg Bool.false_ne_true, ← List.append_assoc]
        exact hguards.insert hin
  · exact ⟨w, hs, rfl, by simpa [inserted] using w.guards_self⟩

/-- A step finds its item exactly when this is among the last insertions, as many as the window
holds. -/
theorem found_iff (hs : impl.Represents s w) {ks : List κ} {before after : List (Transition σ κ)}
    {t : Transition σ κ} (htrace : trace impl.step s ks = before ++ t :: after) :
    impl.found t = true ↔ t.event ∈ (w.order ++ impl.inserted before).rtake w.capacity := by
  obtain ⟨w', hrep, hcapacity, hguards⟩ := guards hs htrace
  rw [found, impl.answers t.event hrep, containsOrInsert_fst, hguards.order_eq, hcapacity]

/-- Each step leaves a window with what was inserted last. -/
theorem represents_post (hs : impl.Represents s w) {ks : List κ}
    {before after : List (Transition σ κ)}
    {t : Transition σ κ} (htrace : trace impl.step s ks = before ++ t :: after) :
    ∃ w', impl.Represents t.post w' ∧ w'.capacity = w.capacity := by
  obtain ⟨w', hrep, hcapacity, _⟩ := guards hs htrace
  have hmem : t ∈ trace impl.step s ks := by
    rw [htrace]
    exact List.mem_append_right _ List.mem_cons_self
  have hstep : impl.step t.pre t.event = some t.post := step_of_mem_trace hmem
  have hpost : (impl.containsOrInsert t.pre t.event).2 = t.post := Option.some.inj hstep
  rw [← hpost]
  exact ⟨_, impl.represents t.event hrep, by rw [containsOrInsert_capacity, hcapacity]⟩

end Impl

end Window
