import AeroNyra.Lib.Window
import AeroNyra.Router.State

/-! The seen cache is a window over the identifiers that were inserted, in two representations: the
set that is looked up and the order that evicts. -/

namespace AeroNyra

namespace SeenCache

variable {c : SeenCache} {id j : MessageID}

theorem containsOrInsert_of_mem (h : id ∈ c.present) : c.containsOrInsert id = (true, c) := by
  simp [containsOrInsert, h]

/-- Only the identifier itself is new. -/
theorem containsOrInsert_of_not_mem (h : id ∉ c.present) :
    (c.containsOrInsert id).1 = false ∧
      ∀ j ∈ (c.containsOrInsert id).2.present, j = id ∨ j ∈ c.present := by
  unfold containsOrInsert
  rw [dif_neg h]
  by_cases full : c.capacity < (c.order ++ [id]).length
  · rw [dif_pos full]
    split
    · rename_i horder
      have hpositive := c.positive
      simp [horder] at full
      omega
    · refine ⟨rfl, fun j hj => ?_⟩
      exact Finset.mem_insert.mp (Finset.mem_of_mem_erase hj)
  · rw [dif_neg full]
    exact ⟨rfl, fun j hj => Finset.mem_insert.mp hj⟩

theorem card_present (c : SeenCache) : c.present.card = c.order.length := by
  have horder : c.present = c.order.toFinset := by
    ext id
    rw [List.mem_toFinset, c.agree]
  rw [horder, List.toFinset_card_of_nodup c.nodup]

theorem containsOrInsert_fst : (c.containsOrInsert id).1 = true ↔ id ∈ c.present := by
  by_cases h : id ∈ c.present
  · rw [containsOrInsert_of_mem h]
    simp [h]
  · rw [(containsOrInsert_of_not_mem h).1]
    simp [h]

theorem containsOrInsert_capacity (c : SeenCache) (id : MessageID) :
    (c.containsOrInsert id).2.capacity = c.capacity := by
  by_cases hseen : id ∈ c.present
  · rw [containsOrInsert_of_mem hseen]
  · unfold containsOrInsert
    rw [dif_neg hseen]
    by_cases full : c.capacity < (c.order ++ [id]).length
    · rw [dif_pos full]
      split
      · rename_i horder
        have hpositive := c.positive
        simp [horder] at full
        omega
      · rfl
    · rw [dif_neg full]

/-- A cache with room forgets nothing. -/
theorem present_of_room (h : c.order.length < c.capacity) :
    (c.containsOrInsert id).2.present = insert id c.present := by
  by_cases hseen : id ∈ c.present
  · rw [containsOrInsert_of_mem hseen, Finset.insert_eq_of_mem hseen]
  · unfold containsOrInsert
    rw [dif_neg hseen, dif_neg (by rw [List.length_append, List.length_singleton]; omega)]

/-- The cache without its set. -/
def window (c : SeenCache) :
    Window MessageID := ⟨c.order, c.capacity, c.nodup, c.bounded, c.positive⟩

theorem answers_window (c : SeenCache) (id : MessageID) :
    (c.containsOrInsert id).1 = (c.window.containsOrInsert id).1 := by
  rw [Bool.eq_iff_iff, containsOrInsert_fst, Window.containsOrInsert_fst, c.agree]
  rfl

theorem window_containsOrInsert (c : SeenCache) (id : MessageID) :
    (c.containsOrInsert id).2.window = (c.window.containsOrInsert id).2 := by
  by_cases hseen : id ∈ c.present
  · have hin : id ∈ c.window.order := (c.agree id).mp hseen
    rw [containsOrInsert_of_mem hseen, Window.containsOrInsert_of_mem hin]
  · have hout : id ∉ c.window.order := fun hin => hseen ((c.agree id).mpr hin)
    unfold containsOrInsert Window.containsOrInsert
    rw [dif_neg hseen, dif_neg hout]
    by_cases full : c.capacity < (c.order ++ [id]).length
    · have hfull : c.window.capacity < (c.window.order ++ [id]).length := full
      rw [dif_pos full, dif_pos hfull]
      split
      · rename_i horder
        have hpositive := c.positive
        simp [horder] at full
        omega
      · rename_i evicted rest horder
        simp [window, horder]
    · have hroom : ¬c.window.capacity < (c.window.order ++ [id]).length := full
      rw [dif_neg full, dif_neg hroom]
      rfl

/-- The cache implements the window. -/
def impl : Window.Impl SeenCache MessageID where
  containsOrInsert := containsOrInsert
  Represents c w := c.window = w
  answers id h := h ▸ answers_window _ id
  represents id h := h ▸ window_containsOrInsert _ id

end SeenCache

end AeroNyra
