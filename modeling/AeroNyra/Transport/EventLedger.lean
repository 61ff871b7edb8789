import AeroNyra.Router.Dedup
import Mathlib.Data.List.Infix

/-! The ledger of processed events as the transport keeps and stores it.  Like the seen cache it
holds a set beside the order of insertion, but only the order and the capacity are stored, and what
is stored may have any content when it is read back. -/

namespace AeroNyra

open Interleave

/-- `ProcessedEventLedger` with both its representations, of identifiers of any type. -/
structure EventLedger (κ : Type) where
  present : Finset κ
  /-- The identifiers in the order of their insertion, the oldest first. -/
  order : List κ
  capacity : Int
  deriving DecidableEq

namespace EventLedger

/-- What is encoded; a capacity may be missing. -/
structure Stored (κ : Type) where
  order : List κ
  capacity : Option Int

variable {κ : Type} [DecidableEq κ]

def defaultCapacity : Int := 8192

def new (capacity : Int) : EventLedger κ := ⟨∅, [], max 1 capacity⟩

/-- Whether `id` was there already, and the ledger with `id` inserted. -/
def containsOrInsert (l : EventLedger κ) (id : κ) : Bool × EventLedger κ :=
  if id ∈ l.present then (true, l)
  else
    let present := insert id l.present
    let order := l.order ++ [id]
    if l.capacity < order.length then
      match order with
      | [] => (false, ⟨present, order, l.capacity⟩)
      | evicted :: rest => (false, ⟨present.erase evicted, rest, l.capacity⟩)
    else (false, ⟨present, order, l.capacity⟩)

def encode (l : EventLedger κ) : Stored κ := ⟨l.order, some l.capacity⟩

/-- One turn of the loop that drops repeated identifiers. -/
def clean (kept : Finset κ × List κ) (id : κ) : Finset κ × List κ :=
  if id ∈ kept.1 then kept else (insert id kept.1, kept.2 ++ [id])

def decode (stored : Stored κ) : EventLedger κ :=
  let capacity := max 1 (stored.capacity.getD defaultCapacity)
  let kept := stored.order.foldl clean (∅, [])
  if capacity < kept.2.length then
    let newest := kept.2.drop (kept.2.length - capacity.toNat)
    ⟨newest.toFinset, newest, capacity⟩
  else ⟨kept.1, kept.2, capacity⟩

/-- The ledgers that the operations build. -/
inductive Built : EventLedger κ → Prop
  | new (capacity : Int) : Built (.new capacity)
  | insert {l : EventLedger κ} (id : κ) (h : Built l) : Built (l.containsOrInsert id).2
  | decode (stored : Stored κ) : Built (.decode stored)

/-- The set is that of the window's items, and the order is its order. -/
structure Represents (l : EventLedger κ) (w : Window κ) : Prop where
  present : l.present = w.order.toFinset
  order : l.order = w.order
  capacity : l.capacity = w.capacity

variable {l : EventLedger κ} {w : Window κ} {id : κ}

theorem Represents.mem_present (h : l.Represents w) : id ∈ l.present ↔ id ∈ w.order := by
  rw [h.present, List.mem_toFinset]

theorem Represents.answers (h : l.Represents w) (id : κ) :
    (l.containsOrInsert id).1 = (w.containsOrInsert id).1 := by
  rw [Bool.eq_iff_iff, Window.containsOrInsert_fst, ← h.mem_present]
  unfold containsOrInsert
  by_cases hseen : id ∈ l.present
  · simp [hseen]
  · simp only [hseen, if_false, iff_false]
    split
    · split <;> exact Bool.false_ne_true
    · exact Bool.false_ne_true

theorem Represents.insert (h : l.Represents w) (id : κ) :
    (l.containsOrInsert id).2.Represents (w.containsOrInsert id).2 := by
  by_cases hin : id ∈ w.order
  · rw [Window.containsOrInsert_of_mem hin, containsOrInsert, if_pos (h.mem_present.mpr hin)]
    exact h
  · have hnodup : (w.order ++ [id]).Nodup := Window.nodup_snoc w.nodup hin
    have hset : Insert.insert id l.present = (w.order ++ [id]).toFinset := by
      rw [h.present, List.toFinset_append, Finset.union_comm]
      rfl
    have hcapacity := h.capacity
    unfold containsOrInsert Window.containsOrInsert
    rw [if_neg (fun hmem => hin (h.mem_present.mp hmem)), dif_neg hin, h.order, hset]
    dsimp only
    by_cases full : w.capacity < (w.order ++ [id]).length
    · rw [if_pos (by omega), dif_pos full]
      split
      · rename_i horder
        simp at horder
      · rename_i evicted rest horder
        rw [horder] at hnodup
        refine ⟨?_, by simp [horder], hcapacity⟩
        have hrest : evicted ∉ rest.toFinset := by
          rw [List.mem_toFinset]
          exact (List.nodup_cons.mp hnodup).1
        simp [horder, Finset.erase_insert hrest]
    · rw [if_neg (by omega), dif_neg full]
      exact ⟨rfl, rfl, hcapacity⟩

/-- The ledger implements the window. -/
def impl : Window.Impl (EventLedger κ) κ where
  containsOrInsert := containsOrInsert
  Represents := Represents
  answers id h := h.answers id
  represents id h := h.insert id

/-! ### Reading back -/

theorem eraseDups_snoc (ids : List κ) (id : κ) :
    (ids ++ [id]).eraseDups = if id ∈ ids then ids.eraseDups else ids.eraseDups ++ [id] := by
  rw [List.eraseDups_append]
  by_cases hid : id ∈ ids
  · simp [List.removeAll, hid]
  · simp [List.removeAll, hid, List.eraseDups_cons]

theorem clean_spec (ids : List κ) :
    ids.foldl clean (∅, []) = (ids.eraseDups.toFinset, ids.eraseDups) := by
  induction ids using List.reverseRecOn with
  | nil => rfl
  | append_singleton ids id ih =>
    rw [List.foldl_append, ih, List.foldl_cons, List.foldl_nil, eraseDups_snoc]
    by_cases hid : id ∈ ids
    · simp [clean, hid]
    · simp [clean, hid]

theorem nodup_eraseDups (ids : List κ) : ids.eraseDups.Nodup := by
  induction ids using List.reverseRecOn with
  | nil => exact List.nodup_nil
  | append_singleton ids id ih =>
    rw [eraseDups_snoc]
    split
    · exact ih
    · rename_i hid
      exact Window.nodup_snoc ih fun hmem => hid (List.mem_eraseDups.mp hmem)

theorem eraseDups_of_nodup {ids : List κ} (h : ids.Nodup) : ids.eraseDups = ids := by
  induction ids using List.reverseRecOn with
  | nil => rfl
  | append_singleton ids id ih =>
    have hid : id ∉ ids := fun hmem => List.disjoint_of_nodup_append h hmem List.mem_cons_self
    rw [eraseDups_snoc, if_neg hid, ih h.of_append_left]

/-- What is read back: the capacity, if it is positive, and the newest of the distinct identifiers,
each of which is as old as its first occurrence. -/
theorem decode_spec (stored : Stored κ) :
    (decode stored).capacity = max 1 (stored.capacity.getD defaultCapacity) ∧
    (decode stored).order = stored.order.eraseDups.rtake (decode stored).capacity.toNat ∧
    (decode stored).present = (decode stored).order.toFinset := by
  unfold decode
  rw [clean_spec]
  dsimp only
  split
  · exact ⟨rfl, rfl, rfl⟩
  · rename_i hroom
    refine ⟨rfl, ?_, rfl⟩
    have hle : stored.order.eraseDups.length ≤
        (max 1 (stored.capacity.getD defaultCapacity)).toNat := by omega
    show stored.order.eraseDups = stored.order.eraseDups.drop
      (stored.order.eraseDups.length - (max 1 (stored.capacity.getD defaultCapacity)).toNat)
    rw [Nat.sub_eq_zero_of_le hle, List.drop_zero]

theorem represents_decode (stored : Stored κ) : ∃ w, (decode stored).Represents w := by
  obtain ⟨hcapacity, horder, hpresent⟩ := decode_spec stored
  have hpositive : 1 ≤ (decode stored).capacity := by
    rw [hcapacity]
    exact le_max_left _ _
  have hsuffix : (decode stored).order <:+ stored.order.eraseDups := horder ▸ List.drop_suffix _ _
  have hlength : (decode stored).order.length ≤ (decode stored).capacity.toNat := by
    rw [horder, List.rtake, List.length_drop]
    omega
  refine ⟨⟨_, _, (nodup_eraseDups _).sublist hsuffix.sublist, hlength, by omega⟩, hpresent, rfl, ?_⟩
  show (decode stored).capacity = (((decode stored).capacity.toNat : Nat) : Int)
  omega

theorem represents_new (capacity : Int) :
    (new capacity : EventLedger κ).Represents (.new capacity.toNat) := by
  refine ⟨rfl, rfl, ?_⟩
  show max 1 capacity = ((max 1 capacity.toNat : Nat) : Int)
  omega

/-- A ledger that was built represents a window. -/
theorem Built.represents (h : l.Built) : ∃ w, l.Represents w := by
  induction h with
  | new capacity => exact ⟨_, represents_new capacity⟩
  | insert id _ ih =>
    obtain ⟨w, hw⟩ := ih
    exact ⟨_, hw.insert id⟩
  | decode stored => exact represents_decode stored

theorem decode_encode (h : l.Built) : decode l.encode = l := by
  obtain ⟨w, hw⟩ := h.represents
  obtain ⟨hcapacity, horder, hpresent⟩ := decode_spec l.encode
  have hpositive : 1 ≤ l.capacity := by
    have := w.positive
    rw [hw.capacity]
    omega
  have hsame : (decode l.encode).capacity = l.capacity := by
    rw [hcapacity]
    show max 1 l.capacity = l.capacity
    omega
  have hdistinct : l.order.eraseDups = l.order := eraseDups_of_nodup (hw.order ▸ w.nodup)
  have hroom : l.order.length ≤ l.capacity.toNat := by
    have := w.bounded
    have := hw.capacity
    rw [hw.order]
    omega
  have hlist : (decode l.encode).order = l.order := by
    rw [horder, hsame]
    show l.order.eraseDups.rtake l.capacity.toNat = l.order
    rw [hdistinct, List.rtake, Nat.sub_eq_zero_of_le hroom, List.drop_zero]
  have hset : (decode l.encode).present = l.present := by rw [hpresent, hlist, hw.present, hw.order]
  cases hl : decode l.encode
  cases l
  simp_all

end EventLedger

/-! ### Both windows -/

/-- A set and an order of the same identifiers, which are at most as many as the bound. -/
structure InStep {κ : Type} (present : Finset κ) (order : List κ) (bound : Nat) : Prop where
  agree : ∀ id, id ∈ present ↔ id ∈ order
  nodup : order.Nodup
  bounded : order.length ≤ bound

variable {κ : Type} [DecidableEq κ]

theorem SeenCache.inStep (c : SeenCache) : InStep c.present c.order c.capacity :=
  ⟨c.agree, c.nodup, c.bounded⟩

theorem EventLedger.Represents.inStep {l : EventLedger κ} {w : Window κ} (h : l.Represents w) :
    InStep l.present l.order w.capacity :=
  ⟨fun _ => by rw [h.mem_present, h.order], h.order ▸ w.nodup, h.order ▸ w.bounded⟩

/-- Each answer of the seen cache is exact, and so are those of a ledger that was built, read back
or not; what is read back is the newest of what was stored. -/
theorem dedup_exact :
    (∀ (capacity : Int) (ids : List MessageID) (before : List (Transition SeenCache MessageID))
        (t : Transition SeenCache MessageID) (after : List (Transition SeenCache MessageID)),
      trace SeenCache.impl.step (.new capacity.toNat) ids = before ++ t :: after →
      ((t.pre.containsOrInsert t.event).1 = true ↔
        t.event ∈ (SeenCache.impl.inserted before).rtake (max 1 capacity).toNat) ∧
      InStep t.post.present t.post.order (max 1 capacity).toNat) ∧
    (∀ (capacity : Int) (ids : List κ) (before : List (Transition (EventLedger κ) κ))
        (t : Transition (EventLedger κ) κ) (after : List (Transition (EventLedger κ) κ)),
      trace EventLedger.impl.step (.new capacity) ids = before ++ t :: after →
      ((t.pre.containsOrInsert t.event).1 = true ↔
        t.event ∈ (EventLedger.impl.inserted before).rtake (max 1 capacity).toNat) ∧
      InStep t.post.present t.post.order (max 1 capacity).toNat) ∧
    (∀ l : EventLedger κ, l.Built → .decode l.encode = l ∧
      ∀ (ids : List κ) (before : List (Transition (EventLedger κ) κ))
        (t : Transition (EventLedger κ) κ) (after : List (Transition (EventLedger κ) κ)),
        trace EventLedger.impl.step l ids = before ++ t :: after →
        ((t.pre.containsOrInsert t.event).1 = true ↔
          t.event ∈ (l.order ++ EventLedger.impl.inserted before).rtake l.capacity.toNat) ∧
        InStep t.post.present t.post.order l.capacity.toNat) ∧
    ∀ stored : EventLedger.Stored κ,
      (EventLedger.decode stored).capacity =
      max 1 (stored.capacity.getD EventLedger.defaultCapacity) ∧
      (EventLedger.decode stored).order =
        stored.order.eraseDups.rtake (EventLedger.decode stored).capacity.toNat ∧
      InStep (EventLedger.decode stored).present (EventLedger.decode stored).order
        (EventLedger.decode stored).capacity.toNat := by
  have hledger {l : EventLedger κ} {w : Window κ} (hw : l.Represents w) {ids : List κ}
    {before after}
      {t : Transition (EventLedger κ) κ}
      (htrace : trace EventLedger.impl.step l ids = before ++ t :: after) :
      ((t.pre.containsOrInsert t.event).1 = true ↔
        t.event ∈ (w.order ++ EventLedger.impl.inserted before).rtake w.capacity) ∧
      InStep t.post.present t.post.order w.capacity := by
    obtain ⟨w', hpost, hcapacity⟩ := Window.Impl.represents_post hw htrace
    exact ⟨Window.Impl.found_iff hw htrace, hcapacity ▸ EventLedger.Represents.inStep hpost⟩
  have hmax (capacity : Int) : (max 1 capacity).toNat = max 1 capacity.toNat := by omega
  refine ⟨fun capacity ids before t after htrace => ?_, fun capacity ids before t after htrace =>
    ?_,
    fun l hl => ⟨EventLedger.decode_encode hl, fun ids before t after htrace => ?_⟩,
      fun stored => ?_⟩
  · obtain ⟨w', hpost, hcapacity⟩ := Window.Impl.represents_post
      (w := .new capacity.toNat) rfl htrace
    rw [hmax]
    refine ⟨Window.Impl.found_iff (w := .new capacity.toNat) rfl htrace, ?_⟩
    have hbound : t.post.capacity = max 1 capacity.toNat := by
      rw [← show w'.capacity = max 1 capacity.toNat from hcapacity, ← show t.post.window =
        w' from hpost]
      rfl
    exact hbound ▸ t.post.inStep
  · rw [hmax]
    exact hledger (EventLedger.represents_new capacity) htrace
  · obtain ⟨w, hw⟩ := hl.represents
    have hcapacity : l.capacity.toNat = w.capacity := by
      rw [hw.capacity]
      omega
    rw [hw.order, hcapacity]
    exact hledger hw htrace
  · obtain ⟨hcapacity, horder, _⟩ := EventLedger.decode_spec stored
    obtain ⟨w, hw⟩ := EventLedger.represents_decode stored
    have hbound : (EventLedger.decode stored).capacity.toNat = w.capacity := by
      rw [hw.capacity]
      omega
    exact ⟨hcapacity, horder, hbound ▸ hw.inStep⟩

/-- An identifier that a third one evicted counts as new again; and a stored list with repeats that
is longer than its capacity. -/
theorem dedup_exact_evicted :
    (∃ before t, trace EventLedger.impl.step (.new 2) [1, 2, 1, 3, 1] = before ++ [t] ∧
      t.event = 1 ∧ ¬(t.pre.containsOrInsert t.event).1 = true) ∧
    (EventLedger.decode ⟨[1, 2, 1, 3, 2], some 2⟩).order = [2, 3] := by
  let next (l : EventLedger Nat) (id : Nat) : EventLedger Nat := (l.containsOrInsert id).2
  let l1 := next (.new 2) 1
  let l2 := next l1 2
  let l3 := next l2 1
  let l4 := next l3 3
  let before : List (Transition (EventLedger Nat) Nat) :=
    [⟨.new 2, 1, l1⟩, ⟨l1, 2, l2⟩, ⟨l2, 1, l3⟩, ⟨l3, 3, l4⟩]
  have htrace : trace EventLedger.impl.step (.new 2) [1, 2, 1, 3, 1] =
      before ++ [⟨l4, 1, next l4 1⟩] := rfl
  obtain ⟨_, hnew, _, hstored⟩ := dedup_exact (κ := Nat)
  refine ⟨⟨before, _, htrace, rfl, ?_⟩, ?_⟩
  · rw [(hnew 2 _ before _ [] htrace).1]
    decide
  · rw [(hstored _).2.1]
    decide

end AeroNyra
