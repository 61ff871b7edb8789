import Mathlib.Data.List.AList
import Mathlib.Data.List.Dedup
import Mathlib.Data.List.Perm.Subperm
import Mathlib.Tactic.Common

/-! Dictionaries: association lists with one entry for each key, and what a lookup reads after each
operation on one. -/

/-- A dictionary from `κ` to `ν`. -/
abbrev Dict (κ ν : Type*) := AList fun _ : κ => ν

namespace Dict

variable {κ ν : Type*} [DecidableEq κ]

/-- The dictionary with `f` applied to the value at `k`, if there is one. -/
def modify (k : κ) (f : ν → ν) (d : Dict κ ν) : Dict κ ν :=
  match d.lookup k with
  | some v => AList.insert k (f v) d
  | none => d

/-- The dictionary without the entries whose values fail `p`. -/
def filterValues (p : ν → Bool) (d : Dict κ ν) : Dict κ ν where
  entries := d.entries.filter fun e => p e.2
  nodupKeys := d.nodupKeys.sublist List.filter_sublist

/-- The dictionary without the entries that fail `p`. -/
def filterEntries (p : κ → ν → Bool) (d : Dict κ ν) : Dict κ ν where
  entries := d.entries.filter fun e => p e.1 e.2
  nodupKeys := d.nodupKeys.sublist List.filter_sublist

/-- The dictionary with `f` applied to every value. -/
def mapValues (f : ν → ν) (d : Dict κ ν) : Dict κ ν where
  entries := d.entries.map fun e => ⟨e.1, f e.2⟩
  nodupKeys := by
    have hkeys : (d.entries.map fun e => (⟨e.1, f e.2⟩ : Sigma fun _ : κ => ν)).keys =
        d.entries.keys := by simp [List.keys]
    rw [List.NodupKeys, hkeys]
    exact d.nodupKeys

/-- The entries of the dictionary as pairs. -/
def pairs (d : Dict κ ν) : List (κ × ν) := d.entries.map fun e => (e.1, e.2)

@[simp] theorem lookup_empty (k : κ) : (∅ : Dict κ ν).lookup k = none := AList.lookup_empty k

@[simp] theorem lookup_insert (d : Dict κ ν) (j k : κ) (v : ν) :
    AList.lookup j (AList.insert k v d) = if j = k then some v else d.lookup j := by
  by_cases h : j = k
  · subst h
    simp
  · simp [AList.lookup_insert_ne h, h]

@[simp] theorem lookup_erase (d : Dict κ ν) (j k : κ) :
    AList.lookup j (AList.erase k d) = if j = k then none else d.lookup j := by
  by_cases h : j = k
  · subst h
    simp
  · simp [AList.lookup_erase_ne h, h]

@[simp] theorem lookup_modify (d : Dict κ ν) (j k : κ) (f : ν → ν) :
    AList.lookup j (d.modify k f) = if j = k then (d.lookup k).map f else d.lookup j := by
  unfold modify
  split
  · rename_i v hv
    simp [hv]
  · rename_i hv
    by_cases h : j = k
    · rw [h, hv]
      simp
    · simp [h]

/-- The dictionary with the pairs inserted, of which the last one with a key stays. -/
def insertAll (d : Dict κ ν) (entries : List (κ × ν)) : Dict κ ν :=
  entries.foldl (fun d p => AList.insert p.1 p.2 d) d

theorem mem_of_lookup_insertAll {entries : List (κ × ν)} {d : Dict κ ν} {k : κ} {v : ν}
    (h : (d.insertAll entries).lookup k = some v) : (k, v) ∈ entries ∨ d.lookup k = some v := by
  induction entries generalizing d with
  | nil => exact .inr h
  | cons p entries ih =>
    rcases ih h with hmem | hfirst
    · exact .inl (List.mem_cons_of_mem _ hmem)
    · rw [lookup_insert] at hfirst
      split at hfirst
      · rename_i hk
        rw [hk, ← Option.some.inj hfirst]
        exact .inl List.mem_cons_self
      · exact .inr hfirst

/-- A key with one value only has it. -/
theorem lookup_insertAll {entries : List (κ × ν)} {d : Dict κ ν} {k : κ} {v : ν}
    (hone : ∀ v', (k, v') ∈ entries → v' = v) (h : (k, v) ∈ entries ∨ d.lookup k = some v) :
    (d.insertAll entries).lookup k = some v := by
  induction entries generalizing d with
  | nil => exact h.resolve_left nofun
  | cons p entries ih =>
    refine ih (fun v' hv' => hone v' (List.mem_cons_of_mem _ hv')) ?_
    by_cases hk : k = p.1
    · have hv : p.2 = v := hone p.2 (hk ▸ List.mem_cons_self)
      rw [lookup_insert, if_pos hk, hv]
      exact .inr rfl
    · rw [lookup_insert, if_neg hk]
      refine h.imp_left fun hmem => (List.mem_cons.mp hmem).resolve_left ?_
      rintro rfl
      exact hk rfl

/-- A fold over keys, each of whose turns makes the entry of its key `v` if the key meets `p` and
leaves the other entries as they are. -/
theorem foldl_at {σ β : Type*} (look : σ → κ → β) {f : σ → κ → σ} {p : κ → Prop} [DecidablePred p]
    {v : β} (hf : ∀ s j k, look (f s j) k = if k = j ∧ p j then v else look s k)
    (keys : List κ) (s : σ)
    (k : κ) : look (keys.foldl f s) k = if k ∈ keys ∧ p k then v else look s k := by
  induction keys generalizing s with
  | nil => simp
  | cons j keys ih =>
    rw [List.foldl_cons, ih, hf]
    by_cases hk : k = j
    · subst hk
      by_cases hp : p k <;> simp [hp]
    · simp [hk]

theorem mem_pairs {d : Dict κ ν} {k : κ} {v : ν} : (k, v) ∈ d.pairs ↔ d.lookup k = some v := by
  rw [← Option.mem_def, AList.mem_lookup_iff]
  simp only [pairs, List.mem_map, Prod.mk.injEq]
  constructor
  · rintro ⟨e, he, rfl, rfl⟩
    exact he
  · intro h
    exact ⟨⟨k, v⟩, h, rfl, rfl⟩

/-- The pairs of a dictionary make the dictionary again. -/
theorem lookup_insertAll_pairs (d : Dict κ ν) (k : κ) :
    ((∅ : Dict κ ν).insertAll d.pairs).lookup k = d.lookup k := by
  cases hd : d.lookup k with
  | some v =>
    refine lookup_insertAll (fun v' hv' => ?_) (.inl (mem_pairs.mpr hd))
    exact Option.some.inj ((mem_pairs.mp hv').symm.trans hd)
  | none =>
    cases hloaded : ((∅ : Dict κ ν).insertAll d.pairs).lookup k with
    | none => rfl
    | some v =>
      rcases mem_of_lookup_insertAll hloaded with hmem | hempty
      · cases hd.symm.trans (mem_pairs.mp hmem)
      · simp at hempty

@[simp] theorem lookup_filterValues (p : ν → Bool) (d : Dict κ ν) (k : κ) :
    AList.lookup k (d.filterValues p) = (d.lookup k).filter p := by
  apply Option.ext
  intro v
  rw [Option.filter_eq_some_iff]
  simp only [← Option.mem_def, AList.mem_lookup_iff]
  simp [filterValues]

@[simp] theorem lookup_filterEntries (p : κ → ν → Bool) (d : Dict κ ν) (k : κ) :
    AList.lookup k (d.filterEntries p) = (d.lookup k).filter (p k) := by
  apply Option.ext
  intro v
  rw [Option.filter_eq_some_iff]
  simp only [← Option.mem_def, AList.mem_lookup_iff]
  simp [filterEntries]

@[simp] theorem lookup_mapValues (f : ν → ν) (d : Dict κ ν) (k : κ) :
    AList.lookup k (d.mapValues f) = (d.lookup k).map f := by
  apply Option.ext
  intro v
  rw [Option.map_eq_some_iff]
  simp only [← Option.mem_def, AList.mem_lookup_iff]
  simp [mapValues]

end Dict
