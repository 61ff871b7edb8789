import Mathlib.Logic.Function.Basic
import Mathlib.Tactic.Common

/-! A keychain: at most one item under each key, and operations that answer with a status.  The
system may refuse any operation with a status of its own, and then nothing changes. -/

namespace Keychain

abbrev OSStatus := Int

def errSecSuccess : OSStatus := 0

def errSecDuplicateItem : OSStatus := -25299

def errSecItemNotFound : OSStatus := -25300

/-- A status that says neither that the operation was done nor whether the item is there. -/
structure Refusal where
  status : OSStatus
  not_success : status ≠ errSecSuccess
  not_duplicate : status ≠ errSecDuplicateItem
  not_missing : status ≠ errSecItemNotFound

section Operations

variable {κ β : Type} [DecidableEq κ] (items : κ → Option β) (key : κ) (value : β)

/-- The item under the key, or the status. -/
def copyMatching : Option Refusal → Except OSStatus β
  | some refusal => .error refusal.status
  | none =>
    match items key with
    | some value => .ok value
    | none => .error errSecItemNotFound

/-- An item that is there stays as it is. -/
def add : Option Refusal → (κ → Option β) × OSStatus
  | some refusal => (items, refusal.status)
  | none =>
    if (items key).isSome then (items, errSecDuplicateItem)
    else (Function.update items key (some value), errSecSuccess)

/-- An item that is not there is not made. -/
def update : Option Refusal → (κ → Option β) × OSStatus
  | some refusal => (items, refusal.status)
  | none =>
    if (items key).isSome then (Function.update items key (some value), errSecSuccess)
    else (items, errSecItemNotFound)

def delete : Option Refusal → (κ → Option β) × OSStatus
  | some refusal => (items, refusal.status)
  | none =>
    if (items key).isSome then (Function.update items key none, errSecSuccess)
    else (items, errSecItemNotFound)

end Operations

variable {κ β : Type} {items : κ → Option β} {key : κ} {value : β} {refused : Option Refusal}

theorem copyMatching_eq_ok : copyMatching items key refused = .ok value ↔
    refused = none ∧ items key = some value := by
  unfold copyMatching
  cases refused with
  | some refusal => simp
  | none => cases items key <;> simp

/-- Only an item that is missing is reported missing. -/
theorem copyMatching_eq_missing : copyMatching items key refused = .error errSecItemNotFound ↔
    refused = none ∧ items key = none := by
  unfold copyMatching
  cases refused with
  | some refusal => simp [refusal.not_missing]
  | none => cases items key <;> simp

variable [DecidableEq κ]

/-- What is added is there, and nothing was before; a failure changes nothing. -/
theorem add_cases (items : κ → Option β) (key : κ) (value : β) (refused : Option Refusal) :
    ((add items key value refused).2 = errSecSuccess ∧ items key = none ∧
      (add items key value refused).1 = Function.update items key (some value)) ∨
    ((add items key value refused).2 ≠ errSecSuccess ∧ (add items key value refused).1 = items ∧
      ((add items key value refused).2 = errSecDuplicateItem → (items key).isSome)) := by
  unfold add
  cases refused with
  | some refusal => exact .inr ⟨refusal.not_success, rfl, fun h => absurd h refusal.not_duplicate⟩
  | none =>
    cases hitem : items key with
    | some old => exact .inr (by simp [errSecDuplicateItem, errSecSuccess])
    | none => exact .inl (by simp)

/-- What is updated was there before; a failure changes nothing. -/
theorem update_cases (items : κ → Option β) (key : κ) (value : β) (refused : Option Refusal) :
    ((update items key value refused).2 = errSecSuccess ∧ (items key).isSome ∧
      (update items key value refused).1 = Function.update items key (some value)) ∨
    ((update items key value refused).2 ≠ errSecSuccess ∧ (update items key value refused).1 =
      items) := by
  unfold update
  cases refused with
  | some refusal => exact .inr ⟨refusal.not_success, rfl⟩
  | none =>
    cases hitem : items key with
    | some old => exact .inl (by simp)
    | none => exact .inr (by simp [errSecItemNotFound, errSecSuccess])

/-- What is deleted is gone, as what was missing is; a failure changes nothing. -/
theorem delete_cases (items : κ → Option β) (key : κ) (refused : Option Refusal) :
    (((delete items key refused).2 = errSecSuccess ∨ (delete items key refused).2 =
      errSecItemNotFound) ∧ (delete items key refused).1 = Function.update items key none) ∨
    ((delete items key refused).2 ≠ errSecSuccess ∧ (delete items key refused).2 ≠
      errSecItemNotFound ∧ (delete items key refused).1 = items) := by
  unfold delete
  cases refused with
  | some refusal => exact .inr ⟨refusal.not_success, refusal.not_missing, rfl⟩
  | none =>
    cases hitem : items key with
    | some old => exact .inl (by simp)
    | none => exact .inl (by simp [hitem])

/-- A deletion that is not refused is done. -/
theorem delete_granted (items : κ → Option β) (key : κ) :
    ((delete items key none).2 = errSecSuccess ∨ (delete items key none).2 = errSecItemNotFound) ∧
      (delete items key none).1 = Function.update items key none := by
  unfold delete
  cases hitem : items key with
  | some old => simp
  | none => simp [hitem]

/-- No operation touches an item under another key. -/
theorem other_untouched {other : κ} (hother : other ≠ key) :
    (add items key value refused).1 other = items other ∧
      (update items key value refused).1 other = items other ∧
      (delete items key refused).1 other = items other := by
  refine ⟨?_, ?_, ?_⟩
  · rcases add_cases items key value refused with ⟨_, _, heq⟩ | ⟨_, heq, _⟩
    · rw [heq, Function.update_of_ne hother]
    · rw [heq]
  · rcases update_cases items key value refused with ⟨_, _, heq⟩ | ⟨_, heq⟩
    · rw [heq, Function.update_of_ne hother]
    · rw [heq]
  · rcases delete_cases items key refused with ⟨_, heq⟩ | ⟨_, _, heq⟩
    · rw [heq, Function.update_of_ne hother]
    · rw [heq]

end Keychain
