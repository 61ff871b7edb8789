import Mathlib.Data.List.Basic
import Mathlib.Tactic.Common

/-! An asynchronous stream with any number of consumers.  The elements go to the consumers in the
order in which they asked, whoever they are, and a stream that has finished has ended for all of
them. -/

universe u v

/-- The elements that nobody took yet, the consumers that wait, and those that were given an element
and have still to go on with it. -/
structure AsyncStream (α : Type u) (κ : Type v) where
  buffer : List α
  waiting : List κ
  resumed : List (κ × α)
  finished : Bool

namespace AsyncStream

/-- What a consumer is told. -/
inductive Answer (α : Type u)
  | element (a : α)
  | wait
  | finished

variable {α : Type u} {κ : Type v}

def empty : AsyncStream α κ := ⟨[], [], [], false⟩

variable (s : AsyncStream α κ)

/-- Who is given an element that is yielded now. -/
def receiver : Option κ := if s.finished then none else s.waiting.head?

def yield (a : α) : AsyncStream α κ :=
  if s.finished then s
  else
    match s.waiting with
    | [] => { s with buffer := s.buffer ++ [a] }
    | k :: rest => { s with waiting := rest, resumed := s.resumed ++ [(k, a)] }

/-- A consumer asks for an element. -/
def next (k : κ) : AsyncStream α κ × Answer α :=
  match s.buffer with
  | a :: rest => ({ s with buffer := rest }, .element a)
  | [] => if s.finished then (s, .finished) else ({ s with waiting := s.waiting ++ [k] }, .wait)

/-- A consumer that waited goes on, unless it still has to wait. -/
def resume [DecidableEq κ] (k : κ) : AsyncStream α κ × Answer α :=
  match s.resumed.find? (·.1 = k) with
  | some (_, a) => ({ s with resumed := s.resumed.eraseP (·.1 = k) }, .element a)
  | none => if s.finished then ({ s with waiting := s.waiting.erase k }, .finished) else (s, .wait)

def finish : AsyncStream α κ := { s with finished := true }

/-! ### Who waits -/

variable {s} {j k : κ} {a : α}

theorem mem_waiting_of_receiver (h : s.receiver = some k) : k ∈ s.waiting := by
  unfold receiver at h
  split at h
  · cases h
  · exact List.mem_of_head? h

theorem mem_waiting_of_yield (h : k ∈ (s.yield a).waiting) : k ∈ s.waiting := by
  unfold yield at h
  split at h
  · exact h
  · split at h
    · exact h
    · rename_i hwaiting
      rw [hwaiting]
      exact List.mem_cons_of_mem _ h

theorem mem_waiting_of_next (h : k ∈ (s.next j).1.waiting) : k ∈ s.waiting ∨ k = j := by
  unfold next at h
  split at h
  · exact .inl h
  · split at h
    · exact .inl h
    · simpa using h

theorem mem_waiting_of_resume [DecidableEq κ] (h : k ∈ (s.resume j).1.waiting) : k ∈ s.waiting := by
  unfold resume at h
  split at h
  · exact h
  · split at h
    · exact List.mem_of_mem_erase h
    · exact h

end AsyncStream
