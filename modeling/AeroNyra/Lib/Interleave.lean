import Mathlib.Algebra.GroupWithZero.Nat
import Mathlib.Algebra.Order.BigOperators.Group.List
import Mathlib.Algebra.Order.Group.Nat
import Mathlib.Data.List.Basic
import Mathlib.Tactic.Common

/-! Runs of a partial step function, and concurrent calls over a shared state.  A call is the list
of atomic actions it has still to run; between two actions of one call any actions of other calls
may run, so a run of the machine is an interleaving of its calls at their suspension points.  The
rules at the end of each part are the inductions that safety proofs use. -/

namespace Interleave

universe u v w x

variable {σ : Type u} {ε : Type v}

section Runs

/-! ### Runs -/

/-- One step of a run: its event, and the states before and after it. -/
structure Transition (σ : Type u) (ε : Type v) where
  pre : σ
  event : ε
  post : σ

/-- The state after a list of events; `none` when one of them cannot happen. -/
def run (step : σ → ε → Option σ) : σ → List ε → Option σ
  | s, [] => some s
  | s, e :: es => (step s e).bind fun s' => run step s' es

/-- The transitions of a list of events, up to the first one that cannot happen. -/
def trace (step : σ → ε → Option σ) : σ → List ε → List (Transition σ ε)
  | _, [] => []
  | s, e :: es =>
    match step s e with
    | none => []
    | some s' => ⟨s, e, s'⟩ :: trace step s' es

variable {step : σ → ε → Option σ} {s s' : σ} {es : List ε}

@[simp] theorem run_nil : run step s [] = some s := rfl

theorem run_cons {e : ε} :
    run step s (e :: es) = some s' ↔ ∃ m, step s e = some m ∧ run step m es = some s' := by
  simp [run, Option.bind_eq_some_iff]

theorem run_append {fs : List ε} :
    run step s (es ++ fs) = some s' ↔ ∃ m, run step s es = some m ∧ run step m fs = some s' := by
  induction es generalizing s with
  | nil => simp
  | cons e es ih =>
    simp only [List.cons_append, run_cons, ih]
    constructor
    · rintro ⟨m, hm, n, hn, hf⟩
      exact ⟨n, ⟨m, hm, hn⟩, hf⟩
    · rintro ⟨n, ⟨m, hm, hn⟩, hf⟩
      exact ⟨m, hm, n, hn, hf⟩

theorem trace_cons {e : ε} {m : σ} (h : step s e = some m) :
    trace step s (e :: es) = ⟨s, e, m⟩ :: trace step m es := by
  simp [trace, h]

/-- The steps of the events that follow those of a run. -/
theorem trace_append {m : σ} {fs : List ε} (h : run step s es = some m) :
    trace step s (es ++ fs) = trace step s es ++ trace step m fs := by
  induction es generalizing s with
  | nil => rw [← Option.some.inj h]; rfl
  | cons e es ih =>
    obtain ⟨n, hn, hrest⟩ := run_cons.mp h
    rw [List.cons_append, trace_cons hn, trace_cons hn, ih hrest, List.cons_append]

/-- Every transition of a trace is a step. -/
theorem step_of_mem_trace {t : Transition σ ε} (h : t ∈ trace step s es) :
    step t.pre t.event = some t.post := by
  induction es generalizing s with
  | nil => simp [trace] at h
  | cons e es ih =>
    cases hs : step s e with
    | none => simp [trace, hs] at h
    | some m =>
      rw [trace_cons hs, List.mem_cons] at h
      rcases h with rfl | h
      · exact hs
      · exact ih h

theorem event_mem {t : Transition σ ε} (h : t ∈ trace step s es) : t.event ∈ es := by
  induction es generalizing s with
  | nil => simp [trace] at h
  | cons e es ih =>
    cases hs : step s e with
    | none => simp [trace, hs] at h
    | some m =>
      rw [trace_cons hs, List.mem_cons] at h
      rcases h with rfl | h
      · exact List.mem_cons_self
      · exact List.mem_cons_of_mem _ (ih h)

/-- A trace to a transition `t`: the events before it run to its first state. -/
theorem run_of_mem_trace {t : Transition σ ε} (h : t ∈ trace step s es) :
    ∃ fs, run step s fs = some t.pre ∧ trace step s fs <+: trace step s es := by
  induction es generalizing s with
  | nil => simp [trace] at h
  | cons e es ih =>
    cases hs : step s e with
    | none => simp [trace, hs] at h
    | some m =>
      rw [trace_cons hs, List.mem_cons] at h
      rcases h with rfl | h
      · exact ⟨[], rfl, List.nil_prefix⟩
      · obtain ⟨fs, hrun, hpre⟩ := ih h
        refine ⟨e :: fs, run_cons.mpr ⟨m, hs, hrun⟩, ?_⟩
        rw [trace_cons hs, trace_cons hs]
        exact (List.cons_prefix_cons).mpr ⟨rfl, hpre⟩

/-- Properties that a step has exactly when it meets a condition: a run has the property at every
step exactly when it meets the condition at every step. -/
theorem forall_trace_iff {P C : Transition σ ε → Prop}
    (h : ∀ t, step t.pre t.event = some t.post → (P t ↔ C t)) :
    (∀ t ∈ trace step s es, P t) ↔ ∀ t ∈ trace step s es, C t :=
  forall₂_congr fun t ht => h t (step_of_mem_trace ht)

/-- An invariant that each step meeting `C` preserves holds at the end of a run whose steps all
meet `C`. -/
theorem run_invariant (Inv : σ → Prop) (C : Transition σ ε → Prop)
    (keep : ∀ t, step t.pre t.event = some t.post → C t → Inv t.pre → Inv t.post)
    (start : Inv s) (meets : ∀ t ∈ trace step s es, C t) (h : run step s es = some s') :
    Inv s' := by
  induction es generalizing s with
  | nil => simpa [← Option.some.inj h] using start
  | cons e es ih =>
    obtain ⟨m, hs, hrun⟩ := run_cons.mp h
    rw [trace_cons hs] at meets
    refine ih (keep ⟨s, e, m⟩ hs (meets _ (by simp)) start) (fun t ht => meets t ?_) hrun
    exact List.mem_cons_of_mem _ ht

/-- An invariant holds before every step of a run. -/
theorem trace_invariant {Inv : σ → Prop}
    (keep : ∀ t : Transition σ ε, step t.pre t.event = some t.post → Inv t.pre → Inv t.post)
    (start : Inv s) {t : Transition σ ε} (h : t ∈ trace step s es) : Inv t.pre := by
  obtain ⟨fs, hrun, _⟩ := run_of_mem_trace h
  exact run_invariant Inv (fun _ => True) (fun t ht _ => keep t ht) start (fun _ _ => trivial) hrun

/-- An invariant that each step meeting `C` preserves holds before every step of a run whose steps
all meet `C`. -/
theorem trace_invariant_of (Inv : σ → Prop) (C : Transition σ ε → Prop)
    (keep : ∀ t : Transition σ ε, step t.pre t.event = some t.post → C t → Inv t.pre → Inv t.post)
    (start : Inv s) (meets : ∀ t ∈ trace step s es, C t) {t : Transition σ ε}
    (h : t ∈ trace step s es) : Inv t.pre := by
  obtain ⟨fs, hrun, hpast⟩ := run_of_mem_trace h
  exact run_invariant Inv C keep start (fun u hu => meets u (hpast.subset hu)) hrun

/-- `forall_trace_iff` for steps from states that meet an invariant. -/
theorem forall_trace_iff_of_invariant {Inv : σ → Prop} {P C : Transition σ ε → Prop}
    (keep : ∀ t : Transition σ ε, step t.pre t.event = some t.post → Inv t.pre → Inv t.post)
    (start : Inv s) (h : ∀ t, step t.pre t.event = some t.post → Inv t.pre → (P t ↔ C t)) :
    (∀ t ∈ trace step s es, P t) ↔ ∀ t ∈ trace step s es, C t :=
  forall₂_congr fun t ht => h t (step_of_mem_trace ht) (trace_invariant keep start ht)

/-- `forall_trace_iff` for steps from states that meet an invariant, which the steps that meet the
condition keep. -/
theorem forall_trace_iff_of_kept (Inv : σ → Prop) {P C : Transition σ ε → Prop} (start : Inv s)
    (h : ∀ t, step t.pre t.event = some t.post → Inv t.pre → (P t ↔ C t))
    (keep : ∀ t, step t.pre t.event = some t.post → Inv t.pre → C t → Inv t.post) :
    (∀ t ∈ trace step s es, P t) ↔ ∀ t ∈ trace step s es, C t := by
  induction es generalizing s with
  | nil => simp [trace]
  | cons e es ih =>
    cases hs : step s e with
    | none => simp [trace, hs]
    | some m =>
      have hfirst := h ⟨s, e, m⟩ hs start
      rw [trace_cons hs, List.forall_mem_cons, List.forall_mem_cons]
      constructor
      · rintro ⟨hp, hrest⟩
        have hc := hfirst.mp hp
        exact ⟨hc, (ih (keep ⟨s, e, m⟩ hs start hc)).mp hrest⟩
      · rintro ⟨hc, hrest⟩
        exact ⟨hfirst.mpr hc, (ih (keep ⟨s, e, m⟩ hs start hc)).mpr hrest⟩

/-- A property that a step keeps exactly when it meets a condition: it holds at the start of a run
and after each of its steps exactly when it holds at the start and every step meets the
condition. -/
theorem forall_post_iff (Inv : σ → Prop) {C : Transition σ ε → Prop}
    (h : ∀ t : Transition σ ε, step t.pre t.event = some t.post → Inv t.pre → (Inv t.post ↔ C t)) :
    (Inv s ∧ ∀ t ∈ trace step s es, Inv t.post) ↔ Inv s ∧ ∀ t ∈ trace step s es, C t := by
  refine and_congr_right fun start => ?_
  induction es generalizing s with
  | nil => simp [trace]
  | cons e es ih =>
    cases hs : step s e with
    | none => simp [trace, hs]
    | some m =>
      have hfirst := h ⟨s, e, m⟩ hs start
      rw [trace_cons hs, List.forall_mem_cons, List.forall_mem_cons]
      constructor
      · rintro ⟨hm, hrest⟩
        exact ⟨hfirst.mp hm, (ih hm).mp hrest⟩
      · rintro ⟨hc, hrest⟩
        have hm := hfirst.mpr hc
        exact ⟨hm, (ih hm).mpr hrest⟩

/-- An invariant of the state and of the steps that led to it. -/
theorem run_history (Inv : List (Transition σ ε) → σ → Prop)
    (keep : ∀ past t, step t.pre t.event = some t.post → Inv past t.pre → Inv (past ++ [t]) t.post)
    (start : Inv [] s) (h : run step s es = some s') : Inv (trace step s es) s' := by
  have general : ∀ fs past u, Inv past u → run step u fs = some s' →
      Inv (past ++ trace step u fs) s' := by
    intro fs
    induction fs with
    | nil =>
      intro past u hpast hrun
      simpa [trace, ← Option.some.inj hrun] using hpast
    | cons e fs ih =>
      intro past u hpast hrun
      obtain ⟨m, hs, hrest⟩ := run_cons.mp hrun
      have hnext := ih (past ++ [⟨u, e, m⟩]) m (keep past ⟨u, e, m⟩ hs hpast) hrest
      rw [trace_cons hs]
      simpa using hnext
  simpa using general es [] s start h

/-- The steps before a step of a trace run to its first state. -/
theorem run_of_trace_eq {before after : List (Transition σ ε)} {t : Transition σ ε}
    (h : trace step s es = before ++ t :: after) :
    ∃ fs, run step s fs = some t.pre ∧ trace step s fs = before := by
  induction es generalizing s before with
  | nil => simp [trace] at h
  | cons e es ih =>
    cases hs : step s e with
    | none => simp [trace, hs] at h
    | some m =>
      rw [trace_cons hs] at h
      cases before with
      | nil =>
        obtain ⟨rfl, _⟩ := List.cons.inj h
        exact ⟨[], rfl, rfl⟩
      | cons u before =>
        obtain ⟨rfl, hrest⟩ := List.cons.inj h
        obtain ⟨fs, hrun, hpast⟩ := ih hrest
        exact ⟨e :: fs, run_cons.mpr ⟨m, hs, hrun⟩, by rw [trace_cons hs, hpast]⟩

/-- The steps after a step of a trace are those of a run from its last state. -/
theorem trace_of_trace_eq {before after : List (Transition σ ε)} {t : Transition σ ε}
    (h : trace step s es = before ++ t :: after) : ∃ fs, trace step t.post fs = after := by
  induction es generalizing s before with
  | nil => simp [trace] at h
  | cons e es ih =>
    cases hs : step s e with
    | none => simp [trace, hs] at h
    | some m =>
      rw [trace_cons hs] at h
      cases before with
      | nil =>
        obtain ⟨rfl, hrest⟩ := List.cons.inj h
        exact ⟨es, hrest⟩
      | cons u before => exact ih (List.cons.inj h).2

/-- An invariant that holds before the steps of a run, all of which meet `C` up to one, holds before
that step. -/
theorem invariant_before (Inv : σ → Prop) (C : Transition σ ε → Prop)
    (keep : ∀ t, step t.pre t.event = some t.post → C t → Inv t.pre → Inv t.post)
    (start : Inv s) {before after : List (Transition σ ε)} {t : Transition σ ε}
    (h : trace step s es = before ++ t :: after) (meets : ∀ u ∈ before, C u) : Inv t.pre := by
  obtain ⟨fs, hrun, rfl⟩ := run_of_trace_eq h
  exact run_invariant Inv C keep start meets hrun

/-- An invariant of the state and of the steps that led to it, before each step of a run. -/
theorem trace_history (Inv : List (Transition σ ε) → σ → Prop)
    (keep : ∀ past t, step t.pre t.event = some t.post → Inv past t.pre → Inv (past ++ [t]) t.post)
    (start : Inv [] s) {before after : List (Transition σ ε)} {t : Transition σ ε}
    (h : trace step s es = before ++ t :: after) : Inv before t.pre := by
  obtain ⟨fs, hrun, rfl⟩ := run_of_trace_eq h
  exact run_history Inv keep start hrun

/-- The events of a run's transitions are its events. -/
theorem map_event_trace (h : run step s es = some s') :
    (trace step s es).map Transition.event = es := by
  induction es generalizing s with
  | nil => rfl
  | cons e es ih =>
    obtain ⟨m, hstep, hrest⟩ := run_cons.mp h
    rw [trace_cons hstep, List.map_cons, ih hrest]

/-- The events of a run's transitions are the first of its events, all of them if none stops it. -/
theorem map_event_trace_first (es : List ε) : (trace step s es).map Transition.event <+: es := by
  induction es generalizing s with
  | nil => exact List.nil_prefix
  | cons e es ih =>
    cases hs : step s e with
    | none => simp [trace, hs]
    | some m =>
      rw [trace_cons hs, List.map_cons]
      exact List.cons_prefix_cons.mpr ⟨rfl, ih⟩

/-- A store whose content, with what a step puts behind it, is what the step takes from its front
and the content that it leaves: over a run nothing is lost, repeated or out of order. -/
theorem run_conserves {α : Type*} (Inv : σ → Prop) (content : σ → List α)
    (input output : Transition σ ε → List α)
    (keep : ∀ t : Transition σ ε, step t.pre t.event = some t.post → Inv t.pre → Inv t.post)
    (h : ∀ t, step t.pre t.event = some t.post → Inv t.pre →
      content t.pre ++ input t = output t ++ content t.post)
    (start : Inv s) (hrun : run step s es = some s') :
    content s ++ (trace step s es).flatMap input = (trace step s es).flatMap output ++
      content s' := by
  induction es generalizing s with
  | nil => simp [trace, ← Option.some.inj hrun]
  | cons e es ih =>
    obtain ⟨m, hstep, hrest⟩ := run_cons.mp hrun
    have hfirst := h ⟨s, e, m⟩ hstep start
    have hnext : Inv m := keep ⟨s, e, m⟩ hstep start
    dsimp only at hfirst
    rw [trace_cons hstep, List.flatMap_cons, List.flatMap_cons, ← List.append_assoc, hfirst,
      List.append_assoc, ih hnext hrest, List.append_assoc]

/-- A store that loses elements at its front only: over a run what is taken from it, with what it
still holds, is of what was put into it, in the same order. -/
theorem run_loses {α : Type*} (Inv : σ → Prop) (content : σ → List α)
    (input output : Transition σ ε → List α)
    (keep : ∀ t : Transition σ ε, step t.pre t.event = some t.post → Inv t.pre → Inv t.post)
    (h : ∀ t, step t.pre t.event = some t.post → Inv t.pre →
      (output t ++ content t.post).Sublist (content t.pre ++ input t))
    (start : Inv s) (hrun : run step s es = some s') :
    ((trace step s es).flatMap output ++ content s').Sublist
    (content s ++ (trace step s es).flatMap input) := by
  induction es generalizing s with
  | nil => simp [trace, ← Option.some.inj hrun]
  | cons e es ih =>
    obtain ⟨m, hstep, hrest⟩ := run_cons.mp hrun
    have hfirst := h ⟨s, e, m⟩ hstep start
    have hnext : Inv m := keep ⟨s, e, m⟩ hstep start
    dsimp only at hfirst
    rw [trace_cons hstep, List.flatMap_cons, List.flatMap_cons, List.append_assoc,
      ← List.append_assoc (content s)]
    refine ((ih hnext hrest).append_left _).trans ?_
    rw [← List.append_assoc]
    exact hfirst.append_right _

/-- A value that each step rewrites by what the step says is, after a run, the fold of the steps
over the first value. -/
theorem run_foldl {τ : Type*} {f : σ → τ} {g : τ → Transition σ ε → τ}
    (h : ∀ t, step t.pre t.event = some t.post → f t.post = g (f t.pre) t)
    (hrun : run step s es = some s') : f s' = (trace step s es).foldl g (f s) := by
  induction es generalizing s with
  | nil => simp [trace, ← Option.some.inj hrun]
  | cons e es ih =>
    obtain ⟨m, hs, hrest⟩ := run_cons.mp hrun
    rw [trace_cons hs, List.foldl_cons, ← h ⟨s, e, m⟩ hs]
    exact ih hrest

/-- The step function with a history beside its state, which each step extends and no step reads. -/
def recorded {τ : Type*} (step : σ → ε → Option σ) (note : τ → σ → ε → σ → τ) (s : σ × τ) (e : ε) :
    Option (σ × τ) :=
  (step s.1 e).map fun s' => (s', note s.2 s.1 e s')

theorem step_of_recorded {τ : Type*} {note : τ → σ → ε → σ → τ} {s s' : σ × τ} {e : ε}
    (h : recorded step note s e = some s') : step s.1 e = some s'.1 ∧
    s'.2 = note s.2 s.1 e s'.1 := by
  obtain ⟨t, ht, rfl⟩ := Option.map_eq_some_iff.mp h
  exact ⟨ht, rfl⟩

/-- A run beside the run of those of its events that `keep` holds of: what relates the two states
is kept by an event of both, which puts out the same in both, and by an event of the first run
only, which puts out nothing. -/
theorem run_filter_output {τ : Type*} {α : Type*} {step' : τ → ε → Option τ}
    {keep : ε → Bool} {u : τ} (output : Transition σ ε → List α) (output' : Transition τ ε → List α)
    (R : σ → τ → Prop) (C : Transition σ ε → Prop)
    (both : ∀ t u, step t.pre t.event = some t.post → C t → keep t.event = true → R t.pre u →
      ∃ u', step' u t.event = some u' ∧ R t.post u' ∧ output' ⟨u, t.event, u'⟩ = output t)
    (first : ∀ t u, step t.pre t.event = some t.post → C t → keep t.event = false → R t.pre u →
      R t.post u ∧ output t = [])
    (start : R s u) (meets : ∀ t ∈ trace step s es, C t) (h : run step s es = some s') :
    ∃ u', run step' u (es.filter keep) = some u' ∧ R s' u' ∧
      (trace step' u (es.filter keep)).flatMap output' = (trace step s es).flatMap output := by
  induction es generalizing s u with
  | nil =>
    obtain rfl := Option.some.inj h
    exact ⟨u, rfl, start, rfl⟩
  | cons e es ih =>
    obtain ⟨m, hs, hrun⟩ := run_cons.mp h
    rw [trace_cons hs] at meets ⊢
    have hC : C ⟨s, e, m⟩ := meets _ List.mem_cons_self
    have hrest : ∀ t ∈ trace step m es, C t := fun t ht => meets t (List.mem_cons_of_mem _ ht)
    rw [List.flatMap_cons]
    by_cases hkeep : keep e = true
    · obtain ⟨v, hv, hR, hsame⟩ := both ⟨s, e, m⟩ u hs hC hkeep start
      obtain ⟨u', hu', hR', houtput⟩ := ih hR hrest hrun
      rw [List.filter_cons_of_pos hkeep, trace_cons hv, List.flatMap_cons, houtput]
      exact ⟨u', run_cons.mpr ⟨v, hv, hu'⟩, hR', congrArg (· ++ _) hsame⟩
    · obtain ⟨hR, hquiet⟩ := first ⟨s, e, m⟩ u hs hC (Bool.eq_false_iff.mpr hkeep) start
      rw [List.filter_cons_of_neg hkeep, hquiet]
      exact ih hR hrest hrun

/-- A run beside the run of those of its events that `keep` holds of: what relates the two states is
kept by an event of both, and by an event of the first run only. -/
theorem run_filter {τ : Type*} {step' : τ → ε → Option τ} {keep : ε → Bool} {u : τ}
    (R : σ → τ → Prop) (C : Transition σ ε → Prop)
    (both : ∀ t u, step t.pre t.event = some t.post → C t → keep t.event = true → R t.pre u →
      ∃ u', step' u t.event = some u' ∧ R t.post u')
    (first : ∀ t u, step t.pre t.event = some t.post → C t → keep t.event = false → R t.pre u →
      R t.post u)
    (start : R s u) (meets : ∀ t ∈ trace step s es, C t) (h : run step s es = some s') :
    ∃ u', run step' u (es.filter keep) = some u' ∧ R s' u' := by
  obtain ⟨u', hrun, hR, _⟩ := run_filter_output (fun _ => ([] : List Unit)) (fun _ => []) R C
    (fun t u hstep hC hkeep hR => by
      obtain ⟨u', hu', hR'⟩ := both t u hstep hC hkeep hR
      exact ⟨u', hu', hR', rfl⟩)
    (fun t u hstep hC hkeep hR => ⟨first t u hstep hC hkeep hR, rfl⟩) start meets h
  exact ⟨u', hrun, hR⟩

end Runs

section Calls

/-! ### Concurrent calls -/

/-- A call in progress: the actions it has still to run, and those that replace them when one of
them throws. -/
structure Thread (α : Type w) where
  todo : List α
  onThrow : List α := []

/-- How an action leaves its call: it goes on, after the actions `first`, or it throws, after the
actions `cleanup`. -/
inductive Exit (α : Type w)
  | goOn (first : List α)
  | throw (cleanup : List α)

variable {α : Type w} {ι : Type x} {ρ : Type v}

/-- The actions that an exit brings in. -/
def Exit.added : Exit α → List α
  | .goOn actions | .throw actions => actions

/-- The action leaves its call by throwing. -/
def Exit.throws : Exit α → Bool
  | .goOn _ => false
  | .throw _ => true

def Exit.map {β : Type*} (f : α → β) : Exit α → Exit β
  | .goOn first => .goOn (first.map f)
  | .throw cleanup => .throw (cleanup.map f)

theorem mem_added_map {β : Type*} {f : α → β} {x : Exit α} {b : β} (hb : b ∈ (x.map f).added) :
    ∃ a ∈ x.added, b = f a := by
  cases x with
  | goOn first =>
    obtain ⟨a, ha, rfl⟩ := List.mem_map.mp hb
    exact ⟨a, ha, rfl⟩
  | throw cleanup =>
    obtain ⟨a, ha, rfl⟩ := List.mem_map.mp hb
    exact ⟨a, ha, rfl⟩

/-- The exit with further actions, unless it throws. -/
def Exit.followedBy : Exit α → List α → Exit α
  | .goOn first, actions => .goOn (first ++ actions)
  | .throw cleanup, _ => .throw cleanup

theorem mem_added_followedBy {x : Exit α} {actions : List α} {b : α}
    (hb : b ∈ (x.followedBy actions).added) : b ∈ x.added ∨ b ∈ actions := by
  cases x with
  | goOn first => exact List.mem_append.mp hb
  | throw cleanup => exact .inl hb

/-- The call that has `rest` left and `handler` as its handler, after an action with exit `x`. -/
def Thread.leave (rest handler : List α) : Exit α → Thread α
  | .goOn first => ⟨first ++ rest, handler⟩
  | .throw cleanup => ⟨cleanup ++ handler, []⟩

/-- Where the actions of a call come from after an action with exit `x`. -/
theorem mem_leave {rest handler : List α} {x : Exit α} {b : α}
    (hb : b ∈ (Thread.leave rest handler x).todo ++ (Thread.leave rest handler x).onThrow) :
    b ∈ x.added ∨ b ∈ rest ∨ b ∈ handler := by
  cases x with
  | goOn first => simpa [Thread.leave, Exit.added, or_assoc] using hb
  | throw cleanup =>
    have hthrown : b ∈ cleanup ∨ b ∈ handler := by simpa [Thread.leave] using hb
    exact hthrown.imp_right .inr

/-- The shared state and the calls, finished ones included. -/
structure Config (σ : Type u) (α : Type w) where
  shared : σ
  threads : List (Thread α)

/-- A new call, or one action of the call at an index under the environment's reply to it. -/
inductive Event (ι : Type x) (ρ : Type v)
  | start (call : ι)
  | step (thread : Nat) (reply : ρ)

/-- The call that an event starts. -/
def Event.call? : Event ι ρ → Option ι
  | .start call => some call
  | .step _ _ => none

/-- The calls that events start, in the order of the threads. -/
def started (events : List (Event ι ρ)) : List ι := events.filterMap Event.call?

theorem started_concat (events : List (Event ι ρ)) (e : Event ι ρ) :
    started (events ++ [e]) = started events ++ e.call?.toList := by
  cases e with
  | start call => simp [started, Event.call?]
  | step i reply => simp [started, Event.call?]

/-- The actions of each call, and what an action does. -/
structure Machine (σ : Type u) (α : Type w) (ι : Type x) (ρ : Type v) where
  thread : ι → Thread α
  exec : σ → α → ρ → Option (σ × Exit α)

namespace Config

/-- No call has an action left. -/
def Idle (c : Config σ α) : Prop := ∀ t ∈ c.threads, t.todo = []

/-- How often `a` is still to be run, as an action of a call or of its handler. -/
def count [DecidableEq α] (c : Config σ α) (a : α) : Nat :=
  (c.threads.map fun t => (t.todo ++ t.onThrow).count a).sum

/-- How many actions for which `p` holds are still to be run. -/
def countP (c : Config σ α) (p : α → Bool) : Nat :=
  (c.threads.map fun t => (t.todo ++ t.onThrow).countP p).sum

/-- `a` is still to be run by some call. -/
def Pending (c : Config σ α) (a : α) : Prop := ∃ t ∈ c.threads, a ∈ t.todo

/-- `a` is still to be run, as an action of a call or of its handler. -/
def ToRun (c : Config σ α) (a : α) : Prop := ∃ t ∈ c.threads, a ∈ t.todo ++ t.onThrow

instance [DecidableEq α] (c : Config σ α) (a : α) : Decidable (c.Pending a) :=
  inferInstanceAs (Decidable (∃ t ∈ c.threads, a ∈ t.todo))

/-- The action that an event runs, with the environment's reply. -/
def acts (c : Config σ α) : Event ι ρ → Option (α × ρ)
  | .start _ => none
  | .step i reply => c.threads[i]?.bind fun t => t.todo.head?.map fun a => (a, reply)

/-- The step runs an action for which `p` holds, with the shared state before it. -/
def Ran (t : Transition (Config σ α) (Event ι ρ)) (p : σ → α → ρ → Prop) : Prop :=
  ∃ a reply, t.pre.acts t.event = some (a, reply) ∧ p t.pre.shared a reply

instance (c : Config σ α) (p : α → Prop) [DecidablePred p] : Decidable (∃ a, c.ToRun a ∧ p a) :=
  decidable_of_iff (∃ t ∈ c.threads, ∃ a ∈ t.todo ++ t.onThrow, p a)
    ⟨fun ⟨t, ht, a, ha, hp⟩ => ⟨a, ⟨t, ht, ha⟩, hp⟩, fun ⟨a, ⟨t, ht, ha⟩, hp⟩ => ⟨t, ht, a, ha, hp⟩⟩

instance (t : Transition (Config σ α) (Event ι ρ)) (p : σ → α → ρ → Prop)
    [∀ s a reply, Decidable (p s a reply)] : Decidable (Ran t p) :=
  decidable_of_iff (∃ act ∈ t.pre.acts t.event, p t.pre.shared act.1 act.2)
    ⟨fun ⟨act, hacts, hp⟩ => ⟨act.1, act.2, hacts, hp⟩, fun ⟨a, reply, hacts, hp⟩ =>
    ⟨(a, reply), hacts, hp⟩⟩

theorem pending_of_acts {c : Config σ α} {e : Event ι ρ} {a : α} {reply : ρ}
    (h : c.acts e = some (a, reply)) : c.Pending a := by
  cases e with
  | start call => cases h
  | step i reply =>
    obtain ⟨t, ht, hhead⟩ := Option.bind_eq_some_iff.mp h
    obtain ⟨b, hb, heq⟩ := Option.map_eq_some_iff.mp hhead
    cases heq
    exact ⟨t, List.mem_of_getElem? ht, List.mem_of_head? hb⟩

theorem toRun_of_acts {c : Config σ α} {e : Event ι ρ} {a : α} {reply : ρ}
    (h : c.acts e = some (a, reply)) : c.ToRun a := by
  obtain ⟨t, ht, ha⟩ := pending_of_acts h
  exact ⟨t, ht, List.mem_append_left _ ha⟩

theorem countP_pos_of_toRun {c : Config σ α} {p : α → Bool} {a : α} (h : c.ToRun a) (ha : p a) :
    0 < c.countP p := by
  obtain ⟨t, ht, hmem⟩ := h
  have hsingle : 0 < (t.todo ++ t.onThrow).countP p := List.countP_pos_iff.mpr ⟨a, hmem, ha⟩
  exact Nat.lt_of_lt_of_le hsingle (List.le_sum_of_mem (List.mem_map_of_mem ht))

/-- The action that a step runs was to be run before it. -/
theorem toRun_of_ran {t : Transition (Config σ α) (Event ι ρ)} {p : σ → α → ρ → Prop}
    (h : Ran t p) :
    ∃ a reply, t.pre.ToRun a ∧ p t.pre.shared a reply := by
  obtain ⟨a, reply, hacts, hp⟩ := h
  exact ⟨a, reply, toRun_of_acts hacts, hp⟩

theorem idle_of_all {c : Config σ α} (h : c.threads.all (·.todo.isEmpty)) : c.Idle :=
  fun t ht => List.isEmpty_iff.mp (List.all_eq_true.mp h t ht)

theorem not_pending_of_idle {c : Config σ α} (h : c.Idle) (a : α) : ¬c.Pending a := by
  rintro ⟨t, ht, ha⟩
  simp [h t ht] at ha

end Config

namespace Machine

variable (m : Machine σ α ι ρ)

/-- One event: a call is added, or the first action of a call runs. -/
def step (c : Config σ α) : Event ι ρ → Option (Config σ α)
  | .start call => some { c with threads := c.threads ++ [m.thread call] }
  | .step i reply =>
    match c.threads[i]? with
    | some ⟨a :: rest, handler⟩ =>
      (m.exec c.shared a reply).map fun p => ⟨p.1, c.threads.set i (.leave rest handler p.2)⟩
    | _ => none

variable {m} {c c' : Config σ α}

/-- What one event can do. -/
theorem step_cases {e : Event ι ρ} (h : m.step c e = some c') :
    (∃ call, e = .start call ∧ c' = { c with threads := c.threads ++ [m.thread call] }) ∨
    ∃ i reply a rest handler s x, e = .step i reply ∧ c.threads[i]? = some ⟨a :: rest, handler⟩ ∧
      m.exec c.shared a reply = some (s, x) ∧ c.acts e = some (a, reply) ∧
      c' = ⟨s, c.threads.set i (.leave rest handler x)⟩ := by
  cases e with
  | start call => exact .inl ⟨call, rfl, by simpa [step] using h.symm⟩
  | step i reply =>
    simp only [step] at h
    split at h
    · rename_i a rest handler hi
      obtain ⟨⟨s, x⟩, hx, rfl⟩ := Option.map_eq_some_iff.mp h
      exact .inr ⟨i, reply, a, rest, handler, s, x, rfl, hi, hx, by simp [Config.acts, hi], rfl⟩
    · cases h

/-- What one event does to the shared state: nothing, or what the action that it runs does. -/
theorem step_shared {t : Transition (Config σ α) (Event ι ρ)}
    (ht : m.step t.pre t.event = some t.post) :
    (t.post.shared = t.pre.shared ∧ ∀ p, ¬Config.Ran t p) ∨
    ∃ a reply x, m.exec t.pre.shared a reply = some (t.post.shared, x) ∧
      ∀ p, Config.Ran t p ↔ p t.pre.shared a reply := by
  rcases step_cases ht with ⟨call, he, hpost⟩ | ⟨i, reply, a, rest, handler, s, x, he, _, hx, hacts,
    hpost⟩
  · refine .inl ⟨by rw [hpost], ?_⟩
    rintro p ⟨a, reply, hacts, _⟩
    simp [he, Config.acts] at hacts
  · refine .inr ⟨a, reply, x, by rw [hx, hpost], fun p => ⟨?_, fun hp => ⟨a, reply, hacts, hp⟩⟩⟩
    rintro ⟨_, _, hacts', hp⟩
    cases hacts.symm.trans hacts'
    exact hp

/-- After an action with exit `x`, what is pending is what was pending in the other calls, what
the action adds, and, unless it throws, what its call had left. -/
theorem pending_set {ts : List (Thread α)} {i : Nat} {a : α} {rest handler : List α} {x : Exit α}
    {s : σ} (hi : ts[i]? = some ⟨a :: rest, handler⟩) (b : α) :
    (Config.mk s (ts.set i (.leave rest handler x))).Pending b ↔
      (∃ j t, j ≠ i ∧ ts[j]? = some t ∧ b ∈ t.todo) ∨ b ∈ (Thread.leave rest handler x).todo := by
  have hlen : i < ts.length := (List.getElem?_eq_some_iff.mp hi).1
  simp only [Config.Pending, List.mem_iff_getElem?]
  constructor
  · rintro ⟨t, ⟨j, hj⟩, hb⟩
    by_cases hij : j = i
    · subst hij
      rw [List.getElem?_set_self hlen, Option.some.injEq] at hj
      exact .inr (hj ▸ hb)
    · rw [List.getElem?_set_ne (Ne.symm hij)] at hj
      exact .inl ⟨j, t, hij, hj, hb⟩
  · rintro (⟨j, t, hij, hj, hb⟩ | hb)
    · exact ⟨t, ⟨j, by rw [List.getElem?_set_ne (Ne.symm hij)]; exact hj⟩, hb⟩
    · exact ⟨_, ⟨i, List.getElem?_set_self hlen⟩, hb⟩

/-- What was pending still is, but for the action that ran and, when it throws, what its call had
left. -/
theorem pending_step {s : σ} (s' : σ) (x : Exit α) {ts : List (Thread α)} {i : Nat} {a b : α}
    {rest handler : List α} (hi : ts[i]? = some ⟨a :: rest, handler⟩)
    (hb : (Config.mk s ts).Pending b) :
    b = a ∨ (b ∈ rest ∧ ∃ cleanup, x = .throw cleanup) ∨
      (Config.mk s' (ts.set i (.leave rest handler x))).Pending b := by
  obtain ⟨t, ht, hmem⟩ := hb
  obtain ⟨j, hj⟩ := List.mem_iff_getElem?.mp ht
  by_cases hij : j = i
  · subst hij
    cases hi.symm.trans hj
    rcases List.mem_cons.mp hmem with rfl | hrest
    · exact .inl rfl
    · cases x with
      | goOn first =>
        have hnew : b ∈ (Thread.leave rest handler (.goOn first)).todo :=
          List.mem_append_right _ hrest
        exact .inr (.inr ((pending_set hi b).mpr (.inr hnew)))
      | throw cleanup => exact .inr (.inl ⟨hrest, cleanup, rfl⟩)
  · exact .inr (.inr ((pending_set hi b).mpr (.inl ⟨j, t, hij, hj, hmem⟩)))

/-- After an action that goes on with `first`, what is pending was pending or is one of `first`. -/
theorem pending_of_goOn {ts : List (Thread α)} {i : Nat} {a b : α} {rest handler first : List α}
    {s s' : σ} (hi : ts[i]? = some ⟨a :: rest, handler⟩)
    (hb : (Config.mk s' (ts.set i (.leave rest handler (.goOn first)))).Pending b) :
    (Config.mk s ts).Pending b ∨ b ∈ first := by
  rcases (pending_set hi b).mp hb with ⟨j, t, _, hj, hmem⟩ | hmem
  · exact .inl ⟨t, List.mem_of_getElem? hj, hmem⟩
  · rcases List.mem_append.mp hmem with hfirst | hrest
    · exact .inr hfirst
    · exact .inl ⟨_, List.mem_of_getElem? hi, List.mem_cons_of_mem _ hrest⟩

/-- After an action that goes on with `first`, `first` is pending. -/
theorem pending_first {ts : List (Thread α)} {i : Nat} {a b : α} {rest handler first : List α}
    {s : σ} (hi : ts[i]? = some ⟨a :: rest, handler⟩) (hb : b ∈ first) :
    (Config.mk s (ts.set i (.leave rest handler (.goOn first)))).Pending b :=
  (pending_set hi b).mpr (.inr (List.mem_append_left _ hb))

/-- After an action that goes on, what was pending still is, but for the action. -/
theorem pending_goOn {ts : List (Thread α)} {i : Nat} {a b : α} {rest handler first : List α}
    {s s' : σ} (hi : ts[i]? = some ⟨a :: rest, handler⟩) (hb : (Config.mk s ts).Pending b)
    (hne : b ≠ a) : (Config.mk s' (ts.set i (.leave rest handler (.goOn first)))).Pending b := by
  rcases pending_step s' (.goOn first) hi hb with heq | ⟨_, cleanup, hthrow⟩ | hkept
  · exact absurd heq hne
  · cases hthrow
  · exact hkept

theorem pending_start {ts : List (Thread α)} {t : Thread α} {b : α} {s : σ}
    (hb : (Config.mk s ts).Pending b) : (Config.mk s (ts ++ [t])).Pending b := by
  obtain ⟨t', ht, hmem⟩ := hb
  exact ⟨t', List.mem_append_left _ ht, hmem⟩

/-- What holds of the actions of a new call, and of the actions that an action brings in, holds
after a step of every action that is still to run, if it did before. -/
theorem todo_step {K : α → Prop} {e : Event ι ρ} (h : m.step c e = some c')
    (hold : ∀ t ∈ c.threads, ∀ a ∈ t.todo ++ t.onThrow, K a)
    (start : ∀ call, ∀ a ∈ (m.thread call).todo ++ (m.thread call).onThrow, K a)
    (adds : ∀ a reply x, c.acts e = some (a, reply) →
      m.exec c.shared a reply = some (c'.shared, x) → c.Pending a → ∀ b ∈ x.added, K b) :
    ∀ t ∈ c'.threads, ∀ a ∈ t.todo ++ t.onThrow, K a := by
  rcases step_cases h with ⟨call, _, rfl⟩ |
    ⟨i, reply, a, rest, handler, s, x, _, hi, hx, hacts, rfl⟩
  · intro u hu
    rcases List.mem_append.mp hu with hu | hu
    · exact hold u hu
    · obtain rfl := List.mem_singleton.mp hu
      exact start call
  · have hthread := List.mem_of_getElem? hi
    have hadds : ∀ b ∈ x.added, K b :=
      adds a reply x hacts hx ⟨_, hthread, List.mem_cons_self⟩
    intro u hu b hb
    rcases List.mem_or_eq_of_mem_set hu with hu | rfl
    · exact hold u hu b hb
    · rcases mem_leave hb with hnew | hrest | hhandler
      · exact hadds b hnew
      · exact hold _ hthread b (List.mem_append_left _ (List.mem_cons_of_mem _ hrest))
      · exact hold _ hthread b (List.mem_append_right _ hhandler)

/-- Where an action that is still to be run after a step comes from. -/
theorem toRun_step {e : Event ι ρ} (h : m.step c e = some c') {b : α} (hb : c'.ToRun b) :
    c.ToRun b ∨ (∃ call, e = .start call ∧ b ∈ (m.thread call).todo ++ (m.thread call).onThrow) ∨
    ∃ a reply x, c.acts e = some (a, reply) ∧ m.exec c.shared a reply = some (c'.shared, x) ∧
      b ∈ x.added := by
  obtain ⟨u, hu, hb⟩ := hb
  rcases step_cases h with ⟨call, he, rfl⟩ |
    ⟨i, reply, a, rest, handler, s, x, _, hi, hx, hacts, rfl⟩
  · rcases List.mem_append.mp hu with hu | hu
    · exact .inl ⟨u, hu, hb⟩
    · obtain rfl := List.mem_singleton.mp hu
      exact .inr (.inl ⟨call, he, hb⟩)
  · have hthread := List.mem_of_getElem? hi
    rcases List.mem_or_eq_of_mem_set hu with hu | rfl
    · exact .inl ⟨u, hu, hb⟩
    · rcases mem_leave hb with hnew | hrest | hhandler
      · exact .inr (.inr ⟨a, reply, x, hacts, hx, hnew⟩)
      · exact .inl ⟨_, hthread, List.mem_append_left _ (List.mem_cons_of_mem _ hrest)⟩
      · exact .inl ⟨_, hthread, List.mem_append_right _ hhandler⟩

/-- What holds of whom every action that is still to run is about: a step must keep it of those,
and an action that brings in others brings in actions about whom it is about itself, or of whom it
holds. -/
theorem subject_step {κ : Type*} {subject : α → Option κ} {K : σ → κ → Prop} {e : Event ι ρ}
    (h : m.step c e = some c') (hold : ∀ b k, c.ToRun b → subject b = some k → K c.shared k)
    (keep : ∀ b k, c.ToRun b → subject b = some k → K c.shared k → K c'.shared k)
    (start : ∀ call, ∀ b ∈ (m.thread call).todo ++ (m.thread call).onThrow, subject b = none)
    (adds : ∀ a reply x b k, c.acts e = some (a, reply) → m.exec c.shared a reply = some
      (c'.shared, x) → b ∈ x.added → subject b = some k → subject a = some k ∨ K c'.shared k) :
    ∀ b k, c'.ToRun b → subject b = some k → K c'.shared k := by
  intro b k hb hk
  rcases toRun_step h hb with hold' | ⟨call, _, hnew⟩ | ⟨a, reply, x, hacts, hexec, hadded⟩
  · exact keep b k hold' hk (hold b k hold' hk)
  · cases (start call b hnew).symm.trans hk
  · rcases adds a reply x b k hacts hexec hadded hk with hak | hK
    · have ha := Config.toRun_of_acts hacts
      exact keep a k ha hak (hold a k ha hak)
    · exact hK

/-- What holds of every call, by its place, with the shared state: an action must keep it for its
own call, with what the action brings in, and for the others. -/
theorem calls_step {Q : Nat → σ → List α → Prop} {e : Event ι ρ} (h : m.step c e = some c')
    (hold : ∀ j t, c.threads[j]? = some t → Q j c.shared t.todo)
    (start : ∀ call, e = .start call → Q c.threads.length c.shared (m.thread call).todo)
    (act : ∀ i a reply rest handler s x, c.threads[i]? = some ⟨a :: rest, handler⟩ →
      m.exec c.shared a reply = some (s, x) → c.acts e = some (a, reply) →
      Q i s (Thread.leave rest handler x).todo ∧
        ∀ j t, j ≠ i → c.threads[j]? = some t → Q j s t.todo) :
    ∀ j t, c'.threads[j]? = some t → Q j c'.shared t.todo := by
  rcases step_cases h with ⟨call, he, rfl⟩ |
    ⟨i, reply, a, rest, handler, s, x, _, hi, hx, hacts, rfl⟩
  · intro j t hj
    rcases Nat.lt_trichotomy j c.threads.length with hlt | heq | hgt
    · rw [List.getElem?_append_left hlt] at hj
      exact hold j t hj
    · subst heq
      rw [List.getElem?_append_right (Nat.le_refl _), Nat.sub_self] at hj
      cases hj
      exact start call he
    · rw [List.getElem?_append_right (Nat.le_of_lt hgt),
        List.getElem?_eq_none (by simp; omega)] at hj
      cases hj
  · obtain ⟨hself, hothers⟩ := act i a reply rest handler s x hi hx hacts
    have hlen : i < c.threads.length := (List.getElem?_eq_some_iff.mp hi).1
    intro j t hj
    by_cases hij : j = i
    · subst hij
      rw [List.getElem?_set_self hlen] at hj
      cases hj
      exact hself
    · rw [List.getElem?_set_ne (Ne.symm hij)] at hj
      exact hothers j t hij hj

/-- An entry of a list in a sum over the list. -/
theorem sum_map_set {β : Type*} {f : β → Nat} {l : List β} {i : Nat} {b : β} (h : l[i]? = some b)
    (b' : β) : ((l.set i b').map f).sum + f b = (l.map f).sum + f b' := by
  induction l generalizing i with
  | nil => simp at h
  | cons c l ih =>
    cases i with
    | zero =>
      obtain rfl := Option.some.inj h
      simp
      omega
    | succ i =>
      have hrest := ih (i := i) h
      simp only [List.set_cons_succ, List.map_cons, List.sum_cons]
      omega

/-- How many actions for which `p` holds are still to be run: a new call brings its actions in, and
each step takes the action that it runs away and brings in what the action adds. -/
theorem countP_step (p : α → Bool) {e : Event ι ρ} (h : m.step c e = some c') :
    (∃ call, e = .start call ∧ c'.shared = c.shared ∧
      c'.countP p = c.countP p + ((m.thread call).todo ++ (m.thread call).onThrow).countP p) ∨
    ∃ a reply x, c.acts e = some (a, reply) ∧ m.exec c.shared a reply = some (c'.shared, x) ∧
      c'.countP p + [a].countP p ≤ c.countP p + x.added.countP p := by
  rcases step_cases h with ⟨call, he, rfl⟩ |
    ⟨i, reply, a, rest, handler, s, x, _, hi, hx, hacts, rfl⟩
  · exact .inl ⟨call, he, rfl, by simp [Config.countP]⟩
  · refine .inr ⟨a, reply, x, hacts, hx, ?_⟩
    have hsum := sum_map_set (f := fun t : Thread α => (t.todo ++ t.onThrow).countP p) hi
      (Thread.leave rest handler x)
    have hsplit : (a :: rest).countP p = rest.countP p + [a].countP p := by
      rw [← List.singleton_append, List.countP_append, Nat.add_comm]
    unfold Config.countP
    cases x with
    | goOn first =>
      simp only [Thread.leave, List.countP_append] at hsum
      simp only [Thread.leave, Exit.added, List.countP_append]
      omega
    | throw cleanup =>
      simp only [Thread.leave, List.countP_append, List.countP_nil, Nat.add_zero] at hsum
      simp only [Thread.leave, Exit.added, List.countP_append]
      omega

/-- How often an action is still to be run. -/
theorem count_step [DecidableEq α] {e : Event ι ρ} (h : m.step c e = some c') (b : α) :
    (∃ call, e = .start call ∧
      c'.count b = c.count b + ((m.thread call).todo ++ (m.thread call).onThrow).count b) ∨
    ∃ a reply x, c.acts e = some (a, reply) ∧ m.exec c.shared a reply = some (c'.shared, x) ∧
      c'.count b + [a].count b ≤ c.count b + x.added.count b :=
  (countP_step (· == b) h).imp_left fun ⟨call, he, _, hcount⟩ => ⟨call, he, hcount⟩

/-- Where the actions of the calls come from: what holds of the actions of a new call, and of the
actions that an action brings in, holds of every action that is still to run, if no later step
invalidates it. -/
theorem todo_history {J : List (Transition (Config σ α) (Event ι ρ)) → α → Prop} {s : σ}
    {es : List (Event ι ρ)}
    (mono : ∀ past t a, J past a → J (past ++ [t]) a)
    (start : ∀ past call, ∀ a ∈ (m.thread call).todo ++ (m.thread call).onThrow, J past a)
    (adds : ∀ past (t : Transition (Config σ α) (Event ι ρ)) a reply x,
      t.pre.acts t.event = some (a, reply) → m.exec t.pre.shared a reply = some (t.post.shared, x) →
      J past a → ∀ b ∈ x.added, J (past ++ [t]) b)
    (h : run m.step ⟨s, []⟩ es = some c) :
    ∀ t ∈ c.threads, ∀ a ∈ t.todo ++ t.onThrow, J (trace m.step ⟨s, []⟩ es) a := by
  refine run_history (fun past c => ∀ t ∈ c.threads, ∀ a ∈ t.todo ++ t.onThrow, J past a)
    (fun past t ht hold => ?_) (fun t ht => by simp at ht) h
  refine todo_step ht (fun u hu a ha => mono past t a (hold u hu a ha)) (start (past ++ [t])) ?_
  intro a reply x hacts hx hpending
  obtain ⟨u, hu, ha⟩ := hpending
  exact adds past t a reply x hacts hx (hold u hu a (List.mem_append_left _ ha))

/-- Every thread is that of the call at its place, and `Q` holds of what it has left. -/
structure Serves (Q : ι → α → Prop) (calls : List ι) (ts : List (Thread α)) : Prop where
  length : calls.length = ts.length
  actions : ∀ (j : Nat) (call : ι) (u : Thread α), calls[j]? = some call → ts[j]? = some u →
    ∀ b ∈ u.todo ++ u.onThrow, Q call b

variable {Q : ι → α → Prop}

theorem serves_step {calls : List ι} {e : Event ι ρ} (h : m.step c e = some c')
    (start : ∀ call, ∀ b ∈ (m.thread call).todo ++ (m.thread call).onThrow, Q call b)
    (adds : ∀ call s a reply s' x, Q call a → m.exec s a reply = some (s', x) →
      ∀ b ∈ x.added, Q call b)
    (hold : Serves Q calls c.threads) : Serves Q (calls ++ e.call?.toList) c'.threads := by
  obtain ⟨hlength, hactions⟩ := hold
  rcases step_cases h with ⟨call, rfl, rfl⟩ |
    ⟨i, reply, a, rest, handler, s', x, rfl, hi, hx, _, rfl⟩
  · refine ⟨by simp [Event.call?, hlength], fun j call' u hcall hu => ?_⟩
    rcases Nat.lt_trichotomy j c.threads.length with hlt | heq | hgt
    · rw [List.getElem?_append_left (by omega)] at hcall hu
      exact hactions j call' u hcall hu
    · rw [List.getElem?_append_right (by omega), heq] at hcall hu
      have hcall' : call = call' := by simpa [Event.call?, hlength] using hcall
      have hu' : m.thread call = u := by simpa using hu
      subst hcall' hu'
      exact start call
    · rw [List.getElem?_append_right (by omega), List.getElem?_eq_none (by simp; omega)] at hu
      cases hu
  · refine ⟨by simpa [Event.call?] using hlength, fun j call u hcall hu => ?_⟩
    have hcall' : calls[j]? = some call := by simpa [Event.call?] using hcall
    by_cases hij : i = j
    · subst hij
      rw [List.getElem?_set_self (List.getElem?_eq_some_iff.mp hi).1] at hu
      cases hu
      intro b hb
      have hself := hactions i call _ hcall' hi
      rcases mem_leave hb with hb | hb
      · exact adds call _ a reply s' x (hself a (by simp)) hx b hb
      · exact hself b (List.mem_cons_of_mem a (List.mem_append.mpr hb))
    · rw [List.getElem?_set_ne hij] at hu
      exact hactions j call u hcall' hu

/-- What holds of the actions of a new call, and of those that one of its actions brings in, holds
of every action that is run for the call. -/
theorem started_of_acts {s : σ} {es : List (Event ι ρ)}
    (start : ∀ call, ∀ b ∈ (m.thread call).todo ++ (m.thread call).onThrow, Q call b)
    (adds : ∀ call s a reply s' x, Q call a → m.exec s a reply = some (s', x) →
      ∀ b ∈ x.added, Q call b)
    {t : Transition (Config σ α) (Event ι ρ)} (ht : t ∈ trace m.step ⟨s, []⟩ es) {i : Nat} {a : α}
    {reply : ρ} (he : t.event = .step i reply) (ha : t.pre.acts t.event = some (a, reply)) :
    ∃ call, (started es)[i]? = some call ∧ Q call a := by
  obtain ⟨before, after, htrace⟩ := List.append_of_mem ht
  have hserves : Serves Q (started (before.map Transition.event)) t.pre.threads := by
    refine trace_history (fun past c => Serves Q (started (past.map Transition.event)) c.threads)
      (fun past t ht hold => ?_) ⟨rfl, fun j call u hcall => by cases hcall⟩ htrace
    have hnext := serves_step ht start adds hold
    rwa [← started_concat, ← List.map_singleton, ← List.map_append] at hnext
  rw [he] at ha
  obtain ⟨u, hu, hhead⟩ := Option.bind_eq_some_iff.mp ha
  obtain ⟨b, hb, heq⟩ := Option.map_eq_some_iff.mp hhead
  cases heq
  have hi := (List.getElem?_eq_some_iff.mp hu).1
  have hcall := List.getElem?_eq_getElem (hserves.length ▸ hi)
  refine ⟨_, ?_, hserves.actions i _ u hcall hu a (List.mem_append_left _ (List.mem_of_head? hb))⟩
  -- The steps before are of the first events, and so are the calls that these started.
  have hevents : (trace m.step ⟨s, []⟩ es).map Transition.event <+: es := map_event_trace_first es
  rw [htrace, List.map_append] at hevents
  have hbefore := (List.prefix_append _ _).trans hevents
  obtain ⟨rest, hes⟩ := hbefore.filterMap Event.call?
  have hes' : started es = started (before.map Transition.event) ++ rest := hes.symm
  rw [hes', List.getElem?_append_left (by have := hserves.length; omega)]
  exact hcall

/-! ### Histories -/

/-- The machine with a history beside its state, which each action extends and no action reads. -/
def observed {τ : Type*} (m : Machine σ α ι ρ) (note : τ → σ → α → ρ → σ → τ) :
    Machine (σ × τ) α ι ρ where
  thread := m.thread
  exec s a reply := (m.exec s.1 a reply).map fun p => ((p.1, note s.2 s.1 a reply p.1), p.2)

theorem observed_exec {τ : Type*} {note : τ → σ → α → ρ → σ → τ} {s s' : σ × τ} {a : α} {reply : ρ}
    {x : Exit α} (h : (m.observed note).exec s a reply = some (s', x)) :
    m.exec s.1 a reply = some (s'.1, x) ∧ s'.2 = note s.2 s.1 a reply s'.1 := by
  obtain ⟨⟨t, y⟩, hexec, heq⟩ := Option.map_eq_some_iff.mp h
  cases heq
  exact ⟨hexec, rfl⟩

/-- An invariant of the state and its history: what each action that does not meet `C` keeps, each
step whose action does not meet `C` keeps. -/
theorem observed_step_invariant {τ : Type*} {note : τ → σ → α → ρ → σ → τ} (Inv : σ → τ → Prop)
    {C : σ × τ → α → ρ → Prop}
    (keep : ∀ s x a reply s' y, m.exec s a reply = some (s', y) → ¬C (s, x) a reply → Inv s x →
      Inv s' (note x s a reply s'))
    {t : Transition (Config (σ × τ) α) (Event ι ρ)}
    (ht : (m.observed note).step t.pre t.event = some t.post) (hC : ¬Config.Ran t C)
    (h : Inv t.pre.shared.1 t.pre.shared.2) : Inv t.post.shared.1 t.post.shared.2 := by
  rcases step_shared ht with ⟨hsame, _⟩ | ⟨a, reply, y, hexec, hran⟩
  · rw [hsame]
    exact h
  · obtain ⟨hexec, hnote⟩ := observed_exec hexec
    rw [hnote]
    exact keep _ _ a reply _ y hexec (fun hc => hC ((hran C).mpr hc)) h

/-- The histories take nothing from the runs: every run of the machine is one of the observed
machine. -/
theorem observed_run {τ : Type*} {note : τ → σ → α → ρ → σ → τ} {s s' : σ} {x : τ}
    {ts ts' : List (Thread α)} {es : List (Event ι ρ)}
    (h : run m.step ⟨s, ts⟩ es = some ⟨s', ts'⟩) :
    ∃ x', run (m.observed note).step ⟨(s, x), ts⟩ es = some ⟨(s', x'), ts'⟩ := by
  induction es generalizing s x ts with
  | nil =>
    cases Option.some.inj h
    exact ⟨x, rfl⟩
  | cons e es ih =>
    obtain ⟨⟨n, us⟩, hs, hrun⟩ := run_cons.mp h
    rcases step_cases hs with ⟨call, rfl, heq⟩ |
      ⟨i, reply, a, rest, handler, _, y, rfl, hi, hexec, _, heq⟩
    · cases heq
      obtain ⟨x', hx'⟩ := ih (x := x) hrun
      exact ⟨x', run_cons.mpr ⟨_, rfl, hx'⟩⟩
    · cases heq
      obtain ⟨x', hx'⟩ := ih (x := note x s a reply n) hrun
      refine ⟨x', run_cons.mpr ⟨_, ?_, hx'⟩⟩
      have hi : ts[i]? = some ⟨a :: rest, handler⟩ := hi
      have hexec : m.exec s a reply = some (n, y) := hexec
      simp [step, hi, observed, hexec]

/-- The actions of one call, run one after another with no other call in between: the shared state
that they leave, and whether one of them threw. -/
def alone (m : Machine σ α ι ρ) : σ → Thread α → List ρ → Option (σ × Bool)
  | s, ⟨[], _⟩, [] => some (s, false)
  | s, ⟨a :: rest, handler⟩, reply :: replies =>
    (m.exec s a reply).bind fun p =>
      (alone m p.1 (.leave rest handler p.2) replies).map fun q => (q.1, p.2.throws || q.2)
  | _, _, _ => none

theorem alone_nil {s s' : σ} {handler : List α} {replies : List ρ} {threw : Bool}
    (h : m.alone s ⟨[], handler⟩ replies = some (s', threw)) : s' = s ∧ threw = false := by
  cases replies with
  | nil =>
    simp only [alone, Option.some.injEq, Prod.mk.injEq] at h
    exact ⟨h.1.symm, h.2.symm⟩
  | cons reply replies => cases h

theorem alone_cons {s s' : σ} {a : α} {rest handler : List α} {replies : List ρ} {threw : Bool}
    (h : m.alone s ⟨a :: rest, handler⟩ replies = some (s', threw)) :
    ∃ reply later p threw', replies = reply :: later ∧ m.exec s a reply = some p ∧
      m.alone p.1 (.leave rest handler p.2) later = some (s', threw') ∧
      threw = (p.2.throws || threw') := by
  cases replies with
  | nil => cases h
  | cons reply later =>
    obtain ⟨p, hp, h⟩ := Option.bind_eq_some_iff.mp h
    obtain ⟨⟨s'', threw'⟩, hlater, heq⟩ := Option.map_eq_some_iff.mp h
    cases heq
    exact ⟨reply, later, p, threw', rfl, hp, hlater, rfl⟩

/-- A call alone is a run in which only this call has steps. -/
theorem run_of_alone {s s' : σ} {t : Thread α} {replies : List ρ} {threw : Bool}
    (h : m.alone s t replies = some (s', threw)) :
    ∃ handler, run m.step ⟨s, [t]⟩ (replies.map (.step 0)) = some ⟨s', [⟨[], handler⟩]⟩ := by
  induction replies generalizing s t threw with
  | nil =>
    obtain ⟨todo, handler⟩ := t
    cases todo with
    | nil =>
      obtain ⟨rfl, _⟩ := alone_nil h
      exact ⟨handler, rfl⟩
    | cons a rest => cases h
  | cons reply replies ih =>
    obtain ⟨todo, handler⟩ := t
    cases todo with
    | nil => cases h
    | cons a rest =>
      obtain ⟨_, _, p, threw', heq, hp, hlater, _⟩ := alone_cons h
      cases heq
      obtain ⟨handler', hrun⟩ := ih hlater
      refine ⟨handler', run_cons.mpr ⟨_, ?_, hrun⟩⟩
      simp [step, hp]

end Machine

/-! ### What is to be run -/

variable {m : Machine σ α ι ρ} {c c' : Config σ α}

/-- Two different actions count for two. -/
theorem two_le_countP {l : List α} {p : α → Bool} {a b : α} (ha : a ∈ l) (hb : b ∈ l)
    (hne : a ≠ b) (hpa : p a) (hpb : p b) : 2 ≤ l.countP p := by
  induction l with
  | nil => cases ha
  | cons d l ih =>
    rw [List.countP_cons]
    by_cases hda : d = a
    · have hrest : b ∈ l := (List.mem_cons.mp hb).resolve_left fun h => hne (hda.symm.trans h.symm)
      have hpos : 0 < l.countP p := List.countP_pos_iff.mpr ⟨b, hrest, hpb⟩
      rw [if_pos (hda ▸ hpa)]
      omega
    · have hrest : a ∈ l := (List.mem_cons.mp ha).resolve_left fun h => hda h.symm
      by_cases hdb : d = b
      · have hpos : 0 < l.countP p := List.countP_pos_iff.mpr ⟨a, hrest, hpa⟩
        rw [if_pos (hdb ▸ hpb)]
        omega
      · have htwo := ih hrest ((List.mem_cons.mp hb).resolve_left fun h => hdb h.symm)
        omega

namespace Config

/-- All that is to be run. -/
def all (c : Config σ α) : List α := c.threads.flatMap fun t => t.todo ++ t.onThrow

theorem mem_all {a : α} : a ∈ c.all ↔ c.ToRun a := List.mem_flatMap

theorem countP_all (p : α → Bool) : c.countP p = c.all.countP p := by
  rw [all, List.countP_flatMap]
  rfl

theorem two_le_of_toRun {p : α → Bool} {a b : α} (ha : c.ToRun a) (hb : c.ToRun b)
    (hne : a ≠ b) (hpa : p a) (hpb : p b) : 2 ≤ c.countP p := by
  rw [countP_all]
  exact two_le_countP (mem_all.mpr ha) (mem_all.mpr hb) hne hpa hpb

theorem toRun_of_countP {p : α → Bool} (h : 0 < c.countP p) : ∃ a, c.ToRun a ∧ p a := by
  rw [countP_all] at h
  obtain ⟨a, ha, hp⟩ := List.countP_pos_iff.mp h
  exact ⟨a, mem_all.mp ha, hp⟩

theorem not_toRun_replicate (s : σ) (n : Nat) (a : α) :
    ¬ToRun ⟨s, List.replicate n ⟨[], []⟩⟩ a := by
  rintro ⟨t, ht, ha⟩
  rw [List.eq_of_mem_replicate ht] at ha
  cases ha

end Config

namespace Machine

/-- The action ran, and its call goes on with what it brings in; what else was to be run still
is. -/
structure GoesOn (c : Config σ α) (a : α) (first : List α) (c' : Config σ α) : Prop where
  ran : c.ToRun a
  count : ∀ p, c'.countP p + [a].countP p = c.countP p + first.countP p
  origin : ∀ b, c'.ToRun b → c.ToRun b ∨ b ∈ first
  added : ∀ b ∈ first, c'.ToRun b
  stays : ∀ b, c.ToRun b → b ≠ a → c'.ToRun b

/-- The call came in. -/
structure ComesIn (c : Config σ α) (brought : List α) (c' : Config σ α) : Prop where
  shared : c'.shared = c.shared
  count : ∀ p, c'.countP p = c.countP p + brought.countP p
  toRun : ∀ b, c'.ToRun b ↔ c.ToRun b ∨ b ∈ brought

/-- What one event does when no action throws. -/
theorem goOn_cases (hgoOn : ∀ s a reply s' x, m.exec s a reply = some (s', x) →
    ∃ first, x = .goOn first) {e : Event ι ρ} (h : m.step c e = some c') :
    (∃ call, e = .start call ∧ ComesIn c ((m.thread call).todo ++ (m.thread call).onThrow) c') ∨
    ∃ a reply first, m.exec c.shared a reply = some (c'.shared, .goOn first) ∧
    GoesOn c a first c' := by
  rcases step_cases h with ⟨call, he, rfl⟩ |
    ⟨i, reply, a, rest, handler, s, x, _, hi, hx, hacts, rfl⟩
  · refine .inl ⟨call, he, rfl, fun p => by simp [Config.countP], fun b => ?_⟩
    simp only [Config.ToRun, List.mem_append, List.mem_singleton, or_and_right, exists_or,
      exists_eq_left]
  · obtain ⟨first, rfl⟩ := hgoOn _ _ _ _ _ hx
    refine .inr ⟨a, reply, first, hx, Config.toRun_of_acts hacts, fun p => ?_, fun b hb => ?_,
      fun b hb => ?_,
      fun b hb hne => ?_⟩
    · have hsum := sum_map_set (f := fun t : Thread α => (t.todo ++ t.onThrow).countP p) hi
        (Thread.leave rest handler (.goOn first))
      have hsplit : (a :: rest).countP p = rest.countP p + [a].countP p := by
        rw [← List.singleton_append, List.countP_append, Nat.add_comm]
      simp only [Thread.leave, List.countP_append] at hsum
      simp only [Config.countP, Thread.leave, List.countP_append]
      omega
    · rcases toRun_step h hb with hold | ⟨call, he, _⟩ | ⟨a', reply', x, hacts', hexec, hadded⟩
      · exact .inl hold
      · subst he
        cases hacts
      · cases hacts.symm.trans hacts'
        cases hx.symm.trans hexec
        exact .inr hadded
    · exact ⟨_, List.mem_of_getElem? (List.getElem?_set_self (List.getElem?_eq_some_iff.mp hi).1),
        List.mem_append_left _ (List.mem_append_left _ hb)⟩
    · obtain ⟨t, ht, hmem⟩ := hb
      obtain ⟨j, hj⟩ := List.mem_iff_getElem?.mp ht
      by_cases hij : j = i
      · subst hij
        cases hi.symm.trans hj
        refine ⟨_, List.mem_of_getElem?
          (List.getElem?_set_self (List.getElem?_eq_some_iff.mp hi).1), ?_⟩
        have hleft : b ∈ rest ∨ b ∈ handler := by simpa [hne] using hmem
        simp only [Thread.leave, List.mem_append]
        exact hleft.imp_left .inr
      · exact ⟨t, List.mem_of_getElem? (by rw [List.getElem?_set_ne (Ne.symm hij)]; exact hj), hmem⟩

/-- A step whose action and whose new actions are all of another kind leaves the count of the
kind. -/
theorem GoesOn.countP_of_none {a : α} {first : List α} (hgo : GoesOn c a first c') (p : α → Bool)
    (ha : p a = false) (hfirst : ∀ b ∈ first, p b = false) : c'.countP p = c.countP p := by
  have hcount := hgo.count p
  rw [List.countP_singleton, ha, if_neg (by simp),
    List.countP_eq_zero.mpr fun b hb => by simp [hfirst b hb]] at hcount
  exact hcount

theorem GoesOn.toRun_of_none {a : α} {first : List α} (hgo : GoesOn c a first c') {b : α}
    (hb : c'.ToRun b) (hfirst : b ∉ first) : c.ToRun b := (hgo.origin b hb).resolve_right hfirst

end Machine

end Calls

end Interleave
