import Mathlib.Data.List.Basic
import Mathlib.Tactic.Common

/-! A register whose writes reach a replica through a stream.  The replica takes the updates in
order, and its own writers set it back, read the register back into it, or give up on it while the
stream still holds older updates.  `Feed` is what the stream says about the register, and `Follows`
is what the replica keeps under every order of these operations. -/

namespace Replica

/-- States of which some are terminal, and of which a replica leaves a terminal one for terminal
ones only.  The final states are terminal and never given up; one more terminal state is that of a
failed attempt. -/
structure Lifecycle (σ : Type*) where
  terminal : σ → Bool
  final : σ → Bool
  failed : σ
  terminal_of_final : ∀ u, final u → terminal u
  failed_of_terminal : ∀ u, terminal u → ¬final u → u = failed
  not_final_failed : ¬final failed

variable {σ : Type*} {L : Lifecycle σ}

/-- The replica in state `x` after the update `u`. -/
def Lifecycle.take (L : Lifecycle σ) (x u : σ) : σ :=
  if L.terminal x && !L.terminal u then x else u

/-! ### The stream -/

/-- A step of the register's writers, from `current` and the untaken updates `pending`: nothing, a
write that yields its update, or an attempt on the `busy` replica that sets the register back, with
an update of its own or with one still to come. -/
inductive Moves (L : Lifecycle σ) (busy opening opening' : Prop) :
    Option σ → List σ → Option σ → List σ → Prop
  | quiet {current : Option σ} {pending : List σ} (hopening : opening ↔ opening') :
    Moves L busy opening opening' current pending current pending
  | write {pending : List σ} (v u : σ) (hfinal : L.final v → L.final u) :
    Moves L busy opening opening' (some v) pending (some u) (pending ++ [u])
  | restart {current : Option σ} {pending : List σ} (u : σ) (hbusy : busy)
    (hcurrent : ∀ v ∈ current, ¬L.final v) (hu : ¬L.final u)
    (hopening : pending = [] ∨ opening') :
    Moves L busy opening opening' current pending (some u) pending
  | rewrite {current : Option σ} {pending : List σ} (v u : σ) (hbusy : busy)
    (hcurrent : ∀ v ∈ current, ¬L.final v) (hv : ¬L.final v) :
    Moves L busy opening opening' current pending (some u) (pending ++ [u])

/-- A register, once it is written, and the updates of it that the replica has not taken.  A final
state is never written over, and the last update is the register's state unless an attempt is
`opening`, which sets the register before it yields its update. -/
structure Feed (L : Lifecycle σ) (opening : Prop) (current : Option σ) (pending : List σ) :
    Prop where
  opened : opening → current.isSome
  written : pending ≠ [] → current.isSome
  final_tail : pending.Pairwise fun u v => L.final u → L.final v
  final_current : ∀ u ∈ pending, L.final u → ∀ v ∈ current, L.final v
  last : ∀ v ∈ current, pending = [] ∨ pending.getLast? = some v ∨ opening ∧ ¬L.final v

namespace Feed

variable {opening opening' : Prop} {current : Option σ} {pending : List σ} {u v : σ}

theorem mono (h : Feed L opening current pending) (hopening : opening → opening')
    (hopened : opening' → opening) : Feed L opening' current pending :=
  ⟨fun ho => h.opened (hopened ho), h.written, h.final_tail, h.final_current,
    fun v hv => (h.last v hv).imp_right (Or.imp_right (And.imp_left hopening))⟩

/-- A write that yields its update. -/
theorem write (h : Feed L opening (some v) pending) (hfinal : L.final v → L.final u) :
    Feed L opening' (some u) (pending ++ [u]) := by
  have hold : ∀ w ∈ pending, L.final w → L.final u :=
    fun w hw hwf => hfinal (h.final_current w hw hwf v rfl)
  refine ⟨fun _ => rfl, fun _ => rfl, ?_, ?_, ?_⟩
  · rw [List.pairwise_append]
    refine ⟨h.final_tail, List.pairwise_singleton _ _, fun w hw z hz => ?_⟩
    rw [List.mem_singleton.mp hz]
    exact hold w hw
  · intro w hw hwf z hz
    obtain rfl := Option.some.inj hz
    rcases List.mem_append.mp hw with hw | hw
    · exact hold w hw hwf
    · rwa [List.mem_singleton.mp hw] at hwf
  · intro z hz
    obtain rfl := Option.some.inj hz
    exact .inr (.inl List.getLast?_concat)

/-- The start of an attempt, with no update of its own yet. -/
theorem restart (h : Feed L opening current pending) (hcurrent : ∀ v ∈ current, ¬L.final v)
    (hu : ¬L.final u) (hopening : pending = [] ∨ opening') : Feed L opening' (some u) pending := by
  refine ⟨fun _ => rfl, fun _ => rfl, h.final_tail, fun w hw hwf => ?_, fun z hz => ?_⟩
  · have hsome := h.written (List.ne_nil_of_mem hw)
    obtain ⟨v, hv⟩ := Option.isSome_iff_exists.mp hsome
    exact absurd (h.final_current w hw hwf v hv) (hcurrent v hv)
  · obtain rfl := Option.some.inj hz
    exact hopening.imp_right fun ho => .inr ⟨ho, hu⟩

theorem take (h : Feed L opening current (u :: pending)) : Feed L opening current pending := by
  refine ⟨h.opened, fun _ => h.written (List.cons_ne_nil u pending),
    (List.pairwise_cons.mp h.final_tail).2,
    fun w hw => h.final_current w (List.mem_cons_of_mem u hw), fun v hv => ?_⟩
  cases pending with
  | nil => exact .inl rfl
  | cons w rest =>
    rcases h.last v hv with hnil | hlast
    · exact absurd hnil (List.cons_ne_nil u _)
    · rw [List.getLast?_cons_cons] at hlast
      exact .inr hlast

/-- A step of the register's writers, of which `opening'` is the one that is opening after it. -/
theorem moves {busy : Prop} {current' : Option σ} {pending' : List σ}
    (h : Feed L opening current pending)
    (hmove : Moves L busy opening opening' current pending current' pending') :
    Feed L opening' current' pending' := by
  cases hmove with
  | quiet hopening => exact h.mono hopening.mp hopening.mpr
  | write v u hfinal => exact h.write hfinal
  | restart u _ hcurrent hu hopening => exact h.restart hcurrent hu hopening
  | rewrite v u _ hcurrent hv =>
    have hopen : Feed L True (some v) pending := h.restart hcurrent hv (.inr trivial)
    exact hopen.write fun hfinal => absurd hfinal hv

/-- The last update to be taken is the register's state, unless an attempt is opening. -/
theorem eq_of_last (h : Feed L opening current [u]) (hv : v ∈ current)
    (hdone : L.final v ∨ ¬opening) : u = v := by
  rcases h.last v hv with hnil | hlast | ⟨hopening, hnot⟩
  · cases hnil
  · exact Option.some.inj hlast
  · exact (hdone.elim hnot fun h => h hopening).elim

end Feed

/-! ### The replica -/

/-- What a replica in state `x` keeps.  It is `busy` while an attempt on it is under way, and
`reading` while such an attempt is about to read the register back. -/
structure Follows (L : Lifecycle σ) (busy reading : Prop) (x : σ) (current : Option σ)
    (pending : List σ) : Prop where
  settled : L.final x → ∀ v ∈ current, L.final v
  known : L.final x → busy → current.isSome
  unrefuted : L.final x → L.failed ∉ pending
  reached : ∀ v ∈ current, L.final v → pending = [] → L.final x ∨ reading
  agrees : ¬busy → ∀ v ∈ current, pending = [] → x = v ∨ x = L.failed ∧ ¬L.final v

namespace Follows

variable {opening busy busy' reading reading' : Prop} {x u v : σ} {current : Option σ}
  {pending : List σ}

/-- An attempt that leaves the replica as it is, or sets it to a state that is not final. -/
theorem attempt (h : Follows L busy reading x current pending) (hx : ¬L.final x)
    (hu : ¬L.final u) (hbusy : busy') (hreading : reading → reading') :
    Follows L busy' reading' u current pending where
  settled hfinal := absurd hfinal hu
  known hfinal := absurd hfinal hu
  unrefuted hfinal := absurd hfinal hu
  reached v hv hfinal hnil := .inr (hreading ((h.reached v hv hfinal hnil).resolve_left hx))
  agrees hidle := absurd hbusy hidle

/-- The replica becomes one of the register while an attempt is about to read it back. -/
theorem join (hx : ¬L.final x) (hbusy : busy) (hreading : reading) :
    Follows L busy reading x current pending where
  settled hfinal := absurd hfinal hx
  known hfinal := absurd hfinal hx
  unrefuted hfinal := absurd hfinal hx
  reached _ _ _ _ := .inr hreading
  agrees hidle := absurd hbusy hidle

theorem mono (h : Follows L busy reading x current pending) (hbusy : busy ↔ busy')
    (hreading : reading → reading') : Follows L busy' reading' x current pending where
  settled := h.settled
  known hfinal hb := h.known hfinal (hbusy.mpr hb)
  unrefuted := h.unrefuted
  reached v hv hfinal hnil := (h.reached v hv hfinal hnil).imp_right hreading
  agrees hidle := h.agrees fun hb => hidle (hbusy.mp hb)

theorem write (h : Follows L busy reading x (some v) pending) (hfinal : L.final v → L.final u) :
    Follows L busy reading x (some u) (pending ++ [u]) where
  settled hx w hw := by
    obtain rfl := Option.some.inj hw
    exact hfinal (h.settled hx v rfl)
  known _ _ := rfl
  unrefuted hx hmem := by
    rcases List.mem_append.mp hmem with hold | hnew
    · exact h.unrefuted hx hold
    · have hu := hfinal (h.settled hx v rfl)
      rw [← List.mem_singleton.mp hnew] at hu
      exact L.not_final_failed hu
  reached _ _ _ hnil := absurd hnil (List.append_ne_nil_of_right_ne_nil _ (List.cons_ne_nil u []))
  agrees _ _ _ hnil := absurd hnil (List.append_ne_nil_of_right_ne_nil _ (List.cons_ne_nil u []))

/-- The register is set back by an attempt on the replica. -/
theorem restart (h : Follows L busy reading x current pending) (hbusy : busy)
    (hcurrent : ∀ v ∈ current, ¬L.final v) (hu : ¬L.final u) :
    Follows L busy reading x (some u) pending := by
  have hx : ¬L.final x := by
    intro hfinal
    obtain ⟨v, hv⟩ := Option.isSome_iff_exists.mp (h.known hfinal hbusy)
    exact hcurrent v hv (h.settled hfinal v hv)
  refine ⟨fun hfinal => absurd hfinal hx, fun _ _ => rfl, fun hfinal => absurd hfinal hx,
    fun v hv hfinal => ?_, fun hidle => absurd hbusy hidle⟩
  rw [← Option.some.inj hv] at hfinal
  exact absurd hfinal hu

theorem moves {opening' : Prop} {current' : Option σ} {pending' : List σ}
    (h : Follows L busy reading x current pending)
    (hmove : Moves L busy opening opening' current pending current' pending') :
    Follows L busy reading x current' pending' := by
  cases hmove with
  | quiet hopening => exact h
  | write v u hfinal => exact h.write hfinal
  | restart u hbusy hcurrent hu hopening => exact h.restart hbusy hcurrent hu
  | rewrite v u hbusy hcurrent hv =>
    exact (h.restart hbusy hcurrent hv).write fun hfinal => absurd hfinal hv

theorem take (h : Follows L busy reading x current (u :: pending))
    (hfeed : Feed L opening current (u :: pending)) (hopening : opening → busy) :
    Follows L busy reading (L.take x u) current pending := by
  unfold Lifecycle.take
  split
  · -- the update is dropped: `x` is terminal and `u` is not
    rename_i hdrop
    obtain ⟨hterminal, hnot⟩ := Bool.and_eq_true_iff.mp hdrop
    have hu : ¬L.final u := fun hfinal => by simp [L.terminal_of_final u hfinal] at hnot
    refine ⟨h.settled, h.known, fun hfinal hmem => h.unrefuted hfinal (List.mem_cons_of_mem u hmem),
      fun v hv hfinal hnil => ?_, fun hidle v hv hnil => ?_⟩
    · subst hnil
      rw [hfeed.eq_of_last hv (.inl hfinal)] at hu
      exact absurd hfinal hu
    · subst hnil
      rw [hfeed.eq_of_last hv (.inr fun ho => hidle (hopening ho))] at hu
      exact .inr ⟨L.failed_of_terminal x hterminal fun hfinal => hu (h.settled hfinal v hv), hu⟩
  · refine ⟨hfeed.final_current u List.mem_cons_self,
      fun _ _ => hfeed.written (List.cons_ne_nil u pending), fun hfinal hmem => ?_,
      fun v hv hfinal hnil => ?_, fun hidle v hv hnil => ?_⟩
    · exact L.not_final_failed ((List.pairwise_cons.mp hfeed.final_tail).1 _ hmem hfinal)
    · subst hnil
      rw [hfeed.eq_of_last hv (.inl hfinal)]
      exact .inl hfinal
    · subst hnil
      exact .inl (hfeed.eq_of_last hv (.inr fun ho => hidle (hopening ho)))

/-- The end of an attempt that gives up. -/
theorem fail (h : Follows L busy reading x current pending) (hx : ¬L.final x)
    (hreading : reading → reading') (hbusy : reading' → busy') :
    Follows L busy' reading' L.failed current pending where
  settled hfinal := absurd hfinal L.not_final_failed
  known hfinal := absurd hfinal L.not_final_failed
  unrefuted hfinal := absurd hfinal L.not_final_failed
  reached v hv hfinal hnil := .inr (hreading ((h.reached v hv hfinal hnil).resolve_left hx))
  agrees hidle v hv hnil := .inr ⟨rfl, fun hfinal =>
    hidle (hbusy (hreading ((h.reached v hv hfinal hnil).resolve_left hx)))⟩

end Follows

end Replica
