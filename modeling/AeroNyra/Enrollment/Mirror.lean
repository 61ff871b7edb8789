import AeroNyra.Enrollment.Downgrade

/-! When the live gates mirror the persisted allowlist.  A save and the gate actions that follow it
are separate steps, so the gates lag behind the file; they catch up when the gate actions run in
the order of their saves and no unverified enrollment replaces a verified record, since nothing
then closes the verified gate. -/

namespace AeroNyra.Pairing

open Interleave

/-- The gates admit exactly the identities of the persisted allowlist, and let through as verified
exactly those that it has as verified. -/
structure Mirrors (s : Pairing) : Prop where
  enrolled : ∀ k, k ∈ s.coordinator.reconnectAllowlistIdentities ↔ s.allowlistFile.contains k
  verified : ∀ k, k ∈ s.coordinator.verifiedIdentities ↔ s.allowlistFile.isVerified k

/-- The action brings a gate out of step with the persisted allowlist for good: it opens a gate for
an identity that the file no longer admits while no removal is under way, closes one for an
identity that the file admits while no opening is under way, or saves as unverified an identity
whose verified gate is open. -/
def OutOfOrder (c : Config Pairing Action) : Action → Reply → Prop
  | .addReconnectContact k, _ =>
    ¬c.shared.allowlistFile.contains k ∧ ¬c.Pending (.removeReconnectContact k)
  | .removeReconnectContact k, _ =>
    c.shared.allowlistFile.contains k ∧ ¬c.Pending (.addReconnectContact k)
  | .addVerifiedContact k, _ =>
    ¬c.shared.allowlistFile.isVerified k ∧ ¬c.Pending (.removeVerifiedContact k)
  | .removeVerifiedContact k, _ =>
    c.shared.allowlistFile.isVerified k ∧ ¬c.Pending (.addVerifiedContact k)
  | .enroll k false, reply =>
    reply.saved ∧ k ∈ c.shared.coordinator.verifiedIdentities ∧
      ¬c.Pending (.removeVerifiedContact k)
  | _, _ => False

instance (c : Config Pairing Action) (a : Action) (reply : Reply) :
    Decidable (OutOfOrder c a reply) := by
  unfold OutOfOrder
  split <;> infer_instance

/-- The step runs its action in order. -/
def Step.InOrder (t : Step) : Prop :=
  ∀ p ∈ t.pre.acts t.event, ¬OutOfOrder t.pre p.1 p.2

instance (t : Step) : Decidable t.InOrder :=
  inferInstanceAs (Decidable (∀ p ∈ t.pre.acts t.event, ¬OutOfOrder t.pre p.1 p.2))

/-- A record and its gate differ only while an action is under way that brings them together. -/
structure Agrees (record gate opening closing : Prop) : Prop where
  opens : record → gate ∨ opening
  closes : gate → record ∨ closing

theorem Agrees.mono {record gate opening closing opening' closing' : Prop}
    (h : Agrees record gate opening closing) (ho : opening → opening')
    (hc : closing → closing') : Agrees record gate opening' closing' :=
  ⟨fun hr => (h.opens hr).imp_right ho, fun hg => (h.closes hg).imp_right hc⟩

/-- The gate actions that a call has left come before its other actions. -/
def GatesFirst (t : Thread Action) : Prop :=
  t.onThrow = [] ∧ ∀ b ∈ t.todo.dropWhile Action.isGate, b.isGate = false

/-- The invariant of the runs whose steps are in order. -/
structure Mirrored (c : Config Pairing Action) : Prop where
  adopted : Adopted c
  enabled : c.shared.coordinator.reconnectEnabled
  wide : ∀ k, c.shared.allowlistFile.contains k → k.length = 32
  order : ∀ t ∈ c.threads, GatesFirst t
  enrolled : ∀ k, Agrees (c.shared.allowlistFile.contains k)
    (k ∈ c.shared.coordinator.reconnectAllowlistIdentities)
    (c.Pending (.addReconnectContact k)) (c.Pending (.removeReconnectContact k))
  verified : ∀ k, Agrees (c.shared.allowlistFile.isVerified k)
    (k ∈ c.shared.coordinator.verifiedIdentities)
    (c.Pending (.addVerifiedContact k)) (c.Pending (.removeVerifiedContact k))

/-- Where nothing is under way, the invariant is that the gates mirror the file. -/
theorem Mirrored.mirrors {c : Config Pairing Action} (h : Mirrored c) (idle : c.Idle) :
    Mirrors c.shared where
  enrolled k := by
    have hnone := fun a => Config.not_pending_of_idle (α := Action) idle a
    exact ⟨fun hg => ((h.enrolled k).closes hg).resolve_right (hnone _),
      fun hr => ((h.enrolled k).opens hr).resolve_right (hnone _)⟩
  verified k := by
    have hnone := fun a => Config.not_pending_of_idle (α := Action) idle a
    exact ⟨fun hg => ((h.verified k).closes hg).resolve_right (hnone _),
      fun hr => ((h.verified k).opens hr).resolve_right (hnone _)⟩

theorem gatesFirst_thread (call : Call) : GatesFirst (thread call) := by
  cases call <;> simp [GatesFirst, thread, Action.isGate]

/-- The gate actions that an action adds come first again. -/
theorem gatesFirst_leave {a : Action} {rest : List Action} {x : Exit Action} {s s' : Pairing}
    {reply : Reply} (heffect : Effect s reply a s' x) (h : GatesFirst ⟨a :: rest, []⟩) :
    GatesFirst (.leave rest [] x) := by
  have hrest (ha : a.isGate = false) : ∀ b ∈ rest, b.isGate = false := by
    have := h.2
    simp only [List.dropWhile_cons, ha, Bool.false_eq_true, ↓reduceIte] at this
    exact fun b hb => this b (List.mem_cons_of_mem _ hb)
  have hdrop {l : List Action} (hl : ∀ b ∈ l, b.isGate = false) :
      ∀ b ∈ l.dropWhile Action.isGate, b.isGate = false :=
    fun b hb => hl b ((List.dropWhile_sublist _).subset hb)
  have hgate (ha : a.isGate = true) : ∀ b ∈ rest.dropWhile Action.isGate, b.isGate = false := by
    have := h.2
    simpa only [List.dropWhile_cons, ha, ↓reduceIte] using this
  cases heffect with
  | quiet gate file live gates adds =>
    cases x with
    | goOn next =>
      refine ⟨rfl, hdrop fun b hb => ?_⟩
      rcases List.mem_append.mp hb with hb | hb
      · exact adds b hb
      · exact hrest gate b hb
    | throw cleanup =>
      refine ⟨rfl, hdrop fun b hb => ?_⟩
      rcases List.mem_append.mp hb with hb | hb
      · exact adds b hb
      · simp at hb
  | enroll k v =>
    refine ⟨rfl, ?_⟩
    cases v <;> simpa [Thread.leave, List.dropWhile_cons, Action.isGate] using hdrop (hrest rfl)
  | verify k =>
    refine ⟨rfl, ?_⟩
    simpa [Thread.leave, List.dropWhile_cons, Action.isGate] using hdrop (hrest rfl)
  | revoke k hby =>
    have ha : a.isGate = false := by rcases hby with rfl | rfl <;> rfl
    refine ⟨rfl, ?_⟩
    simpa [Thread.leave, List.dropWhile_cons, Action.isGate] using hdrop (hrest ha)
  | addReconnect | removeReconnect | addVerified | removeVerified => exact ⟨rfl, hgate rfl⟩

section Step

variable {c c' : Config Pairing Action} {a : Action} {x : Exit Action} {reply : Reply}

/-- What an action does not run itself stays pending if it is a gate action, and what it adds
becomes pending. -/
structure Carried (c c' : Config Pairing Action) (a : Action) (x : Exit Action) : Prop where
  kept : ∀ b, b.isGate → b ≠ a → c.Pending b → c'.Pending b
  adds : ∀ b ∈ x.added, c'.Pending b

theorem Carried.other {k : Data} {record gate : Prop} (h : Carried c c' a x)
    (opening closing : Data → Action) (hopen : (opening k).isGate) (hclose : (closing k).isGate)
    (hopen' : opening k ≠ a) (hclose' : closing k ≠ a)
    (hagrees : Agrees record gate (c.Pending (opening k)) (c.Pending (closing k))) :
    Agrees record gate (c'.Pending (opening k)) (c'.Pending (closing k)) :=
  hagrees.mono (h.kept _ hopen hopen') (h.kept _ hclose hclose')

/-- A gate action whose absence would make the step one out of order is pending after it. -/
theorem Carried.pending {b : Action} {p : Prop} (h : Carried c c' a x) (hgate : b.isGate)
    (hne : b ≠ a) (hp : p) (horder : ¬(p ∧ ¬c.Pending b)) : c'.Pending b := by
  apply h.kept b hgate hne
  by_contra hnone
  exact horder ⟨hp, hnone⟩

theorem carried_of_effect {i : Nat} {rest : List Action} (hinv : Mirrored c)
    (hi : c.threads[i]? = some ⟨a :: rest, []⟩) {s' : Pairing}
    (heffect : Effect c.shared reply a s' x) :
    Carried c ⟨s', c.threads.set i (.leave rest [] x)⟩ a x where
  kept b hb hne hpend := by
    rcases Machine.pending_step s' x hi hpend with heq | ⟨hrest, cleanup, hthrow⟩ | h
    · exact absurd heq hne
    · -- Only an action that is no gate action throws, and no gate action comes after it.
      subst hthrow
      have hfirst := (hinv.order _ (List.mem_of_getElem? hi)).2
      cases heffect with
      | quiet gate =>
        simp only [List.dropWhile_cons, gate, Bool.false_eq_true, ↓reduceIte] at hfirst
        have := hfirst b (List.mem_cons_of_mem _ hrest)
        simp [hb] at this
    · exact h
  adds b hb := by
    refine (Machine.pending_set hi b).mpr (.inr ?_)
    cases x with
    | goOn next => exact List.mem_append_left _ hb
    | throw cleanup => exact List.mem_append_left _ hb

theorem enrolled_step {s' : Pairing} (hinv : Mirrored c)
    (heffect : Effect c.shared reply a s' x) (horder : ¬OutOfOrder c a reply)
    (hshared : c'.shared = s') (hcarried : Carried c c' a x) (k : Data) :
    Agrees (c'.shared.allowlistFile.contains k)
      (k ∈ c'.shared.coordinator.reconnectAllowlistIdentities)
      (c'.Pending (.addReconnectContact k)) (c'.Pending (.removeReconnectContact k)) := by
  have hold := hinv.enrolled k
  have hother := fun h₁ h₂ => hcarried.other .addReconnectContact
    .removeReconnectContact rfl rfl h₁ h₂ hold
  have hadopted : c.shared.allowlist = c.shared.allowlistFile := hinv.adopted
  rw [hshared]
  cases heffect with
  | quiet gate file live gates =>
    rw [file, gates.enrolled]
    exact hother (fun h => by simp [← h, Action.isGate] at gate)
      (fun h => by simp [← h, Action.isGate] at gate)
  | enroll j v =>
    rw [ContactAllowlist.contains_enroll, hadopted]
    by_cases hk : k = j
    · subst hk
      refine ⟨fun _ => .inr (hcarried.adds _ ?_), fun _ => .inl (by simp)⟩
      cases v <;> simp [Exit.added]
    · simpa [hk] using hother (by simp) (by simp)
  | verify j =>
    rw [ContactAllowlist.contains_markVerified, hadopted]
    exact hother (by simp) (by simp)
  | revoke j hby =>
    rw [ContactAllowlist.contains_revoke, hadopted]
    by_cases hk : k = j
    · subst hk
      exact ⟨fun h => by simp at h, fun _ => .inr (hcarried.adds _ (by simp [Exit.added]))⟩
    · simpa [hk] using hother (by rcases hby with rfl | rfl <;> simp)
        (by rcases hby with rfl | rfl <;> simp)
  | addReconnect j =>
    dsimp only
    rw [FirstContactCoordinator.mem_addReconnectContact k j hinv.enabled]
    by_cases hk : k = j
    · subst hk
      refine ⟨fun hr => .inl (.inl ⟨rfl, hinv.wide k hr⟩), fun _ => ?_⟩
      by_cases hr : c.shared.allowlistFile.contains k
      · exact .inl hr
      · exact .inr (hcarried.pending rfl (by simp) hr horder)
    · simpa [hk] using hother (by simp [hk]) (by simp)
  | removeReconnect j =>
    dsimp only
    rw [FirstContactCoordinator.mem_removeReconnectContact k j]
    by_cases hk : k = j
    · subst hk
      refine ⟨fun hr => .inr ?_, fun hg => absurd rfl hg.1⟩
      exact hcarried.pending rfl (by simp) hr horder
    · simpa [hk] using hother (by simp) (by simp [hk])
  | addVerified j =>
    simpa using hother (by simp) (by simp)
  | removeVerified j =>
    simpa using hother (by simp) (by simp)

theorem verified_step {s' : Pairing} (hinv : Mirrored c)
    (heffect : Effect c.shared reply a s' x) (horder : ¬OutOfOrder c a reply)
    (hshared : c'.shared = s') (hcarried : Carried c c' a x) (k : Data) :
    Agrees (c'.shared.allowlistFile.isVerified k) (k ∈ c'.shared.coordinator.verifiedIdentities)
      (c'.Pending (.addVerifiedContact k)) (c'.Pending (.removeVerifiedContact k)) := by
  have hold := hinv.verified k
  have hother := fun h₁ h₂ => hcarried.other .addVerifiedContact
    .removeVerifiedContact rfl rfl h₁ h₂ hold
  have hadopted : c.shared.allowlist = c.shared.allowlistFile := hinv.adopted
  rw [hshared]
  cases heffect with
  | quiet gate file live gates =>
    rw [file, gates.verified]
    exact hother (fun h => by simp [← h, Action.isGate] at gate)
      (fun h => by simp [← h, Action.isGate] at gate)
  | enroll j v hsize hsaved =>
    rw [ContactAllowlist.isVerified_enroll, hadopted]
    by_cases hk : k = j
    · subst hk
      cases v with
      | true => exact ⟨fun _ => .inr (hcarried.adds _ (by simp [Exit.added])),
          fun _ => .inl (by simp)⟩
      | false =>
        refine ⟨fun h => by simp at h, fun hg => .inr ?_⟩
        exact hcarried.pending rfl (by simp) hg fun hout => horder ⟨hsaved, hout⟩
    · simpa [hk] using hother (by simp) (by simp)
  | verify j henrolled =>
    rw [ContactAllowlist.isVerified_markVerified]
    by_cases hk : k = j
    · subst hk
      exact ⟨fun _ => .inr (hcarried.adds _ (by simp [Exit.added])), fun _ => .inl (by simpa)⟩
    · simpa [hk, hadopted] using hother (by simp) (by simp)
  | revoke j hby =>
    rw [ContactAllowlist.isVerified_revoke, hadopted]
    by_cases hk : k = j
    · subst hk
      exact ⟨fun h => by simp at h, fun _ => .inr (hcarried.adds _ (by simp [Exit.added]))⟩
    · simpa [hk] using hother (by rcases hby with rfl | rfl <;> simp)
        (by rcases hby with rfl | rfl <;> simp)
  | addReconnect j =>
    simpa using hother (by simp) (by simp)
  | removeReconnect j =>
    simpa using hother (by simp) (by simp)
  | addVerified j =>
    dsimp only
    rw [FirstContactCoordinator.mem_addVerifiedContact k j hinv.enabled]
    by_cases hk : k = j
    · subst hk
      refine ⟨fun hr => .inl (.inl ⟨rfl, hinv.wide k ?_⟩), fun _ => ?_⟩
      · exact ContactAllowlist.contains_of_isVerified k hr
      by_cases hr : c.shared.allowlistFile.isVerified k
      · exact .inl hr
      · exact .inr (hcarried.pending rfl (by simp) hr horder)
    · simpa [hk] using hother (by simp [hk]) (by simp)
  | removeVerified j =>
    dsimp only
    rw [FirstContactCoordinator.mem_removeVerifiedContact k j]
    by_cases hk : k = j
    · subst hk
      refine ⟨fun hr => .inr ?_, fun hg => absurd rfl hg.1⟩
      exact hcarried.pending rfl (by simp) hr horder
    · simpa [hk] using hother (by simp) (by simp [hk])

end Step

theorem enabled_step {s s' : Pairing} {a : Action} {x : Exit Action} {reply : Reply}
    (heffect : Effect s reply a s' x) :
    s'.coordinator.reconnectEnabled = s.coordinator.reconnectEnabled := by
  cases heffect with
  | quiet gate file live gates => exact gates.enabled
  | enroll | verify | revoke => rfl
  | addReconnect | removeReconnect | addVerified | removeVerified => simp

theorem wide_step {s s' : Pairing} {a : Action} {x : Exit Action} {reply : Reply}
    (heffect : Effect s reply a s' x) (hadopted : s.allowlist = s.allowlistFile)
    (h : ∀ k, s.allowlistFile.contains k → k.length = 32) (k : Data)
    (hk : s'.allowlistFile.contains k) : k.length = 32 := by
  cases heffect with
  | quiet gate file => exact h k (file ▸ hk)
  | enroll j v hsize =>
    simp only [ContactAllowlist.contains_enroll, hadopted, Bool.or_eq_true,
      decide_eq_true_eq] at hk
    rcases hk with rfl | hk
    · exact hsize
    · exact h k hk
  | verify j =>
    rw [ContactAllowlist.contains_markVerified, hadopted] at hk
    exact h k hk
  | revoke j =>
    simp only [ContactAllowlist.contains_revoke, hadopted, Bool.and_eq_true] at hk
    exact h k hk.2
  | addReconnect | removeReconnect | addVerified | removeVerified => exact h k hk

/-- A step in order keeps the invariant. -/
theorem mirrored_step (t : Step) (ht : machine.step t.pre t.event = some t.post)
    (horder : t.InOrder) (hinv : Mirrored t.pre) : Mirrored t.post := by
  have hadopted := adopted_step t ht hinv.adopted
  rcases Machine.step_cases ht with ⟨call, _, hpost⟩ | ⟨i, reply, a, rest, handler, s', x, _, hi,
    hexec, hacts, hpost⟩
  · rw [hpost] at hadopted ⊢
    have hpend (b : Action) (hb : t.pre.Pending b) :
        (Config.mk t.pre.shared (t.pre.threads ++ [thread call])).Pending b :=
      Machine.pending_start hb
    refine ⟨hadopted, hinv.enabled, hinv.wide, fun t' ht' => ?_, fun k => ?_, fun k => ?_⟩
    · rcases List.mem_append.mp ht' with ht' | ht'
      · exact hinv.order t' ht'
      · rw [List.mem_singleton.mp ht']
        exact gatesFirst_thread call
    · exact (hinv.enrolled k).mono (hpend _) (hpend _)
    · exact (hinv.verified k).mono (hpend _) (hpend _)
  · have hfirst := hinv.order _ (List.mem_of_getElem? hi)
    obtain rfl : handler = [] := hfirst.1
    have heffect := exec_effect hexec
    have hcarried := carried_of_effect hinv hi heffect
    rw [hpost] at hadopted ⊢
    refine ⟨hadopted, (enabled_step heffect).trans hinv.enabled,
      wide_step heffect hinv.adopted hinv.wide, fun t' ht' => ?_,
      enrolled_step hinv heffect (horder (a, reply) hacts) rfl hcarried,
      verified_step hinv heffect (horder (a, reply) hacts) rfl hcarried⟩
    rcases List.mem_or_eq_of_mem_set ht' with ht' | rfl
    · exact hinv.order t' ht'
    · exact gatesFirst_leave heffect hfirst

theorem mirrored_launch {allowlist : ContactAllowlist} {ledger : PendingInvites}
    {denylist : List BlockedContact} {localIdentity : Data} {now : Int}
    (hwide : ∀ k ∈ allowlist.identities, k.length = 32) :
    Mirrored ⟨launch allowlist ledger denylist localIdentity now, []⟩ where
  adopted := rfl
  enabled := rfl
  wide k hk := hwide k ((ContactAllowlist.mem_identities k).mpr hk)
  order := by simp
  enrolled k := ⟨fun hr => .inl ((ContactAllowlist.mem_identities k).mpr hr),
    fun hg => .inl ((ContactAllowlist.mem_identities k).mp hg)⟩
  verified k := by
    have hmem : k ∈ allowlist.verifiedIdentities.toFinset ↔ allowlist.isVerified k := by
      simp only [ContactAllowlist.verifiedIdentities, List.mem_toFinset, List.mem_filter,
        ContactAllowlist.mem_identities, and_iff_right_iff_imp]
      exact ContactAllowlist.contains_of_isVerified k
    exact ⟨fun hr => .inl (hmem.mpr hr), fun hg => .inl (hmem.mp hg)⟩

/-- A launch from the files of `s` admits the same identities as `s`, enrolled and verified. -/
def RelaunchAgrees (s : Pairing) : Prop :=
  ∀ now k, let relaunched := (launch s.allowlistFile s.ledgerFile s.denylistFile
      s.coordinator.localIdentity now).coordinator
    (k ∈ relaunched.reconnectAllowlistIdentities ↔ k ∈ s.coordinator.reconnectAllowlistIdentities) ∧
    (k ∈ relaunched.verifiedIdentities ↔ k ∈ s.coordinator.verifiedIdentities)

/-- In every run whose steps are in order, whenever no call is in progress, the live gates mirror
the persisted allowlist, and a relaunch from it changes no admission decision. -/
theorem gates_mirror (allowlist : ContactAllowlist) (ledger : PendingInvites)
    (denylist : List BlockedContact) (localIdentity : Data) (now : Int)
    (hwide : ∀ k ∈ allowlist.identities, k.length = 32) (events : List (Event Call Reply))
    (c : Config Pairing Action)
    (hrun : run machine.step ⟨launch allowlist ledger denylist localIdentity now, []⟩ events =
      some c)
    (horder : ∀ t ∈ steps allowlist ledger denylist localIdentity now events, t.InOrder)
    (idle : c.Idle) : Mirrors c.shared ∧ RelaunchAgrees c.shared := by
  have hinv := run_invariant _ _ mirrored_step (mirrored_launch hwide) horder hrun
  have hmirrors := hinv.mirrors idle
  have hloaded (now : Int) : Mirrors (launch c.shared.allowlistFile c.shared.ledgerFile
      c.shared.denylistFile c.shared.coordinator.localIdentity now) :=
    (mirrored_launch fun k hk => hinv.wide k ((ContactAllowlist.mem_identities k).mp hk)).mirrors
      (by simp [Config.Idle])
  exact ⟨hmirrors, fun now k => ⟨((hloaded now).enrolled k).trans (hmirrors.enrolled k).symm,
    ((hloaded now).verified k).trans (hmirrors.verified k).symm⟩⟩

/-- A QR pairing whose gate actions follow its save. -/
def pairOnce : List (Event Call Reply) :=
  [.start (.enroll (.replicate 32 1) true), .step 0 {}, .step 0 {}, .step 0 {}]

theorem gates_mirror_pairOnce :
    ∃ c, run machine.step ⟨launch .empty .empty [] [] 0, []⟩ pairOnce = some c ∧
      Mirrors c.shared ∧ RelaunchAgrees c.shared :=
  ⟨_, rfl, gates_mirror .empty .empty [] [] 0 (by decide) pairOnce _ rfl (by decide)
    (by simp [Config.Idle, Thread.leave])⟩

/-- Pairing by QR code, and then by an invite of the same contact. -/
def pairTwice : List (Event Call Reply) :=
  [.start (.enroll (.replicate 32 1) true), .step 0 {}, .step 0 {}, .step 0 {},
    .start (.enroll (.replicate 32 1) false), .step 1 {}, .step 1 {}]

/-- Not every run leaves the gates as the persisted allowlist has them. -/
theorem gates_differ : ¬∀ allowlist ledger denylist localIdentity now,
    (∀ k ∈ allowlist.identities, k.length = 32) → ∀ events c,
    run machine.step ⟨launch allowlist ledger denylist localIdentity now, []⟩ events = some c →
      c.Idle → Mirrors c.shared := by
  intro hmirror
  have hend : ∃ c, run machine.step ⟨launch .empty .empty [] [] 0, []⟩ pairTwice = some c ∧ c.Idle ∧
      List.replicate 32 1 ∈ c.shared.coordinator.verifiedIdentities ∧
      c.shared.allowlistFile.isVerified (.replicate 32 1) = false :=
    ⟨_, rfl, by simp [Config.Idle, Thread.leave], by decide, by decide⟩
  obtain ⟨c, hrun, hidle, hgate, hfile⟩ := hend
  have hverified := (hmirror .empty .empty [] [] 0 (by simp [ContactAllowlist.identities,
    ContactAllowlist.empty]) _ c hrun hidle).verified (.replicate 32 1)
  rw [hfile] at hverified
  exact absurd (hverified.mp hgate) (by decide)

end AeroNyra.Pairing
