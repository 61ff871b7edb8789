import AeroNyra.Enrollment.Service

/-! When a verified contact stays verified.  `ContactAllowlist.enroll` replaces the record without
reading it, so an invite that is redeemed again turns a verified contact back into an unverified
one, and the rollback of a failed QR pairing removes the contact altogether. -/

namespace AeroNyra.Pairing

open Interleave

/-- A step of a run of the services. -/
abbrev Step := Transition (Config Pairing Action) (Event Call Reply)

/-- The persisted allowlist has `k` as a verified contact. -/
def Verified (s : Pairing) (k : Data) : Prop := s.allowlistFile.isVerified k

instance (s : Pairing) (k : Data) : Decidable (s.Verified k) :=
  inferInstanceAs (Decidable (_ = true))

/-- A verified `k` stays verified, unless the step is an explicit removal of it. -/
def Step.KeepsVerified (k : Data) (t : Step) : Prop :=
  ¬Config.Ran t (fun _ a _ => a = .revoke k) → t.pre.shared.Verified k → t.post.shared.Verified k

/-- An unverified enrollment of `k`, or the rollback of a QR pairing with `k`, that saves. -/
def Action.Drops (k : Data) (a : Action) (reply : Reply) : Prop :=
  reply.saved ∧ ((a = .enroll k false ∧ k.length = 32) ∨ a = .rollback k)

/-- The step drops `k` while the persisted allowlist has it as verified. -/
def Step.Downgrades (k : Data) (t : Step) : Prop :=
  Config.Ran t fun s a reply => s.Verified k ∧ a.Drops k reply

/-- The live allowlist is the persisted one. -/
def Adopted (c : Config Pairing Action) : Prop := c.shared.allowlist = c.shared.allowlistFile

theorem adopted_step (t : Step) (ht : machine.step t.pre t.event = some t.post)
    (h : Adopted t.pre) : Adopted t.post := by
  rcases Machine.step_shared ht with ⟨hsame, _⟩ | ⟨a, reply, x, hexec, _⟩
  · rw [Adopted, hsame]
    exact h
  · have heffect := exec_effect hexec
    unfold Adopted at h ⊢
    generalize t.post.shared = s' at heffect ⊢
    cases heffect with
    | quiet gate file live => rw [live, file, h]
    | enroll | verify | revoke => rfl
    | addReconnect | removeReconnect | addVerified | removeVerified => exact h

/-- An enrollment of `k` as unverified that saves leaves it unverified. -/
theorem not_verified_of_drops {s : Pairing} {k : Data} {a : Action} {reply : Reply}
    {p : Pairing × Exit Action} (hadopted : s.allowlist = s.allowlistFile) (hv : s.Verified k)
    (hdrops : a.Drops k reply) (h : s.exec a reply = some p) : ¬p.1.Verified k := by
  obtain ⟨hsaved, ⟨rfl, hsize⟩ | rfl⟩ := hdrops
  · obtain rfl := Option.some.inj h
    simp [enroll, saveAllowlist, hsize, hsaved, Verified, ContactAllowlist.isVerified_enroll]
  · have hc := ContactAllowlist.contains_of_isVerified k hv
    rw [← hadopted] at hc
    obtain rfl := Option.some.inj h
    simp [rollback, revoke, saveAllowlist, hc, hsaved, Verified,
      ContactAllowlist.isVerified_revoke]

/-- Every other action but an explicit removal keeps a verified contact verified. -/
theorem verified_of_not_drops {s : Pairing} {k : Data} {a : Action} {reply : Reply}
    {p : Pairing × Exit Action} (hadopted : s.allowlist = s.allowlistFile) (hv : s.Verified k)
    (hdrops : ¬a.Drops k reply) (hrevoke : a ≠ .revoke k) (h : s.exec a reply = some p) :
    p.1.Verified k := by
  have heffect := exec_effect h
  obtain ⟨s', x⟩ := p
  unfold Verified at hv ⊢
  cases heffect with
  | quiet gate file => rw [file]; exact hv
  | enroll j v hsize hsaved =>
    rw [ContactAllowlist.isVerified_enroll, hadopted]
    split
    · rename_i hj
      subst hj
      cases v with
      | true => rfl
      | false => exact absurd ⟨hsaved, .inl ⟨rfl, hsize⟩⟩ hdrops
    · exact hv
  | verify j =>
    rw [ContactAllowlist.isVerified_markVerified, hadopted]
    split
    · rename_i hj
      exact hj ▸ ContactAllowlist.contains_of_isVerified k hv
    · exact hv
  | revoke j hby hsaved =>
    have hne : k ≠ j := by
      rintro rfl
      rcases hby with rfl | rfl
      · exact hrevoke rfl
      · exact hdrops ⟨hsaved, .inr rfl⟩
    rw [ContactAllowlist.isVerified_revoke, hadopted]
    simpa [hne] using hv
  | addReconnect | removeReconnect | addVerified | removeVerified => exact hv

theorem keepsVerified_iff (k : Data) (t : Step) (ht : machine.step t.pre t.event = some t.post)
    (hadopted : Adopted t.pre) : t.KeepsVerified k ↔ ¬t.Downgrades k := by
  rcases Machine.step_shared ht with ⟨hsame, hnone⟩ | ⟨a, reply, x, hexec, hran⟩
  · simp [Step.KeepsVerified, Step.Downgrades, hnone, hsame]
  · simp only [Step.KeepsVerified, Step.Downgrades, hran, not_and]
    constructor
    · intro hkeep hv hdrops
      have hrevoke : a ≠ .revoke k := by
        rintro rfl
        rcases hdrops.2 with ⟨h, _⟩ | h <;> cases h
      exact not_verified_of_drops hadopted hv hdrops hexec (hkeep hrevoke hv)
    · exact fun hdrops hrevoke hv => verified_of_not_drops hadopted hv (hdrops hv) hrevoke hexec

/-- The steps of a run over files that loaded. -/
def steps (allowlist : ContactAllowlist) (ledger : PendingInvites) (denylist : List BlockedContact)
    (localIdentity : Data) (now : Int) (events : List (Event Call Reply)) : List Step :=
  trace machine.step ⟨launch allowlist ledger denylist localIdentity now, []⟩ events

/-- In every run, a verified contact stays verified but for its explicit removal, if and only if no
step saves an unverified enrollment of a verified contact or rolls back a QR pairing with one. -/
theorem verified_stays_iff (allowlist : ContactAllowlist) (ledger : PendingInvites)
    (denylist : List BlockedContact) (localIdentity : Data) (now : Int)
    (events : List (Event Call Reply)) (k : Data) :
    (∀ t ∈ steps allowlist ledger denylist localIdentity now events, t.KeepsVerified k) ↔
      ∀ t ∈ steps allowlist ledger denylist localIdentity now events, ¬t.Downgrades k :=
  forall_trace_iff_of_invariant adopted_step rfl (keepsVerified_iff k)

/-- A verified contact echoes a second invite that is still pending. -/
def secondEcho : List (Event Call Reply) :=
  [.start (.redeemEcho [7] (.replicate 32 1)), .step 0 {}, .step 0 {}]

/-- Not every run keeps every verified contact verified. -/
theorem verified_lost : ¬∀ allowlist ledger denylist localIdentity now events k,
    ∀ t ∈ steps allowlist ledger denylist localIdentity now events, t.KeepsVerified k := by
  intro hkeeps
  have hlast : ∃ t ∈ steps (.enroll .empty (.replicate 32 1) 0 true) (.register .empty [7] 1000) []
      [] 0 secondEcho, t.pre.acts t.event = some (.enroll (.replicate 32 1) false, {}) ∧
      t.pre.shared.Verified (.replicate 32 1) ∧ ¬t.post.shared.Verified (.replicate 32 1) :=
    ⟨_, List.mem_of_getElem? (i := 2) rfl, rfl, by decide, by decide⟩
  obtain ⟨t, hmem, hacts, hbefore, hafter⟩ := hlast
  refine hafter (hkeeps _ _ _ _ _ _ _ t hmem ?_ hbefore)
  rintro ⟨a, reply, ha, hrevoke⟩
  cases hacts.symm.trans ha
  cases hrevoke

end AeroNyra.Pairing
