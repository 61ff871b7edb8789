import AeroNyra.Enrollment.Downgrade

/-! What a QR pairing that throws leaves behind.  `pairFromScanned` enrolls before it establishes
the session, and undoes the enrollment by a removal, so what it undoes to is the absence of the
contact, whatever was there before. -/

namespace AeroNyra.Pairing

open Interleave

/-- The persisted allowlist and the two gates hold the same, each as a dictionary or a set. -/
structure SameAdmission (s s' : Pairing) : Prop where
  file : ∀ j, s'.allowlistFile.entries.lookup j = s.allowlistFile.entries.lookup j
  enrolled : ∀ j, j ∈ s'.coordinator.reconnectAllowlistIdentities ↔
    j ∈ s.coordinator.reconnectAllowlistIdentities
  verified : ∀ j, j ∈ s'.coordinator.verifiedIdentities ↔ j ∈ s.coordinator.verifiedIdentities

/-- Neither the file nor a gate has `k`. -/
def Absent (s : Pairing) (k : Data) : Prop :=
  s.allowlistFile.entries.lookup k = none ∧
    k ∉ s.coordinator.reconnectAllowlistIdentities ∧ k ∉ s.coordinator.verifiedIdentities

/-- The file has `k` as verified since `now`, and the gates let it through, if they are enabled. -/
def Present (s : Pairing) (k : Data) (now : Int) : Prop :=
  s.allowlistFile.entries.lookup k = some ⟨now, true⟩ ∧
    (s.coordinator.reconnectEnabled → k ∈ s.coordinator.reconnectAllowlistIdentities ∧
      k ∈ s.coordinator.verifiedIdentities)

/-- The admission of `s'` is that of `s` with `k` enrolled as verified at `now`. -/
structure Adds (s s' : Pairing) (k : Data) (now : Int) : Prop where
  file : ∀ j, s'.allowlistFile.entries.lookup j =
    if j = k then some ⟨now, true⟩ else s.allowlistFile.entries.lookup j
  enrolled : ∀ j, j ∈ s'.coordinator.reconnectAllowlistIdentities ↔
    (j = k ∧ s.coordinator.reconnectEnabled) ∨ j ∈ s.coordinator.reconnectAllowlistIdentities
  verified : ∀ j, j ∈ s'.coordinator.verifiedIdentities ↔
    (j = k ∧ s.coordinator.reconnectEnabled) ∨ j ∈ s.coordinator.verifiedIdentities

/-- The admission of `s'` is that of `s` without `k`. -/
structure Removes (s s' : Pairing) (k : Data) : Prop where
  file : ∀ j, s'.allowlistFile.entries.lookup j =
    if j = k then none else s.allowlistFile.entries.lookup j
  enrolled : ∀ j, j ∈ s'.coordinator.reconnectAllowlistIdentities ↔
    j ≠ k ∧ j ∈ s.coordinator.reconnectAllowlistIdentities
  verified : ∀ j, j ∈ s'.coordinator.verifiedIdentities ↔
    j ≠ k ∧ j ∈ s.coordinator.verifiedIdentities

variable {s s' s'' : Pairing} {k : Data} {now : Int}

theorem Adds.same_iff (h : Adds s s' k now) : SameAdmission s s' ↔ s.Present k now := by
  constructor
  · intro hsame
    refine ⟨?_, fun henabled => ⟨?_, ?_⟩⟩
    · rw [← hsame.file, h.file, if_pos rfl]
    · exact (hsame.enrolled k).mp ((h.enrolled k).mpr (.inl ⟨rfl, henabled⟩))
    · exact (hsame.verified k).mp ((h.verified k).mpr (.inl ⟨rfl, henabled⟩))
  · rintro ⟨hfile, hgates⟩
    refine ⟨fun j => ?_, fun j => ?_, fun j => ?_⟩
    · rw [h.file]
      split
      · rename_i hj
        rw [hj, hfile]
      · rfl
    · rw [h.enrolled]
      exact or_iff_right_of_imp fun ⟨hj, henabled⟩ => hj ▸ (hgates henabled).1
    · rw [h.verified]
      exact or_iff_right_of_imp fun ⟨hj, henabled⟩ => hj ▸ (hgates henabled).2

theorem Removes.same_iff (h : Removes s s' k) : SameAdmission s s' ↔ s.Absent k := by
  constructor
  · intro hsame
    refine ⟨?_, ?_, ?_⟩
    · rw [← hsame.file, h.file, if_pos rfl]
    · exact fun hk => ((h.enrolled k).mp ((hsame.enrolled k).mpr hk)).1 rfl
    · exact fun hk => ((h.verified k).mp ((hsame.verified k).mpr hk)).1 rfl
  · rintro ⟨hfile, henrolled, hverified⟩
    refine ⟨fun j => ?_, fun j => ?_, fun j => ?_⟩
    · rw [h.file]
      split
      · rename_i hj
        rw [hj, hfile]
      · rfl
    · rw [h.enrolled]
      exact and_iff_right_of_imp fun hj e => henrolled (e ▸ hj)
    · rw [h.verified]
      exact and_iff_right_of_imp fun hj e => hverified (e ▸ hj)

/-- A removal after an enrollment. -/
theorem Adds.removes (h : Adds s s' k now) (h' : Removes s' s'' k) : Removes s s'' k := by
  refine ⟨fun j => ?_, fun j => ?_, fun j => ?_⟩
  · rw [h'.file, h.file]
    split <;> rfl
  · rw [h'.enrolled, h.enrolled]
    exact and_congr_right fun hj => or_iff_right fun e => hj e.1
  · rw [h'.verified, h.verified]
    exact and_congr_right fun hj => or_iff_right fun e => hj e.1

/-! ### The actions of the call -/

/-- The state once the enrollment is saved and the gates are told. -/
def enrolledState (s : Pairing) (k : Data) (now : Int) : Pairing :=
  { s with
    allowlistFile := s.allowlist.enroll k now true
    allowlist := s.allowlist.enroll k now true
    coordinator := (s.coordinator.addReconnectContact k).addVerifiedContact k }

theorem adds_enrolledState (hadopted : s.allowlist = s.allowlistFile) (hsize : k.length = 32) :
    Adds s (s.enrolledState k now) k now := by
  refine ⟨fun j => ?_, fun j => ?_, fun j => ?_⟩
  · simp [enrolledState, ContactAllowlist.enroll, hadopted]
  · cases henabled : s.coordinator.reconnectEnabled with
    | true => simp [enrolledState, FirstContactCoordinator.mem_addReconnectContact, henabled, hsize]
    | false => simp [enrolledState, FirstContactCoordinator.addReconnectContact, henabled]
  · cases henabled : s.coordinator.reconnectEnabled with
    | true => simp [enrolledState, FirstContactCoordinator.mem_addVerifiedContact, henabled, hsize]
    | false => simp [enrolledState, FirstContactCoordinator.addVerifiedContact, henabled]

/-- The state once the removal is saved and the gates are told. -/
def removedState (s : Pairing) (k : Data) : Pairing :=
  { s with
    allowlistFile := s.allowlist.revoke k
    allowlist := s.allowlist.revoke k
    coordinator := (s.coordinator.removeReconnectContact k).removeVerifiedContact k }

theorem removes_removedState (hadopted : s.allowlist = s.allowlistFile) :
    Removes s (s.removedState k) k := by
  refine ⟨fun j => ?_, fun j => ?_, fun j => ?_⟩
  · simp [removedState, ContactAllowlist.revoke, hadopted]
  · simp [removedState, FirstContactCoordinator.mem_removeReconnectContact]
  · simp [removedState, FirstContactCoordinator.mem_removeVerifiedContact]

/-- A change of the coordinator that leaves its gates alone changes no admission. -/
theorem Adds.quiet {c : FirstContactCoordinator} (h : Adds s s' k now)
    (hgates : SameGates s' { s' with coordinator := c }) :
    Adds s { s' with coordinator := c } k now := by
  refine ⟨h.file, fun j => ?_, fun j => ?_⟩
  · rw [hgates.enrolled]
    exact h.enrolled j
  · rw [hgates.verified]
    exact h.verified j

/-! ### The call -/

/-- The identity that the call enrolls and the time of its enrollment, if the code is admitted and
the enrollment saves. -/
def enrolls (s : Pairing) (code : Option Code) (replies : List Reply) : Option (Data × Int) :=
  match s.admits code, replies[1]? with
  | some code, some reply =>
    if code.rawKey.length = 32 ∧ reply.saved then some (code.rawKey, reply.now) else none
  | _, _ => none

/-- The removal that undoes the enrollment saves. -/
def rollsBack (replies : List Reply) : Bool := replies[5]?.any (·.saved)

theorem sameGates_onBundle (s : Pairing) (k : Data) (reply : Reply) :
    SameGates s { s with coordinator := (s.onBundle k reply).1.coordinator } := by
  simp only [onBundle, FirstContactCoordinator.onBundle]
  split
  · exact ⟨rfl, rfl, rfl⟩
  · exact .refl s

/-- The bundle is taken, or its enrollment is to be undone. -/
theorem onBundle_exit (s : Pairing) (k : Data) (reply : Reply) :
    (s.onBundle k reply).2 = .goOn [] ∨
      (s.onBundle k reply).2 = .goOn [.rollback k, .throwMalformed] := by
  unfold onBundle
  dsimp only
  split
  · exact .inl rfl
  · exact .inl rfl
  · exact .inr rfl
  · exact .inr rfl
  · exact .inr rfl

/-- From the rollback on, the call removes the contact, if the removal saves, and throws. -/
theorem rollback_outcome {replies : List Reply} {threw : Bool}
    (hcontains : s.allowlist.contains k)
    (h : machine.alone s ⟨[.rollback k, .throwMalformed], []⟩ replies = some (s', threw)) :
    s' = if replies[0]?.any (·.saved) then s.removedState k else s := by
  obtain ⟨r, later, p, _, rfl, hp, h, _⟩ := Machine.alone_cons h
  obtain rfl := Option.some.inj hp
  cases hsaved : r.saved with
  | true =>
    rw [show s.rollback k r = ({ s with
        allowlistFile := s.allowlist.revoke k
        allowlist := s.allowlist.revoke k },
      .goOn [.removeReconnectContact k, .removeVerifiedContact k]) by
        simp [rollback, revoke, saveAllowlist, hcontains, hsaved]] at h
    obtain ⟨_, _, p, _, rfl, hp, h, _⟩ := Machine.alone_cons h
    obtain rfl := Option.some.inj hp
    obtain ⟨_, _, p, _, rfl, hp, h, _⟩ := Machine.alone_cons h
    obtain rfl := Option.some.inj hp
    obtain ⟨_, _, p, _, rfl, hp, h, _⟩ := Machine.alone_cons h
    obtain rfl := Option.some.inj hp
    obtain ⟨rfl, _⟩ := Machine.alone_nil h
    simp [hsaved, removedState]
  | false =>
    rw [show s.rollback k r = (s, .goOn []) by
      simp [rollback, revoke, saveAllowlist, hcontains, hsaved]] at h
    obtain ⟨_, _, p, _, rfl, hp, h, _⟩ := Machine.alone_cons h
    obtain rfl := Option.some.inj hp
    obtain ⟨rfl, _⟩ := Machine.alone_nil h
    simp [hsaved]

/-- What a call that throws leaves: what was there, or the contact enrolled, or the contact
removed. -/
theorem pairFromScanned_outcome {code : Option Code} {replies : List Reply}
    (hadopted : s.allowlist = s.allowlistFile)
    (h : machine.alone s (thread (.pairFromScanned code)) replies = some (s', true)) :
    (s.enrolls code replies = none ∧ s' = s) ∨ ∃ k now, s.enrolls code replies = some (k, now) ∧
      if rollsBack replies then Removes s s' k else Adds s s' k now := by
  obtain ⟨r₀, later, p, threw, rfl, hp, h, hthrew⟩ := Machine.alone_cons h
  obtain rfl := Option.some.inj hp
  cases hcode : s.admits code with
  | none =>
    rw [show s.scan code = (s, .throw []) by simp [scan, hcode]] at h
    obtain ⟨rfl, _⟩ := Machine.alone_nil h
    exact .inl ⟨by simp [enrolls, hcode], rfl⟩
  | some code' =>
    obtain ⟨k, invite⟩ := code'
    rw [show s.scan code = (s, .goOn [.enroll k true, .onBundle k]) by simp [scan, hcode]]
      at h hthrew
    obtain rfl : true = threw := hthrew
    obtain ⟨r₁, later, p, threw, rfl, hp, h, hthrew⟩ := Machine.alone_cons h
    obtain rfl := Option.some.inj hp
    by_cases hsaves : k.length = 32 ∧ r₁.saved
    · obtain ⟨hsize, hsaved⟩ := hsaves
      rw [show s.enroll k true r₁ = ({ s with
          allowlistFile := s.allowlist.enroll k r₁.now true
          allowlist := s.allowlist.enroll k r₁.now true },
        .goOn [.addReconnectContact k, .addVerifiedContact k]) by
          simp [enroll, saveAllowlist, hsize, hsaved]] at h hthrew
      obtain rfl : true = threw := hthrew
      obtain ⟨_, _, p, threw, rfl, hp, h, hthrew⟩ := Machine.alone_cons h
      obtain rfl := Option.some.inj hp
      obtain rfl : true = threw := hthrew
      obtain ⟨_, _, p, threw, rfl, hp, h, hthrew⟩ := Machine.alone_cons h
      obtain rfl := Option.some.inj hp
      obtain rfl : true = threw := hthrew
      refine .inr ⟨k, r₁.now, by simp [enrolls, hcode, hsize, hsaved], ?_⟩
      have hadds : Adds s (s.enrolledState k r₁.now) k r₁.now := adds_enrolledState hadopted hsize
      obtain ⟨r₄, later, p, threw, rfl, hp, h, hthrew⟩ := Machine.alone_cons h
      obtain rfl := Option.some.inj hp
      let t := s.enrolledState k r₁.now
      have h : machine.alone (t.onBundle k r₄).1 (.leave [] [] (t.onBundle k r₄).2) later =
        some (s', threw) := h
      have hthrew : true = ((t.onBundle k r₄).2.throws || threw) := hthrew
      have hquiet : Adds s (t.onBundle k r₄).1 k r₁.now := hadds.quiet (sameGates_onBundle t k r₄)
      rcases onBundle_exit t k r₄ with hgo | hgo
      · rw [hgo] at h hthrew
        obtain ⟨_, rfl⟩ := Machine.alone_nil h
        cases hthrew
      · rw [hgo] at h
        have hcontains : (t.onBundle k r₄).1.allowlist.contains k := by
          show (s.allowlist.enroll k r₁.now true).contains k = true
          simp [ContactAllowlist.contains_enroll]
        have hs' := rollback_outcome hcontains h
        rw [hs', show rollsBack (r₀ :: r₁ :: _ :: _ :: r₄ :: later) = later[0]?.any
          (·.saved) from rfl]
        split
        · exact hquiet.removes (removes_removedState rfl)
        · exact hquiet
    · rw [show s.enroll k true r₁ = (s, .throw []) by
        unfold enroll saveAllowlist
        split
        · rename_i hsize
          rw [if_neg fun hsaved => hsaves ⟨hsize, hsaved⟩]
        · rfl] at h
      obtain ⟨rfl, _⟩ := Machine.alone_nil h
      exact .inl ⟨by simp [enrolls, hcode, hsaves], rfl⟩

/-- When a call that throws leaves every admission as it was: it throws before its enrollment is
saved, or its removal saves and nothing admitted the contact before, or its removal does not save
and the contact was there exactly as it was enrolled. -/
def LeavesNothing (s : Pairing) (code : Option Code) (replies : List Reply) : Prop :=
  ∀ k now, s.enrolls code replies = some (k, now) →
    if rollsBack replies then s.Absent k else s.Present k now

/-- A QR pairing that throws in any reachable state leaves the persisted allowlist and the gates as
they were if and only if its enrollment is not saved, or is undone for a contact that nothing
admitted, or stays and changed nothing. -/
theorem pairFromScanned_atomic_iff (allowlist : ContactAllowlist) (ledger : PendingInvites)
    (denylist : List BlockedContact) (localIdentity : Data) (launched : Int)
    (events : List (Event Call Reply)) (c : Config Pairing Action) (code : Option Code)
    (replies : List Reply) (s' : Pairing)
    (hrun : run machine.step ⟨launch allowlist ledger denylist localIdentity launched, []⟩ events =
      some c)
    (hcall : machine.alone c.shared (thread (.pairFromScanned code)) replies = some (s', true)) :
    SameAdmission c.shared s' ↔ c.shared.LeavesNothing code replies := by
  have hlaunch : Adopted ⟨launch allowlist ledger denylist localIdentity launched, []⟩ := rfl
  have hadopted : Adopted c := run_invariant Adopted (fun _ => True)
    (fun t ht _ => adopted_step t ht) hlaunch (fun _ _ => trivial) hrun
  unfold LeavesNothing
  rcases pairFromScanned_outcome hadopted hcall with ⟨hnone, rfl⟩ | ⟨k, now, henrolls, hleft⟩
  · rw [hnone]
    exact iff_of_true ⟨fun _ => rfl, fun _ => .rfl, fun _ => .rfl⟩ nofun
  · simp only [henrolls, Option.some.injEq, Prod.mk.injEq, and_imp, forall_apply_eq_imp_iff,
      forall_eq']
    split at hleft
    · rename_i hrolls
      rw [if_pos hrolls]
      exact hleft.same_iff
    · rename_i hrolls
      rw [if_neg hrolls]
      exact hleft.same_iff

/-- The code of the contact whose key is all ones. -/
def scannedOnes : Option Code := some ⟨.replicate 32 1, none⟩

/-- The replies to a call whose session does not form and whose removal saves. -/
def noSession : List Reply := [{}, {}, {}, {}, { ok := false }, {}, {}, {}, {}]

theorem pairFromScanned_atomic_iff_stranger : ∃ s',
    machine.alone (launch .empty .empty [] (.replicate 32 9) 0)
      (thread (.pairFromScanned scannedOnes)) noSession = some (s', true) ∧
      (SameAdmission (launch .empty .empty [] (.replicate 32 9) 0) s' ↔
        (launch .empty .empty [] (.replicate 32 9) 0).LeavesNothing scannedOnes noSession) :=
  ⟨_, rfl, pairFromScanned_atomic_iff .empty .empty [] (.replicate 32 9) 0 []
    ⟨launch .empty .empty [] (.replicate 32 9) 0, []⟩ scannedOnes noSession _ rfl rfl⟩

/-- A verified contact whose code is scanned again while no session forms is removed. -/
theorem pairFromScanned_removes_verified : ∃ s',
    machine.alone (launch (.enroll .empty (.replicate 32 1) 0 true) .empty [] (.replicate 32 9) 0)
      (thread (.pairFromScanned scannedOnes)) noSession = some (s', true) ∧
      ¬SameAdmission
      (launch (.enroll .empty (.replicate 32 1) 0 true) .empty [] (.replicate 32 9) 0)
        s' := by
  refine ⟨_, rfl, fun hsame => ?_⟩
  have hlost := hsame.file (.replicate 32 1)
  revert hlost
  decide

end AeroNyra.Pairing
