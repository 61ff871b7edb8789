import AeroNyra.Enrollment.Atomic
import AeroNyra.Enrollment.Denylist

/-! What a block and the unblock after it leave of the admission of a contact.  The entry of the
denylist keeps whether the contact was verified, as the allowlist has it when the entry is saved,
and an unblock enrolls with that flag before it saves the denylist.  So the admission comes back if
the contact was admitted, and its entry was not saved again once a block had removed it; and an
unblock that cannot save the denylist leaves the contact both blocked and enrolled. -/

namespace AeroNyra.Pairing

open Interleave

/-- A call, with the replies to its actions. -/
abbrev Attempt := Call × List Reply

/-- One call after another, each alone; with the state, whether the last one threw. -/
def attempt (s : Pairing × Bool) (e : Attempt) : Option (Pairing × Bool) :=
  machine.alone s.1 (thread e.1) e.2

def blocks (k : Data) (tries : List (Option String × List Reply)) : List Attempt :=
  tries.map fun p => (.block k p.1, p.2)

def unblocks (k : Data) (tries : List (List Reply)) : List Attempt :=
  tries.map fun replies => (.unblock k, replies)

/-- A contact is blocked, the last attempt at least having returned, and unblocked, over attempts
that throw, by one that returns. -/
structure Episode (k : Data) (tries : List (Option String × List Reply))
    (failed : List (List Reply)) (last : List Reply) (s blocked tried s' : Pairing) : Prop where
  -- the flag is down at the end only if some attempt returned
  blocks : run attempt (s, true) (blocks k tries) = some (blocked, false)
  throws : ∀ t ∈ trace attempt (blocked, false) (unblocks k failed), t.post.2 = true
  unblocks : ∃ threw, run attempt (blocked, false) (unblocks k failed) = some (tried, threw)
  returns : machine.alone tried (thread (.unblock k)) last = some (s', false)

/-- The persisted record of `k`, its presence and its flag, and the gates for `k` are the same. -/
structure SameFor (k : Data) (s s' : Pairing) : Prop where
  contains : s'.allowlistFile.contains k = s.allowlistFile.contains k
  isVerified : s'.allowlistFile.isVerified k = s.allowlistFile.isVerified k
  enrolled : k ∈ s'.coordinator.reconnectAllowlistIdentities ↔
    k ∈ s.coordinator.reconnectAllowlistIdentities
  verified : k ∈ s'.coordinator.verifiedIdentities ↔ k ∈ s.coordinator.verifiedIdentities
  blocked : k ∈ s'.coordinator.blockedIdentities ↔ k ∈ s.coordinator.blockedIdentities

/-- `k` is blocked, and nothing admits it. -/
structure Refused (k : Data) (s : Pairing) : Prop where
  denied : k ∈ s.denied
  dropped : k ∈ s.coordinator.blockedIdentities
  absent : s.allowlistFile.contains k = false
  closed : k ∉ s.coordinator.reconnectAllowlistIdentities

/-- `k` is enrolled, and the gates say of it what its record says. -/
structure Admitted (k : Data) (s : Pairing) : Prop where
  contains : s.allowlistFile.contains k
  enrolled : k ∈ s.coordinator.reconnectAllowlistIdentities
  verified : k ∈ s.coordinator.verifiedIdentities ↔ s.allowlistFile.isVerified k
  unblocked : k ∉ s.coordinator.blockedIdentities

/-- The attempt saves the denylist. -/
def denies (replies : List Reply) : Bool := replies.head?.any (·.saved)

/-- The attempt saves its enrollment. -/
def admitsAgain (replies : List Reply) : Bool := replies[1]?.any (·.saved)

/-- A block saves the entry of a contact that is enrolled no more. -/
def Late (k : Data) (t : Transition (Pairing × Bool) Attempt) : Prop :=
  denies t.event.2 ∧ ¬t.pre.1.allowlistFile.contains k

instance (k : Data) (t : Transition (Pairing × Bool) Attempt) : Decidable (Late k t) :=
  inferInstanceAs (Decidable (_ ∧ _))

variable {s s' : Pairing} {k : Data} {replies : List Reply} {threw : Bool}

/-! ### One attempt -/

/-- The state once a denylist is saved and the coordinator is told. -/
def toldState (s : Pairing) (updated : List BlockedContact) : Pairing :=
  { s with
    denylistFile := updated
    blockedContacts := updated
    coordinator := s.coordinator.setBlockedIdentities (updated.map (·.rawKey)).toFinset }

/-- The denylist with an entry for `k`, made at `now`. -/
def entered (s : Pairing) (k : Data) (petname : Option String) (now : Int) : List BlockedContact :=
  s.blockedContacts.filter (·.rawKey != k) ++ [⟨k, now, petname, s.allowlist.isVerified k⟩]

/-- The state once an enrollment is saved and the gates are told. -/
def admittedState (s : Pairing) (k : Data) (now : Int) (v : Bool) : Pairing :=
  { s with
    allowlistFile := s.allowlist.enroll k now v
    allowlist := s.allowlist.enroll k now v
    coordinator := if v then (s.coordinator.addReconnectContact k).addVerifiedContact k
      else s.coordinator.addReconnectContact k }

/-- How an attempt to block ends: nothing is saved, or the entry is, and then the contact is
removed, its removal is not saved, or it was not enrolled. -/
inductive BlockOutcome (s : Pairing) (k : Data) (petname : Option String) (saved : Bool) :
    Pairing → Bool → Prop
  | unsaved (h : saved = false) : BlockOutcome s k petname saved s true
  | removed (now) (h : saved = true) (enrolled : s.allowlist.contains k) :
    BlockOutcome s k petname saved ((s.toldState (s.entered k petname now)).removedState k) false
  | kept (now) (h : saved = true) (enrolled : s.allowlist.contains k) :
    BlockOutcome s k petname saved (s.toldState (s.entered k petname now)) true
  | absent (now) (h : saved = true) (gone : s.allowlist.contains k = false) :
    BlockOutcome s k petname saved (s.toldState (s.entered k petname now)) false

theorem block_outcome {petname : Option String}
    (h : machine.alone s (thread (.block k petname)) replies = some (s', threw)) :
    BlockOutcome s k petname (denies replies) s' threw := by
  obtain ⟨r, later, p, threw₁, rfl, hp, h, hthrew⟩ := Machine.alone_cons h
  obtain rfl := Option.some.inj hp
  have hdenies : denies (r :: later) = r.saved := rfl
  rw [hdenies]
  cases hsaved : r.saved with
  | false =>
    rw [show s.block k petname r = (s, .throw []) by simp [block, saveDenylist, hsaved]] at h hthrew
    obtain ⟨rfl, _⟩ := Machine.alone_nil h
    rw [hthrew]
    exact .unsaved rfl
  | true =>
    rw [show s.block k petname r = ({ s with
        denylistFile := s.entered k petname r.now
        blockedContacts := s.entered k petname r.now },
      .goOn [.setBlockedIdentities ((s.entered k petname r.now).map (·.rawKey)).toFinset]) by
        simp [block, saveDenylist, hsaved, entered]] at h hthrew
    obtain rfl : threw = threw₁ := hthrew
    obtain ⟨_, later, p, threw₂, rfl, hp, h, hthrew⟩ := Machine.alone_cons h
    obtain rfl := Option.some.inj hp
    obtain rfl : threw = threw₂ := hthrew
    obtain ⟨r₂, later, p, threw₃, rfl, hp, h, hthrew⟩ := Machine.alone_cons h
    obtain rfl := Option.some.inj hp
    let t := s.toldState (s.entered k petname r.now)
    have h : machine.alone (t.revoke k r₂).1 (.leave [] [] (t.revoke k r₂).2) later =
      some (s', threw₃) := h
    have hthrew : threw = ((t.revoke k r₂).2.throws || threw₃) := hthrew
    have hlive : t.allowlist = s.allowlist := rfl
    cases hcontains : s.allowlist.contains k with
    | false =>
      rw [show t.revoke k r₂ = (t, .goOn []) by simp [revoke, hlive, hcontains]] at h hthrew
      obtain ⟨rfl, rfl⟩ := Machine.alone_nil h
      rw [hthrew]
      exact .absent r.now rfl hcontains
    | true =>
      cases hremoved : r₂.saved with
      | false =>
        rw [show t.revoke k r₂ = (t, .throw []) by
          simp [revoke, saveAllowlist, hlive, hcontains, hremoved]] at h hthrew
        obtain ⟨rfl, _⟩ := Machine.alone_nil h
        rw [hthrew]
        exact .kept r.now rfl hcontains
      | true =>
        rw [show t.revoke k r₂ = ({ t with
            allowlistFile := t.allowlist.revoke k
            allowlist := t.allowlist.revoke k },
          .goOn [.removeReconnectContact k, .removeVerifiedContact k]) by
            simp [revoke, saveAllowlist, hlive, hcontains, hremoved]] at h hthrew
        obtain ⟨_, later, p, threw₄, rfl, hp, h, hthrew₄⟩ := Machine.alone_cons h
        obtain rfl := Option.some.inj hp
        obtain ⟨_, later, p, threw₅, rfl, hp, h, hthrew₅⟩ := Machine.alone_cons h
        obtain rfl := Option.some.inj hp
        obtain ⟨rfl, rfl⟩ := Machine.alone_nil h
        rw [hthrew, hthrew₄, hthrew₅]
        exact .removed r.now rfl hcontains

/-- How an attempt to unblock ends: there is no entry, nothing is saved, or the enrollment is, and
then the entry is taken out or its removal is not saved. -/
inductive UnblockOutcome (s : Pairing) (k : Data) (saved : Bool) : Pairing → Bool → Prop
  | none (h : s.blockedContacts.find? (·.rawKey == k) = .none) : UnblockOutcome s k saved s false
  | unsaved (entry) (h : s.blockedContacts.find? (·.rawKey == k) = some entry)
    (refused : ¬(k.length = 32 ∧ saved = true)) : UnblockOutcome s k saved s true
  | kept (entry now) (h : s.blockedContacts.find? (·.rawKey == k) = some entry)
      (size : k.length = 32)
    (admits : saved = true) :
    UnblockOutcome s k saved (s.admittedState k now entry.wasVerified) true
  | released (entry now) (h : s.blockedContacts.find? (·.rawKey == k) = some entry)
    (size : k.length = 32) (admits : saved = true) :
    UnblockOutcome s k saved ((s.admittedState k now entry.wasVerified).toldState
      (s.blockedContacts.filter (·.rawKey != k))) false

/-- From its removal of the entry on. -/
theorem release_outcome {s : Pairing}
    (h : machine.alone s ⟨[.release k], []⟩ replies = some (s', threw)) :
    (s' = s ∧ threw = true) ∨
      (s' = s.toldState (s.blockedContacts.filter (·.rawKey != k)) ∧ threw = false) := by
  obtain ⟨r, later, p, threw₁, rfl, hp, h, hthrew⟩ := Machine.alone_cons h
  obtain rfl := Option.some.inj hp
  cases hsaved : r.saved with
  | false =>
    rw [show s.release k r = (s, .throw []) by simp [release, saveDenylist, hsaved]] at h hthrew
    obtain ⟨rfl, _⟩ := Machine.alone_nil h
    exact .inl ⟨rfl, hthrew⟩
  | true =>
    rw [show s.release k r = ({ s with
        denylistFile := s.blockedContacts.filter (·.rawKey != k)
        blockedContacts := s.blockedContacts.filter (·.rawKey != k) },
      .goOn [.setBlockedIdentities
        ((s.blockedContacts.filter (·.rawKey != k)).map (·.rawKey)).toFinset]) by
        simp [release, saveDenylist, hsaved]] at h hthrew
    obtain ⟨_, later, p, threw₂, rfl, hp, h, hthrew₂⟩ := Machine.alone_cons h
    obtain rfl := Option.some.inj hp
    obtain ⟨rfl, rfl⟩ := Machine.alone_nil h
    refine .inr ⟨rfl, ?_⟩
    rw [hthrew, hthrew₂]
    rfl

theorem unblock_outcome (h : machine.alone s (thread (.unblock k)) replies = some (s', threw)) :
    UnblockOutcome s k (admitsAgain replies) s' threw := by
  obtain ⟨r, later, p, threw₁, rfl, hp, h, hthrew⟩ := Machine.alone_cons h
  obtain rfl := Option.some.inj hp
  cases hentry : s.blockedContacts.find? (·.rawKey == k) with
  | none =>
    rw [show s.unblock k = (s, .goOn []) by simp [unblock, hentry]] at h hthrew
    obtain ⟨rfl, rfl⟩ := Machine.alone_nil h
    rw [hthrew]
    exact .none hentry
  | some entry =>
    rw [show s.unblock k = (s, .goOn [.enroll k entry.wasVerified, .release k]) by
      simp [unblock, hentry]] at h hthrew
    obtain rfl : threw = threw₁ := hthrew
    obtain ⟨r₁, later, p, threw₂, rfl, hp, h, hthrew⟩ := Machine.alone_cons h
    obtain rfl := Option.some.inj hp
    have hadmits : admitsAgain (r :: r₁ :: later) = r₁.saved := rfl
    rw [hadmits]
    by_cases hsaves : k.length = 32 ∧ r₁.saved = true
    · obtain ⟨hsize, hsaved⟩ := hsaves
      rw [hsaved]
      cases hflag : entry.wasVerified with
      | true =>
        rw [show s.enroll k entry.wasVerified r₁ = ({ s with
            allowlistFile := s.allowlist.enroll k r₁.now true
            allowlist := s.allowlist.enroll k r₁.now true },
          .goOn [.addReconnectContact k, .addVerifiedContact k]) by
            simp [enroll, saveAllowlist, hsize, hsaved, hflag]] at h hthrew
        obtain ⟨_, later, p, threw₃, rfl, hp, h, hthrew₃⟩ := Machine.alone_cons h
        obtain rfl := Option.some.inj hp
        obtain ⟨_, later, p, threw₄, rfl, hp, h, hthrew₄⟩ := Machine.alone_cons h
        obtain rfl := Option.some.inj hp
        rw [hthrew, hthrew₃, hthrew₄]
        rcases release_outcome h with ⟨rfl, rfl⟩ | ⟨rfl, rfl⟩
        · have hkept := UnblockOutcome.kept entry r₁.now hentry hsize rfl
          rw [hflag] at hkept
          exact hkept
        · have hreleased := UnblockOutcome.released entry r₁.now hentry hsize rfl
          rw [hflag] at hreleased
          exact hreleased
      | false =>
        rw [show s.enroll k entry.wasVerified r₁ = ({ s with
            allowlistFile := s.allowlist.enroll k r₁.now false
            allowlist := s.allowlist.enroll k r₁.now false },
          .goOn [.addReconnectContact k]) by
            simp [enroll, saveAllowlist, hsize, hsaved, hflag]] at h hthrew
        obtain ⟨_, later, p, threw₃, rfl, hp, h, hthrew₃⟩ := Machine.alone_cons h
        obtain rfl := Option.some.inj hp
        rw [hthrew, hthrew₃]
        rcases release_outcome h with ⟨rfl, rfl⟩ | ⟨rfl, rfl⟩
        · have hkept := UnblockOutcome.kept entry r₁.now hentry hsize rfl
          rw [hflag] at hkept
          exact hkept
        · have hreleased := UnblockOutcome.released entry r₁.now hentry hsize rfl
          rw [hflag] at hreleased
          exact hreleased
    · rw [show s.enroll k entry.wasVerified r₁ = (s, .throw []) by
        unfold enroll saveAllowlist
        split
        · rename_i hsize
          rw [if_neg fun hsaved => hsaves ⟨hsize, hsaved⟩]
        · rfl] at h hthrew
      obtain ⟨rfl, _⟩ := Machine.alone_nil h
      rw [hthrew]
      exact .unsaved entry hentry hsaves

/-! ### What the states say of the contact -/

theorem find_entered (petname : Option String) (now : Int) :
    (s.entered k petname now).find? (·.rawKey == k) =
      some ⟨k, now, petname, s.allowlist.isVerified k⟩ := by
  have hnone : (s.blockedContacts.filter (·.rawKey != k)).find? (·.rawKey == k) = none := by
    rw [List.find?_eq_none]
    intro entry hentry
    simpa using (List.mem_filter.mp hentry).2
  rw [entered, List.find?_append, hnone]
  simp

theorem mem_entered (petname : Option String) (now : Int) :
    k ∈ ((s.entered k petname now).map (·.rawKey)).toFinset := by
  simp [entered]

theorem not_mem_released :
    k ∉ ((s.blockedContacts.filter (·.rawKey != k)).map (·.rawKey)).toFinset := by
  simp

theorem contains_removedState : (s.removedState k).allowlistFile.contains k = false := by
  simp [removedState, ContactAllowlist.contains_revoke]

theorem contains_admittedState (now : Int) (v : Bool) :
    (s.admittedState k now v).allowlistFile.contains k = true := by
  simp [admittedState, ContactAllowlist.contains_enroll]

theorem isVerified_admittedState (now : Int) (v : Bool) :
    (s.admittedState k now v).allowlistFile.isVerified k = v := by
  simp [admittedState, ContactAllowlist.isVerified_enroll]

theorem enabled_admittedState (now : Int) (v : Bool) :
    (s.admittedState k now v).coordinator.reconnectEnabled = s.coordinator.reconnectEnabled := by
  cases v <;> simp [admittedState]

theorem enrolled_admittedState (now : Int) (v : Bool) (henabled : s.coordinator.reconnectEnabled)
    (hsize : k.length = 32) :
    k ∈ (s.admittedState k now v).coordinator.reconnectAllowlistIdentities := by
  cases v with
  | true => simp [admittedState, FirstContactCoordinator.mem_addReconnectContact, henabled, hsize]
  | false => simp [admittedState, FirstContactCoordinator.mem_addReconnectContact, henabled, hsize]

theorem verified_admittedState (now : Int) (v : Bool) (henabled : s.coordinator.reconnectEnabled)
    (hsize : k.length = 32) : k ∈ (s.admittedState k now v).coordinator.verifiedIdentities ↔
      v = true ∨ k ∈ s.coordinator.verifiedIdentities := by
  cases v with
  | true => simp [admittedState, FirstContactCoordinator.mem_addVerifiedContact, henabled, hsize]
  | false => simp [admittedState]

theorem blocked_admittedState (now : Int) (v : Bool) :
    (s.admittedState k now v).coordinator.blockedIdentities = s.coordinator.blockedIdentities := by
  cases v <;> simp [admittedState]

/-! ### The attempts to block -/

/-- What the attempts to block leave of a contact that was admitted as `s₀` has it: as long as it
is enrolled, its entry keeps its flag; once it is removed, the entry keeps the flag unless it was
saved again. -/
structure Blocking (s₀ : Pairing) (k : Data) (past : List (Transition (Pairing × Bool) Attempt))
    (p : Pairing × Bool) : Prop where
  adopted : p.1.allowlist = p.1.allowlistFile
  enabled : p.1.coordinator.reconnectEnabled
  here : p.1.allowlistFile.contains k →
    p.1.allowlistFile.isVerified k = s₀.allowlistFile.isVerified k ∧ ∀ t ∈ past, ¬Late k t
  gone : s₀.allowlistFile.contains k → p.1.allowlistFile.contains k = false →
    k ∉ p.1.coordinator.reconnectAllowlistIdentities ∧ k ∉ p.1.coordinator.verifiedIdentities ∧
    ∃ entry, p.1.blockedContacts.find? (·.rawKey == k) = some entry ∧
      (entry.wasVerified = true ↔ s₀.allowlistFile.isVerified k ∧ ∀ t ∈ past, ¬Late k t)
  returned : p.2 = false → p.1.allowlistFile.contains k = false ∧ k ∈ p.1.denied ∧
    k ∈ p.1.coordinator.blockedIdentities ∧ ∃ entry, p.1.blockedContacts.find?
      (·.rawKey == k) = some entry

theorem blocking_start (hadopted : s.allowlist = s.allowlistFile)
    (henabled : s.coordinator.reconnectEnabled) : Blocking s k [] (s, true) where
  adopted := hadopted
  enabled := henabled
  here _ := ⟨rfl, by simp⟩
  gone hcontains hgone := by simp [hcontains] at hgone
  returned h := by cases h

theorem blocking_step {s₀ : Pairing} {past : List (Transition (Pairing × Bool) Attempt)}
    {t : Transition (Pairing × Bool) Attempt} {petname : Option String}
    (hevent : t.event.1 = .block k petname) (hstep : attempt t.pre t.event = some t.post)
    (h : Blocking s₀ k past t.pre) : Blocking s₀ k (past ++ [t]) t.post := by
  obtain ⟨⟨s, flag⟩, ⟨call, replies⟩, ⟨s', threw⟩⟩ := t
  obtain rfl : call = .block k petname := hevent
  have hadopted : s.allowlist = s.allowlistFile := h.adopted
  have hlate (hnot : ¬(denies replies = true ∧ s.allowlistFile.contains k = false))
      (hpast : ∀ t ∈ past, ¬Late k t) {t : Transition (Pairing × Bool) Attempt}
      (ht : t ∈ past ++ [⟨(s, flag), (.block k petname, replies), (s', threw)⟩]) : ¬Late k t := by
    rcases List.mem_append.mp ht with hold | hnew
    · exact hpast t hold
    · rw [List.mem_singleton.mp hnew]
      rintro ⟨hdenies, hgone⟩
      exact hnot ⟨hdenies, Bool.eq_false_iff.mpr hgone⟩
  have hless {t : Transition (Pairing × Bool) Attempt} (ht : t ∈ past) :
      t ∈ past ++ [⟨(s, flag), (.block k petname, replies), (s', threw)⟩] :=
        List.mem_append_left _ ht
  generalize hdenies : denies replies = saved at hlate
  have hout : BlockOutcome s k petname saved s' threw := hdenies ▸ block_outcome hstep
  cases hout with
  | unsaved hsaved =>
    have hnot : ¬(saved = true ∧ s.allowlistFile.contains k = false) := by simp [hsaved]
    refine ⟨hadopted, h.enabled,
      fun hhere => ⟨(h.here hhere).1, fun t ht => hlate hnot (h.here hhere).2 ht⟩,
      fun hcontains hgone => ?_, fun hreturned => by cases hreturned⟩
    obtain ⟨henrolled, hverified, entry, hentry, hflag⟩ := h.gone hcontains hgone
    refine ⟨henrolled, hverified, entry, hentry, hflag.trans (and_congr_right fun _ => ?_)⟩
    exact ⟨fun hpast t ht => hlate hnot hpast ht, fun hall t ht => hall t (hless ht)⟩
  | removed now hsaved henrolled =>
    rw [hadopted] at henrolled
    have hnot : ¬(saved = true ∧ s.allowlistFile.contains k = false) := by simp [henrolled]
    obtain ⟨hsame, hpast⟩ := h.here henrolled
    refine ⟨rfl, ?_, fun hhere => ?_, fun _ _ => ⟨?_, ?_, _, find_entered petname now, ?_⟩,
      fun _ => ⟨contains_removedState, ?_, ?_, _, find_entered petname now⟩⟩
    · simpa [removedState, toldState, FirstContactCoordinator.setBlockedIdentities] using h.enabled
    · exact absurd (hhere.symm.trans contains_removedState) (by decide)
    · simp [removedState, FirstContactCoordinator.mem_removeReconnectContact]
    · simp [removedState, FirstContactCoordinator.mem_removeVerifiedContact]
    · rw [hadopted, hsame]
      exact (and_iff_left fun t ht => hlate hnot hpast ht).symm
    · exact mem_entered petname now
    · simp only [removedState, FirstContactCoordinator.removeVerifiedContact_blocked,
        FirstContactCoordinator.removeReconnectContact_blocked]
      exact mem_entered petname now
  | kept now hsaved henrolled =>
    rw [hadopted] at henrolled
    have hnot : ¬(saved = true ∧ s.allowlistFile.contains k = false) := by simp [henrolled]
    obtain ⟨hsame, hpast⟩ := h.here henrolled
    refine ⟨hadopted, h.enabled, fun _ => ⟨hsame, fun t ht => hlate hnot hpast ht⟩,
      fun _ hgone => ?_,
      fun hreturned => by cases hreturned⟩
    exact absurd (henrolled.symm.trans hgone) (by decide)
  | absent now hsaved hgone =>
    have hfile : s.allowlistFile.contains k = false := hadopted ▸ hgone
    refine ⟨hadopted, h.enabled, fun hhere => ?_, fun hcontains _ => ?_,
      fun _ => ⟨hfile, mem_entered petname now, mem_entered petname now, _,
        find_entered petname now⟩⟩
    · exact absurd (hhere.symm.trans hfile) (by decide)
    · obtain ⟨henrolled, hverified, _⟩ := h.gone hcontains hfile
      refine ⟨henrolled, hverified, _, find_entered petname now, ?_⟩
      have hunverified : ¬s.allowlist.isVerified k = true := fun hverified =>
        absurd ((ContactAllowlist.contains_of_isVerified k hverified).symm.trans hgone) (by decide)
      refine iff_of_false hunverified fun hnever => ?_
      refine hnever.2 _ (List.mem_append_right _ (List.mem_singleton_self _))
        ⟨hdenies.trans hsaved, ?_⟩
      exact Bool.eq_false_iff.mp hfile

theorem blocking_run {s₀ : Pairing} {tries : List (Option String × List Reply)} {p : Pairing × Bool}
    (hadopted : s₀.allowlist = s₀.allowlistFile) (henabled : s₀.coordinator.reconnectEnabled)
    (h : run attempt (s₀, true) (blocks k tries) = some p) :
    Blocking s₀ k (trace attempt (s₀, true) (blocks k tries)) p := by
  have hall : ∀ t ∈ trace attempt (s₀, true) (blocks k tries), ∃ petname,
      t.event.1 = .block k petname := by
    intro t ht
    obtain ⟨q, _, hq⟩ := List.mem_map.mp (event_mem ht)
    exact ⟨q.1, by rw [← hq]⟩
  refine run_history (fun past p => (∀ t ∈ past, ∃ petname, t.event.1 = .block k petname) →
    Blocking s₀ k past p) (fun past t hstep hold hpast => ?_)
    (fun _ => blocking_start hadopted henabled) h hall
  obtain ⟨petname, hevent⟩ := hpast t (by simp)
  exact blocking_step hevent hstep (hold fun u hu => hpast u (List.mem_append_left _ hu))

/-! ### The attempts to unblock -/

/-- What the attempts to unblock that throw leave alone; `gate` says that the verified gate was
open before them. -/
structure Unblocking (k : Data) (entry : BlockedContact) (gate : Prop)
    (p : Pairing × Bool) : Prop where
  enabled : p.1.coordinator.reconnectEnabled
  entered : p.1.blockedContacts.find? (·.rawKey == k) = some entry
  verified : k ∈ p.1.coordinator.verifiedIdentities → entry.wasVerified = true ∨ gate

theorem event_unblock {tries : List (List Reply)} {p : Pairing × Bool}
    {t : Transition (Pairing × Bool) Attempt} (ht : t ∈ trace attempt p (unblocks k tries)) :
    UnblockOutcome t.pre.1 k (admitsAgain t.event.2) t.post.1 t.post.2 := by
  have hstep := step_of_mem_trace ht
  obtain ⟨replies, _, hevent⟩ := List.mem_map.mp (event_mem ht)
  rw [← hevent] at hstep ⊢
  exact unblock_outcome hstep

theorem unblocking_run {tries : List (List Reply)} {entry : BlockedContact} {gate : Prop}
    {p q : Pairing × Bool} (hthrows : ∀ t ∈ trace attempt p (unblocks k tries), t.post.2 = true)
    (h : run attempt p (unblocks k tries) = some q) (hp : Unblocking k entry gate p) :
    Unblocking k entry gate q := by
  refine run_invariant (Unblocking k entry gate)
    (fun t => UnblockOutcome t.pre.1 k (admitsAgain t.event.2) t.post.1 t.post.2 ∧ t.post.2 = true)
    (fun t _ hout hpre => ?_) hp (fun t ht => ⟨event_unblock ht, hthrows t ht⟩) h
  obtain ⟨pre, event, ⟨s', threw⟩⟩ := t
  obtain ⟨hout, hthrew⟩ := hout
  obtain rfl : threw = true := hthrew
  generalize admitsAgain event.2 = saved at hout
  have hout : UnblockOutcome pre.1 k saved s' true := hout
  cases hout with
  | unsaved => exact ⟨hpre.enabled, hpre.entered, hpre.verified⟩
  | kept entry' now hentry hsize =>
    obtain rfl := Option.some.inj (hentry.symm.trans hpre.entered)
    refine ⟨(enabled_admittedState now _).trans hpre.enabled, hentry, fun hverified => ?_⟩
    rcases (verified_admittedState now _ hpre.enabled hsize).mp hverified with hflag | hold
    · exact .inl hflag
    · exact hpre.verified hold

/-- Attempts that throw leave the contact refused exactly if none of them saves its enrollment. -/
theorem refused_iff {tries : List (List Reply)} {p q : Pairing × Bool} (hsize : k.length = 32)
    (hrefused : Refused k p.1) (hthrows : ∀ t ∈ trace attempt p (unblocks k tries), t.post.2 = true)
    (h : run attempt p (unblocks k tries) = some q) :
    (∀ t ∈ trace attempt p (unblocks k tries), Refused k t.post.1) ↔
      ∀ replies ∈ tries, ¬admitsAgain replies := by
  have hevents : (trace attempt p (unblocks k tries)).map Transition.event = unblocks k tries :=
    map_event_trace h
  have hoffered : (∀ replies ∈ tries, ¬admitsAgain replies) ↔
      ∀ t ∈ trace attempt p (unblocks k tries), ¬admitsAgain t.event.2 := by
    rw [← List.forall_mem_map (f := Transition.event) (P := fun e : Attempt => ¬admitsAgain e.2),
      hevents, unblocks, List.forall_mem_map]
  rw [hoffered]
  constructor
  · intro hall t ht hadmits
    have hout := event_unblock ht
    have habsent := (hall t ht).absent
    rw [hthrows t ht, hadmits] at hout
    generalize t.post.1 = s' at hout habsent
    cases hout with
    | unsaved entry hentry hnot => exact hnot ⟨hsize, rfl⟩
    | kept entry now => exact absurd ((contains_admittedState now _).symm.trans habsent) (by decide)
  · intro hnone t ht
    have hsame (t : Transition (Pairing × Bool) Attempt)
      (ht : t ∈ trace attempt p (unblocks k tries)) :
        t.post.1 = t.pre.1 := by
      have hout := event_unblock ht
      rw [hthrows t ht, Bool.eq_false_iff.mpr (hnone t ht)] at hout
      generalize t.post.1 = s' at hout
      cases hout with
      | unsaved => rfl
      | kept _ _ _ _ hsaved => cases hsaved
    rw [hsame t ht]
    refine trace_invariant_of (fun p => Refused k p.1) (fun t => t.post.1 = t.pre.1)
      (fun t _ heq hpre => ?_) hrefused hsame ht
    rw [heq]
    exact hpre

/-! ### The whole episode -/

section Episode

variable {tries : List (Option String × List Reply)} {failed : List (List Reply)}
    {last : List Reply}
  {blocked tried : Pairing}

/-- What an unblock that returns makes of a contact with an entry. -/
theorem released_of_returns {entry : BlockedContact} {gate : Prop} {threw : Bool}
    (h : Unblocking k entry gate (tried, threw))
    (hreturns : machine.alone tried (thread (.unblock k)) last = some (s', false)) :
    k.length = 32 ∧ s'.allowlistFile.contains k ∧ s'.allowlistFile.isVerified k =
      entry.wasVerified ∧
      k ∈ s'.coordinator.reconnectAllowlistIdentities ∧
      (k ∈ s'.coordinator.verifiedIdentities → entry.wasVerified = true ∨ gate) ∧
      (entry.wasVerified = true → k ∈ s'.coordinator.verifiedIdentities) ∧
      k ∉ s'.coordinator.blockedIdentities := by
  have hentered : tried.blockedContacts.find? (·.rawKey == k) = some entry := h.entered
  have hout := unblock_outcome hreturns
  generalize admitsAgain last = saved at hout
  cases hout with
  | none hnone => cases hnone.symm.trans hentered
  | released entry' now hentry hsize =>
    obtain rfl := Option.some.inj (hentry.symm.trans hentered)
    have hverified := verified_admittedState (k := k) now entry'.wasVerified h.enabled hsize
    refine ⟨hsize, contains_admittedState now _, isVerified_admittedState now _,
      enrolled_admittedState now _ h.enabled hsize, fun hgate => ?_, fun hflag =>
        hverified.mpr (.inl hflag),
      not_mem_released⟩
    rcases hverified.mp hgate with hflag | hold
    · exact .inl hflag
    · exact h.verified hold

/-- The admission of a contact that was enrolled, and is again, with its flag if that is `kept`. -/
theorem sameFor_iff {kept : Prop} (hnow : Admitted k s')
    (hcontains : s.allowlistFile.contains k = true)
    (hflag : s'.allowlistFile.isVerified k = true ↔ s.allowlistFile.isVerified k = true ∧ kept) :
    SameFor k s s' ↔ Admitted k s ∧ (s.allowlistFile.isVerified k = true → kept) := by
  constructor
  · intro hsame
    rw [hsame.isVerified] at hflag
    refine ⟨⟨hcontains, hsame.enrolled.mp hnow.enrolled, ?_, mt hsame.blocked.mpr hnow.unblocked⟩,
      fun hverified => (hflag.mp hverified).2⟩
    rw [← hsame.verified, hnow.verified, hsame.isVerified]
  · rintro ⟨hbefore, hkept⟩
    have hsame : s'.allowlistFile.isVerified k = true ↔ s.allowlistFile.isVerified k = true :=
      hflag.trans (and_iff_left_of_imp hkept)
    refine ⟨hnow.contains.trans hcontains.symm, Bool.eq_iff_iff.mpr hsame,
      iff_of_true hnow.enrolled hbefore.enrolled, ?_, iff_of_false hnow.unblocked hbefore.unblocked⟩
    rw [hnow.verified, hbefore.verified, hsame]

/-- A block and its unblock restore the admission of a contact, and its failed unblocks leave it
blocked and not enrolled, if and only if the contact was enrolled and the gates agreed with its
record, no block saved its entry again once it was removed, if it was verified, and no failed
unblock saved its enrollment. -/
theorem unblock_restores_iff (allowlist : ContactAllowlist) (ledger : PendingInvites)
    (denylist : List BlockedContact) (localIdentity : Data) (launched : Int)
    (events : List (Event Call Reply)) (c : Config Pairing Action) (k : Data)
    (tries : List (Option String × List Reply)) (failed : List (List Reply)) (last : List Reply)
    (blocked tried s' : Pairing)
    (hrun : run machine.step ⟨launch allowlist ledger denylist localIdentity launched, []⟩ events =
      some c)
    (h : Episode k tries failed last c.shared blocked tried s') :
    (SameFor k c.shared s' ∧
      ∀ t ∈ trace attempt (blocked, false) (unblocks k failed), Refused k t.post.1) ↔
    Admitted k c.shared ∧
      (c.shared.allowlistFile.isVerified k →
        ∀ t ∈ trace attempt (c.shared, true) (blocks k tries), ¬Late k t) ∧
      ∀ replies ∈ failed, ¬admitsAgain replies := by
  obtain ⟨hadopted, henabled⟩ : c.shared.allowlist = c.shared.allowlistFile ∧
      c.shared.coordinator.reconnectEnabled := by
    refine run_invariant
      (fun c : Config Pairing Action => c.shared.allowlist = c.shared.allowlistFile ∧
      c.shared.coordinator.reconnectEnabled) (fun _ => True) (fun t ht _ hpre => ?_) ⟨rfl, rfl⟩
      (fun _ _ => trivial) hrun
    refine ⟨adopted_step t ht hpre.1, ?_⟩
    rcases Machine.step_shared ht with ⟨hsame, _⟩ | ⟨a, reply, x, hexec, _⟩
    · rw [hsame]
      exact hpre.2
    · exact (enabled_step (exec_effect hexec)).trans hpre.2
  have hblocking := blocking_run hadopted henabled h.blocks
  obtain ⟨habsent, hdenied, hdropped, entry, hentry⟩ := hblocking.returned rfl
  obtain ⟨threw, htried⟩ := h.unblocks
  cases hcontains : c.shared.allowlistFile.contains k with
  | false =>
    have hunblocking : Unblocking k entry True (blocked, false) :=
      ⟨hblocking.enabled, hentry, fun _ => .inr trivial⟩
    obtain ⟨_, hopen, _⟩ := released_of_returns
      (unblocking_run h.throws htried hunblocking) h.returns
    refine iff_of_false (fun hleft => ?_) (fun hright => ?_)
    · exact absurd (hleft.1.contains.symm.trans hopen) (by simp [hcontains])
    · exact absurd hright.1.contains (by simp [hcontains])
  | true =>
    obtain ⟨hclosed, hunverified, entry, hentry, hflag⟩ := hblocking.gone hcontains habsent
    have hunblocking : Unblocking k entry False (blocked, false) :=
      ⟨hblocking.enabled, hentry, fun hverified => absurd hverified hunverified⟩
    obtain ⟨hsize, hopen, hrecord, henrolled, hgate, hflagged, hreleased⟩ :=
      released_of_returns (unblocking_run h.throws htried hunblocking) h.returns
    have hverified : k ∈ s'.coordinator.verifiedIdentities ↔ entry.wasVerified = true :=
      ⟨fun hopened => (hgate hopened).resolve_right id, hflagged⟩
    have hrefused : Refused k blocked := ⟨hdenied, hdropped, habsent, hclosed⟩
    rw [refused_iff hsize hrefused h.throws htried, ← and_assoc]
    refine and_congr_left fun _ => ?_
    rw [← hrecord] at hflag hverified
    exact sameFor_iff ⟨hopen, henrolled, hverified, hreleased⟩ hcontains hflag

end Episode

/-- A launch that loads a verified contact. -/
def withVerified (k : Data) : Pairing := launch (.enroll .empty k 0 true) .empty []
    (.replicate 32 9) 0

/-- A save that fails at each of the three places, and each time the call is made again. -/
theorem unblock_restores_iff_retried :
    let k : Data := .replicate 32 1
    let tries : List (Option String × List Reply) := [(none, [{ saved := false }]),
      (none, [{}, {}, { saved := false }]), (none, [{}, {}, {}, {}, {}])]
    let failed : List (List Reply) := [[{}, { saved := false }]]
    ∃ blocked tried s', Episode k tries failed [{}, {}, {}, {}, {}, {}]
    (withVerified k) blocked tried s' ∧
      ((SameFor k (withVerified k) s' ∧
        ∀ t ∈ trace attempt (blocked, false) (unblocks k failed), Refused k t.post.1) ↔
      Admitted k (withVerified k) ∧
        ((withVerified k).allowlistFile.isVerified k →
          ∀ t ∈ trace attempt (withVerified k, true) (blocks k tries), ¬Late k t) ∧
        ∀ replies ∈ failed, ¬admitsAgain replies) := by
  intro k tries failed
  have hepisode : Episode k tries failed [{}, {}, {}, {}, {}, {}] (withVerified k) _ _ _ :=
    ⟨rfl, by decide +kernel, ⟨_, rfl⟩, rfl⟩
  exact ⟨_, _, _, hepisode, unblock_restores_iff (.enroll .empty k 0 true) .empty []
    (.replicate 32 9) 0 [] ⟨withVerified k, []⟩ k tries failed _ _ _ _ rfl hepisode⟩

/-- A verified contact that is blocked twice is not verified any more. -/
theorem unblock_forgets :
    let k : Data := .replicate 32 1
    let tries : List (Option String × List Reply) :=
      [(none, [{}, {}, {}, {}, {}]), (none, [{}, {}, {}])]
    ∃ blocked tried s', Episode k tries [] [{}, {}, {}, {}, {}] (withVerified k) blocked tried s' ∧
      ¬SameFor k (withVerified k) s' := by
  intro k tries
  have hepisode : Episode k tries [] [{}, {}, {}, {}, {}] (withVerified k) _ _ _ :=
    ⟨rfl, by decide, ⟨_, rfl⟩, rfl⟩
  refine ⟨_, _, _, hepisode, fun hsame => ?_⟩
  have hlost := hsame.isVerified
  revert hlost
  decide

end AeroNyra.Pairing
