import AeroNyra.Enrollment.Mirror

/-! Blocks and unblocks that overlap.  Each pushes the whole set of blocked identities to the
coordinator, and opens or closes the enrolled gate, in steps of their own, so a set that was
overtaken by a later one, or an enrollment that was overtaken by a removal, may win. -/

namespace AeroNyra.Pairing

open Interleave

/-- The identities of the persisted denylist. -/
def denied (s : Pairing) : Finset Data := (s.denylistFile.map (·.rawKey)).toFinset

/-- The coordinator drops exactly the identities of the persisted denylist, and none of them is
enrolled. -/
structure Converged (s : Pairing) : Prop where
  told : s.coordinator.blockedIdentities = s.denied
  dropped : ∀ k ∈ s.denied, k ∉ s.coordinator.reconnectAllowlistIdentities
  removed : ∀ k ∈ s.denied, ¬s.allowlistFile.contains k

def Call.Blocks : Call → Prop
  | .block .. | .unblock _ => True
  | _ => False

/-- The action was overtaken: it pushes another set than that of the persisted denylist while none
is under way that pushes the latter, or it opens the enrolled gate for an identity that the
persisted allowlist lacks while no removal of it is under way. -/
def Overtaken (c : Config Pairing Action) : Action → Prop
  | .setBlockedIdentities keys =>
    keys ≠ c.shared.denied ∧ ¬c.Pending (.setBlockedIdentities c.shared.denied)
  | .addReconnectContact k =>
    ¬c.shared.allowlistFile.contains k ∧ ¬c.Pending (.removeReconnectContact k)
  | _ => False

instance (c : Config Pairing Action) (a : Action) : Decidable (Overtaken c a) := by
  apply Action.casesOn (motive := fun a => Decidable (Overtaken c a)) a <;> intros <;>
    unfold Overtaken <;> infer_instance

/-- The step runs no action that was overtaken. -/
def Step.Current (t : Step) : Prop := ∀ p ∈ t.pre.acts t.event, ¬Overtaken t.pre p.1

instance (t : Step) : Decidable t.Current :=
  inferInstanceAs (Decidable (∀ p ∈ t.pre.acts t.event, ¬Overtaken t.pre p.1))

/-- The step does not end its call with an error. -/
def Step.Succeeds (t : Step) : Prop :=
  ∀ p ∈ t.pre.acts t.event, ∀ q ∈ t.pre.shared.exec p.1 p.2, q.2.throws = false

instance (t : Step) : Decidable t.Succeeds :=
  inferInstanceAs (Decidable (∀ p ∈ t.pre.acts t.event, ∀ q ∈ t.pre.shared.exec p.1 p.2,
    q.2.throws = false))

/-! ### What the actions of a block or an unblock do -/

/-- What is left of a call: behind the save of a block is the removal of its identity, and behind
the enrollment of an unblock the end of its block. -/
def Promised : List Action → Prop
  | [] => True
  | a :: rest =>
    (match a with
    | .block k _ => .revoke k ∈ rest
    | .enroll k _ => .release k ∈ rest
    | .revoke _ | .unblock _ | .release _ | .setBlockedIdentities _ => True
    | a => a.isGate) ∧ Promised rest

/-- What an action of a block or an unblock does when it succeeds, and the actions that it adds. -/
inductive Managed (s : Pairing) (reply : Reply) : Action → Pairing → List Action → Prop
  | deny {a} (k : Data) (updated : List BlockedContact)
      (by_ : (∃ petname, a = .block k petname ∧
          ∀ j, j ∈ updated.map (·.rawKey) ↔ j = k ∨ j ∈ s.blockedContacts.map (·.rawKey)) ∨
        a = .release k ∧
          ∀ j, j ∈ updated.map (·.rawKey) ↔ j ≠ k ∧ j ∈ s.blockedContacts.map (·.rawKey)) :
      Managed s reply a { s with denylistFile := updated, blockedContacts := updated }
        [.setBlockedIdentities (updated.map (·.rawKey)).toFinset]
  | enroll (k : Data) (v : Bool) : Managed s reply (.enroll k v)
      { s with
        allowlistFile := s.allowlist.enroll k reply.now v
        allowlist := s.allowlist.enroll k reply.now v }
      (if v then [.addReconnectContact k, .addVerifiedContact k] else [.addReconnectContact k])
  | revoke (k : Data) : Managed s reply (.revoke k)
      { s with allowlistFile := s.allowlist.revoke k, allowlist := s.allowlist.revoke k }
      [.removeReconnectContact k, .removeVerifiedContact k]
  | absent (k : Data) (absent : s.allowlist.contains k = false) : Managed s reply (.revoke k) s []
  | unblock (k : Data) (v : Bool) : Managed s reply (.unblock k) s [.enroll k v, .release k]
  | unblocked (k : Data) : Managed s reply (.unblock k) s []
  | told (keys : Finset Data) : Managed s reply (.setBlockedIdentities keys)
      { s with coordinator := s.coordinator.setBlockedIdentities keys } []
  | gate {a} (f : FirstContactCoordinator → FirstContactCoordinator) (gate : a.isGate)
      (blocked : (f s.coordinator).blockedIdentities = s.coordinator.blockedIdentities)
      (enrolled : ∀ k, k ∈ (f s.coordinator).reconnectAllowlistIdentities →
        (a = .addReconnectContact k ∨ k ∈ s.coordinator.reconnectAllowlistIdentities) ∧
          a ≠ .removeReconnectContact k) :
      Managed s reply a { s with coordinator := f s.coordinator } []

variable {s s' : Pairing} {reply : Reply} {x : Exit Action} {rest : List Action}

/-- A save of the denylist that goes on told the coordinator the set that it saved. -/
theorem managed_saveDenylist {a : Action} {k : Data} {updated : List BlockedContact}
    (h : s.saveDenylist updated reply = (s', x)) (hx : x.throws = false)
    (hby : (∃ petname, a = .block k petname ∧
        ∀ j, j ∈ updated.map (·.rawKey) ↔ j = k ∨ j ∈ s.blockedContacts.map (·.rawKey)) ∨
      a = .release k ∧
        ∀ j, j ∈ updated.map (·.rawKey) ↔ j ≠ k ∧ j ∈ s.blockedContacts.map (·.rawKey)) :
    Managed s reply a s' x.added := by
  unfold saveDenylist at h
  split at h
  · obtain ⟨rfl, rfl⟩ := Prod.mk.inj h
    exact .deny k updated hby
  · obtain ⟨rfl, rfl⟩ := Prod.mk.inj h
    cases hx

theorem mem_without (contacts : List BlockedContact) (j k : Data) :
    j ∈ (contacts.filter (·.rawKey != k)).map (·.rawKey) ↔ j ≠ k ∧ j ∈ contacts.map (·.rawKey) := by
  simp only [List.mem_map, List.mem_filter, bne_iff_ne]
  constructor
  · rintro ⟨entry, ⟨hentry, hne⟩, rfl⟩
    exact ⟨hne, entry, hentry, rfl⟩
  · rintro ⟨hne, entry, hentry, rfl⟩
    exact ⟨entry, ⟨hentry, hne⟩, rfl⟩

theorem managed_exec {a : Action} (hrest : Promised (a :: rest)) (h : s.exec a reply = some (s', x))
    (hx : x.throws = false) : Managed s reply a s' x.added := by
  cases a with
  | block k petname =>
    refine managed_saveDenylist (Option.some.inj h) hx (.inl ⟨petname, rfl, fun j => ?_⟩)
    rw [List.map_append, List.mem_append, mem_without]
    by_cases hj : j = k <;> simp [hj]
  | release k => exact managed_saveDenylist (Option.some.inj h) hx (.inr
      ⟨rfl, fun j => mem_without _ j k⟩)
  | enroll k v =>
    have h := Option.some.inj h
    unfold enroll saveAllowlist at h
    split at h
    · split at h
      · obtain ⟨rfl, rfl⟩ := Prod.mk.inj h
        exact .enroll k v
      · obtain ⟨rfl, rfl⟩ := Prod.mk.inj h
        cases hx
    · obtain ⟨rfl, rfl⟩ := Prod.mk.inj h
      cases hx
  | revoke k =>
    have h := Option.some.inj h
    unfold revoke saveAllowlist at h
    split at h
    · split at h
      · obtain ⟨rfl, rfl⟩ := Prod.mk.inj h
        exact .revoke k
      · obtain ⟨rfl, rfl⟩ := Prod.mk.inj h
        cases hx
    · rename_i habsent
      obtain ⟨rfl, rfl⟩ := Prod.mk.inj h
      exact .absent k (Bool.eq_false_iff.mpr habsent)
  | unblock k =>
    have h := Option.some.inj h
    unfold unblock at h
    split at h
    · obtain ⟨rfl, rfl⟩ := Prod.mk.inj h
      exact .unblock k _
    · obtain ⟨rfl, rfl⟩ := Prod.mk.inj h
      exact .unblocked k
  | setBlockedIdentities keys =>
    obtain ⟨rfl, rfl⟩ := Prod.mk.inj (Option.some.inj h)
    exact .told keys
  | addReconnectContact k =>
    obtain ⟨rfl, rfl⟩ := Prod.mk.inj (Option.some.inj h)
    refine .gate (·.addReconnectContact k) rfl
      (FirstContactCoordinator.addReconnectContact_blocked k) fun j hj => ⟨?_, by simp⟩
    rw [FirstContactCoordinator.addReconnectContact_enrolled] at hj
    split at hj
    · rcases List.mem_append.mp hj with hj | hj
      · exact .inr hj
      · exact .inl (congrArg _ (List.mem_singleton.mp hj).symm)
    · exact .inr hj
  | removeReconnectContact k =>
    obtain ⟨rfl, rfl⟩ := Prod.mk.inj (Option.some.inj h)
    refine .gate (·.removeReconnectContact k) rfl
      (FirstContactCoordinator.removeReconnectContact_blocked k) fun j hj => ?_
    obtain ⟨hne, hj⟩ := (FirstContactCoordinator.mem_removeReconnectContact j k).mp hj
    exact ⟨.inr hj, by simp [Ne.symm hne]⟩
  | addVerifiedContact k =>
    obtain ⟨rfl, rfl⟩ := Prod.mk.inj (Option.some.inj h)
    refine .gate (·.addVerifiedContact k) rfl (FirstContactCoordinator.addVerifiedContact_blocked k)
      fun j hj => ⟨.inr ?_, by simp⟩
    simpa using hj
  | removeVerifiedContact k =>
    obtain ⟨rfl, rfl⟩ := Prod.mk.inj (Option.some.inj h)
    refine .gate (·.removeVerifiedContact k) rfl
      (FirstContactCoordinator.removeVerifiedContact_blocked k) fun j hj => ⟨.inr ?_, by simp⟩
    simpa using hj
  | markVerified | mintInvite | burn | scan | onBundle | rollback | throwMalformed | redeem
  | establish | echoRouted => cases hrest.1

/-- What an action adds is promised again. -/
theorem promised_added {a : Action} {first : List Action} (h : Managed s reply a s' first)
    (hrest : Promised rest) : Promised (first ++ rest) := by
  cases h with
  | deny k updated => exact ⟨trivial, hrest⟩
  | enroll k v => cases v <;> simp [Promised, Action.isGate, hrest]
  | revoke k => simp [Promised, Action.isGate, hrest]
  | unblock k v => simp [Promised, hrest]
  | absent | unblocked | told | gate => exact hrest

theorem promised_thread {call : Call} (h : call.Blocks) : Promised (thread call).todo := by
  cases call with
  | block k petname => simp [thread, Promised]
  | unblock k => simp [thread, Promised]
  | enroll | markVerified | revoke | mintInvite | redeemEcho | pairFromScanned | redeemInvite =>
      cases h

/-! ### What holds while calls are under way -/

/-- The invariant of the runs whose steps succeed and are current: each difference between the files
and the coordinator, and between the two files, is about to go. -/
structure Settling (c : Config Pairing Action) : Prop where
  adopted : Adopted c
  loaded : c.shared.blockedContacts = c.shared.denylistFile
  promised : ∀ u ∈ c.threads, Promised u.todo
  told : c.shared.coordinator.blockedIdentities = c.shared.denied ∨
    c.Pending (.setBlockedIdentities c.shared.denied)
  apart : ∀ k ∈ c.shared.denied, c.shared.allowlistFile.contains k →
    c.Pending (.revoke k) ∨ c.Pending (.release k)
  gated : ∀ k ∈ c.shared.coordinator.reconnectAllowlistIdentities,
    c.shared.allowlistFile.contains k ∨ c.Pending (.removeReconnectContact k)

/-- Where nothing is under way, nothing differs. -/
theorem Settling.converged {c : Config Pairing Action} (h : Settling c) (idle : c.Idle) :
    Converged c.shared := by
  have hnone := fun a => Config.not_pending_of_idle (α := Action) idle a
  have hremoved (k : Data) (hk : k ∈ c.shared.denied) : ¬c.shared.allowlistFile.contains k := by
    intro hcontains
    rcases h.apart k hk hcontains with hrevoke | hrelease
    · exact hnone _ hrevoke
    · exact hnone _ hrelease
  refine ⟨h.told.resolve_right (hnone _), fun k hk hgate => ?_, hremoved⟩
  exact hremoved k hk ((h.gated k hgate).resolve_right (hnone _))

theorem settling_launch {allowlist : ContactAllowlist} {ledger : PendingInvites}
    {denylist : List BlockedContact} {localIdentity : Data} {now : Int}
    (hapart : ∀ entry ∈ denylist, ¬allowlist.contains entry.rawKey) :
    Settling ⟨launch allowlist ledger denylist localIdentity now, []⟩ where
  adopted := rfl
  loaded := rfl
  promised := by simp
  told := .inl rfl
  apart k hk hcontains := by
    obtain ⟨entry, hentry, rfl⟩ := List.mem_map.mp (List.mem_toFinset.mp hk)
    exact absurd hcontains (hapart entry hentry)
  gated k hk := .inl ((ContactAllowlist.mem_identities k).mp hk)

section Step

variable {c c' : Config Pairing Action} {a : Action} {first : List Action}

/-- What is pending after an action that goes on: everything but the action, and what it adds. -/
structure Follows (c c' : Config Pairing Action) (a : Action) (rest first : List Action) :
    Prop where
  kept : ∀ b, b ≠ a → c.Pending b → c'.Pending b
  left : ∀ b ∈ rest, c'.Pending b
  adds : ∀ b ∈ first, c'.Pending b

theorem told_step (h : Managed c.shared reply a c'.shared first) (hinv : Settling c)
    (hpending : Follows c c' a rest first) (hcurrent : ¬Overtaken c a) :
    c'.shared.coordinator.blockedIdentities = c'.shared.denied ∨
      c'.Pending (.setBlockedIdentities c'.shared.denied) := by
  have of_same (hblocked : c'.shared.coordinator.blockedIdentities =
        c.shared.coordinator.blockedIdentities) (hdenied : c'.shared.denied = c.shared.denied)
      (hne : ∀ keys, a ≠ .setBlockedIdentities keys) :
      c'.shared.coordinator.blockedIdentities = c'.shared.denied ∨
        c'.Pending (.setBlockedIdentities c'.shared.denied) := by
    rw [hblocked, hdenied]
    exact hinv.told.imp_right (hpending.kept _ (hne _).symm)
  generalize hs : c'.shared = s' at h of_same ⊢
  cases h with
  | deny k updated => exact .inr (hpending.adds _ (by simp [denied]))
  | told keys =>
    by_cases hkeys : keys = c.shared.denied
    · exact .inl hkeys
    · refine .inr (hpending.kept _ (fun heq => hkeys (Action.setBlockedIdentities.inj heq).symm) ?_)
      by_contra hnone
      exact hcurrent ⟨hkeys, hnone⟩
  | enroll | revoke | absent | unblock | unblocked => exact of_same rfl rfl (by simp)
  | gate f gate blocked =>
    refine of_same blocked rfl ?_
    rintro keys rfl
    cases gate

theorem apart_step (h : Managed c.shared reply a c'.shared first) (hinv : Settling c)
    (hpending : Follows c c' a rest first) (hrest : Promised (a :: rest)) (k : Data)
    (hk : k ∈ c'.shared.denied) (hcontains : c'.shared.allowlistFile.contains k) :
    c'.Pending (.revoke k) ∨ c'.Pending (.release k) := by
  have hadopted : c.shared.allowlist = c.shared.allowlistFile := hinv.adopted
  have of_same (hdenied : k ∈ c.shared.denied) (hheld : c.shared.allowlistFile.contains k)
      (hrevoke : a ≠ .revoke k) (hrelease : a ≠ .release k) :
      c'.Pending (.revoke k) ∨ c'.Pending (.release k) :=
    (hinv.apart k hdenied hheld).imp (hpending.kept _ hrevoke.symm) (hpending.kept _ hrelease.symm)
  generalize hs : c'.shared = s' at h hk hcontains
  cases h with
  | deny j updated hby =>
    have hmem : k ∈ updated.map (·.rawKey) := List.mem_toFinset.mp hk
    have hdenied (hold : k ∈ c.shared.blockedContacts.map (·.rawKey)) : k ∈ c.shared.denied := by
      rw [hinv.loaded] at hold
      exact List.mem_toFinset.mpr hold
    rcases hby with ⟨petname, rfl, hblock⟩ | ⟨rfl, hrelease⟩
    · rcases (hblock k).mp hmem with rfl | hold
      · exact .inl (hpending.left _ hrest.1)
      · exact of_same (hdenied hold) hcontains (by simp) (by simp)
    · obtain ⟨hne, hold⟩ := (hrelease k).mp hmem
      exact of_same (hdenied hold) hcontains (by simp) (by simpa using Ne.symm hne)
  | enroll j v =>
    rw [ContactAllowlist.contains_enroll, hadopted] at hcontains
    by_cases hj : k = j
    · subst hj
      exact .inr (hpending.left _ hrest.1)
    · exact of_same hk (by simpa [hj] using hcontains) (by simp) (by simp)
  | revoke j =>
    rw [ContactAllowlist.contains_revoke, hadopted] at hcontains
    obtain ⟨hne, hheld⟩ := Bool.and_eq_true_iff.mp hcontains
    exact of_same hk hheld (by simpa using Ne.symm (of_decide_eq_true hne)) (by simp)
  | absent j habsent =>
    refine of_same hk hcontains ?_ (by simp)
    rintro ⟨⟩
    rw [hadopted, hcontains] at habsent
    cases habsent
  | unblock | unblocked | told => exact of_same hk hcontains (by simp) (by simp)
  | gate f gate =>
    refine of_same hk hcontains ?_ ?_
    · rintro rfl
      cases gate
    · rintro rfl
      cases gate

theorem gated_step (h : Managed c.shared reply a c'.shared first) (hinv : Settling c)
    (hpending : Follows c c' a rest first) (hcurrent : ¬Overtaken c a) (k : Data)
    (hk : k ∈ c'.shared.coordinator.reconnectAllowlistIdentities) :
    c'.shared.allowlistFile.contains k ∨ c'.Pending (.removeReconnectContact k) := by
  have hadopted : c.shared.allowlist = c.shared.allowlistFile := hinv.adopted
  have of_same (hheld : k ∈ c.shared.coordinator.reconnectAllowlistIdentities)
      (hremove : a ≠ .removeReconnectContact k) :
      c.shared.allowlistFile.contains k ∨ c'.Pending (.removeReconnectContact k) :=
    (hinv.gated k hheld).imp_right (hpending.kept _ hremove.symm)
  generalize hs : c'.shared = s' at h hk ⊢
  cases h with
  | enroll j v =>
    refine (of_same hk (by simp)).imp_left fun hheld => ?_
    simp [ContactAllowlist.contains_enroll, hadopted, hheld]
  | revoke j =>
    by_cases hj : k = j
    · subst hj
      exact .inr (hpending.adds _ (by simp))
    · refine (of_same hk (by simp)).imp_left fun hheld => ?_
      simp [ContactAllowlist.contains_revoke, hadopted, hheld, hj]
  | gate f gate blocked enrolled =>
    obtain ⟨hheld, hremove⟩ := enrolled k hk
    rcases hheld with rfl | hheld
    · by_cases hfile : c.shared.allowlistFile.contains k
      · exact .inl hfile
      · refine .inr (hpending.kept _ (by simp) ?_)
        by_contra hnone
        exact hcurrent ⟨hfile, hnone⟩
    · exact of_same hheld hremove
  | deny j updated hby =>
    refine of_same hk ?_
    rcases hby with ⟨petname, rfl, _⟩ | ⟨rfl, _⟩ <;> simp
  | absent | unblock | unblocked | told => exact of_same hk (by simp)

end Step

/-- The steps of a run of blocks and unblocks keep the invariant, if they succeed and run no action
that was overtaken. -/
theorem settling_step (t : Step) (ht : machine.step t.pre t.event = some t.post)
    (hcalls : ∀ call, t.event = .start call → call.Blocks) (hsucceeds : t.Succeeds)
    (hcurrent : t.Current) (hinv : Settling t.pre) : Settling t.post := by
  have hadopted := adopted_step t ht hinv.adopted
  rcases Machine.step_cases ht with ⟨call, he, hpost⟩ | ⟨i, reply, a, rest, handler, s', x, _, hi,
    hexec, hacts, hpost⟩
  · rw [hpost] at hadopted ⊢
    have hpend (b : Action) (hb : t.pre.Pending b) :
        (Config.mk t.pre.shared (t.pre.threads ++ [thread call])).Pending b :=
      Machine.pending_start hb
    refine ⟨hadopted, hinv.loaded, fun u hu => ?_, hinv.told.imp_right (hpend _),
      fun k hk hheld => (hinv.apart k hk hheld).imp (hpend _) (hpend _),
      fun k hk => (hinv.gated k hk).imp_right (hpend _)⟩
    rcases List.mem_append.mp hu with hu | hu
    · exact hinv.promised u hu
    · rw [List.mem_singleton.mp hu]
      exact promised_thread (hcalls call he)
  · have hx : x.throws = false := hsucceeds (a, reply) hacts (s', x) hexec
    have hnow : ¬Overtaken t.pre a := hcurrent (a, reply) hacts
    have hrest : Promised (a :: rest) := hinv.promised _ (List.mem_of_getElem? hi)
    have hmanaged := managed_exec hrest hexec hx
    cases x with
    | throw cleanup => cases hx
    | goOn first =>
      have hfollows : Follows t.pre t.post a rest first := by
        rw [hpost]
        refine ⟨fun b hne hb => Machine.pending_goOn hi hb hne, fun b hb => ?_,
          fun b hb => Machine.pending_first hi hb⟩
        exact (Machine.pending_set hi b).mpr (.inr (List.mem_append_right _ hb))
      have hshared : t.post.shared = s' := by rw [hpost]
      rw [← hshared] at hmanaged
      refine ⟨hadopted, ?_, fun u hu => ?_, told_step hmanaged hinv hfollows hnow,
        fun k => apart_step hmanaged hinv hfollows hrest k,
        fun k => gated_step hmanaged hinv hfollows hnow k⟩
      · have hloaded := hinv.loaded
        generalize t.post.shared = s'' at hmanaged ⊢
        cases hmanaged <;> first | rfl | exact hloaded
      · rw [hpost] at hu
        rcases List.mem_or_eq_of_mem_set hu with hu | rfl
        · exact hinv.promised u hu
        · exact promised_added hmanaged hrest.2

/-- In every run of overlapping blocks and unblocks that all succeed, over files of which the
denylist has no contact of the allowlist, and in which no action runs that was overtaken: once all
calls have returned, the coordinator drops exactly the identities of the persisted denylist, and
none of them is enrolled. -/
theorem denylist_converges (allowlist : ContactAllowlist) (ledger : PendingInvites)
    (denylist : List BlockedContact) (localIdentity : Data) (now : Int)
    (events : List (Event Call Reply)) (c : Config Pairing Action)
    (hrun : run machine.step ⟨launch allowlist ledger denylist localIdentity now, []⟩ events =
      some c)
    (hcalls : ∀ call, .start call ∈ events → call.Blocks)
    (hsucceed : ∀ t ∈ steps allowlist ledger denylist localIdentity now events, t.Succeeds)
    (idle : c.Idle) (hapart : ∀ entry ∈ denylist, ¬allowlist.contains entry.rawKey)
    (hcurrent : ∀ t ∈ steps allowlist ledger denylist localIdentity now events, t.Current) :
    Converged c.shared := by
  refine Settling.converged ?_ idle
  refine run_invariant Settling
    (fun t : Step => (∀ call, t.event = .start call → call.Blocks) ∧ t.Succeeds ∧ t.Current)
    (fun t ht h => settling_step t ht h.1 h.2.1 h.2.2) (settling_launch hapart)
    (fun t ht => ?_) hrun
  refine ⟨fun call he => hcalls call ?_, hsucceed t ht, hcurrent t ht⟩
  rw [← he]
  exact event_mem ht

/-- Two blocks that overlap, their sets processed in the order of their saves. -/
def blocksNested : List (Event Call Reply) :=
  [.start (.block [1] none), .start (.block [2] none), .step 1 {}, .step 0 {}, .step 1 {},
    .step 0 {}, .step 0 {}, .step 1 {}]

theorem denylist_converges_blocksNested :
    ∃ c, run machine.step ⟨launch .empty .empty [] [] 0, []⟩ blocksNested = some c ∧
      c.shared.denied = {[1], [2]} ∧ Converged c.shared :=
  ⟨_, rfl, by decide, denylist_converges .empty .empty [] [] 0 blocksNested _ rfl
    (by simp [blocksNested, Call.Blocks]) (by decide) (Config.idle_of_all (by decide)) (by simp)
    (by decide)⟩

/-- Two blocks that overlap, the set of the first one processed after that of the second. -/
def blocksCrossed : List (Event Call Reply) :=
  [.start (.block [1] none), .start (.block [2] none), .step 0 {}, .step 1 {}, .step 1 {},
    .step 0 {}, .step 0 {}, .step 1 {}]

/-- Not every run of blocks and unblocks that succeed converges. -/
theorem denylist_drifts : ¬∀ allowlist ledger denylist localIdentity now events c,
    run machine.step ⟨launch allowlist ledger denylist localIdentity now, []⟩ events = some c →
    (∀ call, .start call ∈ events → call.Blocks) →
    (∀ t ∈ steps allowlist ledger denylist localIdentity now events, t.Succeeds) → c.Idle →
    (∀ entry ∈ denylist, ¬allowlist.contains entry.rawKey) → Converged c.shared := by
  intro hconverges
  have hend : ∃ c, run machine.step ⟨launch .empty .empty [] [] 0, []⟩ blocksCrossed = some c ∧
    c.Idle ∧
      c.shared.coordinator.blockedIdentities ≠ c.shared.denied :=
    ⟨_, rfl, Config.idle_of_all (by decide), by decide⟩
  obtain ⟨c, hrun, hidle, hdiffer⟩ := hend
  have hconverged := hconverges .empty .empty [] [] 0 blocksCrossed c hrun
    (by simp [blocksCrossed, Call.Blocks]) (by decide) hidle (by simp)
  exact hdiffer hconverged.told

end AeroNyra.Pairing
