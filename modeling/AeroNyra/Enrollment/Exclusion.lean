import AeroNyra.Coordinator.Presence
import AeroNyra.Enrollment.Service

/-! What a block leaves closed.  Once an identity is on the denylist, off the allowlist and out of
the coordinator's gates, it stays so under every action of the services that does not readmit
it. -/

namespace AeroNyra.Pairing

open Interleave

/-- The identity is on the denylist and admitted nowhere. -/
structure ShutsOut (k : Data) (s : Pairing) : Prop where
  denied : k ∈ s.blockedKeys
  unlisted : s.allowlist.contains k = false
  blocked : k ∈ s.coordinator.blockedIdentities
  unenrolled : k ∉ s.coordinator.reconnectAllowlistIdentities
  unverified : k ∉ s.coordinator.verifiedIdentities
  unreachable : k ∉ s.coordinator.lastReachableKeys

theorem shutsOut_iff {k : Data} {s : Pairing} : s.ShutsOut k ↔
    k ∈ s.blockedKeys ∧ s.allowlist.contains k = false ∧ k ∈ s.coordinator.blockedIdentities ∧
      k ∉ s.coordinator.reconnectAllowlistIdentities ∧ k ∉ s.coordinator.verifiedIdentities ∧
        k ∉ s.coordinator.lastReachableKeys :=
  ⟨fun h => ⟨h.denied, h.unlisted, h.blocked, h.unenrolled, h.unverified, h.unreachable⟩,
    fun ⟨hd, hl, hb, he, hv, hr⟩ => ⟨hd, hl, hb, he, hv, hr⟩⟩

instance (k : Data) (s : Pairing) : Decidable (s.ShutsOut k) := decidable_of_iff _ shutsOut_iff.symm

/-- The action lets the identity back in: it enrolls or releases it, opens a gate for it, or
replaces the blocked identities by a set without it. -/
def Action.Readmits (k : Data) : Action → Reply → Prop
  | .enroll j _, reply | .release j, reply => j = k ∧ reply.saved
  | .addReconnectContact j, _ | .addVerifiedContact j, _ => j = k
  | .setBlockedIdentities keys, _ => k ∉ keys
  | _, _ => False

instance (k : Data) (a : Action) (reply : Reply) : Decidable (a.Readmits k reply) := by
  apply Action.casesOn (motive := fun a => Decidable (a.Readmits k reply)) a <;> intros <;>
    unfold Action.Readmits <;> infer_instance

variable {s : Pairing} {a : Action} {reply : Reply} {p : Pairing × Exit Action} {k : Data}

/-! ### The services' side -/

theorem blockedContacts_saveAllowlist {updated : ContactAllowlist} {next : List Action} :
    (s.saveAllowlist updated reply next).1.blockedContacts = s.blockedContacts := by
  unfold saveAllowlist
  split <;> rfl

theorem blockedContacts_saveLedger {updated : PendingInvites} {next : List Action} :
    (s.saveLedger updated reply next).1.blockedContacts = s.blockedContacts := by
  unfold saveLedger
  split <;> rfl

theorem blockedContacts_revoke {j : Data} : (s.revoke j reply).1.blockedContacts =
    s.blockedContacts := by
  unfold revoke
  split
  · exact blockedContacts_saveAllowlist
  · rfl

/-- Only blocks and releases change the denylist. -/
theorem blockedContacts_exec (h : s.exec a reply = some p) :
    (∃ j petname, a = .block j petname) ∨ (∃ j, a = .release j) ∨
      p.1.blockedContacts = s.blockedContacts := by
  cases a with
  | block j petname => exact .inl ⟨j, petname, rfl⟩
  | release j => exact .inr (.inl ⟨j, rfl⟩)
  | enroll j v =>
    obtain rfl := Option.some.inj h
    refine .inr (.inr ?_)
    unfold enroll
    split
    · exact blockedContacts_saveAllowlist
    · rfl
  | markVerified j =>
    obtain rfl := Option.some.inj h
    refine .inr (.inr ?_)
    unfold markVerified
    split
    · exact blockedContacts_saveAllowlist
    · rfl
  | revoke j =>
    obtain rfl := Option.some.inj h
    exact .inr (.inr blockedContacts_revoke)
  | rollback j =>
    obtain rfl := Option.some.inj h
    have hrevoke : (s.revoke j reply).1.blockedContacts = s.blockedContacts :=
      blockedContacts_revoke
    refine .inr (.inr ?_)
    unfold rollback
    split
    · rename_i heq
      rwa [heq] at hrevoke
    · rename_i heq
      rwa [heq] at hrevoke
  | mintInvite ttlMillis =>
    simp only [exec, mintInvite, Option.bind_eq_bind, Option.bind_eq_some_iff] at h
    obtain ⟨expiresAt, _, pruned, _, h⟩ := h
    obtain rfl := Option.some.inj h
    exact .inr (.inr blockedContacts_saveLedger)
  | burn inviteID redeemer => exact .inr (.inr (sameAccess_burn h).blockedContacts)
  | scan code =>
    obtain rfl := Option.some.inj h
    refine .inr (.inr ?_)
    unfold scan
    split <;> rfl
  | redeem code =>
    simp only [exec, redeem] at h
    refine .inr (.inr ?_)
    split at h
    · obtain ⟨last, _, rfl⟩ := Option.map_eq_some_iff.mp h
      split
      · split
        · rfl
        · split <;> rfl
      · rfl
    · obtain rfl := Option.some.inj h
      rfl
  | establish =>
    obtain rfl := Option.some.inj h
    refine .inr (.inr ?_)
    unfold establish
    split <;> rfl
  | unblock j =>
    obtain rfl := Option.some.inj h
    refine .inr (.inr ?_)
    unfold unblock
    split <;> rfl
  | addReconnectContact | removeReconnectContact | addVerifiedContact | removeVerifiedContact
    | setBlockedIdentities | onBundle | throwMalformed | echoRouted =>
    obtain rfl := Option.some.inj h
    exact .inr (.inr rfl)

/-- What is denied stays denied by the denylist that a save adopts, and by the one that it keeps. -/
theorem denied_saveDenylist {updated : List BlockedContact} (hold : k ∈ s.blockedKeys)
    (hnew : reply.saved → k ∈ updated.map (·.rawKey)) :
    k ∈ (s.saveDenylist updated reply).1.blockedKeys := by
  unfold saveDenylist
  split
  · rename_i hsaved
    exact List.mem_toFinset.mpr (hnew hsaved)
  · exact hold

/-- An identity other than that of an entry that is filtered out stays on the denylist. -/
theorem denied_without {j : Data} (hold : k ∈ s.blockedKeys) (hne : k ≠ j) :
    k ∈ (s.blockedContacts.filter (·.rawKey != j)).map (·.rawKey) := by
  obtain ⟨entry, hentry, rfl⟩ := List.mem_map.mp (List.mem_toFinset.mp hold)
  exact List.mem_map.mpr ⟨entry, List.mem_filter.mpr ⟨hentry, by simpa using hne⟩, rfl⟩

theorem denied_exec (h : s.exec a reply = some p) (hr : ¬a.Readmits k reply)
    (hold : k ∈ s.blockedKeys) :
    k ∈ p.1.blockedKeys := by
  rcases blockedContacts_exec h with ⟨j, petname, rfl⟩ | ⟨j, rfl⟩ | hsame
  · obtain rfl := Option.some.inj h
    refine denied_saveDenylist hold fun _ => ?_
    rw [List.map_append]
    by_cases hkj : k = j
    · exact List.mem_append_right _ (List.mem_singleton.mpr hkj)
    · exact List.mem_append_left _ (denied_without hold hkj)
  · obtain rfl := Option.some.inj h
    refine denied_saveDenylist hold fun hsaved => denied_without hold ?_
    rintro rfl
    exact hr ⟨rfl, hsaved⟩
  · rw [blockedKeys, hsame]
    exact hold

theorem unlisted_exec (h : s.exec a reply = some p) (hr : ¬a.Readmits k reply)
    (hold : s.allowlist.contains k = false) : p.1.allowlist.contains k = false := by
  have heffect := exec_effect h
  obtain ⟨s', x⟩ := p
  cases heffect with
  | quiet _ _ live => rwa [live]
  | enroll j v _ saved =>
    have hne : k ≠ j := by
      rintro rfl
      exact hr ⟨rfl, saved⟩
    simp [ContactAllowlist.contains_enroll, hold, hne]
  | verify j => rwa [ContactAllowlist.contains_markVerified]
  | revoke j => simp [ContactAllowlist.contains_revoke, hold]
  | addReconnect | removeReconnect | addVerified | removeVerified => exact hold

/-! ### The coordinator's side -/

theorem unverified_exec (h : s.exec a reply = some p) (hr : ¬a.Readmits k reply)
    (hold : k ∉ s.coordinator.verifiedIdentities) : k ∉ p.1.coordinator.verifiedIdentities := by
  have heffect := exec_effect h
  obtain ⟨s', x⟩ := p
  cases heffect with
  | quiet _ _ _ gates => rwa [gates.verified]
  | enroll | verify | revoke => exact hold
  | addReconnect j => rwa [FirstContactCoordinator.addReconnectContact_verified]
  | removeReconnect j => rwa [FirstContactCoordinator.removeReconnectContact_verified]
  | addVerified j =>
    have hne : k ≠ j := fun heq => hr heq.symm
    dsimp only [FirstContactCoordinator.addVerifiedContact]
    split
    · split
      · exact hold
      · exact fun hk => (Finset.mem_insert.mp hk).elim hne hold
    · exact hold
  | removeVerified j =>
    exact fun hk => hold ((FirstContactCoordinator.mem_removeVerifiedContact k j).mp hk).2

/-- The keys last reported reachable change with a report alone. -/
theorem reports_exec (h : s.exec a reply = some p) :
    FirstContactCoordinator.Reports s.coordinator p.1.coordinator := by
  have hcall (call : FirstContactCoordinator.Call) (answer : FirstContactCoordinator.Reply)
      {c : FirstContactCoordinator}
      (hne : ∀ allowlist verified, call ≠ .enableReconnect allowlist verified)
      (hexec : FirstContactCoordinator.exec some s.coordinator (.call call) answer =
        some (c, .goOn [])) :
      FirstContactCoordinator.Reports s.coordinator c :=
    FirstContactCoordinator.exec_reports
      (fun allowlist verified heq => hne allowlist verified
        (FirstContactCoordinator.Action.call.inj heq)) hexec
  cases ha : a.onActor with
  | false => exact .inl (by rw [coordinator_exec ha h])
  | true =>
    cases a with
    | addReconnectContact j =>
      obtain rfl := Option.some.inj h
      exact hcall (.addReconnectContact j) ⟨true, none⟩ (by simp) rfl
    | removeReconnectContact j =>
      obtain rfl := Option.some.inj h
      exact hcall (.removeReconnectContact j) ⟨true, none⟩ (by simp) rfl
    | addVerifiedContact j =>
      obtain rfl := Option.some.inj h
      exact hcall (.addVerifiedContact j) ⟨true, none⟩ (by simp) rfl
    | removeVerifiedContact j =>
      obtain rfl := Option.some.inj h
      exact hcall (.removeVerifiedContact j) ⟨true, none⟩ (by simp) rfl
    | setBlockedIdentities keys =>
      obtain rfl := Option.some.inj h
      exact .inl rfl
    | onBundle j =>
      obtain rfl := Option.some.inj h
      exact hcall (.onBundle reply.link j) ⟨reply.ok, none⟩ (by simp) rfl
    | establish =>
      obtain rfl := Option.some.inj h
      unfold establish
      split
      · exact FirstContactCoordinator.reports_emit _ _
      · exact .inl rfl
    | enroll | markVerified | revoke | mintInvite | burn | scan | rollback | throwMalformed | redeem
      | echoRouted | block | unblock | release => cases ha

/-- Who is shut out stays shut out under every action that does not readmit him. -/
theorem shutsOut_exec (h : s.exec a reply = some p) (hr : ¬a.Readmits k reply) (hs : s.ShutsOut k) :
    p.1.ShutsOut k := by
  have hunverified := unverified_exec h hr hs.unverified
  refine ⟨denied_exec h hr hs.denied, unlisted_exec h hr hs.unlisted, ?_, ?_, hunverified, ?_⟩
  · rcases blocked_exec h with hsame | ⟨keys, rfl, hkeys⟩
    · rw [hsame]
      exact hs.blocked
    · rw [hkeys]
      exact not_not.mp hr
  · rcases enrolled_exec h k with hsame | ⟨rfl, _⟩ | ⟨_, hout⟩
    · exact fun hk => hs.unenrolled (hsame.mp hk)
    · exact absurd rfl hr
    · exact hout
  · rcases reports_exec h with hsame | hverified
    · rw [hsame]
      exact hs.unreachable
    · exact fun hk => hunverified (hverified hk)

end AeroNyra.Pairing
