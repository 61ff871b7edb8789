import AeroNyra.Lib.Interleave
import AeroNyra.Coordinator.Gates
import AeroNyra.Enrollment.Records

/-! The enrollment and pairing services over the coordinator's gates.  Both services run on the
main actor and the coordinator is an actor of its own, so every `await` between them is a point at
which other calls may run.  A save writes its whole file or throws and changes nothing. -/

namespace AeroNyra

/-- The two services, the files behind them, and the coordinator. -/
structure Pairing where
  allowlistFile : ContactAllowlist
  ledgerFile : PendingInvites
  denylistFile : List BlockedContact
  allowlist : ContactAllowlist
  pending : PendingInvites
  blockedContacts : List BlockedContact
  coordinator : FirstContactCoordinator

namespace Pairing

/-- The composition root over files that load: the services take what was loaded, less the invites
that expired, and the gates are seeded from it. -/
def launch (allowlist : ContactAllowlist) (ledger : PendingInvites) (denylist : List BlockedContact)
    (localIdentity : Data) (now : Int) : Pairing where
  allowlistFile := allowlist
  ledgerFile := ledger
  denylistFile := denylist
  allowlist := allowlist
  -- where one of the sums overflows, the source traps
  pending := (ledger.prune now).getD ledger
  blockedContacts := denylist
  coordinator := ((FirstContactCoordinator.new localIdentity).enableReconnect allowlist.identities
    allowlist.verifiedIdentities).setBlockedIdentities (denylist.map (·.rawKey)).toFinset

/-- What a scanned or pasted code carries once it is decoded. -/
structure Code where
  rawKey : Data
  /-- The invite's identifier and expiry; a pair code has none. -/
  invite : Option (Data × Int)
  deriving DecidableEq

/-- The calls of the two services.  A code that does not decode is `none`. -/
inductive Call
  | enroll (identity : Data) (verified : Bool)
  | markVerified (identity : Data)
  | revoke (identity : Data)
  | mintInvite (ttlMillis : Int)
  | redeemEcho (inviteID redeemerIdentity : Data)
  | pairFromScanned (code : Option Code)
  | redeemInvite (code : Option Code)
  | block (rawKey : Data) (petname : Option String)
  | unblock (rawKey : Data)

/-- The stretches of the calls between two suspension points. -/
inductive Action
  /-- `enroll`, `markVerified` and `revoke` up to their calls of the coordinator. -/
  | enroll (identity : Data) (verified : Bool)
  | markVerified (identity : Data)
  | revoke (identity : Data)
  /-- The coordinator's side of them. -/
  | addReconnectContact (rawIdentity : Data)
  | removeReconnectContact (rawIdentity : Data)
  | addVerifiedContact (rawIdentity : Data)
  | removeVerifiedContact (rawIdentity : Data)
  | setBlockedIdentities (identities : Finset Data)
  | mintInvite (ttlMillis : Int)
  /-- `redeemEcho` up to its `enroll`. -/
  | burn (inviteID redeemerIdentity : Data)
  /-- `pairFromScanned` up to its `enroll`. -/
  | scan (code : Option Code)
  | onBundle (rawKey : Data)
  /-- The compensating `try? revoke` of `pairFromScanned`. -/
  | rollback (identity : Data)
  | throwMalformed
  /-- `redeemInvite` up to the coordinator's `redeemInvite`. -/
  | redeem (code : Option Code)
  /-- The coordinator's `redeemInvite` up to its echo, and after it. -/
  | establish
  | echoRouted
  | block (rawKey : Data) (petname : Option String)
  | unblock (rawKey : Data)
  /-- `unblock` after its `enroll`. -/
  | release (rawKey : Data)
  deriving DecidableEq

/-- What the environment decides for an action: the clock, whether a save or a session operation
succeeds, a random identifier, and a fresh link. -/
structure Reply where
  now : Int := 0
  saved : Bool := true
  ok : Bool := true
  nonce : Data := []
  link : UUID := 0

open Interleave (Exit Machine Thread)

variable (s : Pairing)

def blockedKeys : Finset Data := (s.blockedContacts.map (·.rawKey)).toFinset

/-- Saves `updated` and adopts it, and then goes on with `next`; a save that fails throws. -/
def saveAllowlist (updated : ContactAllowlist) (reply : Reply) (next : List Action) :
    Pairing × Exit Action :=
  if reply.saved then ({ s with allowlistFile := updated, allowlist := updated }, .goOn next)
  else (s, .throw [])

def saveLedger (updated : PendingInvites) (reply : Reply) (next : List Action) :
    Pairing × Exit Action :=
  if reply.saved then ({ s with ledgerFile := updated, pending := updated }, .goOn next)
  else (s, .throw [])

/-- The same for the denylist; the coordinator is then told the whole set. -/
def saveDenylist (updated : List BlockedContact) (reply : Reply) : Pairing × Exit Action :=
  if reply.saved then
    ({ s with denylistFile := updated, blockedContacts := updated },
      .goOn [.setBlockedIdentities (updated.map (·.rawKey)).toFinset])
  else (s, .throw [])

def enroll (identity : Data) (verified : Bool) (reply : Reply) : Pairing × Exit Action :=
  if identity.length = 32 then
    s.saveAllowlist (s.allowlist.enroll identity reply.now verified) reply
      (if verified then [.addReconnectContact identity, .addVerifiedContact identity]
        else [.addReconnectContact identity])
  else (s, .throw [])

def markVerified (identity : Data) (reply : Reply) : Pairing × Exit Action :=
  if s.allowlist.contains identity && !s.allowlist.isVerified identity then
    s.saveAllowlist (s.allowlist.markVerified identity) reply [.addVerifiedContact identity]
  else (s, .goOn [])

def revoke (identity : Data) (reply : Reply) : Pairing × Exit Action :=
  if s.allowlist.contains identity then
    s.saveAllowlist (s.allowlist.revoke identity) reply
      [.removeReconnectContact identity, .removeVerifiedContact identity]
  else (s, .goOn [])

/-- `revoke` under `try?`. -/
def rollback (identity : Data) (reply : Reply) : Pairing × Exit Action :=
  match s.revoke identity reply with
  | (s', .goOn next) => (s', .goOn next)
  | (s', .throw _) => (s', .goOn [])

/-- None where the clock arithmetic traps. -/
def mintInvite (ttlMillis : Int) (reply : Reply) : Option (Pairing × Exit Action) := do
  let expiresAt ← addMillis reply.now ttlMillis
  let pruned ← s.pending.prune reply.now
  return s.saveLedger (pruned.register reply.nonce expiresAt) reply []

def burn (inviteID redeemerIdentity : Data) (reply : Reply) : Option (Pairing × Exit Action) :=
  if redeemerIdentity.length = 32 then
    (s.pending.consume inviteID reply.now).map fun p =>
      if p.1 then s.saveLedger p.2 reply [.enroll redeemerIdentity false] else (s, .goOn [])
  else some (s, .throw [])

/-- The code is refused when it does not decode, is our own, or belongs to a blocked contact. -/
def admits (code : Option Code) : Option Code :=
  code.filter fun code => code.rawKey != s.coordinator.localIdentity && !decide
    (code.rawKey ∈ s.blockedKeys)

def scan (code : Option Code) : Pairing × Exit Action :=
  match s.admits code with
  | some code => (s, .goOn [.enroll code.rawKey true, .onBundle code.rawKey])
  | none => (s, .throw [])

def onBundle (rawKey : Data) (reply : Reply) : Pairing × Exit Action :=
  let p := s.coordinator.onBundle reply.link (some rawKey) reply.ok
  ({ s with coordinator := p.1 },
    match p.2 with
    | .initiated | .responder => .goOn []
    | .malformed | .droppedUnenrolled | .initiateFailed =>
      .goOn [.rollback rawKey, .throwMalformed])

/-- None where the expiry check traps. -/
def redeem (code : Option Code) (reply : Reply) : Option (Pairing × Exit Action) :=
  match code with
  | some ⟨_, some (_, expiresAt)⟩ =>
    (addMillis expiresAt Invite.defaultSkewMillis).map fun last =>
      match s.admits code with
      | some code =>
        if last < reply.now then (s, .throw [])
        else if s.allowlist.contains code.rawKey then (s, .goOn [])
        else (s, .goOn [.establish, .echoRouted, .enroll code.rawKey false])
      | none => (s, .throw [])
  | _ => some (s, .throw [])

def establish (reply : Reply) : Pairing × Exit Action :=
  if reply.ok then ({ s with coordinator := s.coordinator.emitReachablePeers }, .goOn [])
  else (s, .throw [])

def block (rawKey : Data) (petname : Option String) (reply : Reply) : Pairing × Exit Action :=
  s.saveDenylist (s.blockedContacts.filter (·.rawKey != rawKey) ++
    [⟨rawKey, reply.now, petname, s.allowlist.isVerified rawKey⟩]) reply

def unblock (rawKey : Data) : Pairing × Exit Action :=
  match s.blockedContacts.find? (·.rawKey == rawKey) with
  | some entry => (s, .goOn [.enroll rawKey entry.wasVerified, .release rawKey])
  | none => (s, .goOn [])

def release (rawKey : Data) (reply : Reply) : Pairing × Exit Action :=
  s.saveDenylist (s.blockedContacts.filter (·.rawKey != rawKey)) reply

/-- An action of the coordinator, which does not throw. -/
def onCoordinator (f : FirstContactCoordinator → FirstContactCoordinator) :
    Option (Pairing × Exit Action) :=
  some ({ s with coordinator := f s.coordinator }, .goOn [])

def exec : Action → Reply → Option (Pairing × Exit Action)
  | .enroll identity verified, reply => some (s.enroll identity verified reply)
  | .markVerified identity, reply => some (s.markVerified identity reply)
  | .revoke identity, reply => some (s.revoke identity reply)
  | .addReconnectContact k, _ => s.onCoordinator (·.addReconnectContact k)
  | .removeReconnectContact k, _ => s.onCoordinator (·.removeReconnectContact k)
  | .addVerifiedContact k, _ => s.onCoordinator (·.addVerifiedContact k)
  | .removeVerifiedContact k, _ => s.onCoordinator (·.removeVerifiedContact k)
  | .setBlockedIdentities keys, _ => s.onCoordinator (·.setBlockedIdentities keys)
  | .mintInvite ttlMillis, reply => s.mintInvite ttlMillis reply
  | .burn inviteID redeemer, reply => s.burn inviteID redeemer reply
  | .scan code, _ => some (s.scan code)
  | .onBundle rawKey, reply => some (s.onBundle rawKey reply)
  | .rollback identity, reply => some (s.rollback identity reply)
  | .throwMalformed, _ => some (s, .throw [])
  | .redeem code, reply => s.redeem code reply
  | .establish, reply => some (s.establish reply)
  | .echoRouted, reply => some (s, if reply.ok then .goOn [] else .throw [])
  | .block rawKey petname, reply => some (s.block rawKey petname reply)
  | .unblock rawKey, _ => some (s.unblock rawKey)
  | .release rawKey, reply => some (s.release rawKey reply)

/-- The actions of each call. -/
def thread : Call → Thread Action
  | .enroll identity verified => ⟨[.enroll identity verified], []⟩
  | .markVerified identity => ⟨[.markVerified identity], []⟩
  | .revoke identity => ⟨[.revoke identity], []⟩
  | .mintInvite ttlMillis => ⟨[.mintInvite ttlMillis], []⟩
  | .redeemEcho inviteID redeemer => ⟨[.burn inviteID redeemer], []⟩
  | .pairFromScanned code => ⟨[.scan code], []⟩
  | .redeemInvite code => ⟨[.redeem code], []⟩
  | .block rawKey petname => ⟨[.block rawKey petname, .revoke rawKey], []⟩
  | .unblock rawKey => ⟨[.unblock rawKey], []⟩

/-- The services with their calls in progress. -/
def machine : Machine Pairing Action Call Reply := ⟨thread, exec⟩

/-! ### What an action does to the allowlist and to the gates -/

/-- The coordinator's side of an enrollment, a verification or a removal. -/
def Action.isGate : Action → Bool
  | .addReconnectContact _ | .removeReconnectContact _ => true
  | .addVerifiedContact _ | .removeVerifiedContact _ => true
  | _ => false

/-- The gates and the allowlist are the same. -/
structure SameGates (s s' : Pairing) : Prop where
  enabled : s'.coordinator.reconnectEnabled = s.coordinator.reconnectEnabled
  enrolled : s'.coordinator.reconnectAllowlistIdentities =
    s.coordinator.reconnectAllowlistIdentities
  verified : s'.coordinator.verifiedIdentities = s.coordinator.verifiedIdentities

theorem SameGates.refl (s : Pairing) : SameGates s s := ⟨rfl, rfl, rfl⟩

/-- The kinds of actions: those that leave allowlist and gates alone, those that save and adopt a
changed allowlist and leave the gates to the actions that they add, and those of the coordinator. -/
inductive Effect (s : Pairing) (reply : Reply) : Action → Pairing → Exit Action → Prop
  | quiet {a s' x} (gate : a.isGate = false) (file : s'.allowlistFile = s.allowlistFile)
      (live : s'.allowlist = s.allowlist) (gates : SameGates s s')
      (adds : ∀ b ∈ x.added, b.isGate = false) : Effect s reply a s' x
  | enroll (k v) (size : k.length = 32) (saved : reply.saved) :
      Effect s reply (.enroll k v)
        { s with
          allowlistFile := s.allowlist.enroll k reply.now v
          allowlist := s.allowlist.enroll k reply.now v }
        (.goOn (if v then [.addReconnectContact k, .addVerifiedContact k]
          else [.addReconnectContact k]))
  | verify (k) (enrolled : s.allowlist.contains k) :
      Effect s reply (.markVerified k)
        { s with
          allowlistFile := s.allowlist.markVerified k
          allowlist := s.allowlist.markVerified k }
        (.goOn [.addVerifiedContact k])
  | revoke {a} (k) (by_ : a = .revoke k ∨ a = .rollback k) (saved : reply.saved) :
      Effect s reply a
        { s with allowlistFile := s.allowlist.revoke k, allowlist := s.allowlist.revoke k }
        (.goOn [.removeReconnectContact k, .removeVerifiedContact k])
  | addReconnect (k) : Effect s reply (.addReconnectContact k)
      { s with coordinator := s.coordinator.addReconnectContact k } (.goOn [])
  | removeReconnect (k) : Effect s reply (.removeReconnectContact k)
      { s with coordinator := s.coordinator.removeReconnectContact k } (.goOn [])
  | addVerified (k) : Effect s reply (.addVerifiedContact k)
      { s with coordinator := s.coordinator.addVerifiedContact k } (.goOn [])
  | removeVerified (k) : Effect s reply (.removeVerifiedContact k)
      { s with coordinator := s.coordinator.removeVerifiedContact k } (.goOn [])

namespace Effect

variable {s : Pairing} {reply : Reply} {a : Action}

theorem still {x : Exit Action} (gate : a.isGate = false) (adds : ∀ b ∈ x.added, b.isGate = false) :
    Effect s reply a s x :=
  .quiet gate rfl rfl (.refl s) adds

theorem saveLedger (updated : PendingInvites) (next : List Action) (gate : a.isGate = false)
    (adds : ∀ b ∈ next, b.isGate = false) :
    Effect s reply a (s.saveLedger updated reply next).1 (s.saveLedger updated reply next).2 := by
  unfold Pairing.saveLedger
  split
  · exact .quiet gate rfl rfl ⟨rfl, rfl, rfl⟩ adds
  · exact still gate (by simp [Exit.added])

theorem saveDenylist (updated : List BlockedContact) (gate : a.isGate = false) :
    Effect s reply a (s.saveDenylist updated reply).1 (s.saveDenylist updated reply).2 := by
  unfold Pairing.saveDenylist
  split
  · exact .quiet gate rfl rfl ⟨rfl, rfl, rfl⟩ (by simp [Exit.added, Action.isGate])
  · exact still gate (by simp [Exit.added])

theorem of_enroll (k : Data) (v : Bool) :
    Effect s reply (.enroll k v) (s.enroll k v reply).1 (s.enroll k v reply).2 := by
  unfold Pairing.enroll Pairing.saveAllowlist
  split
  · split
    · exact .enroll k v ‹_› ‹_›
    · exact still rfl (by simp [Exit.added])
  · exact still rfl (by simp [Exit.added])

theorem of_markVerified (k : Data) :
    Effect s reply (.markVerified k) (s.markVerified k reply).1 (s.markVerified k reply).2 := by
  unfold Pairing.markVerified Pairing.saveAllowlist
  split
  · rename_i h
    split
    · exact .verify k (by simp at h; exact h.1)
    · exact still rfl (by simp [Exit.added])
  · exact still rfl (by simp [Exit.added])

theorem of_revoke (k : Data) :
    Effect s reply (.revoke k) (s.revoke k reply).1 (s.revoke k reply).2 := by
  unfold Pairing.revoke Pairing.saveAllowlist
  split
  · split
    · exact .revoke k (.inl rfl) ‹_›
    · exact still rfl (by simp [Exit.added])
  · exact still rfl (by simp [Exit.added])

theorem of_rollback (k : Data) :
    Effect s reply (.rollback k) (s.rollback k reply).1 (s.rollback k reply).2 := by
  unfold Pairing.rollback Pairing.revoke Pairing.saveAllowlist
  split
  · rename_i hrevoke
    split at hrevoke
    · split at hrevoke
      · cases hrevoke
        exact .revoke k (.inr rfl) ‹_›
      · cases hrevoke
    · cases hrevoke
      exact still rfl (by simp [Exit.added])
  · rename_i hrevoke
    split at hrevoke
    · split at hrevoke
      · cases hrevoke
      · cases hrevoke
        exact still rfl (by simp [Exit.added])
    · cases hrevoke

theorem of_onBundle (k : Data) :
    Effect s reply (.onBundle k) (s.onBundle k reply).1 (s.onBundle k reply).2 := by
  refine .quiet rfl rfl rfl ?_ ?_
  · simp only [Pairing.onBundle, FirstContactCoordinator.onBundle]
    split
    · exact ⟨rfl, rfl, rfl⟩
    · exact .refl s
  · simp only [Pairing.onBundle]
    split <;> simp [Exit.added, Action.isGate]

end Effect

theorem exec_effect {s : Pairing} {a : Action} {reply : Reply} {p : Pairing × Exit Action}
    (h : s.exec a reply = some p) : Effect s reply a p.1 p.2 := by
  cases a with
  | enroll k v =>
    obtain rfl := Option.some.inj h
    exact .of_enroll k v
  | markVerified k =>
    obtain rfl := Option.some.inj h
    exact .of_markVerified k
  | revoke k =>
    obtain rfl := Option.some.inj h
    exact .of_revoke k
  | addReconnectContact k =>
    obtain rfl := Option.some.inj h
    exact .addReconnect k
  | removeReconnectContact k =>
    obtain rfl := Option.some.inj h
    exact .removeReconnect k
  | addVerifiedContact k =>
    obtain rfl := Option.some.inj h
    exact .addVerified k
  | removeVerifiedContact k =>
    obtain rfl := Option.some.inj h
    exact .removeVerified k
  | setBlockedIdentities keys =>
    obtain rfl := Option.some.inj h
    exact .quiet rfl rfl rfl ⟨rfl, rfl, rfl⟩ (by simp [Exit.added])
  | mintInvite ttlMillis =>
    simp only [exec, mintInvite, Option.bind_eq_bind, Option.bind_eq_some_iff] at h
    obtain ⟨expiresAt, _, pruned, _, h⟩ := h
    obtain rfl := Option.some.inj h
    exact .saveLedger _ _ rfl (by simp)
  | burn inviteID redeemer =>
    simp only [exec, burn] at h
    split at h
    · obtain ⟨⟨burned, updated⟩, _, rfl⟩ := Option.map_eq_some_iff.mp h
      dsimp only
      split
      · exact .saveLedger _ _ rfl (by simp [Action.isGate])
      · exact .still rfl (by simp [Exit.added])
    · obtain rfl := Option.some.inj h
      exact .still rfl (by simp [Exit.added])
  | scan code =>
    obtain rfl := Option.some.inj h
    unfold scan
    split
    · exact .still rfl (by simp [Exit.added, Action.isGate])
    · exact .still rfl (by simp [Exit.added])
  | onBundle k =>
    obtain rfl := Option.some.inj h
    exact .of_onBundle k
  | rollback k =>
    obtain rfl := Option.some.inj h
    exact .of_rollback k
  | throwMalformed =>
    obtain rfl := Option.some.inj h
    exact .still rfl (by simp [Exit.added])
  | redeem code =>
    simp only [exec, redeem] at h
    split at h
    · obtain ⟨last, _, rfl⟩ := Option.map_eq_some_iff.mp h
      split
      · split
        · exact .still rfl (by simp [Exit.added])
        · split
          · exact .still rfl (by simp [Exit.added])
          · exact .still rfl (by simp [Exit.added, Action.isGate])
      · exact .still rfl (by simp [Exit.added])
    · obtain rfl := Option.some.inj h
      exact .still rfl (by simp [Exit.added])
  | establish =>
    obtain rfl := Option.some.inj h
    unfold establish
    split
    · exact .quiet rfl rfl rfl ⟨rfl, rfl, rfl⟩ (by simp [Exit.added])
    · exact .still rfl (by simp [Exit.added])
  | echoRouted =>
    obtain rfl := Option.some.inj h
    dsimp only
    split <;> exact .still rfl (by simp [Exit.added])
  | block k petname =>
    obtain rfl := Option.some.inj h
    exact .saveDenylist _ rfl
  | unblock k =>
    obtain rfl := Option.some.inj h
    unfold unblock
    split
    · exact .still rfl (by simp [Exit.added, Action.isGate])
    · exact .still rfl (by simp [Exit.added])
  | release k =>
    obtain rfl := Option.some.inj h
    exact .saveDenylist _ rfl

/-! ### Whose state an action changes -/

/-- The action runs on the coordinator; the others are on the main actor. -/
def Action.onActor : Action → Bool
  | .addReconnectContact _ | .removeReconnectContact _ => true
  | .addVerifiedContact _ | .removeVerifiedContact _ | .setBlockedIdentities _ => true
  | .onBundle _ | .establish => true
  | _ => false

section Coordinator

variable {s : Pairing} {a : Action} {reply : Reply} {p : Pairing × Exit Action}

theorem coordinator_saveAllowlist {updated : ContactAllowlist} {next : List Action} :
    (s.saveAllowlist updated reply next).1.coordinator = s.coordinator := by
  unfold saveAllowlist
  split <;> rfl

theorem coordinator_saveLedger {updated : PendingInvites} {next : List Action} :
    (s.saveLedger updated reply next).1.coordinator = s.coordinator := by
  unfold saveLedger
  split <;> rfl

theorem coordinator_saveDenylist {updated : List BlockedContact} :
    (s.saveDenylist updated reply).1.coordinator = s.coordinator := by
  unfold saveDenylist
  split <;> rfl

theorem coordinator_revoke {k : Data} : (s.revoke k reply).1.coordinator = s.coordinator := by
  unfold revoke
  split
  · exact coordinator_saveAllowlist
  · rfl

/-- The services leave the coordinator alone between their calls of it. -/
theorem coordinator_exec (ha : a.onActor = false) (h : s.exec a reply = some p) :
    p.1.coordinator = s.coordinator := by
  cases a with
  | enroll k v =>
    obtain rfl := Option.some.inj h
    unfold enroll
    split
    · exact coordinator_saveAllowlist
    · rfl
  | markVerified k =>
    obtain rfl := Option.some.inj h
    unfold markVerified
    split
    · exact coordinator_saveAllowlist
    · rfl
  | revoke k =>
    obtain rfl := Option.some.inj h
    exact coordinator_revoke
  | mintInvite ttlMillis =>
    simp only [exec, mintInvite, Option.bind_eq_bind, Option.bind_eq_some_iff] at h
    obtain ⟨expiresAt, _, pruned, _, h⟩ := h
    obtain rfl := Option.some.inj h
    exact coordinator_saveLedger
  | burn inviteID redeemer =>
    simp only [exec, burn] at h
    split at h
    · obtain ⟨q, _, rfl⟩ := Option.map_eq_some_iff.mp h
      split
      · exact coordinator_saveLedger
      · rfl
    · obtain rfl := Option.some.inj h
      rfl
  | scan code =>
    obtain rfl := Option.some.inj h
    unfold scan
    split <;> rfl
  | rollback k =>
    obtain rfl := Option.some.inj h
    have hrevoke : (s.revoke k reply).1.coordinator = s.coordinator := coordinator_revoke
    unfold rollback
    split
    · rename_i heq
      rwa [heq] at hrevoke
    · rename_i heq
      rwa [heq] at hrevoke
  | redeem code =>
    simp only [exec, redeem] at h
    split at h
    · obtain ⟨last, _, rfl⟩ := Option.map_eq_some_iff.mp h
      split
      · split
        · rfl
        · split <;> rfl
      · rfl
    · obtain rfl := Option.some.inj h
      rfl
  | throwMalformed | echoRouted =>
    obtain rfl := Option.some.inj h
    rfl
  | block k petname =>
    obtain rfl := Option.some.inj h
    exact coordinator_saveDenylist
  | unblock k =>
    obtain rfl := Option.some.inj h
    unfold unblock
    split <;> rfl
  | release k =>
    obtain rfl := Option.some.inj h
    exact coordinator_saveDenylist
  | addReconnectContact | removeReconnectContact | addVerifiedContact | removeVerifiedContact
    | setBlockedIdentities | onBundle | establish => cases ha

theorem onBundle_eq (s : Pairing) (k : Data) (reply : Reply) :
    ∃ links keys emitted, (s.onBundle k reply).1.coordinator = { s.coordinator with
      linkPeers := links
      lastReachableKeys := keys
      reachablePeers := emitted } := by
  unfold onBundle FirstContactCoordinator.onBundle
  dsimp only
  split
  · exact ⟨_, _, _, rfl⟩
  · exact ⟨_, _, _, rfl⟩

theorem establish_eq (s : Pairing) (reply : Reply) :
    ∃ keys emitted, (s.establish reply).1.coordinator = { s.coordinator with
      lastReachableKeys := keys
      reachablePeers := emitted } := by
  unfold establish
  split <;> exact ⟨_, _, rfl⟩

theorem added_burn {inviteID redeemer : Data} (h : s.burn inviteID redeemer reply = some p)
    {b : Action} (hb : b ∈ p.2.added) : b = .enroll redeemer false := by
  unfold burn at h
  split at h
  · obtain ⟨q, _, rfl⟩ := Option.map_eq_some_iff.mp h
    split at hb
    · unfold saveLedger at hb
      split at hb
      · exact List.mem_singleton.mp hb
      · cases hb
    · cases hb
  · obtain rfl := Option.some.inj h
    cases hb

/-- A redemption that goes on has admitted its code. -/
theorem admitted_of_redeem {code : Code} (h : s.redeem (some code) reply = some p) {b : Action}
    (hb : b ∈ p.2.added) : code.rawKey ∉ s.blockedKeys := by
  unfold redeem at h
  split at h
  · rename_i heq
    cases heq
    obtain ⟨last, _, rfl⟩ := Option.map_eq_some_iff.mp h
    split at hb
    · rename_i hadmits
      obtain ⟨hcode, hpasses⟩ := Option.filter_eq_some_iff.mp hadmits
      obtain rfl := Option.some.inj hcode
      simp only [Bool.and_eq_true, Bool.not_eq_true', decide_eq_false_iff_not] at hpasses
      exact hpasses.2
    · cases hb
  · obtain rfl := Option.some.inj h
    cases hb

/-- The blocked identities are only ever replaced as a whole. -/
theorem blocked_exec (h : s.exec a reply = some p) :
    p.1.coordinator.blockedIdentities = s.coordinator.blockedIdentities ∨
      ∃ keys, a = .setBlockedIdentities keys ∧ p.1.coordinator.blockedIdentities = keys := by
  cases ha : a.onActor with
  | false => exact .inl (by rw [coordinator_exec ha h])
  | true =>
    cases a with
    | setBlockedIdentities keys =>
      obtain rfl := Option.some.inj h
      exact .inr ⟨keys, rfl, rfl⟩
    | addReconnectContact k =>
      obtain rfl := Option.some.inj h
      exact .inl (FirstContactCoordinator.addReconnectContact_blocked k)
    | removeReconnectContact k =>
      obtain rfl := Option.some.inj h
      exact .inl (FirstContactCoordinator.removeReconnectContact_blocked k)
    | addVerifiedContact k =>
      obtain rfl := Option.some.inj h
      exact .inl (FirstContactCoordinator.addVerifiedContact_blocked k)
    | removeVerifiedContact k =>
      obtain rfl := Option.some.inj h
      exact .inl (FirstContactCoordinator.removeVerifiedContact_blocked k)
    | onBundle k =>
      obtain rfl := Option.some.inj h
      obtain ⟨_, _, _, heq⟩ := onBundle_eq s k reply
      exact .inl (by rw [heq])
    | establish =>
      obtain rfl := Option.some.inj h
      obtain ⟨_, _, heq⟩ := establish_eq s reply
      exact .inl (by rw [heq])
    | enroll | markVerified | revoke | mintInvite | burn | scan | rollback | throwMalformed | redeem
      | echoRouted | block | unblock | release => cases ha

/-- One identity at a time is admitted, or goes. -/
theorem enrolled_exec (h : s.exec a reply = some p) (j : Data) :
    (j ∈ p.1.coordinator.reconnectAllowlistIdentities ↔
      j ∈ s.coordinator.reconnectAllowlistIdentities) ∨
    (a = .addReconnectContact j ∧ j ∈ p.1.coordinator.reconnectAllowlistIdentities) ∨
      (a = .removeReconnectContact j ∧ j ∉ p.1.coordinator.reconnectAllowlistIdentities) := by
  cases ha : a.onActor with
  | false => exact .inl (by rw [coordinator_exec ha h])
  | true =>
    cases a with
    | addReconnectContact k =>
      obtain rfl := Option.some.inj h
      by_cases hj : j ∈ (s.coordinator.addReconnectContact k).reconnectAllowlistIdentities
      · rw [FirstContactCoordinator.addReconnectContact_enrolled] at hj
        by_cases hkj : k = j
        · refine .inr (.inl ⟨by rw [hkj], ?_⟩)
          show j ∈ (s.coordinator.addReconnectContact k).reconnectAllowlistIdentities
          rwa [FirstContactCoordinator.addReconnectContact_enrolled]
        · refine .inl ?_
          show j ∈ (s.coordinator.addReconnectContact k).reconnectAllowlistIdentities ↔ _
          rw [FirstContactCoordinator.addReconnectContact_enrolled]
          split <;> simp [Ne.symm hkj]
      · refine .inl (iff_of_false hj fun hold => hj ?_)
        rw [FirstContactCoordinator.addReconnectContact_enrolled]
        split
        · exact List.mem_append_left _ hold
        · exact hold
    | removeReconnectContact k =>
      obtain rfl := Option.some.inj h
      have hiff := FirstContactCoordinator.mem_removeReconnectContact (c := s.coordinator) j k
      by_cases hjk : j = k
      · refine .inr (.inr ⟨by rw [hjk], fun hj => ?_⟩)
        exact (hiff.mp hj).1 hjk
      · exact .inl (hiff.trans (and_iff_right hjk))
    | setBlockedIdentities keys =>
      obtain rfl := Option.some.inj h
      exact .inl .rfl
    | addVerifiedContact k =>
      obtain rfl := Option.some.inj h
      have hsame := FirstContactCoordinator.addVerifiedContact_enrolled (c := s.coordinator) k
      exact .inl (Eq.to_iff (congrArg (j ∈ ·) hsame))
    | removeVerifiedContact k =>
      obtain rfl := Option.some.inj h
      have hsame := FirstContactCoordinator.removeVerifiedContact_enrolled (c := s.coordinator) k
      exact .inl (Eq.to_iff (congrArg (j ∈ ·) hsame))
    | onBundle k =>
      obtain rfl := Option.some.inj h
      obtain ⟨_, _, _, heq⟩ := onBundle_eq s k reply
      exact .inl (by rw [heq])
    | establish =>
      obtain rfl := Option.some.inj h
      obtain ⟨_, _, heq⟩ := establish_eq s reply
      exact .inl (by rw [heq])
    | enroll | markVerified | revoke | mintInvite | burn | scan | rollback | throwMalformed | redeem
      | echoRouted | block | unblock | release => cases ha

end Coordinator

/-- Who is admitted, and who is not, is the same for the services and for the coordinator. -/
structure SameAccess (s s' : Pairing) : Prop where
  allowlist : s'.allowlist = s.allowlist
  blockedContacts : s'.blockedContacts = s.blockedContacts
  enrolled : s'.coordinator.reconnectAllowlistIdentities =
    s.coordinator.reconnectAllowlistIdentities
  verified : s'.coordinator.verifiedIdentities = s.coordinator.verifiedIdentities
  blocked : s'.coordinator.blockedIdentities = s.coordinator.blockedIdentities

theorem SameAccess.refl (s : Pairing) : SameAccess s s := ⟨rfl, rfl, rfl, rfl, rfl⟩

/-- Burning an invite touches the ledger alone. -/
theorem sameAccess_burn {s : Pairing} {inviteID redeemer : Data} {reply : Reply}
    {p : Pairing × Exit Action} (h : s.burn inviteID redeemer reply = some p) :
    SameAccess s p.1 := by
  unfold burn at h
  split at h
  · obtain ⟨q, _, rfl⟩ := Option.map_eq_some_iff.mp h
    split
    · unfold saveLedger
      split <;> exact ⟨rfl, rfl, rfl, rfl, rfl⟩
    · exact .refl s
  · obtain rfl := Option.some.inj h
    exact .refl s

end Pairing

end AeroNyra
