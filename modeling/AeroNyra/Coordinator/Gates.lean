import AeroNyra.Lib.Dict
import AeroNyra.Core.Message
import Mathlib.Data.Finset.Option
import Mathlib.Data.Finset.Union

/-! The live admission gates and the presence of the first-contact coordinator: which identities
are enrolled, verified or blocked, which identity each link belongs to, and the sets of reachable
identities that it emits.  An identity is its raw 32-byte key, and a link is its UUID. -/

namespace AeroNyra

structure FirstContactCoordinator where
  /-- Our own raw identity key. -/
  localIdentity : Data
  reconnectEnabled : Bool
  reconnectAllowlistIdentities : List Data
  verifiedIdentities : Finset Data
  blockedIdentities : Finset Data
  linkPeers : Dict UUID Data
  reachableLinks : Finset UUID
  greetedLinks : Finset UUID
  lastReachableKeys : Finset Data
  /-- The sets emitted so far, the oldest first. -/
  reachablePeers : List (Finset Data)

namespace FirstContactCoordinator

/-- The coordinator before `enableReconnect`. -/
def new (localIdentity : Data) : FirstContactCoordinator :=
  ⟨localIdentity, false, [], ∅, ∅, ∅, ∅, ∅, ∅, []⟩

variable (c : FirstContactCoordinator)

def enableReconnect (allowlistIdentities verifiedIdentities : List Data) :
    FirstContactCoordinator :=
  { c with
    reconnectAllowlistIdentities := allowlistIdentities
    verifiedIdentities := verifiedIdentities.toFinset
    reconnectEnabled := true }

/-- The identities of the reachable links that are verified. -/
def reachableKeys : Finset Data :=
  (c.reachableLinks.biUnion fun link => (c.linkPeers.lookup link).toFinset).filter
    (· ∈ c.verifiedIdentities)

def emitReachablePeers : FirstContactCoordinator :=
  { c with
    lastReachableKeys := c.reachableKeys
    reachablePeers := c.reachablePeers ++ [c.reachableKeys] }

def addReconnectContact (rawIdentity : Data) : FirstContactCoordinator :=
  if c.reconnectEnabled && rawIdentity.length == 32 then
    if rawIdentity ∈ c.reconnectAllowlistIdentities then c
    else { c with reconnectAllowlistIdentities := c.reconnectAllowlistIdentities ++ [rawIdentity] }
  else c

def removeReconnectContact (rawIdentity : Data) : FirstContactCoordinator :=
  if rawIdentity ∈ c.reconnectAllowlistIdentities then
    emitReachablePeers { c with
      reconnectAllowlistIdentities := c.reconnectAllowlistIdentities.filter (· != rawIdentity)
      linkPeers := c.linkPeers.filterValues (· != rawIdentity) }
  else c

def addVerifiedContact (rawIdentity : Data) : FirstContactCoordinator :=
  if c.reconnectEnabled && rawIdentity.length == 32 then
    if rawIdentity ∈ c.verifiedIdentities then c
    else emitReachablePeers { c with verifiedIdentities := insert rawIdentity c.verifiedIdentities }
  else c

def removeVerifiedContact (rawIdentity : Data) : FirstContactCoordinator :=
  if rawIdentity ∈ c.verifiedIdentities then
    emitReachablePeers { c with verifiedIdentities := c.verifiedIdentities.erase rawIdentity }
  else c

def setBlockedIdentities (identities : Finset Data) : FirstContactCoordinator :=
  { c with blockedIdentities := identities }

/-- What `onBundle` reports to the pairing flows. -/
inductive BundleOutcome
  | initiated
  | responder
  | malformed
  | droppedUnenrolled
  | initiateFailed
  deriving DecidableEq

/-- The tie-break: the side with the higher identity key initiates. -/
def initiates (theirs : Data) : Bool := theirs < c.localIdentity

/-- `onBundle` for a bundle that parses to the identity `rawKey`, or does not parse; `established`
is whether `establishSession` succeeds. -/
def onBundle (link : UUID) (rawKey : Option Data) (established : Bool) :
    FirstContactCoordinator × BundleOutcome :=
  match rawKey with
  | none => (c, .malformed)
  | some rawKey =>
    if rawKey ∈ c.reconnectAllowlistIdentities then
      (emitReachablePeers { c with linkPeers := AList.insert link rawKey c.linkPeers },
        if c.initiates rawKey then if established then .initiated else .initiateFailed
        else .responder)
    else (c, .droppedUnenrolled)

/-! ### What the operations leave of the gates -/

variable {c} (j k : Data)

@[simp] theorem emitReachablePeers_enrolled :
    c.emitReachablePeers.reconnectAllowlistIdentities = c.reconnectAllowlistIdentities := rfl

@[simp] theorem emitReachablePeers_verified :
    c.emitReachablePeers.verifiedIdentities = c.verifiedIdentities := rfl

theorem mem_addReconnectContact (he : c.reconnectEnabled) :
    j ∈ (c.addReconnectContact k).reconnectAllowlistIdentities ↔
      (j = k ∧ k.length = 32) ∨ j ∈ c.reconnectAllowlistIdentities := by
  unfold addReconnectContact
  by_cases hk : k.length = 32
  · simp only [he, hk, beq_self_eq_true, Bool.and_self, ↓reduceIte, and_true]
    split
    · rename_i hmem
      exact ⟨.inr, fun h => h.elim (fun e => e ▸ hmem) id⟩
    · simp [or_comm]
  · simp [he, hk]

theorem mem_removeReconnectContact :
    j ∈ (c.removeReconnectContact k).reconnectAllowlistIdentities ↔
      j ≠ k ∧ j ∈ c.reconnectAllowlistIdentities := by
  unfold removeReconnectContact
  split
  · simp [and_comm]
  · rename_i hmem
    exact ⟨fun h => ⟨fun e => hmem (e ▸ h), h⟩, And.right⟩

theorem addReconnectContact_enrolled :
    (c.addReconnectContact k).reconnectAllowlistIdentities =
      if c.reconnectEnabled ∧ k.length = 32 ∧ k ∉ c.reconnectAllowlistIdentities then
        c.reconnectAllowlistIdentities ++ [k]
      else c.reconnectAllowlistIdentities := by
  unfold addReconnectContact
  by_cases hadmit : c.reconnectEnabled && k.length == 32
  · rw [if_pos hadmit]
    rw [Bool.and_eq_true, beq_iff_eq] at hadmit
    by_cases hk : k ∈ c.reconnectAllowlistIdentities
    · simp [hk]
    · simp [hk, hadmit]
  · rw [if_neg hadmit]
    rw [Bool.and_eq_true, beq_iff_eq] at hadmit
    exact (if_neg fun h => hadmit ⟨h.1, h.2.1⟩).symm

theorem removeReconnectContact_enrolled :
    (c.removeReconnectContact k).reconnectAllowlistIdentities =
      c.reconnectAllowlistIdentities.filter (· != k) := by
  unfold removeReconnectContact
  split
  · rfl
  · rename_i hk
    refine (List.filter_eq_self.mpr fun j hj => ?_).symm
    exact bne_iff_ne.mpr fun e => hk (e ▸ hj)

theorem mem_addVerifiedContact (he : c.reconnectEnabled) :
    j ∈ (c.addVerifiedContact k).verifiedIdentities ↔
      (j = k ∧ k.length = 32) ∨ j ∈ c.verifiedIdentities := by
  unfold addVerifiedContact
  by_cases hk : k.length = 32
  · simp only [he, hk, beq_self_eq_true, Bool.and_self, ↓reduceIte, and_true]
    split
    · rename_i hmem
      exact ⟨.inr, fun h => h.elim (fun e => e ▸ hmem) id⟩
    · simp
  · simp [he, hk]

theorem mem_removeVerifiedContact :
    j ∈ (c.removeVerifiedContact k).verifiedIdentities ↔ j ≠ k ∧ j ∈ c.verifiedIdentities := by
  unfold removeVerifiedContact
  split
  · simp
  · rename_i hmem
    exact ⟨fun h => ⟨fun e => hmem (e ▸ h), h⟩, And.right⟩

@[simp] theorem addReconnectContact_verified :
    (c.addReconnectContact k).verifiedIdentities = c.verifiedIdentities := by
  unfold addReconnectContact
  split
  · split <;> rfl
  · rfl

@[simp] theorem removeReconnectContact_verified :
    (c.removeReconnectContact k).verifiedIdentities = c.verifiedIdentities := by
  unfold removeReconnectContact
  split <;> rfl

@[simp] theorem addVerifiedContact_enrolled :
    (c.addVerifiedContact k).reconnectAllowlistIdentities = c.reconnectAllowlistIdentities := by
  unfold addVerifiedContact
  split
  · split <;> rfl
  · rfl

@[simp] theorem removeVerifiedContact_enrolled :
    (c.removeVerifiedContact k).reconnectAllowlistIdentities = c.reconnectAllowlistIdentities := by
  unfold removeVerifiedContact
  split <;> rfl

@[simp] theorem addReconnectContact_blocked :
    (c.addReconnectContact k).blockedIdentities = c.blockedIdentities := by
  unfold addReconnectContact
  split
  · split <;> rfl
  · rfl

@[simp] theorem removeReconnectContact_blocked :
    (c.removeReconnectContact k).blockedIdentities = c.blockedIdentities := by
  unfold removeReconnectContact
  split <;> rfl

@[simp] theorem addVerifiedContact_blocked :
    (c.addVerifiedContact k).blockedIdentities = c.blockedIdentities := by
  unfold addVerifiedContact
  split
  · split <;> rfl
  · rfl

@[simp] theorem removeVerifiedContact_blocked :
    (c.removeVerifiedContact k).blockedIdentities = c.blockedIdentities := by
  unfold removeVerifiedContact
  split <;> rfl

@[simp] theorem addReconnectContact_enabled :
    (c.addReconnectContact k).reconnectEnabled = c.reconnectEnabled := by
  unfold addReconnectContact
  split
  · split <;> rfl
  · rfl

@[simp] theorem removeReconnectContact_enabled :
    (c.removeReconnectContact k).reconnectEnabled = c.reconnectEnabled := by
  unfold removeReconnectContact
  split <;> rfl

@[simp] theorem addVerifiedContact_enabled :
    (c.addVerifiedContact k).reconnectEnabled = c.reconnectEnabled := by
  unfold addVerifiedContact
  split
  · split <;> rfl
  · rfl

@[simp] theorem removeVerifiedContact_enabled :
    (c.removeVerifiedContact k).reconnectEnabled = c.reconnectEnabled := by
  unfold removeVerifiedContact
  split <;> rfl

end FirstContactCoordinator

end AeroNyra
