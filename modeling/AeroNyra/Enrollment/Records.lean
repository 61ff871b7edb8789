import AeroNyra.Lib.Dict
import AeroNyra.Core.Message

/-! The records behind admission: the contact allowlist, the ledger of pending invites and the
denylist.  Times are Unix milliseconds; sums of them are `Int64` sums, which trap when they
overflow. -/

namespace AeroNyra

/-- The sum as an `Int64`; none when it overflows. -/
def addMillis (a b : Int) : Option Int :=
  if -2 ^ 63 ≤ a + b ∧ a + b < 2 ^ 63 then some (a + b) else none

/-! ### Allowlist -/

namespace ContactAllowlist

structure Entry where
  pairedAt : Int
  verified : Bool
  deriving DecidableEq

end ContactAllowlist

/-- The paired contacts by their raw 32-byte identities. -/
structure ContactAllowlist where
  entries : Dict Data ContactAllowlist.Entry

namespace ContactAllowlist

def empty : ContactAllowlist := ⟨∅⟩

variable (a : ContactAllowlist)

def identities : List Data := a.entries.keys

def enroll (identity : Data) (now : Int) (verified : Bool) : ContactAllowlist :=
  ⟨AList.insert identity ⟨now, verified⟩ a.entries⟩

def markVerified (identity : Data) : ContactAllowlist :=
  ⟨a.entries.modify identity ({ · with verified := true })⟩

def revoke (identity : Data) : ContactAllowlist := ⟨AList.erase identity a.entries⟩

def contains (identity : Data) : Bool := (a.entries.lookup identity).isSome

def isVerified (identity : Data) : Bool := (a.entries.lookup identity).any (·.verified)

/-- The verified identities. -/
def verifiedIdentities : List Data := a.identities.filter a.isVerified

variable {a} (j k : Data)

theorem mem_identities : k ∈ a.identities ↔ a.contains k := by
  simp [identities, contains, AList.lookup_isSome, AList.mem_keys]

theorem contains_of_isVerified (h : a.isVerified k) : a.contains k := by
  unfold isVerified at h
  unfold contains
  cases hk : a.entries.lookup k with
  | none => simp [hk] at h
  | some e => rfl

theorem contains_enroll (now : Int) (v : Bool) :
    (a.enroll k now v).contains j = (decide (j = k) || a.contains j) := by
  by_cases h : j = k <;> simp [enroll, contains, h]

theorem isVerified_enroll (now : Int) (v : Bool) :
    (a.enroll k now v).isVerified j = if j = k then v else a.isVerified j := by
  by_cases h : j = k <;> simp [enroll, isVerified, h]

theorem contains_markVerified : (a.markVerified k).contains j = a.contains j := by
  by_cases h : j = k
  · subst h
    simp [markVerified, contains]
  · simp [markVerified, contains, h]

theorem isVerified_markVerified :
    (a.markVerified k).isVerified j = if j = k then a.contains k else a.isVerified j := by
  by_cases h : j = k
  · subst h
    cases hj : a.entries.lookup j <;> simp [markVerified, isVerified, contains, hj]
  · simp [markVerified, isVerified, h]

theorem contains_revoke : (a.revoke k).contains j = (decide (j ≠ k) && a.contains j) := by
  by_cases h : j = k <;> simp [revoke, contains, h]

theorem isVerified_revoke : (a.revoke k).isVerified j = (decide (j ≠ k) && a.isVerified j) := by
  by_cases h : j = k <;> simp [revoke, isVerified, h]

end ContactAllowlist

/-! ### Pending invites -/

namespace Invite

/-- The clock skew that an expiry check tolerates. -/
def defaultSkewMillis : Int := 2 * 60 * 1000

def defaultTTLMillis : Int := 10 * 60 * 1000

end Invite

/-- The expiry times of the invites minted here and not burned yet, by their identifiers. -/
structure PendingInvites where
  pending : Dict Data Int

namespace PendingInvites

def empty : PendingInvites := ⟨∅⟩

variable (p : PendingInvites)

def register (id : Data) (expiresAt : Int) : PendingInvites := ⟨AList.insert id expiresAt p.pending⟩

/-- Burns `id` if it is pending and live at `now`; none when the sum overflows. -/
def consume (id : Data) (now : Int) : Option (Bool × PendingInvites) :=
  match p.pending.lookup id with
  | none => some (false, p)
  | some expiresAt =>
    (addMillis expiresAt Invite.defaultSkewMillis).map fun last =>
      (decide (now ≤ last), ⟨AList.erase id p.pending⟩)

/-- Drops the expired invites; none when one of the sums overflows. -/
def prune (now : Int) : Option PendingInvites :=
  if p.pending.pairs.all fun e => (addMillis e.2 Invite.defaultSkewMillis).isSome then
    some ⟨p.pending.filterValues fun expiresAt => now ≤ expiresAt + Invite.defaultSkewMillis⟩
  else none

end PendingInvites

/-! ### Denylist -/

structure BlockedContact where
  rawKey : Data
  blockedAt : Int
  petname : Option String
  /-- Whether the contact was verified when it was blocked. -/
  wasVerified : Bool
  deriving DecidableEq

end AeroNyra
