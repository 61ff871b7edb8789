import AeroNyra.Session.Relaunch

/-! That an invite is used once.  A burn is saved before `redeemEcho` enrolls the redeemer and
returns, and a launch loads the saved ledger, so an identifier that was burned finds nothing
pending in any later launch. -/

namespace AeroNyra.Burning

open Interleave

/-- The actions of the services, each with the identifier of the `redeemEcho` that it belongs to, if
it belongs to one. -/
inductive Action
  | act (a : Pairing.Action) (echo : Option Data)
  /-- `redeemEcho` returns true. -/
  | returned (id : Data)
  deriving DecidableEq

/-- The identifier that a call echoes. -/
def echo : Pairing.Call → Option Data
  | .redeemEcho inviteID _ => some inviteID
  | _ => none

def thread (call : Pairing.Call) : Thread Action where
  todo := (Pairing.thread call).todo.map (.act · (echo call))
  onThrow := (Pairing.thread call).onThrow.map (.act · (echo call))

/-- What `redeemEcho` goes on with after its burn: where nothing was burned it returns false, and
otherwise it enrolls the redeemer and returns true. -/
def afterBurn (id : Data) : List Pairing.Action → List Action
  | [] => []
  | next => next.map (.act · (some id)) ++ [.returned id]

/-- How an action of the services leaves its call. -/
def leave (echo : Option Data) : Pairing.Action → Exit Pairing.Action → Exit Action
  | .burn id _, .goOn next => .goOn (afterBurn id next)
  | _, x => x.map (.act · echo)

def exec (s : Pairing) : Action → Pairing.Reply → Option (Pairing × Exit Action)
  | .act a echo, reply => (s.exec a reply).map fun p => (p.1, leave echo a p.2)
  | .returned _, _ => some (s, .goOn [])

def machine : Machine Pairing Action Pairing.Call Pairing.Reply := ⟨thread, exec⟩

/-- The services with their calls in progress, and the clock when the ledger was loaded. -/
structure Launch where
  services : Config Pairing Action
  loadedAt : Int

namespace Launch

inductive Event
  | act (e : Interleave.Event Pairing.Call Pairing.Reply)
  /-- The app stops, with all that is under way, and loads its files again. -/
  | relaunch (now : Int)

variable (localIdentity : Data) (d : Launch)

/-- The first launch: no invite was ever minted. -/
def first (allowlist : ContactAllowlist) (denylist : List BlockedContact) (now : Int) : Launch :=
  ⟨⟨Pairing.launch allowlist .empty denylist localIdentity now, []⟩, now⟩

def step : Event → Option Launch
  | .act e => (machine.step d.services e).map fun services => { d with services }
  | .relaunch now =>
    let s := d.services.shared
    some ⟨⟨Pairing.launch s.allowlistFile s.ledgerFile s.denylistFile localIdentity now, []⟩, now⟩

abbrev Step := Transition Launch Event

/-- The steps of a run over any number of launches. -/
def steps (allowlist : ContactAllowlist) (denylist : List BlockedContact) (now : Int)
    (events : List Event) : List Step :=
  trace (step localIdentity) (first localIdentity allowlist denylist now) events

/-- The ledger in its file. -/
def saved : Dict Data Int := d.services.shared.ledgerFile.pending

/-- The ledger in memory. -/
def live : Dict Data Int := d.services.shared.pending.pending

/-- The ledger in memory is the saved one, less invites that had expired when it was loaded. -/
def Agrees : Prop :=
  ∀ id, d.live.lookup id = d.saved.lookup id ∨
    (d.live.lookup id = none ∧ Device.Expired d.services.shared.ledgerFile d.loadedAt id)

/-- The action that a step runs, with its reply. -/
def Step.acts (t : Step) : Option (Action × Pairing.Reply) :=
  match t.event with
  | .act e => t.pre.services.acts e
  | .relaunch _ => none

/-- The step mints the invite `id` and saves it. -/
def Step.mints (id : Data) (t : Step) : Bool :=
  match t.acts with
  | some (.act (.mintInvite _) _, reply) => reply.saved && reply.nonce == id
  | _ => false

/-- In the step `redeemEcho` returns true for `id`. -/
def Step.returns (id : Data) (t : Step) : Bool :=
  match t.acts with
  | some (.returned j, _) => j == id
  | _ => false

/-- The step mints the invite `id`, which expires at `expiresAt`. -/
def Step.Mints (t : Step) (id : Data) (expiresAt : Int) : Prop :=
  ∃ ttlMillis echo reply, t.acts = some (.act (.mintInvite ttlMillis) echo, reply) ∧
    reply.saved ∧ reply.nonce = id ∧ expiresAt = reply.now + ttlMillis

/-- The step burns `id`, which is live until `expiresAt`, and saves the ledger without it. -/
def Step.Burns (t : Step) (id : Data) (expiresAt : Int) : Prop :=
  ∃ redeemer echo reply, t.acts = some (.act (.burn id redeemer) echo, reply) ∧ reply.saved ∧
    reply.now ≤ expiresAt + Invite.defaultSkewMillis ∧ t.post.saved.lookup id = none

/-- The step changes the allowlist for an echo of `id`. -/
def Step.Admits (t : Step) (id : Data) : Prop :=
  (∃ a reply, t.acts = some (.act a (some id), reply)) ∧
    t.post.services.shared.allowlistFile ≠ t.pre.services.shared.allowlistFile

/-- Among the steps that led to `d` is a burn of `id`, minted before it and unexpired; and the saved
ledger is without `id` still, unless `id` was minted once more. -/
def Burned (past : List Step) (d : Launch) (id : Data) : Prop :=
  ∃ (before : List Step) (u : Step) (after : List Step) (expiresAt : Int),
    past = before ++ u :: after ∧ u.Burns id expiresAt ∧
    (∃ w ∈ before, w.Mints id expiresAt) ∧
    ((∀ v ∈ after, v.mints id = false) → d.saved.lookup id = none)

/-- What the property says of the steps of a run, and of the state that they led to. -/
structure SingleUse (past : List Step) (d : Launch) : Prop where
  /-- `redeemEcho` returns true for an identifier at most as often as it was minted. -/
  once : ∀ id, past.countP (·.returns id) ≤ past.countP (·.mints id)
  /-- It does so only after a burn of the identifier, which was minted and had not expired. -/
  live : ∀ before t after id, past = before ++ t :: after → t.returns id → Burned before t.pre id
  /-- An echo changes the allowlist only after the burn. -/
  burned : ∀ before t after id, past = before ++ t :: after → t.Admits id → Burned before t.pre id
  agrees : d.Agrees

/-! ### What an action does to the ledger -/

/-- Mints and burns change the ledger, in its file and in memory, and nothing else does. -/
inductive Ledger (s : Pairing) (reply : Pairing.Reply) :
    Pairing.Action → Pairing → Exit Pairing.Action → Prop
  | still {a s' x} (file : s'.ledgerFile = s.ledgerFile) (pending : s'.pending = s.pending)
      (adds : ∀ id redeemer, a = .burn id redeemer → x.added = []) : Ledger s reply a s' x
  | mint (ttlMillis) (pruned : PendingInvites) {s' : Pairing} {x} (saved : reply.saved)
      (prunes : s.pending.prune reply.now = some pruned)
      (file : s'.ledgerFile = pruned.register reply.nonce (reply.now + ttlMillis))
      (pending : s'.pending = s'.ledgerFile) : Ledger s reply (.mintInvite ttlMillis) s' x
  | burn (id redeemer) (expiresAt : Int) {s' : Pairing} {x} (saved : reply.saved)
      (held : s.pending.pending.lookup id = some expiresAt)
      (live : reply.now ≤ expiresAt + Invite.defaultSkewMillis)
      (file : s'.ledgerFile = ⟨AList.erase id s.pending.pending⟩)
      (pending : s'.pending = s'.ledgerFile)
      (leaves : x = .goOn [.enroll redeemer false]) : Ledger s reply (.burn id redeemer) s' x

theorem eq_of_addMillis {a b c : Int} (h : addMillis a b = some c) : c = a + b := by
  unfold addMillis at h
  split at h
  · exact (Option.some.inj h).symm
  · cases h

theorem ledger_mint {s : Pairing} {ttlMillis : Int} {reply : Pairing.Reply}
    {p : Pairing × Exit Pairing.Action} (h : s.mintInvite ttlMillis reply = some p) :
    Ledger s reply (.mintInvite ttlMillis) p.1 p.2 := by
  simp only [Pairing.mintInvite, Option.bind_eq_bind, Option.bind_eq_some_iff] at h
  obtain ⟨expiresAt, hsum, pruned, hpruned, h⟩ := h
  obtain rfl := Option.some.inj h
  obtain rfl := eq_of_addMillis hsum
  unfold Pairing.saveLedger
  split
  · rename_i hsaved
    exact .mint ttlMillis pruned hsaved hpruned rfl rfl
  · exact .still rfl rfl fun _ _ heq => by cases heq

theorem ledger_burn {s : Pairing} {id redeemer : Data} {reply : Pairing.Reply}
    {p : Pairing × Exit Pairing.Action} (h : s.burn id redeemer reply = some p) :
    Ledger s reply (.burn id redeemer) p.1 p.2 := by
  unfold Pairing.burn at h
  split at h
  · obtain ⟨⟨burned, updated⟩, hconsume, rfl⟩ := Option.map_eq_some_iff.mp h
    dsimp only
    split
    · rename_i hburned
      obtain rfl : burned = true := hburned
      unfold PendingInvites.consume at hconsume
      split at hconsume
      · cases hconsume
      · rename_i expiresAt hheld
        obtain ⟨last, hlast, heq⟩ := Option.map_eq_some_iff.mp hconsume
        obtain ⟨hlive, rfl⟩ := Prod.mk.inj heq
        obtain rfl := eq_of_addMillis hlast
        unfold Pairing.saveLedger
        split
        · rename_i hsaved
          exact .burn id redeemer expiresAt hsaved hheld (of_decide_eq_true hlive) rfl rfl rfl
        · exact .still rfl rfl fun _ _ _ => rfl
    · exact .still rfl rfl fun _ _ _ => rfl
  · obtain rfl := Option.some.inj h
    exact .still rfl rfl fun _ _ _ => rfl

/-- The ledger, in its file and in memory, is the same. -/
def SameLedger (s s' : Pairing) : Prop := s'.ledgerFile = s.ledgerFile ∧ s'.pending = s.pending

theorem sameLedger_saveAllowlist {s : Pairing} {updated : ContactAllowlist} {reply : Pairing.Reply}
    {next : List Pairing.Action} : SameLedger s (s.saveAllowlist updated reply next).1 := by
  unfold Pairing.saveAllowlist
  split <;> exact ⟨rfl, rfl⟩

theorem sameLedger_saveDenylist {s : Pairing} {updated : List BlockedContact}
    {reply : Pairing.Reply} : SameLedger s (s.saveDenylist updated reply).1 := by
  unfold Pairing.saveDenylist
  split <;> exact ⟨rfl, rfl⟩

theorem sameLedger_revoke {s : Pairing} {k : Data} {reply : Pairing.Reply} :
    SameLedger s (s.revoke k reply).1 := by
  unfold Pairing.revoke
  split
  · exact sameLedger_saveAllowlist
  · exact ⟨rfl, rfl⟩

/-- What an action of the services does to the ledger. -/
theorem ledger_exec {s : Pairing} {a : Pairing.Action} {reply : Pairing.Reply}
    {p : Pairing × Exit Pairing.Action} (h : s.exec a reply = some p) :
    Ledger s reply a p.1 p.2 := by
  have of_same (hsame : SameLedger s p.1) (hburn : ∀ id redeemer, a ≠ .burn id redeemer) :
      Ledger s reply a p.1 p.2 :=
    .still hsame.1 hsame.2 fun id redeemer heq => absurd heq (hburn id redeemer)
  cases a with
  | mintInvite ttlMillis => exact ledger_mint h
  | burn id redeemer => exact ledger_burn h
  | enroll k v =>
    obtain rfl := Option.some.inj h
    refine of_same ?_ (by simp)
    unfold Pairing.enroll
    split
    · exact sameLedger_saveAllowlist
    · exact ⟨rfl, rfl⟩
  | markVerified k =>
    obtain rfl := Option.some.inj h
    refine of_same ?_ (by simp)
    unfold Pairing.markVerified
    split
    · exact sameLedger_saveAllowlist
    · exact ⟨rfl, rfl⟩
  | revoke k =>
    obtain rfl := Option.some.inj h
    exact of_same sameLedger_revoke (by simp)
  | rollback k =>
    obtain rfl := Option.some.inj h
    refine of_same ?_ (by simp)
    have hrevoke : SameLedger s (s.revoke k reply).1 := sameLedger_revoke
    unfold Pairing.rollback
    split
    · rename_i heq
      rwa [heq] at hrevoke
    · rename_i heq
      rwa [heq] at hrevoke
  | addReconnectContact | removeReconnectContact | addVerifiedContact | removeVerifiedContact
  | setBlockedIdentities | onBundle | throwMalformed | echoRouted =>
    obtain rfl := Option.some.inj h
    exact of_same ⟨rfl, rfl⟩ (by simp)
  | scan code =>
    obtain rfl := Option.some.inj h
    refine of_same ?_ (by simp)
    unfold Pairing.scan
    split <;> exact ⟨rfl, rfl⟩
  | redeem code =>
    refine of_same ?_ (by simp)
    simp only [Pairing.exec, Pairing.redeem] at h
    split at h
    · obtain ⟨last, _, rfl⟩ := Option.map_eq_some_iff.mp h
      split
      · split
        · exact ⟨rfl, rfl⟩
        · split <;> exact ⟨rfl, rfl⟩
      · exact ⟨rfl, rfl⟩
    · obtain rfl := Option.some.inj h
      exact ⟨rfl, rfl⟩
  | establish =>
    obtain rfl := Option.some.inj h
    refine of_same ?_ (by simp)
    unfold Pairing.establish
    split <;> exact ⟨rfl, rfl⟩
  | block k petname =>
    obtain rfl := Option.some.inj h
    exact of_same sameLedger_saveDenylist (by simp)
  | unblock k =>
    obtain rfl := Option.some.inj h
    refine of_same ?_ (by simp)
    unfold Pairing.unblock
    split <;> exact ⟨rfl, rfl⟩
  | release k =>
    obtain rfl := Option.some.inj h
    exact of_same sameLedger_saveDenylist (by simp)

/-! ### What an action adds to its call -/

/-- An action that stands behind a burn of `id` in its call. -/
def After (id : Data) : Action → Prop
  | .act a echo => echo = some id ∧ ∀ j redeemer, a ≠ .burn j redeemer
  | .returned j => j = id

theorem leave_eq_map {echo : Option Data} {a : Pairing.Action} {x : Exit Pairing.Action}
    (h : ∀ id redeemer, a = .burn id redeemer → x.added = []) :
    leave echo a x = x.map (Action.act · echo) := by
  cases a with
  | burn id redeemer =>
    cases x with
    | goOn next =>
      obtain rfl : next = [] := h id redeemer rfl
      rfl
    | throw cleanup => rfl
  | _ => rfl

theorem count_map (x : Exit Pairing.Action) (echo : Option Data) (id : Data) :
    (x.map (Action.act · echo)).added.count (.returned id) = 0 := by
  refine List.count_eq_zero.mpr fun hmem => ?_
  obtain ⟨a, _, heq⟩ := mem_added_map hmem
  cases heq

theorem count_thread (call : Pairing.Call) (id : Data) :
    ((thread call).todo ++ (thread call).onThrow).count (.returned id) = 0 := by
  refine List.count_eq_zero.mpr fun hmem => ?_
  rcases List.mem_append.mp hmem with hmem | hmem
  · obtain ⟨a, _, heq⟩ := List.mem_map.mp hmem
    cases heq
  · obtain ⟨a, _, heq⟩ := List.mem_map.mp hmem
    cases heq

/-- A call of `redeemEcho` begins with its burn, and no other call is an echo. -/
theorem not_after_thread (call : Pairing.Call) (id : Data) :
    ∀ a ∈ (thread call).todo ++ (thread call).onThrow, ¬After id a := by
  cases call <;> simp [thread, Pairing.thread, echo, After]

/-- An action that an action adds stands behind the burn that the adding one stands behind, or it
is added by the burn. -/
theorem after_added {s s' : Pairing} {a : Pairing.Action} {reply : Pairing.Reply}
    {x : Exit Pairing.Action} {echo : Option Data} {b : Action} {id : Data}
    (h : Ledger s reply a s' x) (hb : b ∈ (leave echo a x).added) (hafter : After id b) :
    After id (.act a echo) ∨ (∃ redeemer expiresAt, a = .burn id redeemer ∧ reply.saved ∧
      s.pending.pending.lookup id = some expiresAt ∧
      reply.now ≤ expiresAt + Invite.defaultSkewMillis ∧
      s'.ledgerFile = ⟨AList.erase id s.pending.pending⟩) := by
  have of_map (hburn : ∀ j redeemer, a = .burn j redeemer → x.added = [])
      (hmem : b ∈ (x.map (Action.act · echo)).added) : After id (.act a echo) := by
    obtain ⟨c, hc, rfl⟩ := mem_added_map hmem
    refine ⟨hafter.1, fun j redeemer heq => ?_⟩
    rw [hburn j redeemer heq] at hc
    cases hc
  cases h with
  | still file pending adds =>
    rw [leave_eq_map adds] at hb
    exact .inl (of_map adds hb)
  | mint ttlMillis pruned => exact .inl (of_map (by simp) hb)
  | burn j redeemer expiresAt saved held live file pending leaves =>
    subst leaves
    have hid : j = id := by
      rcases List.mem_cons.mp hb with rfl | hb
      · exact Option.some.inj hafter.1
      · obtain rfl := List.mem_singleton.mp hb
        exact hafter
    subst hid
    exact .inr ⟨redeemer, expiresAt, rfl, saved, held, live, file⟩

/-! ### What a step does -/

theorem Agrees.saved_eq_some {d : Launch} {id : Data} {expiresAt : Int} (h : d.Agrees)
    (hlive : d.live.lookup id = some expiresAt) : d.saved.lookup id = some expiresAt := by
  rcases h id with heq | ⟨hnone, _⟩
  · rw [← heq, hlive]
  · rw [hnone] at hlive
    cases hlive

theorem lookup_prune {ledger pruned : PendingInvites} {now : Int}
    (h : ledger.prune now = some pruned) (id : Data) : pruned.pending.lookup id =
      (ledger.pending.lookup id).filter fun expiresAt =>
      now ≤ expiresAt + Invite.defaultSkewMillis := by
  unfold PendingInvites.prune at h
  split at h
  · obtain rfl := Option.some.inj h
    rw [Dict.lookup_filterValues]
  · cases h

/-- A step relaunches, or it starts a call, or it runs the end of a `redeemEcho` or an action of the
services. -/
inductive Kind (localIdentity : Data) (t : Step) : Prop
  | relaunch (now : Int) (acts : t.acts = none)
      (post : t.post = ⟨⟨Pairing.launch t.pre.services.shared.allowlistFile
        t.pre.services.shared.ledgerFile t.pre.services.shared.denylistFile localIdentity now, []⟩,
        now⟩)
  | start (acts : t.acts = none) (shared : t.post.services.shared = t.pre.services.shared)
      (loadedAt : t.post.loadedAt = t.pre.loadedAt)
      (count : ∀ id, t.post.services.count (.returned id) =
        t.pre.services.count (.returned id))
  | returned (id : Data) (reply : Pairing.Reply) (acts : t.acts = some (.returned id, reply))
      (shared : t.post.services.shared = t.pre.services.shared)
      (loadedAt : t.post.loadedAt = t.pre.loadedAt)
      (count : ∀ j, t.post.services.count (.returned j) + [Action.returned id].count (.returned j) ≤
        t.pre.services.count (.returned j))
  | act (a : Pairing.Action) (echo : Option Data) (reply : Pairing.Reply) (x : Exit Pairing.Action)
      (acts : t.acts = some (.act a echo, reply)) (loadedAt : t.post.loadedAt = t.pre.loadedAt)
      (exec : t.pre.services.shared.exec a reply = some (t.post.services.shared, x))
      (count : ∀ j, t.post.services.count (.returned j) ≤
        t.pre.services.count (.returned j) + (leave echo a x).added.count (.returned j))

section Step

variable {localIdentity : Data} {past : List Step} {t : Step}

theorem kind (ht : step localIdentity t.pre t.event = some t.post) : Kind localIdentity t := by
  cases he : t.event with
  | relaunch now =>
    rw [he] at ht
    exact .relaunch now (by rw [Step.acts, he]) (Option.some.inj ht).symm
  | act e =>
    rw [he] at ht
    obtain ⟨services, hs, hpost⟩ := Option.map_eq_some_iff.mp ht
    have hservices : t.post.services = services := by rw [← hpost]
    have hloaded : t.post.loadedAt = t.pre.loadedAt := by rw [← hpost]
    have hacts : t.acts = t.pre.services.acts e := by rw [Step.acts, he]
    rw [← hservices] at hs
    rcases Machine.step_cases hs with ⟨call, rfl, hcall⟩ |
      ⟨i, reply, a, rest, handler, s, x, _, _, hx, hran, hleft⟩
    · refine .start (hacts.trans rfl) (by rw [hcall]) hloaded fun id => ?_
      rcases Machine.count_step hs (.returned id) with ⟨_, hc, hcount⟩ | ⟨_, _, _, hnone, _⟩
      · cases hc
        rw [hcount]
        exact Nat.add_eq_left.mpr (count_thread call id)
      · cases hnone
    · have hcount (j : Data) : ∃ y, exec t.pre.services.shared a reply =
          some (t.post.services.shared, y) ∧
          t.post.services.count (.returned j) + [a].count (.returned j) ≤
            t.pre.services.count (.returned j) + y.added.count (.returned j) := by
        rcases Machine.count_step hs (.returned j) with ⟨_, rfl, _⟩ |
          ⟨a', reply', y, hran', hy, hle⟩
        · cases hran
        · cases hran.symm.trans hran'
          exact ⟨y, hy, hle⟩
      cases a with
      | returned id =>
        obtain ⟨rfl, rfl⟩ := Prod.mk.inj (Option.some.inj hx)
        refine .returned id reply (hacts.trans hran) (by rw [hleft]) hloaded fun j => ?_
        obtain ⟨y, hy, hle⟩ := hcount j
        obtain ⟨_, rfl⟩ := Prod.mk.inj (Option.some.inj hy)
        exact hle
      | act a echo =>
        obtain ⟨p, hp, heq⟩ := Option.map_eq_some_iff.mp hx
        obtain ⟨hshared, rfl⟩ := Prod.mk.inj heq
        have hpost' : t.post.services.shared = p.1 := by rw [hleft, hshared]
        refine .act a echo reply p.2 (hacts.trans hran) hloaded ?_ fun j => ?_
        · rw [hpost', hp]
        · obtain ⟨y, hy, hle⟩ := hcount j
          obtain rfl : leave echo a p.2 = y := by
            simpa [exec, hp, hpost'] using hy
          exact Nat.le_of_add_right_le hle

/-- The invariant: what is saved was minted, and each mint accounts for one identifier in the saved
ledger, one `redeemEcho` that is to return true, or one that did. -/
structure Accounted (past : List Step) (d : Launch) : Prop where
  agrees : d.Agrees
  minted : ∀ id expiresAt, d.saved.lookup id = some expiresAt → ∃ w ∈ past, w.Mints id expiresAt
  count : ∀ id, past.countP (·.returns id) + d.services.count (.returned id) +
    (d.saved.lookup id).toList.length ≤ past.countP (·.mints id)
  echoes : ∀ u ∈ d.services.threads, ∀ a ∈ u.todo ++ u.onThrow, ∀ id, After id a → Burned past d id

theorem agrees_launch (allowlist : ContactAllowlist) (ledger : PendingInvites)
    (denylist : List BlockedContact) (now : Int) :
    Agrees ⟨⟨Pairing.launch allowlist ledger denylist localIdentity now, []⟩, now⟩ := by
  intro id
  show ((ledger.prune now).getD ledger).pending.lookup id = ledger.pending.lookup id ∨ _
  cases hprune : ledger.prune now with
  | none => exact .inl rfl
  | some pruned =>
    by_cases hexpired : Device.Expired ledger now id
    · obtain ⟨expiresAt, hheld, hlate⟩ := hexpired
      refine .inr ⟨?_, expiresAt, hheld, hlate⟩
      show ((ledger.prune now).getD ledger).pending.lookup id = none
      rw [hprune, Option.getD_some, lookup_prune hprune, hheld]
      simp [hlate]
    · refine .inl ?_
      rw [Option.getD_some, lookup_prune hprune]
      cases hheld : ledger.pending.lookup id with
      | none => rfl
      | some expiresAt =>
        have hlive : now ≤ expiresAt + Invite.defaultSkewMillis := by
          by_contra hlate
          exact hexpired ⟨expiresAt, hheld, by omega⟩
        simp [hlive]

theorem agrees_step (ht : step localIdentity t.pre t.event = some t.post) (h : t.pre.Agrees) :
    t.post.Agrees := by
  have of_same (hledger : t.post.services.shared.ledgerFile = t.pre.services.shared.ledgerFile)
      (hpending : t.post.services.shared.pending = t.pre.services.shared.pending)
      (hloaded : t.post.loadedAt = t.pre.loadedAt) : t.post.Agrees := by
    intro id
    simpa only [Launch.live, Launch.saved, hledger, hpending, hloaded] using h id
  cases kind ht with
  | relaunch now acts post =>
    rw [post]
    exact agrees_launch _ _ _ _
  | start acts shared loadedAt => exact of_same (by rw [shared]) (by rw [shared]) loadedAt
  | returned id reply acts shared loadedAt =>
      exact of_same (by rw [shared]) (by rw [shared]) loadedAt
  | act a echo reply x acts loadedAt exec =>
    cases ledger_exec exec with
    | still file pending => exact of_same file pending loadedAt
    | mint ttlMillis pruned saved prunes file pending =>
      exact fun id => .inl (by rw [Launch.live, Launch.saved, pending])
    | burn id redeemer expiresAt saved held live file pending =>
      exact fun id => .inl (by rw [Launch.live, Launch.saved, pending])

theorem mints_of_mints {id : Data} {expiresAt : Int} (h : t.Mints id expiresAt) : t.mints id := by
  obtain ⟨ttlMillis, echo, reply, hacts, hsaved, hnonce, _⟩ := h
  simp [Step.mints, hacts, hsaved, hnonce]

/-- What is saved was saved before or is minted in the step. -/
theorem saved_step (ht : step localIdentity t.pre t.event = some t.post) (h : t.pre.Agrees)
    {id : Data} {expiresAt : Int} (hid : t.post.saved.lookup id = some expiresAt) :
    t.pre.saved.lookup id = some expiresAt ∨ t.Mints id expiresAt := by
  have of_same (hledger : t.post.services.shared.ledgerFile = t.pre.services.shared.ledgerFile) :
      t.pre.saved.lookup id = some expiresAt := by
    rwa [Launch.saved, ← hledger]
  cases kind ht with
  | relaunch now acts post => exact .inl (of_same (by rw [post]; rfl))
  | start acts shared => exact .inl (of_same (by rw [shared]))
  | returned j reply acts shared => exact .inl (of_same (by rw [shared]))
  | act a echo reply x acts loadedAt exec =>
    cases ledger_exec exec with
    | still file => exact .inl (of_same file)
    | mint ttlMillis pruned saved prunes file =>
      rw [Launch.saved, file] at hid
      simp only [PendingInvites.register, Dict.lookup_insert] at hid
      split at hid
      · rename_i heq
        exact .inr ⟨ttlMillis, echo, reply, acts, saved, heq.symm, (Option.some.inj hid).symm⟩
      · rw [lookup_prune prunes] at hid
        exact .inl (h.saved_eq_some (Option.filter_eq_some_iff.mp hid).1)
    | burn j redeemer expires saved held live file =>
      rw [Launch.saved, file, Dict.lookup_erase] at hid
      split at hid
      · cases hid
      · exact .inl (h.saved_eq_some hid)

/-- An identifier that the saved ledger has lost stays lost until it is minted again. -/
theorem lost_step (ht : step localIdentity t.pre t.event = some t.post) (h : t.pre.Agrees)
    {id : Data} (hmints : t.mints id = false) (hnone : t.pre.saved.lookup id = none) :
    t.post.saved.lookup id = none := by
  apply Option.eq_none_iff_forall_ne_some.mpr
  intro expiresAt hsome
  rcases saved_step ht h hsome with hbefore | hminted
  · rw [hnone] at hbefore
    cases hbefore
  · rw [mints_of_mints hminted] at hmints
    cases hmints

theorem Burned.step {id : Data} (ht : step localIdentity t.pre t.event = some t.post)
    (hagrees : t.pre.Agrees) (h : Burned past t.pre id) : Burned (past ++ [t]) t.post id := by
  obtain ⟨before, u, after, expiresAt, rfl, hburns, hminted, hlost⟩ := h
  refine ⟨before, u, after ++ [t], expiresAt, by simp, hburns, hminted, fun hnone => ?_⟩
  refine lost_step ht hagrees (hnone t (by simp)) (hlost fun v hv => ?_)
  exact hnone v (List.mem_append_left _ hv)

/-- The account of one identifier over a step. -/
theorem account_step (ht : step localIdentity t.pre t.event = some t.post) (h : t.pre.Agrees)
    (id : Data) :
    [t].countP (·.returns id) + t.post.services.count (.returned id) +
        (t.post.saved.lookup id).toList.length ≤
      t.pre.services.count (.returned id) + (t.pre.saved.lookup id).toList.length +
        [t].countP (·.mints id) := by
  have hone (p : Step → Bool) : [t].countP p = if p t then 1 else 0 := by
    simp [List.countP_cons]
  have hlength (o : Option Int) : o.toList.length ≤ 1 := by cases o <;> simp
  cases kind ht with
  | relaunch now acts post =>
    have hreturns : t.returns id = false := by simp [Step.returns, acts]
    have hcount : t.post.services.count (.returned id) = 0 := by rw [post]; rfl
    have hsaved : t.post.saved = t.pre.saved := by rw [post]; rfl
    rw [hone, hreturns, hcount, hsaved]
    simp only [Bool.false_eq_true, ↓reduceIte]
    omega
  | start acts shared loadedAt count =>
    have hreturns : t.returns id = false := by simp [Step.returns, acts]
    have hsaved : t.post.saved = t.pre.saved := by rw [Launch.saved, shared]; rfl
    rw [hone, hreturns, count, hsaved]
    simp only [Bool.false_eq_true, ↓reduceIte]
    omega
  | returned j reply acts shared loadedAt count =>
    have hreturns : t.returns id = (j == id) := by simp [Step.returns, acts]
    have hsaved : t.post.saved = t.pre.saved := by rw [Launch.saved, shared]; rfl
    have hle := count id
    rw [hone, hreturns, hsaved]
    by_cases hj : j = id
    · subst hj
      simp only [List.count_singleton_self, beq_self_eq_true, ↓reduceIte] at hle ⊢
      omega
    · simp only [beq_eq_false_iff_ne.mpr hj, Bool.false_eq_true, ↓reduceIte]
      omega
  | act a echo reply x acts loadedAt exec count =>
    have hreturns : t.returns id = false := by simp [Step.returns, acts]
    have hle := count id
    rw [hone, hreturns]
    simp only [Bool.false_eq_true, ↓reduceIte]
    cases ledger_exec exec with
    | still file pending adds =>
      have hsaved : t.post.saved = t.pre.saved := by rw [Launch.saved, file]; rfl
      rw [leave_eq_map adds, count_map] at hle
      rw [hsaved]
      omega
    | mint ttlMillis pruned saved prunes file pending =>
      rw [leave_eq_map (by simp), count_map] at hle
      cases hmints : t.mints id with
      | true =>
        have hfew := hlength (t.post.saved.lookup id)
        rw [hone, hmints]
        simp only [↓reduceIte]
        omega
      | false =>
        have hkept : (t.post.saved.lookup id).toList.length ≤
          (t.pre.saved.lookup id).toList.length := by
          cases hpre : t.pre.saved.lookup id with
          | none => rw [lost_step ht h hmints hpre]
          | some expiresAt => exact hlength _
        omega
    | burn j redeemer expiresAt saved held live file pending leaves =>
      subst leaves
      rw [Launch.saved, file, Dict.lookup_erase]
      by_cases hj : id = j
      · subst hj
        have hadded : (leave echo (.burn id redeemer) (.goOn [.enroll redeemer false])).added.count
            (.returned id) = 1 := by simp [leave, afterBurn, Exit.added]
        rw [hadded] at hle
        rw [if_pos rfl, h.saved_eq_some held]
        simp only [Option.toList_none, Option.toList_some, List.length_nil, List.length_singleton]
        omega
      · have hadded : (leave echo (.burn j redeemer) (.goOn [.enroll redeemer false])).added.count
            (.returned id) = 0 := by simp [leave, afterBurn, Exit.added, Ne.symm hj]
        have hlive : t.pre.services.shared.pending.pending = t.pre.live := rfl
        rw [hadded] at hle
        rw [if_neg hj, hlive]
        have hkept : (t.pre.live.lookup id).toList.length ≤
          (t.pre.saved.lookup id).toList.length := by
          rcases h id with heq | ⟨hnone, _⟩
          · rw [heq]
          · simp [hnone]
        omega

theorem accounted_first (allowlist : ContactAllowlist) (denylist : List BlockedContact)
    (now : Int) :
    Accounted [] (first localIdentity allowlist denylist now) where
  agrees := agrees_launch allowlist .empty denylist now
  minted id expiresAt h := by cases h
  count id := Nat.le_refl 0
  echoes u hu := by cases hu

/-- The burn that an action brings in stands at the end of the steps so far. -/
theorem burned_of_acts {a : Pairing.Action} {echo : Option Data} {reply : Pairing.Reply}
    {id redeemer : Data} {expiresAt : Int} (h : Accounted past t.pre)
    (hacts : t.acts = some (.act a echo, reply)) (ha : a = .burn id redeemer) (hsaved : reply.saved)
    (hheld : t.pre.live.lookup id = some expiresAt)
    (hlive : reply.now ≤ expiresAt + Invite.defaultSkewMillis)
    (hfile : t.post.services.shared.ledgerFile = ⟨AList.erase id t.pre.live⟩) :
    Burned (past ++ [t]) t.post id := by
  have hgone : t.post.saved.lookup id = none := by
    rw [Launch.saved, hfile]
    simp
  subst ha
  exact ⟨past, t, [], expiresAt, rfl, ⟨redeemer, echo, reply, hacts, hsaved, hlive, hgone⟩,
    h.minted id expiresAt (h.agrees.saved_eq_some hheld), fun _ => hgone⟩

theorem accounted_step (ht : step localIdentity t.pre t.event = some t.post)
    (h : Accounted past t.pre) :
    Accounted (past ++ [t]) t.post := by
  refine ⟨agrees_step ht h.agrees, fun id expiresAt hid => ?_, fun id => ?_, ?_⟩
  · rcases saved_step ht h.agrees hid with hbefore | hminted
    · obtain ⟨w, hw, hmints⟩ := h.minted id expiresAt hbefore
      exact ⟨w, List.mem_append_left _ hw, hmints⟩
    · exact ⟨t, by simp, hminted⟩
  · have hpast := h.count id
    have hstep := account_step ht h.agrees id
    rw [List.countP_append, List.countP_append]
    omega
  · have hold (a : Action) (id : Data) (hburned : After id a → Burned past t.pre id)
      (ha : After id a) :
        Burned (past ++ [t]) t.post id := (hburned ha).step ht h.agrees
    cases he : t.event with
    | relaunch now =>
      have hpost := ht
      rw [he] at hpost
      rw [← Option.some.inj hpost]
      intro u hu
      cases hu
    | act e =>
      have hs := ht
      rw [he] at hs
      obtain ⟨services, hs, hpost⟩ := Option.map_eq_some_iff.mp hs
      obtain rfl : t.post.services = services := by rw [← hpost]
      have hacts : t.acts = t.pre.services.acts e := by rw [Step.acts, he]
      refine Machine.todo_step (K := fun a => ∀ id, After id a → Burned (past ++ [t]) t.post id)
        hs ?_ (fun call a ha id hafter => absurd hafter (not_after_thread call id a ha)) ?_
      · exact fun u hu a ha id => hold a id (h.echoes u hu a ha id)
      · intro a reply x hran hexec hpending b hb id hafter
        cases a with
        | returned j =>
          obtain ⟨_, rfl⟩ := Prod.mk.inj (Option.some.inj hexec)
          cases hb
        | act a echo =>
          obtain ⟨p, hp, heq⟩ := Option.map_eq_some_iff.mp hexec
          obtain ⟨hshared, rfl⟩ := Prod.mk.inj heq
          rcases after_added (ledger_exec hp) hb hafter with hbefore |
            ⟨redeemer, expiresAt, ha, hsaved, hheld, hlive, hfile⟩
          · obtain ⟨u, hu, hmem⟩ := hpending
            exact hold _ id (h.echoes u hu _ (List.mem_append_left _ hmem) id) hbefore
          · rw [hshared] at hfile
            exact burned_of_acts h (hacts.trans hran) ha hsaved hheld hlive hfile

/-- The action that a step runs was still to be run. -/
theorem burned_of_after {a : Action} {reply : Pairing.Reply} {id : Data} (h : Accounted past t.pre)
    (hacts : t.acts = some (a, reply)) (hafter : After id a) : Burned past t.pre id := by
  cases he : t.event with
  | relaunch now =>
    rw [Step.acts, he] at hacts
    cases hacts
  | act e =>
    rw [Step.acts, he] at hacts
    obtain ⟨u, hu, ha⟩ := Config.pending_of_acts hacts
    exact h.echoes u hu a (List.mem_append_left _ ha) id hafter

/-- A burn leaves the allowlist as it is. -/
theorem allowlist_burn {s s' : Pairing} {id redeemer : Data} {reply : Pairing.Reply}
    {x : Exit Pairing.Action} (h : s.exec (.burn id redeemer) reply = some (s', x)) :
    s'.allowlistFile = s.allowlistFile := by
  cases Pairing.exec_effect h with
  | quiet gate file => exact file
  | revoke k hby => rcases hby with hby | hby <;> cases hby

theorem burned_of_admits (ht : step localIdentity t.pre t.event = some t.post)
    (h : Accounted past t.pre) {id : Data} (hadmits : t.Admits id) : Burned past t.pre id := by
  obtain ⟨⟨a, reply, hacts⟩, hchanged⟩ := hadmits
  refine burned_of_after h hacts ⟨rfl, ?_⟩
  rintro j redeemer rfl
  cases kind ht with
  | relaunch now acts => cases acts.symm.trans hacts
  | start acts => cases acts.symm.trans hacts
  | returned j reply acts => cases acts.symm.trans hacts
  | act a echo reply' x acts loadedAt exec =>
    cases acts.symm.trans hacts
    exact hchanged (allowlist_burn exec)

theorem burned_of_returns {id : Data} (h : Accounted past t.pre) (hreturns : t.returns id) :
    Burned past t.pre id := by
  unfold Step.returns at hreturns
  split at hreturns
  · rename_i j reply hacts
    exact burned_of_after h hacts (eq_of_beq hreturns)
  · cases hreturns

end Step

/-- In every run over any number of launches, invites are used once: `redeemEcho` returns true for
an identifier at most as often as it was minted, only after the burn of one that had not expired,
and only then is the redeemer admitted; and the ledger in memory is the saved one, less invites
that had expired when it was loaded. -/
theorem single_use (localIdentity : Data) (allowlist : ContactAllowlist)
    (denylist : List BlockedContact) (now : Int) (events : List Event) :
    ∀ d, run (step localIdentity) (first localIdentity allowlist denylist now) events = some d →
      SingleUse (steps localIdentity allowlist denylist now events) d := by
  intro d hrun
  have hkeep (past : List Step) (t : Step) (ht : step localIdentity t.pre t.event = some t.post)
      (h : Accounted past t.pre) : Accounted (past ++ [t]) t.post := accounted_step ht h
  have hend := run_history Accounted hkeep (accounted_first allowlist denylist now) hrun
  refine ⟨fun id => ?_, fun before t after id hpast hreturns => ?_,
    fun before t after id hpast hadmits => ?_, hend.agrees⟩
  · have hcount := hend.count id
    unfold steps
    omega
  · have hbefore := trace_history Accounted hkeep (accounted_first allowlist denylist now) hpast
    exact burned_of_returns hbefore hreturns
  · have hbefore := trace_history Accounted hkeep (accounted_first allowlist denylist now) hpast
    have hmem : t ∈ steps localIdentity allowlist denylist now events := by rw [hpast]; simp
    exact burned_of_admits (step_of_mem_trace hmem) hbefore hadmits

/-- An invite is echoed, the app stops before the enrollment, and the echo is replayed twice: before
it and after it the invite `[7]` is minted. -/
def replays : List Event :=
  [.act (.start (.mintInvite 1000)), .act (.step 0 { nonce := [7] }),
    .act (.start (.redeemEcho [7] (.replicate 32 1))), .act (.step 1 {}), .relaunch 5,
    .act (.start (.redeemEcho [7] (.replicate 32 1))), .act (.step 0 {}),
    .act (.start (.mintInvite 1000)), .act (.step 1 { nonce := [7] }),
    .act (.start (.redeemEcho [7] (.replicate 32 1))), .act (.step 2 {}), .act (.step 2 {}),
    .act (.step 2 {}), .act (.step 2 {})]

theorem single_use_replays :
    ∃ d, run (step []) (first [] .empty [] 0) replays = some d ∧
      (steps [] .empty [] 0 replays).countP (·.mints [7]) = 2 ∧
      (steps [] .empty [] 0 replays).countP (·.returns [7]) = 1 ∧
      SingleUse (steps [] .empty [] 0 replays) d :=
  ⟨_, rfl, rfl, rfl, single_use [] .empty [] 0 replays _ rfl⟩

end Launch

end AeroNyra.Burning
