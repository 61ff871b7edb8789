import AeroNyra.Lib.Interleave
import AeroNyra.Coordinator.Gates
import AeroNyra.Media.Payload

/-! Presence: what puts an identity into the sets of reachable peers that the coordinator emits.
`rawKeyOf` is the identity that a prekey bundle carries, if it parses, and the environment says what
each inbound ciphertext opens to. -/

namespace AeroNyra.FirstContactCoordinator

open Interleave

/-- The calls that change the gates, the links or the presence. -/
inductive Call
  | enableReconnect (allowlistIdentities verifiedIdentities : List Data)
  | onReachable (ids : List UUID)
  | onBundle (link : UUID) (data : Data)
  | onReconnectFrame (link : UUID) (data : Data)
  | redeemInvite
  | addReconnectContact (rawIdentity : Data)
  | removeReconnectContact (rawIdentity : Data)
  | addVerifiedContact (rawIdentity : Data)
  | removeVerifiedContact (rawIdentity : Data)
  | setBlockedIdentities (identities : Finset Data)

inductive Action
  | call (call : Call)
  /-- The loop of `onReachable` after a link was greeted, with the links still to visit. -/
  | greet (links : List UUID)

/-- Whether `establishSession` succeeds, and the identity and plaintext that a ciphertext opens
to. -/
structure Reply where
  established : Bool
  opened : Option (Data × Data)

variable (rawKeyOf : Data → Option Data) (c : FirstContactCoordinator)

def reconnectBeaconSet : UInt8 := 0

def reconnectItsMe : UInt8 := 1

/-- The loop of `onReachable` up to its next beacon, or to its end, which publishes presence. -/
def greetNext (c : FirstContactCoordinator) :
    List UUID → FirstContactCoordinator × Exit Action
  | [] => (c.emitReachablePeers, .goOn [])
  | link :: links =>
    if link ∈ c.greetedLinks then greetNext c links
    else
      let greeted := { c with greetedLinks := insert link c.greetedLinks }
      if c.reconnectEnabled then (greeted, .goOn [.greet links]) else greetNext greeted links

/-- Greeting changes which links were greeted and what was emitted, and nothing else. -/
theorem greetNext_eq (links : List UUID) : ∃ greeted keys emitted,
    (c.greetNext links).1 = { c with
      greetedLinks := greeted
      lastReachableKeys := keys
      reachablePeers := emitted } := by
  induction links generalizing c with
  | nil => exact ⟨_, _, _, rfl⟩
  | cons link links ih =>
    unfold greetNext
    split
    · exact ih c
    · dsimp only
      split
      · exact ⟨_, _, _, rfl⟩
      · obtain ⟨greeted, keys, emitted, hgreeted⟩ := ih { c with
          greetedLinks := insert link c.greetedLinks }
        exact ⟨greeted, keys, emitted, hgreeted⟩

def onReachable (ids : List UUID) : FirstContactCoordinator × Exit Action :=
  greetNext { c with
    reachableLinks := ids.toFinset
    greetedLinks := c.greetedLinks ∩ ids.toFinset } ids.dedup

/-- The plaintext is a sealed hello. -/
def isHello (plaintext : Data) : Bool :=
  (MessagePayload.decodeSealed plaintext).any (·.kind == .reconnectHello)

/-- `onReconnectItsMe` for a ciphertext that opens to `opened`, or does not open. -/
def onReconnectItsMe (link : UUID) (opened : Option (Data × Data)) : FirstContactCoordinator :=
  match opened with
  | none => c
  | some (rawKey, plaintext) =>
    if rawKey ∈ c.verifiedIdentities then
      if isHello plaintext then
        emitReachablePeers { c with linkPeers := AList.insert link rawKey c.linkPeers }
      else c
    else c

/-- A beacon set is answered on the link and changes nothing here. -/
def onReconnectFrame (link : UUID) (data : Data) (opened : Option (Data × Data)) :
    FirstContactCoordinator :=
  if c.reconnectEnabled then
    match data with
    | [] => c
    | discriminator :: _ =>
      if discriminator = reconnectItsMe then c.onReconnectItsMe link opened else c
  else c

def exec : Action → Reply → Option (FirstContactCoordinator × Exit Action)
  | .call (.enableReconnect allowlistIdentities verifiedIdentities), _ =>
    some (c.enableReconnect allowlistIdentities verifiedIdentities, .goOn [])
  | .call (.onReachable ids), _ => some (c.onReachable ids)
  | .call (.onBundle link data), reply =>
    some ((c.onBundle link (rawKeyOf data) reply.established).1, .goOn [])
  | .call (.onReconnectFrame link data), reply =>
    some (c.onReconnectFrame link data reply.opened, .goOn [])
  | .call .redeemInvite, reply =>
    some (if reply.established then c.emitReachablePeers else c, .goOn [])
  | .call (.addReconnectContact k), _ => some (c.addReconnectContact k, .goOn [])
  | .call (.removeReconnectContact k), _ => some (c.removeReconnectContact k, .goOn [])
  | .call (.addVerifiedContact k), _ => some (c.addVerifiedContact k, .goOn [])
  | .call (.removeVerifiedContact k), _ => some (c.removeVerifiedContact k, .goOn [])
  | .call (.setBlockedIdentities ks), _ => some (c.setBlockedIdentities ks, .goOn [])
  | .greet links, _ => some (c.greetNext links)

def machine : Machine FirstContactCoordinator Action Call Reply where
  thread call := ⟨[.call call], []⟩
  exec := exec rawKeyOf

abbrev Step := Transition (Config FirstContactCoordinator Action) (Event Call Reply)

/-! ### What identifies a link -/

/-- The action takes a bundle with the identity `k` from `link` while `k` is enrolled. -/
def Action.DeliversBundle (link : UUID) (k : Data) (c : FirstContactCoordinator) (a : Action)
    (_ : Reply) : Prop :=
  ∃ data, a = .call (.onBundle link data) ∧ rawKeyOf data = some k ∧
    k ∈ c.reconnectAllowlistIdentities

/-- The action takes a sealed hello from `link` that opens under the session of `k` while `k` is
verified. -/
def Action.DeliversHello (link : UUID) (k : Data) (c : FirstContactCoordinator) (a : Action)
    (reply : Reply) : Prop :=
  ∃ ciphertext plaintext, a = .call (.onReconnectFrame link (reconnectItsMe :: ciphertext)) ∧
    reply.opened = some (k, plaintext) ∧ isHello plaintext ∧ k ∈ c.verifiedIdentities

def Action.Identifies (link : UUID) (k : Data) (c : FirstContactCoordinator) (a : Action)
    (reply : Reply) : Prop :=
  a.DeliversBundle rawKeyOf link k c reply ∨ a.DeliversHello link k c reply

/-- What any action does to links and presence: a link that is newly identified is so by the action,
and what is emitted is what the new state says. -/
structure PresenceEffect (c c' : FirstContactCoordinator) (identifies : UUID → Data → Prop) :
    Prop where
  links : ∀ link k, c'.linkPeers.lookup link = some k →
    c.linkPeers.lookup link = some k ∨ identifies link k
  emitted : c'.reachablePeers = c.reachablePeers ∨
    c'.reachablePeers = c.reachablePeers ++ [c'.reachableKeys]

namespace PresenceEffect

variable {c} {c' : FirstContactCoordinator} {identifies : UUID → Data → Prop}

/-- A change that neither identifies a link nor emits. -/
theorem quiet (hl : c'.linkPeers = c.linkPeers) (he : c'.reachablePeers = c.reachablePeers) :
    PresenceEffect c c' identifies :=
  ⟨fun link k h => .inl (by rwa [hl] at h), .inl he⟩

/-- An emission after a change of the links. -/
theorem emit (he : c'.reachablePeers = c.reachablePeers)
    (hl : ∀ link k, c'.linkPeers.lookup link = some k →
      c.linkPeers.lookup link = some k ∨ identifies link k) :
    PresenceEffect c c'.emitReachablePeers identifies := by
  refine ⟨hl, .inr ?_⟩
  rw [← he]
  rfl

theorem insert {link : UUID} {k : Data} (h : identifies link k) :
    PresenceEffect c
      (emitReachablePeers { c with linkPeers := AList.insert link k c.linkPeers }) identifies := by
  refine emit rfl fun link' k' hlookup => ?_
  rw [Dict.lookup_insert] at hlookup
  split at hlookup
  · rename_i hlink
    cases hlookup
    exact .inr (hlink ▸ h)
  · exact .inl hlookup

theorem greetNext {c₀ : FirstContactCoordinator} (links : List UUID)
    (hl : c.linkPeers = c₀.linkPeers) (he : c.reachablePeers = c₀.reachablePeers) :
    PresenceEffect c₀ (c.greetNext links).1 identifies := by
  induction links generalizing c with
  | nil => exact emit he fun link k h => .inl (by rwa [hl] at h)
  | cons link links ih =>
    unfold FirstContactCoordinator.greetNext
    split
    · exact ih hl he
    · dsimp only
      split
      · exact quiet hl he
      · exact ih hl he

end PresenceEffect

variable {rawKeyOf} {c}

theorem exec_presence {a : Action} {reply : Reply} {p : FirstContactCoordinator × Exit Action}
    (h : exec rawKeyOf c a reply = some p) :
    PresenceEffect c p.1 fun link k => a.Identifies rawKeyOf link k c reply := by
  cases a with
  | greet links =>
    obtain rfl := Option.some.inj h
    exact .greetNext links rfl rfl
  | call call =>
    cases call with
    | enableReconnect allowlistIdentities verifiedIdentities =>
      obtain rfl := Option.some.inj h
      exact .quiet rfl rfl
    | onReachable ids =>
      obtain rfl := Option.some.inj h
      exact .greetNext _ rfl rfl
    | onBundle link data =>
      obtain rfl := Option.some.inj h
      dsimp only [onBundle]
      split
      · exact .quiet rfl rfl
      · rename_i k hk
        split
        · rename_i henrolled
          exact .insert (.inl ⟨data, rfl, hk, henrolled⟩)
        · exact .quiet rfl rfl
    | onReconnectFrame link data =>
      obtain rfl := Option.some.inj h
      dsimp only [onReconnectFrame]
      split
      · cases data with
        | nil => exact .quiet rfl rfl
        | cons discriminator ciphertext =>
          dsimp only
          split
          · rename_i hdisc
            subst hdisc
            unfold onReconnectItsMe
            split
            · exact .quiet rfl rfl
            · rename_i k plaintext hopened
              split
              · rename_i hverified
                split
                · rename_i hhello
                  exact .insert (.inr ⟨ciphertext, plaintext, rfl, hopened, hhello, hverified⟩)
                · exact .quiet rfl rfl
              · exact .quiet rfl rfl
          · exact .quiet rfl rfl
      · exact .quiet rfl rfl
    | redeemInvite =>
      obtain rfl := Option.some.inj h
      dsimp only
      split
      · exact .emit rfl fun _ _ h => .inl h
      · exact .quiet rfl rfl
    | addReconnectContact k =>
      obtain rfl := Option.some.inj h
      dsimp only [addReconnectContact]
      split
      · split
        · exact .quiet rfl rfl
        · exact .quiet rfl rfl
      · exact .quiet rfl rfl
    | removeReconnectContact k =>
      obtain rfl := Option.some.inj h
      dsimp only [removeReconnectContact]
      split
      · refine .emit rfl fun link j hlookup => .inl ?_
        rw [Dict.lookup_filterValues, Option.filter_eq_some_iff] at hlookup
        exact hlookup.1
      · exact .quiet rfl rfl
    | addVerifiedContact k =>
      obtain rfl := Option.some.inj h
      dsimp only [addVerifiedContact]
      split
      · split
        · exact .quiet rfl rfl
        · exact .emit rfl fun _ _ h => .inl h
      · exact .quiet rfl rfl
    | removeVerifiedContact k =>
      obtain rfl := Option.some.inj h
      dsimp only [removeVerifiedContact]
      split
      · exact .emit rfl fun _ _ h => .inl h
      · exact .quiet rfl rfl
    | setBlockedIdentities ks =>
      obtain rfl := Option.some.inj h
      exact .quiet rfl rfl

theorem mem_reachableKeys {k : Data} : k ∈ c.reachableKeys ↔
    k ∈ c.verifiedIdentities ∧ ∃ link ∈ c.reachableLinks, c.linkPeers.lookup link = some k := by
  simp [reachableKeys, and_comm]

/-- The keys last reported reachable are as they were, or all verified. -/
def Reports (c c' : FirstContactCoordinator) : Prop :=
  c'.lastReachableKeys = c.lastReachableKeys ∨ c'.lastReachableKeys ⊆ c'.verifiedIdentities

theorem reports_emit (c c' : FirstContactCoordinator) : Reports c c'.emitReachablePeers :=
  .inr fun _ hk => (mem_reachableKeys.mp hk).1

theorem reports_greetNext (links : List UUID) {c₀ : FirstContactCoordinator}
    (h : c.lastReachableKeys = c₀.lastReachableKeys) : Reports c₀ (c.greetNext links).1 := by
  induction links generalizing c with
  | nil => exact reports_emit c₀ c
  | cons link links ih =>
    unfold FirstContactCoordinator.greetNext
    split
    · exact ih h
    · dsimp only
      split
      · exact .inl h
      · exact ih h

theorem exec_reports {a : Action} {reply : Reply} {p : FirstContactCoordinator × Exit Action}
    (ha : ∀ allowlist verified, a ≠ .call (.enableReconnect allowlist verified))
    (h : exec rawKeyOf c a reply = some p) : Reports c p.1 := by
  cases a with
  | greet links =>
    obtain rfl := Option.some.inj h
    exact reports_greetNext links rfl
  | call call =>
    cases call with
    | enableReconnect allowlist verified => exact absurd rfl (ha allowlist verified)
    | onReachable ids =>
      obtain rfl := Option.some.inj h
      exact reports_greetNext _ rfl
    | onBundle link data =>
      obtain rfl := Option.some.inj h
      dsimp only [onBundle]
      split
      · exact .inl rfl
      · split
        · exact reports_emit _ _
        · exact .inl rfl
    | onReconnectFrame link data =>
      obtain rfl := Option.some.inj h
      dsimp only [onReconnectFrame, onReconnectItsMe]
      repeat' split
      all_goals first
        | exact .inl rfl
        | exact reports_emit _ _
    | redeemInvite =>
      obtain rfl := Option.some.inj h
      dsimp only
      split
      · exact reports_emit _ _
      · exact .inl rfl
    | addReconnectContact k =>
      obtain rfl := Option.some.inj h
      dsimp only [addReconnectContact]
      repeat' split
      all_goals exact .inl rfl
    | removeReconnectContact k =>
      obtain rfl := Option.some.inj h
      dsimp only [removeReconnectContact]
      split
      · exact reports_emit _ _
      · exact .inl rfl
    | addVerifiedContact k =>
      obtain rfl := Option.some.inj h
      dsimp only [addVerifiedContact]
      repeat' split
      all_goals first
        | exact .inl rfl
        | exact reports_emit _ _
    | removeVerifiedContact k =>
      obtain rfl := Option.some.inj h
      dsimp only [removeVerifiedContact]
      split
      · exact reports_emit _ _
      · exact .inl rfl
    | setBlockedIdentities ks =>
      obtain rfl := Option.some.inj h
      exact .inl rfl

/-- A step of the coordinator does what its action does, if it runs one. -/
theorem step_presence {t : Step} (ht : (machine rawKeyOf).step t.pre t.event = some t.post) :
    PresenceEffect t.pre.shared t.post.shared fun link k =>
      Config.Ran t (Action.Identifies rawKeyOf link k) := by
  rcases Machine.step_shared ht with ⟨hsame, _⟩ | ⟨a, reply, x, hexec, hran⟩
  · rw [hsame]
    exact .quiet rfl rfl
  · have heffect := exec_presence hexec
    simpa only [hran] using heffect

/-- Every link was identified by some earlier step. -/
def Identified (rawKeyOf : Data → Option Data) (past : List Step)
    (c : Config FirstContactCoordinator Action) : Prop :=
  ∀ link k, c.shared.linkPeers.lookup link = some k →
    ∃ u ∈ past, Config.Ran u (Action.Identifies rawKeyOf link k)

theorem identified_step {past : List Step} {t : Step}
    (ht : (machine rawKeyOf).step t.pre t.event = some t.post)
    (h : Identified rawKeyOf past t.pre) : Identified rawKeyOf (past ++ [t]) t.post := by
  intro link k hlookup
  rcases (step_presence ht).links link k hlookup with hold | hnew
  · obtain ⟨u, hu, hid⟩ := h link k hold
    exact ⟨u, List.mem_append_left _ hu, hid⟩
  · exact ⟨t, List.mem_append_right _ (List.mem_singleton_self t), hnew⟩

theorem identified_run {localIdentity : Data} {events : List (Event Call Reply)}
    {c : Config FirstContactCoordinator Action}
    (h : run (machine rawKeyOf).step ⟨new localIdentity, []⟩ events = some c) :
    Identified rawKeyOf (trace (machine rawKeyOf).step ⟨new localIdentity, []⟩ events) c := by
  have hnone : Identified rawKeyOf [] ⟨new localIdentity, []⟩ := by
    intro link k hlookup
    simp [new] at hlookup
  exact run_history (Identified rawKeyOf) (fun past t ht => identified_step ht) hnone h

/-- Whenever the coordinator emits a set of reachable peers, each of them is verified, and some
reachable link has delivered a bundle of it while it was enrolled, or a hello that opened under its
session while it was verified. -/
theorem presence_identified (rawKeyOf : Data → Option Data) (localIdentity : Data)
    (events : List (Event Call Reply)) (event : Event Call Reply)
    (c c' : Config FirstContactCoordinator Action) (keys : Finset Data)
    (hrun : run (machine rawKeyOf).step ⟨new localIdentity, []⟩ events = some c)
    (hstep : (machine rawKeyOf).step c event = some c')
    (hemit : c'.shared.reachablePeers = c.shared.reachablePeers ++ [keys]) :
    ∀ k ∈ keys, k ∈ c'.shared.verifiedIdentities ∧ ∃ link ∈ c'.shared.reachableLinks,
      ∃ u ∈ trace (machine rawKeyOf).step ⟨new localIdentity, []⟩ (events ++ [event]),
        Config.Ran u (Action.DeliversBundle rawKeyOf link k) ∨
          Config.Ran u (Action.DeliversHello link k) := by
  intro k hk
  have hkeys : keys = c'.shared.reachableKeys := by
    rcases (step_presence (t := ⟨c, event, c'⟩) hstep).emitted with hsame | hnew
    · have hsame : c'.shared.reachablePeers = c.shared.reachablePeers := hsame
      rw [hsame] at hemit
      simp at hemit
    · have hnew : c'.shared.reachablePeers = _ := hnew
      simpa using hemit.symm.trans hnew
  rw [hkeys, mem_reachableKeys] at hk
  obtain ⟨hverified, link, hlink, hlookup⟩ := hk
  have hwhole : run (machine rawKeyOf).step ⟨new localIdentity, []⟩ (events ++ [event]) =
      some c' := run_append.mpr ⟨c, hrun, run_cons.mpr ⟨c', hstep, rfl⟩⟩
  obtain ⟨u, hu, a, reply, hacts, hid⟩ := identified_run hwhole link k hlookup
  refine ⟨hverified, link, hlink, u, hu, ?_⟩
  rcases hid with hbundle | hhello
  · exact .inl ⟨a, reply, hacts, hbundle⟩
  · exact .inr ⟨a, reply, hacts, hhello⟩

/-! ### A replayed bundle -/

/-- A stand-in for the bundle parser: the identity is the first 32 bytes. -/
def prefixKey (data : Data) : Option Data :=
  if 32 ≤ data.length then some (data.take 32) else none

/-- An enrolled and verified contact, whose bundle somebody in radio range sends from link 7. -/
def replayedBundle : List (Event Call Reply) :=
  [.start (.enableReconnect [.replicate 32 5] [.replicate 32 5]), .step 0 ⟨false, none⟩,
    .start (.onReachable [7]), .step 1 ⟨false, none⟩, .step 1 ⟨false, none⟩,
    .start (.onBundle 7 (.replicate 64 5))]

theorem presence_identified_replay : ∃ c c',
    run (machine prefixKey).step ⟨new [], []⟩ replayedBundle = some c ∧
      (machine prefixKey).step c (.step 2 ⟨true, none⟩) = some c' ∧
      ∀ k ∈ ({.replicate 32 5} : Finset Data), k ∈ c'.shared.verifiedIdentities ∧
        ∃ link ∈ c'.shared.reachableLinks,
          ∃ u ∈ trace (machine prefixKey).step ⟨new [], []⟩
              (replayedBundle ++ [.step 2 ⟨true, none⟩]),
            Config.Ran u (Action.DeliversBundle prefixKey link k) ∨
              Config.Ran u (Action.DeliversHello link k) :=
  ⟨_, _, rfl, rfl, presence_identified prefixKey [] replayedBundle (.step 2 ⟨true, none⟩) _ _
    {.replicate 32 5} rfl rfl (by decide)⟩

/-- The replayed bundle makes the contact present, and no link has delivered a hello. -/
theorem presence_replayed : ∃ c c',
    run (machine prefixKey).step ⟨new [], []⟩ replayedBundle = some c ∧
      (machine prefixKey).step c (.step 2 ⟨true, none⟩) = some c' ∧
      c'.shared.reachablePeers = c.shared.reachablePeers ++ [{.replicate 32 5}] ∧
      ¬∃ link, ∃ u ∈ trace (machine prefixKey).step ⟨new [], []⟩
          (replayedBundle ++ ([.step 2 ⟨true, none⟩] : List (Event Call Reply))),
        Config.Ran u (Action.DeliversHello link (.replicate 32 5)) := by
  refine ⟨_, _, rfl, rfl, by decide, ?_⟩
  rintro ⟨link, u, hu, a, reply, hacts, ciphertext, plaintext, rfl, _⟩
  have hran := List.mem_map_of_mem (f := fun u : Step => u.pre.acts u.event) hu
  rw [hacts] at hran
  have hall : (trace (machine prefixKey).step ⟨new [], []⟩
      (replayedBundle ++ [.step 2 ⟨true, none⟩])).map (fun u => u.pre.acts u.event) =
      [none, some (.call (.enableReconnect [.replicate 32 5] [.replicate 32 5]), ⟨false, none⟩),
        none, some (.call (.onReachable [7]), ⟨false, none⟩), some (.greet [], ⟨false, none⟩),
        none, some (.call (.onBundle 7 (.replicate 64 5)), ⟨true, none⟩)] := rfl
  rw [hall] at hran
  simp at hran

end AeroNyra.FirstContactCoordinator
