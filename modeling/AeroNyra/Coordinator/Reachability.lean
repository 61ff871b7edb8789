import AeroNyra.Coordinator.Beacons
import AeroNyra.Coordinator.Presence

/-! The handling of the radio's reachability: the feed that takes its emissions one after another,
the boot task that catches up on the links formed before there was a coordinator, and
`onReachable`, which greets each new link, publishes presence and hands the traffic of departed
peers to the router. `rawKeyOf` is the identity that a prekey bundle carries, and `derive` the
discovery secret of a contact. -/

namespace AeroNyra

/-- The coordinator with what feeds it. -/
structure Reachability where
  coordinator : FirstContactCoordinator
  /-- The session stack, and with it the coordinator, exists. -/
  booted : Bool
  /-- The coordinator has the router. -/
  hasRouter : Bool
  /-- The radio's emissions that the feed has not taken yet, the oldest first. -/
  updates : List (List UUID)
  /-- The emission that the feed took last. -/
  reachableIDs : List UUID
  /-- The sets that `rerouteToNostr` was called with, the oldest first. -/
  rerouted : List (Finset Data)

namespace Reachability

open Interleave

/-- A call of the coordinator other than those of the feed and of the boot task. -/
structure Handler where
  call : FirstContactCoordinator.Call
  notReachable : ∀ ids, call ≠ .onReachable ids
  notEnable : ∀ allowlist verified, call ≠ .enableReconnect allowlist verified

inductive Call
  | transport (ids : List UUID)
  | makeSessionStack (allowlist verified : List Data) (blocked : Finset Data)
  | handler (h : Handler)

inductive Action
  /-- The radio emits the links that are up. -/
  | transport (ids : List UUID)
  /-- The feed takes the next emission. -/
  | feed
  /-- The feed's call of the coordinator. -/
  | onReachable (ids : List UUID)
  | makeSessionStack (allowlist verified : List Data) (blocked : Finset Data)
  | setRouter
  /-- The boot task's call of `onReachable`. -/
  | catchUp (ids : List UUID)
  /-- The loop of `onReachable` once the transport has answered for a beacon set made from
  `contacts`, with the links still to visit. -/
  | greet (link : UUID) (contacts : List Data) (links : List UUID)
  | call (call : FirstContactCoordinator.Call)

/-- What the environment answers: whether a session is established, what a ciphertext opens to, and
whether the transport carried a beacon set. -/
structure Reply where
  established : Bool
  opened : Option (Data × Data)
  carried : Bool

variable (rawKeyOf : Data → Option Data) (derive : Data → Option Data) (s : Reachability)

/-- The end of `onReachable`. -/
def finishReachable : Reachability :=
  let before := s.coordinator.lastReachableKeys
  let coordinator := s.coordinator.emitReachablePeers
  let departed := before \ coordinator.lastReachableKeys
  { s with
    coordinator
    rerouted := if departed ≠ ∅ ∧ s.hasRouter then s.rerouted ++ [departed] else s.rerouted }

def insertGreeted (link : UUID) : Reachability :=
  { s with coordinator := { s.coordinator with
      greetedLinks := insert link s.coordinator.greetedLinks } }

/-- The loop of `onReachable` up to the next beacon set that is handed to the transport, or to its
end. Nothing is sent before reconnection is enabled, nor without a plan. -/
def greetNext (s : Reachability) : List UUID → Reachability × Exit Action
  | [] => (s.finishReachable, .goOn [])
  | link :: links =>
    if link ∈ s.coordinator.greetedLinks then greetNext s links
    else if s.coordinator.reconnectEnabled ∧
        ReconnectEpochBuilder.Derivable derive s.coordinator.reconnectAllowlistIdentities then
      (s.insertGreeted link,
        .goOn [.greet link s.coordinator.reconnectAllowlistIdentities links])
    else greetNext (s.insertGreeted link) links

def onReachable (ids : List UUID) : Reachability × Exit Action :=
  greetNext derive { s with coordinator := { s.coordinator with
    reachableLinks := ids.toFinset
    greetedLinks := s.coordinator.greetedLinks ∩ ids.toFinset } } ids.dedup

/-- One of the other calls, which do not suspend. -/
def handle (reply : Reply) : FirstContactCoordinator.Call → Option FirstContactCoordinator
  | .onReachable _ => none
  | call => (FirstContactCoordinator.exec rawKeyOf s.coordinator (.call call)
      ⟨reply.established, reply.opened⟩).map (·.1)

def exec : Action → Reply → Option (Reachability × Exit Action)
  | .transport ids, _ => some ({ s with updates := s.updates ++ [ids] }, .goOn [])
  | .feed, _ =>
    match s.updates with
    | [] => none
    | ids :: updates =>
      some ({ s with updates, reachableIDs := ids },
        .goOn (if s.booted then [.onReachable ids, .feed] else [.feed]))
  | .onReachable ids, _ => some (s.onReachable derive ids)
  | .makeSessionStack allowlist verified blocked, _ =>
    if s.booted then none
    else some ({ s with booted := true },
      .goOn [.setRouter, .call (.enableReconnect allowlist verified),
        .call (.setBlockedIdentities blocked), .catchUp s.reachableIDs])
  | .setRouter, _ => some ({ s with hasRouter := true }, .goOn [])
  | .catchUp ids, _ => some (s.onReachable derive ids)
  | .greet _ _ links, _ => some (s.greetNext derive links)
  | .call call, reply =>
    if s.booted then
      (s.handle rawKeyOf reply call).map fun coordinator => ({ s with coordinator }, .goOn [])
    else none

def machine : Machine Reachability Action Call Reply where
  thread
    | .transport ids => ⟨[.transport ids], []⟩
    | .makeSessionStack allowlist verified blocked =>
      ⟨[.makeSessionStack allowlist verified blocked], []⟩
    | .handler h => ⟨[.call h.call], []⟩
  exec := exec rawKeyOf derive

/-- Before the session stack exists, with the feed as the one call. -/
def launch (localIdentity : Data) : Config Reachability Action :=
  ⟨⟨.new localIdentity, false, false, [], [], []⟩, [⟨[.feed], []⟩]⟩

/-- The radio's latest emission. -/
def latest : List UUID := s.updates.getLast?.getD s.reachableIDs

/-- No handler is in progress. -/
def Resting (ts : List (Thread Action)) : Prop := ∀ t ∈ ts, t.todo = [] ∨ t.todo = [.feed]

/-- No handler is in progress and the feed is drained. -/
def Quiescent (c : Config Reachability Action) : Prop := c.shared.updates = [] ∧ Resting c.threads

theorem resting_of_todos {ts : List (Thread Action)} {n : Nat}
    (htodos : ts.map (·.todo) = [.feed] :: List.replicate n []) : Resting ts := by
  intro t ht
  have hmem : t.todo ∈ ts.map (·.todo) := List.mem_map_of_mem ht
  rw [htodos, List.mem_cons] at hmem
  rcases hmem with hfeed | hdone
  · exact .inr hfeed
  · exact .inl (List.eq_of_mem_replicate hdone)

/-- Nothing but the feed is pending. -/
theorem Resting.not_pending {s : Reachability} {ts : List (Thread Action)} (h : Resting ts)
    {b : Action} (hb : b ≠ .feed) : ¬(Config.mk s ts).Pending b := by
  rintro ⟨u, hu, hmem⟩
  rcases h u hu with htodo | htodo
  · simp [htodo] at hmem
  · rw [htodo] at hmem
    exact hb (List.mem_singleton.mp hmem)

abbrev Step := Transition (Config Reachability Action) (Event Call Reply)

/-- The steps of a run from the launch. -/
def steps (localIdentity : Data) (events : List (Event Call Reply)) : List Step :=
  trace (machine rawKeyOf derive).step (launch localIdentity) events

/-! ### What the other calls do -/

/-- Whether a call publishes presence. -/
def publishes (c : FirstContactCoordinator) (reply : Reply) : FirstContactCoordinator.Call → Bool
  | .onBundle _ data => (rawKeyOf data).any (· ∈ c.reconnectAllowlistIdentities)
  | .onReconnectFrame _ data =>
    c.reconnectEnabled && data.head? == some FirstContactCoordinator.reconnectItsMe &&
      reply.opened.any fun p => p.1 ∈ c.verifiedIdentities && FirstContactCoordinator.isHello p.2
  | .redeemInvite => reply.established
  | .removeReconnectContact k => k ∈ c.reconnectAllowlistIdentities
  | .addVerifiedContact k => c.reconnectEnabled && k.length == 32 && k ∉ c.verifiedIdentities
  | .removeVerifiedContact k => k ∈ c.verifiedIdentities
  | _ => false

/-- The link and the identity that a call brings together, if it is admitted. -/
def brings (reply : Reply) : FirstContactCoordinator.Call → Option (UUID × Data)
  | .onBundle link data => (rawKeyOf data).map fun k => (link, k)
  | .onReconnectFrame link _ => reply.opened.map fun p => (link, p.1)
  | _ => none

/-- The effect of a call on presence: its links stay as they are, and it publishes what it has
changed. -/
structure HandlerEffect (c c' : FirstContactCoordinator) (reply : Reply)
    (call : FirstContactCoordinator.Call) : Prop where
  reachable : c'.reachableLinks = c.reachableLinks
  greeted : c'.greetedLinks = c.greetedLinks
  published : publishes rawKeyOf c reply call → c'.lastReachableKeys = c'.reachableKeys
  quiet : ¬publishes rawKeyOf c reply call →
    c'.lastReachableKeys = c.lastReachableKeys ∧ c'.linkPeers = c.linkPeers ∧
      ((∃ allowlist verified, call = .enableReconnect allowlist verified) ∨
        c'.verifiedIdentities = c.verifiedIdentities)
  brought : publishes rawKeyOf c reply call →
    ∀ link k, brings rawKeyOf reply call = some (link, k) → c'.linkPeers.lookup link = some k
  old : ∀ link k, c'.linkPeers.lookup link = some k →
    c.linkPeers.lookup link = some k ∨ brings rawKeyOf reply call = some (link, k)
  verified : ∀ k ∈ c.verifiedIdentities, publishes rawKeyOf c reply call →
    (k ∈ c'.verifiedIdentities ↔ call ≠ .removeVerifiedContact k)

variable {rawKeyOf derive} {s}

section Handlers

variable {c c' : FirstContactCoordinator} {reply : Reply} {call : FirstContactCoordinator.Call}

/-- A call that does not publish and leaves the presence alone. -/
theorem HandlerEffect.still (hquiet : publishes rawKeyOf c reply call = false)
    (hreachable : c'.reachableLinks = c.reachableLinks)
    (hgreeted : c'.greetedLinks = c.greetedLinks)
    (hlast : c'.lastReachableKeys = c.lastReachableKeys) (hlinks : c'.linkPeers = c.linkPeers)
    (hverified : (∃ allowlist verified, call = .enableReconnect allowlist verified) ∨
      c'.verifiedIdentities = c.verifiedIdentities) : HandlerEffect rawKeyOf c c' reply call where
  reachable := hreachable
  greeted := hgreeted
  published hp := by simp [hquiet] at hp
  quiet _ := ⟨hlast, hlinks, hverified⟩
  brought hp := by simp [hquiet] at hp
  old link k hlookup := .inl (by rwa [hlinks] at hlookup)
  verified k _ hp := by simp [hquiet] at hp

/-- A call that publishes, with what it does to the links and to the verified identities. -/
theorem HandlerEffect.emit (hpublishes : publishes rawKeyOf c reply call = true)
    (hreachable : c'.reachableLinks = c.reachableLinks)
    (hgreeted : c'.greetedLinks = c.greetedLinks)
    (hbrought : ∀ link k, brings rawKeyOf reply call = some (link, k) →
      c'.linkPeers.lookup link = some k)
    (hold : ∀ link k, c'.linkPeers.lookup link = some k →
      c.linkPeers.lookup link = some k ∨ brings rawKeyOf reply call = some (link, k))
    (hverified : ∀ k ∈ c.verifiedIdentities,
      (k ∈ c'.verifiedIdentities ↔ call ≠ .removeVerifiedContact k)) :
    HandlerEffect rawKeyOf c c'.emitReachablePeers reply call where
  reachable := hreachable
  greeted := hgreeted
  published _ := rfl
  quiet hp := by simp [hpublishes] at hp
  brought _ := hbrought
  old := hold
  verified k hk _ := hverified k hk

/-- A call that maps `link` to `k` and publishes. -/
theorem HandlerEffect.bring {link : UUID} {k : Data}
    (hpublishes : publishes rawKeyOf c reply call = true)
    (hbrings : brings rawKeyOf reply call = some (link, k))
    (hcall : ∀ k, call ≠ .removeVerifiedContact k) :
    HandlerEffect rawKeyOf c
      (FirstContactCoordinator.emitReachablePeers { c with
        linkPeers := AList.insert link k c.linkPeers }) reply call := by
  refine .emit hpublishes rfl rfl (fun link' k' h => ?_) (fun link' k' hlookup => ?_) fun j hj => ?_
  · cases hbrings.symm.trans h
    exact (Dict.lookup_insert _ _ _ _).trans (if_pos rfl)
  · have hlookup := (Dict.lookup_insert c.linkPeers link' link k).symm.trans hlookup
    by_cases hlink : link' = link
    · rw [if_pos hlink] at hlookup
      cases hlookup
      exact .inr (hlink ▸ hbrings)
    · rw [if_neg hlink] at hlookup
      exact .inl hlookup
  · exact ⟨fun _ => hcall j, fun _ => hj⟩

theorem onBundle_effect (link : UUID) (data : Data) (established : Bool) :
    HandlerEffect rawKeyOf c (c.onBundle link (rawKeyOf data) established).1 reply
      (.onBundle link data) := by
  unfold FirstContactCoordinator.onBundle
  cases hkey : rawKeyOf data with
  | none => exact .still (by simp [publishes, hkey]) rfl rfl rfl rfl (.inr rfl)
  | some k =>
    dsimp only
    by_cases henrolled : k ∈ c.reconnectAllowlistIdentities
    · rw [if_pos henrolled]
      exact .bring (by simp [publishes, hkey, henrolled]) (by simp [brings, hkey]) (by simp)
    · rw [if_neg henrolled]
      exact .still (by simp [publishes, hkey, henrolled]) rfl rfl rfl rfl (.inr rfl)

theorem onReconnectFrame_effect (link : UUID) (data : Data) :
    HandlerEffect rawKeyOf c (c.onReconnectFrame link data reply.opened) reply
      (.onReconnectFrame link data) := by
  unfold FirstContactCoordinator.onReconnectFrame
  by_cases henabled : c.reconnectEnabled
  · rw [if_pos henabled]
    cases data with
    | nil => exact .still (by simp [publishes]) rfl rfl rfl rfl (.inr rfl)
    | cons discriminator ciphertext =>
      dsimp only
      by_cases hdiscriminator : discriminator = FirstContactCoordinator.reconnectItsMe
      · rw [if_pos hdiscriminator]
        unfold FirstContactCoordinator.onReconnectItsMe
        cases hopened : reply.opened with
        | none => exact .still (by simp [publishes, hopened]) rfl rfl rfl rfl (.inr rfl)
        | some p =>
          obtain ⟨k, plaintext⟩ := p
          dsimp only
          by_cases hverified : k ∈ c.verifiedIdentities
          · rw [if_pos hverified]
            by_cases hhello : FirstContactCoordinator.isHello plaintext
            · rw [if_pos hhello]
              exact .bring
                (by simp [publishes, henabled, hdiscriminator, hopened, hverified, hhello])
                (by simp [brings, hopened]) (by simp)
            · rw [if_neg hhello]
              exact .still (by simp [publishes, hopened, hhello]) rfl rfl rfl rfl (.inr rfl)
          · rw [if_neg hverified]
            exact .still (by simp [publishes, hopened, hverified]) rfl rfl rfl rfl (.inr rfl)
      · rw [if_neg hdiscriminator]
        exact .still (by simp [publishes, hdiscriminator]) rfl rfl rfl rfl (.inr rfl)
  · rw [if_neg henabled]
    exact .still (by simp [publishes, henabled]) rfl rfl rfl rfl (.inr rfl)

theorem removeReconnectContact_effect (k : Data) :
    HandlerEffect rawKeyOf c (c.removeReconnectContact k) reply (.removeReconnectContact k) := by
  unfold FirstContactCoordinator.removeReconnectContact
  by_cases henrolled : k ∈ c.reconnectAllowlistIdentities
  · rw [if_pos henrolled]
    refine .emit (by simp [publishes, henrolled]) rfl rfl (fun link j h => by simp [brings] at h)
      (fun link j hlookup => .inl ?_) fun j hj => ⟨fun _ => by simp, fun _ => hj⟩
    have hlookup := (Dict.lookup_filterValues _ _ _).symm.trans hlookup
    rw [Option.filter_eq_some_iff] at hlookup
    exact hlookup.1
  · rw [if_neg henrolled]
    exact .still (by simp [publishes, henrolled]) rfl rfl rfl rfl (.inr rfl)

theorem addReconnectContact_effect (k : Data) :
    HandlerEffect rawKeyOf c (c.addReconnectContact k) reply (.addReconnectContact k) := by
  unfold FirstContactCoordinator.addReconnectContact
  split
  · split
    · exact .still rfl rfl rfl rfl rfl (.inr rfl)
    · exact .still rfl rfl rfl rfl rfl (.inr rfl)
  · exact .still rfl rfl rfl rfl rfl (.inr rfl)

theorem addVerifiedContact_effect (k : Data) :
    HandlerEffect rawKeyOf c (c.addVerifiedContact k) reply (.addVerifiedContact k) := by
  unfold FirstContactCoordinator.addVerifiedContact
  by_cases hadmit : c.reconnectEnabled && k.length == 32
  · rw [if_pos hadmit]
    by_cases hk : k ∈ c.verifiedIdentities
    · rw [if_pos hk]
      exact .still (by simp [publishes, hk]) rfl rfl rfl rfl (.inr rfl)
    · rw [if_neg hk]
      refine .emit (by simp [publishes, hadmit, hk]) rfl rfl (fun link j h => by simp [brings] at h)
        (fun _ _ hlookup => .inl hlookup) fun j hj => ⟨fun _ => by simp, fun _ => ?_⟩
      exact Finset.mem_insert_of_mem hj
  · rw [if_neg hadmit]
    exact .still (by simp [publishes, hadmit]) rfl rfl rfl rfl (.inr rfl)

theorem removeVerifiedContact_effect (k : Data) :
    HandlerEffect rawKeyOf c (c.removeVerifiedContact k) reply (.removeVerifiedContact k) := by
  unfold FirstContactCoordinator.removeVerifiedContact
  by_cases hk : k ∈ c.verifiedIdentities
  · rw [if_pos hk]
    refine .emit (by simp [publishes, hk]) rfl rfl (fun link j h => by simp [brings] at h)
      (fun _ _ hlookup => .inl hlookup) fun j hj => ?_
    simp [hj, eq_comm]
  · rw [if_neg hk]
    exact .still (by simp [publishes, hk]) rfl rfl rfl rfl (.inr rfl)

/-- What each of the other calls does. -/
theorem handle_effect (h : s.handle rawKeyOf reply call = some c') :
    HandlerEffect rawKeyOf s.coordinator c' reply call := by
  unfold handle at h
  cases call with
  | onReachable ids => cases h
  | enableReconnect allowlist verified =>
    cases h
    exact .still rfl rfl rfl rfl rfl (.inl ⟨allowlist, verified, rfl⟩)
  | onBundle link data =>
    cases h
    exact onBundle_effect link data reply.established
  | onReconnectFrame link data =>
    cases h
    exact onReconnectFrame_effect link data
  | redeemInvite =>
    cases h
    dsimp only
    by_cases hestablished : reply.established
    · rw [if_pos hestablished]
      exact .emit hestablished rfl rfl (fun link j h => by simp [brings] at h)
        (fun _ _ hlookup => .inl hlookup) fun j hj => ⟨fun _ => by simp, fun _ => hj⟩
    · rw [if_neg hestablished]
      exact .still (by simp [publishes, hestablished]) rfl rfl rfl rfl (.inr rfl)
  | addReconnectContact k =>
    cases h
    exact addReconnectContact_effect k
  | removeReconnectContact k =>
    cases h
    exact removeReconnectContact_effect k
  | addVerifiedContact k =>
    cases h
    exact addVerifiedContact_effect k
  | removeVerifiedContact k =>
    cases h
    exact removeVerifiedContact_effect k
  | setBlockedIdentities ks =>
    cases h
    exact .still rfl rfl rfl rfl rfl (.inr rfl)

end Handlers

/-! ### The loop of `onReachable` -/

/-- The state with other greeted links. -/
def regreet (s : Reachability) (greeted : Finset UUID) : Reachability :=
  { s with coordinator := { s.coordinator with greetedLinks := greeted } }

/-- The loop stops only for a beacon set, so when it can send one. -/
theorem greetNext_suspends {links rest : List UUID} {link : UUID} {contacts : List Data}
    {s' : Reachability} (h : s.greetNext derive links = (s', .goOn [.greet link contacts rest])) :
    s.coordinator.reconnectEnabled ∧
      ReconnectEpochBuilder.Derivable derive s.coordinator.reconnectAllowlistIdentities := by
  induction links generalizing s with
  | nil => simp [greetNext] at h
  | cons next links ih =>
    unfold greetNext at h
    split at h
    · exact ih h
    · split at h
      · assumption
      · exact ih (s := s.insertGreeted next) h

/-- The loop greets the links that it visits.  It ends, which publishes presence, or stops at a link
with a beacon set for the transport. -/
theorem greetNext_cases (derive : Data → Option Data) (s : Reachability) (links : List UUID) :
    ∃ greeted,
    (∀ l ∈ s.coordinator.greetedLinks, l ∈ greeted) ∧
    (((s.greetNext derive links) = ((s.regreet greeted).finishReachable, .goOn []) ∧
      (∀ l ∈ links, l ∈ greeted) ∧
      ∀ l ∈ greeted, l ∈ s.coordinator.greetedLinks ∨
        l ∈ links ∧ ¬(s.coordinator.reconnectEnabled ∧
          ReconnectEpochBuilder.Derivable derive s.coordinator.reconnectAllowlistIdentities)) ∨
    ∃ link rest, (s.greetNext derive links) = (s.regreet greeted,
        .goOn [.greet link s.coordinator.reconnectAllowlistIdentities rest]) ∧
      (∀ l ∈ links, l ∈ greeted ∨ l ∈ rest) ∧ (∀ l ∈ rest, l ∈ links) ∧ link ∈ links ∧
      ∀ l ∈ greeted, l ∈ s.coordinator.greetedLinks ∨ l = link) := by
  induction links generalizing s with
  | nil =>
    refine ⟨s.coordinator.greetedLinks, fun l hl => hl, .inl ⟨rfl, by simp, fun l hl => .inl hl⟩⟩
  | cons link links ih =>
    unfold greetNext
    by_cases hgreeted : link ∈ s.coordinator.greetedLinks
    · rw [if_pos hgreeted]
      obtain ⟨greeted, hold, ⟨heq, hall, hnew⟩ | ⟨next, rest, heq, hall, hrest, hnext, hnew⟩⟩   :=
        ih s
      · refine ⟨greeted, hold, .inl ⟨heq, ?_, fun l hl => ?_⟩⟩
        · intro l hl
          rcases List.mem_cons.mp hl with rfl | hl
          · exact hold _ hgreeted
          · exact hall l hl
        · rcases hnew l hl with h | ⟨h, hstopped⟩
          · exact .inl h
          · exact .inr ⟨List.mem_cons_of_mem _ h, hstopped⟩
      · refine ⟨greeted, hold, .inr ⟨next, rest, heq, ?_, fun l hl => ?_, ?_, hnew⟩⟩
        · intro l hl
          rcases List.mem_cons.mp hl with rfl | hl
          · exact .inl (hold _ hgreeted)
          · exact hall l hl
        · exact List.mem_cons_of_mem _ (hrest l hl)
        · exact List.mem_cons_of_mem _ hnext
    · rw [if_neg hgreeted]
      by_cases hsends : s.coordinator.reconnectEnabled ∧
          ReconnectEpochBuilder.Derivable derive s.coordinator.reconnectAllowlistIdentities
      · rw [if_pos hsends]
        refine ⟨insert link s.coordinator.greetedLinks, fun l hl => Finset.mem_insert_of_mem hl,
          .inr ⟨link, links, rfl, fun l hl => ?_, fun l hl => List.mem_cons_of_mem _ hl,
            List.mem_cons_self, fun l hl => ?_⟩⟩
        · rcases List.mem_cons.mp hl with rfl | hl
          · exact .inl (Finset.mem_insert_self _ _)
          · exact .inr hl
        · exact (Finset.mem_insert.mp hl).symm
      · rw [if_neg hsends]
        obtain ⟨greeted, hold, ⟨heq, hall, hnew⟩ | ⟨next, rest, heq, hall, hrest, hnext, hnew⟩⟩ :=
          ih (s.insertGreeted link)
        · refine ⟨greeted, fun l hl => hold l (Finset.mem_insert_of_mem hl), .inl ⟨heq, ?_, ?_⟩⟩
          · intro l hl
            rcases List.mem_cons.mp hl with rfl | hl
            · exact hold _ (Finset.mem_insert_self _ _)
            · exact hall l hl
          · intro l hl
            rcases hnew l hl with h | ⟨h, _⟩
            · rcases Finset.mem_insert.mp h with rfl | h
              · exact .inr ⟨List.mem_cons_self, hsends⟩
              · exact .inl h
            · exact .inr ⟨List.mem_cons_of_mem _ h, hsends⟩
        · exact absurd (greetNext_suspends heq) hsends

/-- The loop of `onReachable` starts, on `ids`, or goes on, with `links` still to visit: the
coordinator that it starts from is `c₀`. -/
def Loops (s : Reachability) (a : Action) (c₀ : FirstContactCoordinator)
    (links : List UUID) : Prop :=
  (∃ ids, (a = .onReachable ids ∨ a = .catchUp ids) ∧ links = ids.dedup ∧
    c₀ = { s.coordinator with
      reachableLinks := ids.toFinset
      greetedLinks := s.coordinator.greetedLinks ∩ ids.toFinset }) ∨
  ∃ link contacts, a = .greet link contacts links ∧ c₀ = s.coordinator

theorem loop_gates {a : Action} {c₀ : FirstContactCoordinator} {links : List UUID}
    (h : s.Loops a c₀ links) : c₀.verifiedIdentities = s.coordinator.verifiedIdentities ∧
      c₀.reconnectEnabled = s.coordinator.reconnectEnabled := by
  rcases h with ⟨ids, _, _, rfl⟩ | ⟨link, contacts, _, rfl⟩
  · exact ⟨rfl, rfl⟩
  · exact ⟨rfl, rfl⟩

theorem exec_of_loops {a : Action} {reply : Reply} {s' : Reachability} {x : Exit Action}
    {c₀ : FirstContactCoordinator} {links : List UUID} (hl : s.Loops a c₀ links)
    (h : exec rawKeyOf derive s a reply = some (s', x)) :
    (s', x) = greetNext derive { s with coordinator := c₀ } links := by
  rcases hl with ⟨ids, rfl | rfl, rfl, rfl⟩ | ⟨link, contacts, rfl, rfl⟩
  · exact (Option.some.inj h).symm
  · exact (Option.some.inj h).symm
  · exact (Option.some.inj h).symm

/-- What each action does. -/
theorem exec_cases {a : Action} {reply : Reply} {s' : Reachability} {x : Exit Action}
    (h : exec rawKeyOf derive s a reply = some (s', x)) :
    (∃ ids, a = .transport ids ∧ s' = { s with updates := s.updates ++ [ids] } ∧ x = .goOn []) ∨
    (a = .feed ∧ ∃ ids updates, s.updates = ids :: updates ∧
      s' = { s with updates := updates, reachableIDs := ids } ∧
      x = .goOn (if s.booted then [.onReachable ids, .feed] else [.feed])) ∨
    (∃ allowlist verified blocked, a = .makeSessionStack allowlist verified blocked ∧
      s' = { s with booted := true } ∧
      x = .goOn [.setRouter, .call (.enableReconnect allowlist verified),
        .call (.setBlockedIdentities blocked), .catchUp s.reachableIDs]) ∨
    (a = .setRouter ∧ s' = { s with hasRouter := true } ∧ x = .goOn []) ∨
    (∃ c₀ links, s.Loops a c₀ links ∧
      (s', x) = greetNext derive { s with coordinator := c₀ } links) ∨
    ∃ call c', a = .call call ∧ s.handle rawKeyOf reply call = some c' ∧
      s' = { s with coordinator := c' } ∧ x = .goOn [] := by
  unfold exec at h
  split at h
  · cases h
    exact .inl ⟨_, rfl, rfl, rfl⟩
  · split at h
    · cases h
    · rename_i ids updates hupdates
      cases h
      exact .inr (.inl ⟨rfl, ids, updates, hupdates, rfl, rfl⟩)
  · exact .inr (.inr (.inr (.inr (.inl
      ⟨_, _, .inl ⟨_, .inl rfl, rfl, rfl⟩, (Option.some.inj h).symm⟩))))
  · split at h
    · cases h
    · cases h
      exact .inr (.inr (.inl ⟨_, _, _, rfl, rfl, rfl⟩))
  · cases h
    exact .inr (.inr (.inr (.inl ⟨rfl, rfl, rfl⟩)))
  · exact .inr (.inr (.inr (.inr (.inl
      ⟨_, _, .inl ⟨_, .inr rfl, rfl, rfl⟩, (Option.some.inj h).symm⟩))))
  · exact .inr (.inr (.inr (.inr (.inl ⟨_, _, .inr ⟨_, _, rfl, rfl⟩, (Option.some.inj h).symm⟩))))
  · split at h
    · obtain ⟨c', hhandle, heq⟩ := Option.map_eq_some_iff.mp h
      cases heq
      exact .inr (.inr (.inr (.inr (.inr ⟨_, c', rfl, hhandle, rfl, rfl⟩))))
    · cases h

/-- An action leaves the coordinator alone, is a turn of the loop of `onReachable`, or is another
call. -/
theorem exec_coordinator {a : Action} {reply : Reply} {s' : Reachability} {x : Exit Action}
    (h : exec rawKeyOf derive s a reply = some (s', x)) :
    s'.coordinator = s.coordinator ∨
    (∃ c₀ links, s.Loops a c₀ links ∧
      (s', x) = greetNext derive { s with coordinator := c₀ } links) ∨
    ∃ call c', a = .call call ∧ s.handle rawKeyOf reply call = some c' ∧
      s' = { s with coordinator := c' } := by
  rcases exec_cases h with ⟨_, _, rfl, _⟩ | ⟨_, _, _, _, rfl, _⟩ | ⟨_, _, _, _, rfl, _⟩ |
    ⟨_, rfl, _⟩ | hloop | ⟨call, c', ha, hhandle, hs, _⟩
  · exact .inl rfl
  · exact .inl rfl
  · exact .inl rfl
  · exact .inl rfl
  · exact .inr (.inl hloop)
  · exact .inr (.inr ⟨call, c', ha, hhandle, hs⟩)

/-- The loop of `onReachable` changes what was greeted, emitted and rerouted, and brings in nothing
but itself. -/
theorem greetNext_loop (derive : Data → Option Data) (s : Reachability) (links : List UUID) :
    (s.greetNext derive links).1.updates = s.updates ∧
    (s.greetNext derive links).1.reachableIDs = s.reachableIDs ∧
    (s.greetNext derive links).1.booted = s.booted ∧
    (s.greetNext derive links).1.coordinator.reachableLinks = s.coordinator.reachableLinks ∧
    (((s.greetNext derive links).2 = .goOn [] ∧
        (s.greetNext derive links).1.coordinator.lastReachableKeys =
          (s.greetNext derive links).1.coordinator.reachableKeys) ∨
      ∃ link contacts rest, (s.greetNext derive links).2 = .goOn [.greet link contacts rest]) := by
  obtain ⟨greeted, _, ⟨heq, _⟩ | ⟨link, rest, heq, _⟩⟩ := greetNext_cases derive s links
  · rw [heq]
    exact ⟨rfl, rfl, rfl, rfl, .inl ⟨rfl, rfl⟩⟩
  · rw [heq]
    exact ⟨rfl, rfl, rfl, rfl, .inr ⟨link, _, rest, rfl⟩⟩

section Pending

/-! ### What is still to run -/

variable {s' : Reachability} {a b : Action} {reply : Reply} {x : Exit Action}
  {ts : List (Thread Action)} {i : Nat} {rest handler : List Action}

theorem goesOn (h : exec rawKeyOf derive s a reply = some (s', x)) : ∃ first, x = .goOn first := by
  rcases exec_cases h with ⟨_, _, _, rfl⟩ | ⟨_, _, _, _, _, rfl⟩ | ⟨_, _, _, _, _, rfl⟩ |
    ⟨_, _, rfl⟩ | ⟨c₀, links, _, hloop⟩ | ⟨_, _, _, _, _, rfl⟩
  · exact ⟨_, rfl⟩
  · exact ⟨_, rfl⟩
  · exact ⟨_, rfl⟩
  · exact ⟨_, rfl⟩
  · obtain ⟨_, _, _, _, ⟨hx, _⟩ | ⟨_, _, _, hx⟩⟩ := greetNext_loop derive
      { s with coordinator := c₀ } links
    · rw [← hloop] at hx
      exact ⟨_, hx⟩
    · rw [← hloop] at hx
      exact ⟨_, hx⟩
  · exact ⟨_, rfl⟩

/-- What was pending still is, but for the action that ran. -/
theorem pending_kept (hi : ts[i]? = some ⟨a :: rest, handler⟩)
    (h : exec rawKeyOf derive s a reply = some (s', x)) (hb : (Config.mk s ts).Pending b)
    (hne : b ≠ a) :
    (Config.mk s' (ts.set i (.leave rest handler x))).Pending b := by
  rcases Machine.pending_step s' x hi hb with heq | ⟨_, cleanup, hthrow⟩ | hkept
  · exact absurd heq hne
  · obtain ⟨first, hfirst⟩ := goesOn h
    cases hfirst.symm.trans hthrow
  · exact hkept

/-- What the action brings in, and what its call has left, is pending. -/
theorem pending_added (hi : ts[i]? = some ⟨a :: rest, handler⟩)
    (h : exec rawKeyOf derive s a reply = some (s', x)) (hb : b ∈ x.added ∨ b ∈ rest) :
    (Config.mk s' (ts.set i (.leave rest handler x))).Pending b := by
  obtain ⟨first, rfl⟩ := goesOn h
  refine (Machine.pending_set hi b).mpr (.inr ?_)
  show b ∈ first ++ rest
  exact List.mem_append.mpr hb

end Pending

end Reachability

end AeroNyra
