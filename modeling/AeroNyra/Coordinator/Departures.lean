import AeroNyra.Coordinator.Reachability

/-! Departed peers: `onReachable` hands the router the peers that its emission no longer has,
against the emission before.  Any other call that publishes presence while `onReachable` is waiting
for the transport takes the departure out of that difference. -/

namespace AeroNyra.Reachability

open Interleave

variable {rawKeyOf : Data → Option Data} {derive : Data → Option Data}

/-- `k` leaves the emitted set, verified before and after, because none of the links that it had is
reachable any more. -/
structure Departs (s s' : Reachability) (k : Data) : Prop where
  emitted : k ∈ s.coordinator.lastReachableKeys
  gone : k ∉ s'.coordinator.lastReachableKeys
  verified : k ∈ s.coordinator.verifiedIdentities
  stillVerified : k ∈ s'.coordinator.verifiedIdentities
  links : ∀ link, s.coordinator.linkPeers.lookup link = some k →
    link ∉ s'.coordinator.reachableLinks

/-- Every peer that departs in the step is in the set that the step calls `rerouteToNostr` with. -/
def Step.ReroutesDeparted (t : Step) : Prop :=
  ∀ k, Departs t.pre.shared t.post.shared k → ∃ departed,
    t.post.shared.rerouted = t.pre.shared.rerouted ++ [departed] ∧ k ∈ departed

/-- `k` was emitted and is verified, and no link of it is reachable any more: `onReachable` has
still to publish its departure. -/
def Stranded (c : FirstContactCoordinator) (k : Data) : Prop :=
  k ∈ c.lastReachableKeys ∧ k ∈ c.verifiedIdentities ∧ k ∉ c.reachableKeys

instance (c : FirstContactCoordinator) (k : Data) : Decidable (Stranded c k) :=
  inferInstanceAs (Decidable (_ ∧ _ ∧ _))

/-- A call other than `onReachable` publishes presence while a peer is stranded, and neither ends
the peer's verification nor brings it a reachable link. -/
def Step.PublishesStranded (rawKeyOf : Data → Option Data) (t : Step) : Prop :=
  Config.Ran t fun s a reply => ∃ call, a = .call call ∧
    publishes rawKeyOf s.coordinator reply call ∧
    ∃ k, Stranded s.coordinator k ∧ call ≠ .removeVerifiedContact k ∧
      ∀ link, brings rawKeyOf reply call = some (link, k) → link ∉ s.coordinator.reachableLinks

/-! ### The router is there when a peer is verified -/

/-- A call that is to enable reconnection has set the router, or is to do so first. -/
def BootOrdered (s : Reachability) (todo : List Action) : Prop :=
  s.hasRouter ∨ todo.head? = some .setRouter ∨
    ∀ allowlist verified, .call (.enableReconnect allowlist verified) ∉ todo

/-- The coordinator has the router before reconnection is enabled, and no identity is verified
before that. -/
structure Routed (c : Config Reachability Action) : Prop where
  gated : c.shared.coordinator.verifiedIdentities.Nonempty → c.shared.coordinator.reconnectEnabled
  routed : c.shared.coordinator.reconnectEnabled → c.shared.hasRouter
  boot : ∀ (j : Nat) (u : Thread Action), c.threads[j]? = some u → BootOrdered c.shared u.todo

variable {s s' : Reachability} {a : Action} {reply : Reply} {x : Exit Action}

theorem handle_gated {c' : FirstContactCoordinator} {call : FirstContactCoordinator.Call}
    (h : s.handle rawKeyOf reply call = some c')
    (hg : s.coordinator.verifiedIdentities.Nonempty → s.coordinator.reconnectEnabled) :
    (c'.verifiedIdentities.Nonempty → c'.reconnectEnabled) ∧
      (c'.reconnectEnabled = s.coordinator.reconnectEnabled ∨
        ∃ allowlist verified, call = .enableReconnect allowlist verified) := by
  unfold handle at h
  cases call with
  | onReachable ids => cases h
  | enableReconnect allowlist verified =>
    cases h
    exact ⟨fun _ => rfl, .inr ⟨allowlist, verified, rfl⟩⟩
  | onBundle link data =>
    cases h
    dsimp only [FirstContactCoordinator.onBundle]
    split
    · exact ⟨hg, .inl rfl⟩
    · split
      · exact ⟨hg, .inl rfl⟩
      · exact ⟨hg, .inl rfl⟩
  | onReconnectFrame link data =>
    cases h
    dsimp only [FirstContactCoordinator.onReconnectFrame]
    split
    · split
      · exact ⟨hg, .inl rfl⟩
      · split
        · unfold FirstContactCoordinator.onReconnectItsMe
          split
          · exact ⟨hg, .inl rfl⟩
          · split
            · split
              · exact ⟨hg, .inl rfl⟩
              · exact ⟨hg, .inl rfl⟩
            · exact ⟨hg, .inl rfl⟩
        · exact ⟨hg, .inl rfl⟩
    · exact ⟨hg, .inl rfl⟩
  | redeemInvite =>
    cases h
    dsimp only
    split
    · exact ⟨hg, .inl rfl⟩
    · exact ⟨hg, .inl rfl⟩
  | addReconnectContact k =>
    cases h
    rw [FirstContactCoordinator.addReconnectContact_verified,
      FirstContactCoordinator.addReconnectContact_enabled]
    exact ⟨hg, .inl rfl⟩
  | removeReconnectContact k =>
    cases h
    rw [FirstContactCoordinator.removeReconnectContact_verified,
      FirstContactCoordinator.removeReconnectContact_enabled]
    exact ⟨hg, .inl rfl⟩
  | addVerifiedContact k =>
    cases h
    rw [FirstContactCoordinator.addVerifiedContact_enabled]
    refine ⟨fun hne => ?_, .inl rfl⟩
    by_cases hadmit : s.coordinator.reconnectEnabled && k.length == 32
    · exact (Bool.and_eq_true _ _ ▸ hadmit).1
    · unfold FirstContactCoordinator.addVerifiedContact at hne
      rw [if_neg hadmit] at hne
      exact hg hne
  | removeVerifiedContact k =>
    cases h
    rw [FirstContactCoordinator.removeVerifiedContact_enabled]
    refine ⟨fun ⟨j, hj⟩ => hg ⟨j, ?_⟩, .inl rfl⟩
    exact ((FirstContactCoordinator.mem_removeVerifiedContact j k).mp hj).2
  | setBlockedIdentities ks =>
    cases h
    exact ⟨hg, .inl rfl⟩

/-- The loop of `onReachable` leaves the gates alone, and has nothing to run but itself. -/
theorem greetNext_gates (derive : Data → Option Data) (s : Reachability) (links : List UUID) :
    (s.greetNext derive links).1.coordinator.verifiedIdentities = s.coordinator.verifiedIdentities ∧
    (s.greetNext derive links).1.coordinator.reconnectEnabled = s.coordinator.reconnectEnabled ∧
    (s.greetNext derive links).1.hasRouter = s.hasRouter ∧
    ∃ first, (s.greetNext derive links).2 = .goOn first ∧
      ∀ b ∈ first, ∃ link contacts rest, b = .greet link contacts rest := by
  obtain ⟨greeted, _, ⟨heq, _⟩ | ⟨link, rest, heq, _⟩⟩ := greetNext_cases derive s links
  · rw [heq]
    exact ⟨rfl, rfl, rfl, [], rfl, by simp⟩
  · rw [heq]
    exact ⟨rfl, rfl, rfl, _, rfl, by simp⟩

/-- What an action brings in: the loop, the script of the boot task, or nothing that enables
reconnection. -/
theorem exec_adds (h : exec rawKeyOf derive s a reply = some (s', x)) :
    ∃ first, x = .goOn first ∧ (first.head? = some .setRouter ∨
      ∀ allowlist verified, .call (.enableReconnect allowlist verified) ∉ first) := by
  rcases exec_cases h with ⟨_, _, _, rfl⟩ | ⟨_, ids, _, _, _, rfl⟩ | ⟨_, _, _, _, _, rfl⟩ |
    ⟨_, _, rfl⟩ | ⟨c₀, links, _, hloop⟩ | ⟨_, _, _, _, _, rfl⟩
  · exact ⟨_, rfl, .inr (by simp)⟩
  · refine ⟨_, rfl, .inr ?_⟩
    split <;> simp
  · exact ⟨_, rfl, .inl rfl⟩
  · exact ⟨_, rfl, .inr (by simp)⟩
  · obtain ⟨_, _, _, first, hfirst, hall⟩ := greetNext_gates derive
      { s with coordinator := c₀ } links
    rw [← hloop] at hfirst
    refine ⟨first, hfirst, .inr fun allowlist verified hmem => ?_⟩
    obtain ⟨_, _, _, hb⟩ := hall _ hmem
    cases hb
  · exact ⟨_, rfl, .inr (by simp)⟩

/-- The router stays, and `setRouter` sets it. -/
theorem exec_hasRouter (h : exec rawKeyOf derive s a reply = some (s', x)) :
    (s.hasRouter → s'.hasRouter) ∧ (a = .setRouter → s'.hasRouter) := by
  rcases exec_cases h with ⟨_, rfl, rfl, _⟩ | ⟨rfl, _, _, _, rfl, _⟩ | ⟨_, _, _, rfl, rfl, _⟩ |
    ⟨rfl, rfl, _⟩ | ⟨c₀, links, ha, hloop⟩ | ⟨_, _, rfl, _, rfl, _⟩
  · exact ⟨id, by simp⟩
  · exact ⟨id, by simp⟩
  · exact ⟨id, by simp⟩
  · exact ⟨fun _ => rfl, fun _ => rfl⟩
  · obtain ⟨_, _, hrouter, _⟩ := greetNext_gates derive { s with coordinator := c₀ } links
    rw [← hloop] at hrouter
    refine ⟨fun hr => hrouter.trans hr, fun hset => ?_⟩
    subst hset
    rcases ha with ⟨ids, ha | ha, _⟩ | ⟨_, _, ha, _⟩
    · cases ha
    · cases ha
    · cases ha
  · exact ⟨id, by simp⟩

theorem routed_step {t : Step} (ht : (machine rawKeyOf derive).step t.pre t.event = some t.post)
    (hr : Routed t.pre) : Routed t.post := by
  have hboot : ∀ (j : Nat) (u : Thread Action), t.post.threads[j]? = some u →
      BootOrdered t.post.shared u.todo := by
    refine Machine.calls_step (Q := fun _ => BootOrdered) ht hr.boot ?_ ?_
    · intro call _
      refine .inr (.inr fun allowlist verified hmem => ?_)
      cases call with
      | transport | makeSessionStack => simp [machine] at hmem
      | handler h => exact h.notEnable allowlist verified (by simpa [machine, eq_comm] using hmem)
    · intro i a reply rest handler s x hi hexec _
      obtain ⟨first, rfl, hadds⟩ := exec_adds hexec
      obtain ⟨hkeep, hset⟩ := exec_hasRouter hexec
      constructor
      · rcases hr.boot i _ hi with hrouter | hhead | hnone
        · exact .inl (hkeep hrouter)
        · exact .inl (hset (Option.some.inj hhead))
        · refine .inr ?_
          show (first ++ rest).head? = _ ∨ ∀ allowlist verified, _ ∉ first ++ rest
          rcases hadds with hhead | hadds
          · exact .inl (by simp [List.head?_append, hhead])
          · refine .inr fun allowlist verified hmem => ?_
            rcases List.mem_append.mp hmem with hmem | hmem
            · exact hadds allowlist verified hmem
            · exact hnone allowlist verified (List.mem_cons_of_mem _ hmem)
      · intro j u _ hj
        exact (hr.boot j u hj).imp_left hkeep
  rcases Machine.step_cases ht with ⟨call, _, hpost⟩ |
    ⟨i, reply, a, rest, handler, s, x, _, hi, hexec, _, hpost⟩
  · refine ⟨?_, ?_, hboot⟩
    · rw [hpost]
      exact hr.gated
    · rw [hpost]
      exact hr.routed
  · have hshared : t.post.shared = s := by rw [hpost]
    have hkeep := (exec_hasRouter hexec).1
    rcases exec_coordinator hexec with hsame | ⟨c₀, links, ha, hloop⟩ |
      ⟨call, c', rfl, hhandle, rfl⟩
    · refine ⟨?_, fun he => ?_, hboot⟩
      · rw [hshared, hsame]
        exact hr.gated
      · rw [hshared, hsame] at he
        rw [hshared]
        exact hkeep (hr.routed he)
    · obtain ⟨hverified, henabled, _⟩ :=
        greetNext_gates derive { t.pre.shared with coordinator := c₀ } links
      rw [← hloop] at hverified henabled
      obtain ⟨hv₀, he₀⟩ := loop_gates ha
      refine ⟨?_, fun he => ?_, hboot⟩
      · rw [hshared, hverified, henabled, hv₀, he₀]
        exact hr.gated
      · rw [hshared, henabled, he₀] at he
        rw [hshared]
        exact hkeep (hr.routed he)
    · obtain ⟨hgated, henabled⟩ := handle_gated hhandle hr.gated
      refine ⟨by rw [hshared]; exact hgated, fun he => ?_, hboot⟩
      rw [hshared] at he ⊢
      rcases henabled with hsame | ⟨allowlist, verified, rfl⟩
      · exact hkeep (hr.routed (hsame ▸ he))
      · -- The boot task has set the router before.
        rcases hr.boot i _ hi with hrouter | hhead | hnone
        · exact hkeep hrouter
        · cases hhead
        · exact absurd List.mem_cons_self (hnone allowlist verified)

theorem routed_launch (localIdentity : Data) : Routed (launch localIdentity) where
  gated h := by simp [launch, FirstContactCoordinator.new] at h
  routed h := by simp [launch, FirstContactCoordinator.new] at h
  boot j u hj := by
    refine .inr (.inr fun allowlist verified hmem => ?_)
    have hu : u ∈ (launch localIdentity).threads := List.mem_of_getElem? hj
    rw [List.mem_singleton.mp hu] at hmem
    simp at hmem

/-! ### Who publishes a departure -/

/-- The end of `onReachable` hands over what it takes from the emitted set. -/
theorem finishReachable_reroutes {k : Data} (hrouter : s.hasRouter)
    (hemitted : k ∈ s.coordinator.lastReachableKeys)
    (hgone : k ∉ s.finishReachable.coordinator.lastReachableKeys) : ∃ departed,
    s.finishReachable.rerouted = s.rerouted ++ [departed] ∧ k ∈ departed := by
  have hdeparted : k ∈ s.coordinator.lastReachableKeys \
      s.coordinator.emitReachablePeers.lastReachableKeys := Finset.mem_sdiff.mpr ⟨hemitted, hgone⟩
  refine ⟨_, if_pos ⟨?_, hrouter⟩, hdeparted⟩
  exact Finset.ne_empty_of_mem hdeparted

/-- A turn of the loop takes a peer from the emitted set only when it ends, and then hands it
over. -/
theorem greetNext_reroutes {k : Data} (links : List UUID) (hrouter : s.hasRouter)
    (hemitted : k ∈ s.coordinator.lastReachableKeys)
    (hgone : k ∉ (s.greetNext derive links).1.coordinator.lastReachableKeys) : ∃ departed,
    (s.greetNext derive links).1.rerouted = s.rerouted ++ [departed] ∧ k ∈ departed := by
  obtain ⟨greeted, _, ⟨heq, _⟩ | ⟨link, rest, heq, _⟩⟩ := greetNext_cases derive s links
  · rw [heq] at hgone ⊢
    exact finishReachable_reroutes (s := s.regreet greeted) hrouter hemitted hgone
  · rw [heq] at hgone
    exact absurd hemitted hgone

/-- Another call makes a peer depart exactly when it publishes presence while the peer is
stranded. -/
theorem handle_departs {c' : FirstContactCoordinator} {call : FirstContactCoordinator.Call}
    {k : Data}
    (h : s.handle rawKeyOf reply call = some c') : Departs s { s with coordinator := c' } k ↔
    publishes rawKeyOf s.coordinator reply call ∧ Stranded s.coordinator k ∧
      call ≠ .removeVerifiedContact k ∧
      ∀ link, brings rawKeyOf reply call = some (link, k) →
      link ∉ s.coordinator.reachableLinks := by
  have heffect := handle_effect h
  constructor
  · rintro ⟨hemitted, hgone, hverified, hstill, hlinks⟩
    dsimp only at hgone hstill hlinks
    rw [heffect.reachable] at hlinks
    have hpublishes : publishes rawKeyOf s.coordinator reply call := by
      by_contra hquiet
      exact hgone ((heffect.quiet hquiet).1 ▸ hemitted)
    rw [heffect.published hpublishes, FirstContactCoordinator.mem_reachableKeys] at hgone
    refine ⟨hpublishes, ⟨hemitted, hverified, fun hmem => ?_⟩,
      (heffect.verified k hverified hpublishes).mp hstill, fun link hbrings hlink =>
      hgone ⟨hstill, link, ?_, ?_⟩⟩
    · obtain ⟨_, link, hlink, hlookup⟩ := FirstContactCoordinator.mem_reachableKeys.mp hmem
      exact hlinks link hlookup hlink
    · rw [heffect.reachable]
      exact hlink
    · exact heffect.brought hpublishes link k hbrings
  · rintro ⟨hpublishes, ⟨hemitted, hverified, hunreachable⟩, hcall, hbrings⟩
    have hold : ∀ link, s.coordinator.linkPeers.lookup link = some k →
        link ∉ s.coordinator.reachableLinks := by
      intro link hlookup hlink
      exact hunreachable
        (FirstContactCoordinator.mem_reachableKeys.mpr ⟨hverified, link, hlink, hlookup⟩)
    refine ⟨hemitted, ?_, hverified, (heffect.verified k hverified hpublishes).mpr hcall, ?_⟩
    · dsimp only
      rw [heffect.published hpublishes, FirstContactCoordinator.mem_reachableKeys,
        heffect.reachable]
      rintro ⟨_, link, hlink, hlookup⟩
      rcases heffect.old link k hlookup with hlookup | hnew
      · exact hold link hlookup hlink
      · exact hbrings link hnew hlink
    · dsimp only
      rw [heffect.reachable]
      exact hold

theorem not_departs_of_same {k : Data} (h : s'.coordinator.lastReachableKeys =
    s.coordinator.lastReachableKeys) : ¬Departs s s' k :=
  fun hd => hd.gone (h ▸ hd.emitted)

theorem exec_call {call : FirstContactCoordinator.Call}
    (h : exec rawKeyOf derive s (.call call) reply = some (s', x)) :
    ∃ c', s.handle rawKeyOf reply call = some c' ∧ s' = { s with coordinator := c' } := by
  unfold exec at h
  dsimp only at h
  split at h
  · obtain ⟨c', hhandle, heq⟩ := Option.map_eq_some_iff.mp h
    cases heq
    exact ⟨c', hhandle, rfl⟩
  · cases h

theorem reroutesDeparted_step {t : Step}
    (ht : (machine rawKeyOf derive).step t.pre t.event = some t.post) (hr : Routed t.pre) :
    t.ReroutesDeparted ↔ ¬t.PublishesStranded rawKeyOf := by
  rcases Machine.step_shared ht with ⟨hsame, hnone⟩ | ⟨a, reply, x, hexec, hran⟩
  · refine ⟨fun _ => hnone _, fun _ k hdeparts => ?_⟩
    exact absurd hdeparts (not_departs_of_same (by rw [hsame]))
  · have hiff := hran fun s a reply => ∃ call, a = .call call ∧
      publishes rawKeyOf s.coordinator reply call ∧ ∃ k, Stranded s.coordinator k ∧
        call ≠ .removeVerifiedContact k ∧
        ∀ link, brings rawKeyOf reply call = some (link, k) → link ∉ s.coordinator.reachableLinks
    have hexec : exec rawKeyOf derive t.pre.shared a reply = some (t.post.shared, x) := hexec
    by_cases hcall : ∃ call, a = .call call
    · obtain ⟨call, rfl⟩ := hcall
      obtain ⟨c', hhandle, hpost⟩ := exec_call hexec
      have hdeparts (k : Data) := handle_departs (k := k) hhandle
      rw [← hpost] at hdeparts
      constructor
      · rintro hreroutes hpublishes
        obtain ⟨_, hcall, hpublishes, k, hstranded, hcalls, hbrings⟩ := hiff.mp hpublishes
        cases hcall
        obtain ⟨departed, hrerouted, _⟩ :=
          hreroutes k ((hdeparts k).mpr ⟨hpublishes, hstranded, hcalls, hbrings⟩)
        rw [hpost] at hrerouted
        simp at hrerouted
      · intro hspares k hd
        obtain ⟨hpublishes, hstranded, hcalls, hbrings⟩ := (hdeparts k).mp hd
        exact absurd (hiff.mpr ⟨call, rfl, hpublishes, k, hstranded, hcalls, hbrings⟩) hspares
    · refine ⟨fun _ hp => ?_, fun _ k hd => ?_⟩
      · obtain ⟨call, ha, _⟩ := hiff.mp hp
        exact hcall ⟨call, ha⟩
      · have hrouter : t.pre.shared.hasRouter := hr.routed (hr.gated ⟨k, hd.verified⟩)
        rcases exec_coordinator hexec with hsame | ⟨c₀, links, hloops, hloop⟩ | ⟨call, _, ha, _⟩
        · exact absurd hd (not_departs_of_same (by rw [hsame]))
        · have hlast : c₀.lastReachableKeys = t.pre.shared.coordinator.lastReachableKeys := by
            rcases hloops with ⟨ids, _, _, rfl⟩ | ⟨link, contacts, _, rfl⟩
            · rfl
            · rfl
          have hpost : t.post.shared =
              (greetNext derive { t.pre.shared with coordinator := c₀ } links).1 := by rw [← hloop]
          have hgone := hd.gone
          rw [hpost] at hgone ⊢
          exact greetNext_reroutes (s := { t.pre.shared with coordinator := c₀ }) links hrouter
            (hlast ▸ hd.emitted) hgone
        · exact absurd ⟨call, ha⟩ hcall

theorem reroutesDeparted_iff {localIdentity : Data} {events : List (Event Call Reply)} {t : Step}
    (ht : t ∈ steps rawKeyOf derive localIdentity events) :
    t.ReroutesDeparted ↔ ¬t.PublishesStranded rawKeyOf :=
  reroutesDeparted_step (step_of_mem_trace ht)
    (trace_invariant (fun _ ht hr => routed_step ht hr) (routed_launch localIdentity) ht)

/-- In every run, every peer whose links all leave is handed to the router by the step that takes
it from the emitted set, if and only if no call other than `onReachable` publishes presence while a
peer is stranded that it leaves so. -/
theorem departed_rerouted_iff (rawKeyOf derive : Data → Option Data) (localIdentity : Data)
    (events : List (Event Call Reply)) :
    (∀ t ∈ steps rawKeyOf derive localIdentity events, t.ReroutesDeparted) ↔
      ∀ t ∈ steps rawKeyOf derive localIdentity events, ¬t.PublishesStranded rawKeyOf :=
  forall₂_congr fun _ ht => reroutesDeparted_iff ht

/-! ### A departure that is lost -/

/-- A bundle on a link, all of the same byte. -/
def bundleOf (link : UUID) (b : UInt8) :
    Handler := ⟨.onBundle link (.replicate 64 b), by simp, by simp⟩

/-- A contact with a bundle on link 1 that is then lost, while the coordinator greets the new link
2, and a hello of another contact on that link. -/
def departsUnderGreeting : List (Event Call Reply) :=
  [.start (.makeSessionStack [.replicate 32 5, .replicate 32 6]
    [.replicate 32 5, .replicate 32 6] ∅),
    .step 1 ⟨false, none, true⟩, .step 1 ⟨false, none, true⟩, .step 1 ⟨false, none, true⟩,
    .step 1 ⟨false, none, true⟩, .step 1 ⟨false, none, true⟩,
    .start (.transport [1]), .step 2 ⟨false, none, true⟩, .step 0 ⟨false, none, true⟩,
    .step 0 ⟨false, none, true⟩, .step 0 ⟨false, none, true⟩,
    .start (.handler (bundleOf 1 5)), .step 3 ⟨true, none, true⟩,
    .start (.transport [2]), .step 4 ⟨false, none, true⟩, .step 0 ⟨false, none, true⟩,
    .step 0 ⟨false, none, true⟩,
    .start (.handler (bundleOf 2 6)), .step 5 ⟨true, none, true⟩,
    .step 0 ⟨false, none, true⟩]

/-- The bundle's emission takes the contact on link 1 from the emitted set, and at the end of the
run, with `onReachable` over, the router has never been called. -/
theorem departure_lost :
    (∃ t ∈ steps FirstContactCoordinator.prefixKey some [] departsUnderGreeting,
      ¬t.ReroutesDeparted) ∧
    ∃ c, run (machine FirstContactCoordinator.prefixKey some).step
    (launch []) departsUnderGreeting =
      some c ∧ Quiescent c ∧ c.shared.rerouted = [] := by
  constructor
  · have hstranded : ∃ t ∈ steps FirstContactCoordinator.prefixKey some [] departsUnderGreeting,
        t.PublishesStranded FirstContactCoordinator.prefixKey := by
      refine ⟨_, List.mem_of_getElem? (i := 18) rfl, _, _, rfl, _, rfl, rfl,
        .replicate 32 5, ?_, ?_, ?_⟩
      · decide
      · simp [bundleOf]
      · intro link hbrings
        exact absurd hbrings
          (by simp [bundleOf, brings, FirstContactCoordinator.prefixKey, List.replicate])
    obtain ⟨t, ht, hpublishes⟩ := hstranded
    exact ⟨t, ht, fun hreroutes => (reroutesDeparted_iff ht).mp hreroutes hpublishes⟩
  · exact ⟨_, rfl, ⟨rfl, resting_of_todos (n := 5) rfl⟩, rfl⟩

end AeroNyra.Reachability
