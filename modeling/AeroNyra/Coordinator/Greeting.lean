import AeroNyra.Coordinator.Reachability

/-! Greeting: the beacon sets that each reachable link has been handed.  The gate of `onReachable`
has a link as greeted once its turn of the loop has come, whatever comes of its beacon set. -/

namespace AeroNyra.Reachability

open Interleave

variable {rawKeyOf : Data → Option Data} {derive : Data → Option Data}

/-- For each link, the contacts of the beacon sets that it was handed since it last became
reachable. -/
abbrev Handed := UUID → List (List Data)

def Handed.note (handed : Handed) (s : Reachability) (a : Action) (reply : Reply)
    (_ : Reachability) : Handed :=
  match a with
  | .onReachable ids | .catchUp ids => fun link =>
    if link ∈ ids ∧ link ∉ s.coordinator.reachableLinks then [] else handed link
  | .greet link contacts _ =>
    if reply.carried then Function.update handed link (handed link ++ [contacts]) else handed
  | _ => handed

abbrev Greeter := Config (Reachability × Handed) Action

abbrev GreeterStep := Transition Greeter (Event Call Reply)

/-- The steps of a run from the launch, where no link has been handed anything. -/
def greeterSteps (rawKeyOf : Data → Option Data) (derive : Data → Option Data)
    (localIdentity : Data) (events : List (Event Call Reply)) : List GreeterStep :=
  trace ((machine rawKeyOf derive).observed Handed.note).step
    ⟨((launch localIdentity).shared, fun _ => []), (launch localIdentity).threads⟩ events

/-- Every enrolled identity is one of the contacts. -/
def Complete (c : FirstContactCoordinator) (contacts : List Data) : Prop :=
  ∀ k ∈ c.reconnectAllowlistIdentities, k ∈ contacts

instance (c : FirstContactCoordinator) (contacts : List Data) : Decidable (Complete c contacts) :=
  inferInstanceAs (Decidable (∀ _ ∈ _, _))

/-- The link was handed a beacon set that every enrolled contact can recognise. -/
def HandedComplete (handed : Handed) (c : FirstContactCoordinator) (link : UUID) : Prop :=
  ∃ contacts ∈ handed link, Complete c contacts

instance (handed : Handed) (c : FirstContactCoordinator) (link : UUID) :
    Decidable (HandedComplete handed c link) :=
  inferInstanceAs (Decidable (∃ contacts ∈ _, _))

/-- If no handler is in progress and reconnection is enabled, every reachable link was handed such a
set. -/
def Greeted (c : Greeter) : Prop :=
  Resting c.threads → c.shared.1.coordinator.reconnectEnabled →
    ∀ link ∈ c.shared.1.coordinator.reachableLinks,
    HandedComplete c.shared.2 c.shared.1.coordinator link

/-- The actions after which a reachable link that the gate has as greeted may be without such a
set. -/
inductive Forgoes (derive : Data → Option Data) : Reachability × Handed → Action → Reply → Prop
  /-- Reconnection is enabled when the link is already greeted. -/
  | enabledLate {s handed reply allowlist verified link}
      (hreachable : link ∈ s.coordinator.reachableLinks)
      (hgreeted : link ∈ s.coordinator.greetedLinks) :
      Forgoes derive (s, handed) (.call (.enableReconnect allowlist verified)) reply
  /-- A contact is newly enrolled when the link is already greeted. -/
  | enrolledLate {s handed reply k link} (henabled : s.coordinator.reconnectEnabled)
      (hlength : k.length = 32) (hnew : k ∉ s.coordinator.reconnectAllowlistIdentities)
      (hreachable : link ∈ s.coordinator.reachableLinks)
      (hgreeted : link ∈ s.coordinator.greetedLinks)
      (hhanded : ¬HandedComplete handed (s.coordinator.addReconnectContact k) link) :
      Forgoes derive (s, handed) (.call (.addReconnectContact k)) reply
  /-- The transport refuses the link's beacon set. -/
  | refused {s handed reply link contacts links} (hrefused : ¬reply.carried)
      (hreachable : link ∈ s.coordinator.reachableLinks)
      (hhanded : ¬HandedComplete handed s.coordinator link) :
      Forgoes derive (s, handed) (.greet link contacts links) reply
  /-- The link comes back, greeted while it was away by an earlier call's loop. -/
  | greetedAway {s handed reply a ids link} (ha : a = .onReachable ids ∨ a = .catchUp ids)
      (hlink : link ∈ ids) (haway : link ∉ s.coordinator.reachableLinks)
      (hgreeted : link ∈ s.coordinator.greetedLinks) : Forgoes derive (s, handed) a reply
  /-- The link's turn comes when there is no plan. -/
  | unplanned {s handed reply a c₀ links link} (hl : s.Loops a c₀ links) (hlink : link ∈ links)
      (hreachable : link ∈ c₀.reachableLinks) (hungreeted : link ∉ c₀.greetedLinks)
      (henabled : c₀.reconnectEnabled)
      (hplan : ¬ReconnectEpochBuilder.Derivable derive c₀.reconnectAllowlistIdentities) :
      Forgoes derive (s, handed) a reply

variable {s s' : Reachability} {a : Action} {reply : Reply} {x : Exit Action} {handed : Handed}

theorem Complete.of_subset {c c' : FirstContactCoordinator} {contacts : List Data}
    (h : Complete c contacts)
    (hsubset : ∀ k ∈ c'.reconnectAllowlistIdentities, k ∈ c.reconnectAllowlistIdentities) :
    Complete c' contacts :=
  fun k hk => h k (hsubset k hk)

/-- Apart from enabling reconnection, only an enrollment adds to the enrolled identities. -/
theorem handle_enrolled {c' : FirstContactCoordinator} {call : FirstContactCoordinator.Call}
    (h : s.handle rawKeyOf reply call = some c') :
    (∃ allowlist verified, call = .enableReconnect allowlist verified) ∨
    (∃ k, call = .addReconnectContact k ∧ c' = s.coordinator.addReconnectContact k) ∨
    (c'.reconnectEnabled = s.coordinator.reconnectEnabled ∧
      ∀ k ∈ c'.reconnectAllowlistIdentities, k ∈ s.coordinator.reconnectAllowlistIdentities) := by
  unfold handle at h
  cases call with
  | onReachable ids => cases h
  | enableReconnect allowlist verified => exact .inl ⟨allowlist, verified, rfl⟩
  | addReconnectContact k =>
    cases h
    exact .inr (.inl ⟨k, rfl, rfl⟩)
  | onBundle link data =>
    cases h
    refine .inr (.inr ?_)
    dsimp only [FirstContactCoordinator.onBundle]
    split
    · exact ⟨rfl, fun k hk => hk⟩
    · split
      · exact ⟨rfl, fun k hk => hk⟩
      · exact ⟨rfl, fun k hk => hk⟩
  | onReconnectFrame link data =>
    cases h
    refine .inr (.inr ?_)
    dsimp only [FirstContactCoordinator.onReconnectFrame, FirstContactCoordinator.onReconnectItsMe]
    repeat' split
    all_goals exact ⟨rfl, fun k hk => hk⟩
  | redeemInvite =>
    cases h
    refine .inr (.inr ?_)
    dsimp only
    split
    · exact ⟨rfl, fun k hk => hk⟩
    · exact ⟨rfl, fun k hk => hk⟩
  | removeReconnectContact k =>
    cases h
    refine .inr (.inr ⟨?_, fun j hj => ?_⟩)
    · dsimp only [FirstContactCoordinator.removeReconnectContact]
      split
      · rfl
      · rfl
    · exact ((FirstContactCoordinator.mem_removeReconnectContact j k).mp hj).2
  | addVerifiedContact k =>
    cases h
    refine .inr (.inr ?_)
    dsimp only [FirstContactCoordinator.addVerifiedContact]
    repeat' split
    all_goals exact ⟨rfl, fun k hk => hk⟩
  | removeVerifiedContact k =>
    cases h
    refine .inr (.inr ?_)
    dsimp only [FirstContactCoordinator.removeVerifiedContact]
    split
    · exact ⟨rfl, fun k hk => hk⟩
    · exact ⟨rfl, fun k hk => hk⟩
  | setBlockedIdentities ks =>
    cases h
    exact .inr (.inr ⟨rfl, fun k hk => hk⟩)

/-! ### What each link has been handed or is about to be -/

/-- What a link was handed stays handed when a beacon set is answered. -/
theorem handedComplete_greet {link next : UUID} {contacts : List Data} {links : List UUID}
    (h : HandedComplete handed s.coordinator link) :
    HandedComplete (handed.note s (.greet next contacts links) reply s') s.coordinator link := by
  obtain ⟨old, hmem, hcomplete⟩ := h
  refine ⟨old, ?_, hcomplete⟩
  dsimp only [Handed.note]
  by_cases hcarried : reply.carried
  · rw [if_pos hcarried]
    by_cases hlink : link = next
    · subst hlink
      rw [Function.update_self]
      exact List.mem_append_left _ hmem
    · rw [Function.update_of_ne hlink]
      exact hmem
  · rw [if_neg hcarried]
    exact hmem

/-- A beacon set that every enrolled contact can recognise was handed to the link or is on its
way. -/
def Served (s : Reachability) (handed : Handed) (ts : List (Thread Action)) (link : UUID) : Prop :=
  HandedComplete handed s.coordinator link ∨
    ∃ contacts links, Complete s.coordinator contacts ∧
      (Config.mk s ts).Pending (.greet link contacts links)

/-- The invariant: each reachable link is greeted or still to be visited, and a greeted one is
served. -/
structure Greeting (s : Reachability) (handed : Handed) (ts : List (Thread Action)) : Prop where
  visited : ∀ link ∈ s.coordinator.reachableLinks, link ∈ s.coordinator.greetedLinks ∨
    ∃ next contacts links, link ∈ links ∧ (Config.mk s ts).Pending (.greet next contacts links)
  served : s.coordinator.reconnectEnabled → ∀ link ∈ s.coordinator.reachableLinks,
    link ∈ s.coordinator.greetedLinks → Served s handed ts link

theorem greeted_of_greeting {c : Greeter} (hc : Greeting c.shared.1 c.shared.2 c.threads) :
    Greeted c := by
  intro hresting henabled link hlink
  have hnone {b : Action} (hb : b ≠ .feed) : ¬(Config.mk c.shared.1 c.threads).Pending b :=
    hresting.not_pending hb
  have hgreeted : link ∈ c.shared.1.coordinator.greetedLinks := by
    rcases hc.visited link hlink with h | ⟨_, _, _, _, hp⟩
    · exact h
    · exact absurd hp (hnone (by simp))
  rcases hc.served henabled link hlink hgreeted with h | ⟨_, _, _, hp⟩
  · exact h
  · exact absurd hp (hnone (by simp))

section Action

variable {ts : List (Thread Action)} {i : Nat} {rest handler : List Action}

/-- An action other than a turn of the loop leaves what is visited and served as it was, if it
leaves the links and adds to no one's contacts. -/
theorem greeting_still (hc : Greeting s handed ts) (hi : ts[i]? = some ⟨a :: rest, handler⟩)
    (h : exec rawKeyOf derive s a reply = some (s', x))
    (hgreet : ∀ link contacts links, a ≠ .greet link contacts links)
    (hreachable : s'.coordinator.reachableLinks = s.coordinator.reachableLinks)
    (hgreeted : s'.coordinator.greetedLinks = s.coordinator.greetedLinks)
    (hserved : s'.coordinator.reconnectEnabled → ∀ link ∈ s.coordinator.reachableLinks,
      link ∈ s.coordinator.greetedLinks → HandedComplete handed s'.coordinator link ∨
        (s.coordinator.reconnectEnabled ∧ ∀ k ∈ s'.coordinator.reconnectAllowlistIdentities,
          k ∈ s.coordinator.reconnectAllowlistIdentities)) :
    Greeting s' handed (ts.set i (.leave rest handler x)) where
  visited link hlink := by
    rw [hreachable] at hlink
    rw [hgreeted]
    rcases hc.visited link hlink with hold | ⟨next, contacts, links, hmem, hp⟩
    · exact .inl hold
    · exact .inr ⟨next, contacts, links, hmem, pending_kept hi h hp (hgreet _ _ _).symm⟩
  served henabled link hlink hlinkGreeted := by
    rw [hreachable] at hlink
    rw [hgreeted] at hlinkGreeted
    rcases hserved henabled link hlink hlinkGreeted with hnew | ⟨hbefore, hsubset⟩
    · exact .inl hnew
    · rcases hc.served hbefore link hlink hlinkGreeted with ⟨contacts, hmem, hcomplete⟩ |
        ⟨contacts, links, hcomplete, hp⟩
      · exact .inl ⟨contacts, hmem, hcomplete.of_subset hsubset⟩
      · exact .inr ⟨contacts, links, hcomplete.of_subset hsubset,
          pending_kept hi h hp (hgreet _ _ _).symm⟩

theorem greeting_call {call : FirstContactCoordinator.Call} {c' : FirstContactCoordinator}
    (hc : Greeting s handed ts) (hi : ts[i]? = some ⟨.call call :: rest, handler⟩)
    (h : exec rawKeyOf derive s (.call call) reply = some ({ s with coordinator := c' }, x))
    (hhandle : s.handle rawKeyOf reply call = some c')
    (hkeeps : ¬Forgoes derive (s, handed) (.call call) reply) :
    Greeting { s with coordinator := c' } handed (ts.set i (.leave rest handler x)) := by
  have heffect := handle_effect hhandle
  refine greeting_still hc hi h (by simp) heffect.reachable heffect.greeted ?_
  intro henabled link hlink hgreeted
  rcases handle_enrolled hhandle with ⟨allowlist, verified, rfl⟩ | ⟨k, rfl, rfl⟩ | ⟨hsame, hsubset⟩
  · exact absurd (.enabledLate hlink hgreeted) hkeeps
  · have hbefore : s.coordinator.reconnectEnabled := by
      have hsame : (s.coordinator.addReconnectContact k).reconnectEnabled =
          s.coordinator.reconnectEnabled := by
        unfold FirstContactCoordinator.addReconnectContact
        repeat' split
        all_goals rfl
      exact hsame.symm.trans henabled
    by_cases hnew : k.length = 32 ∧ k ∉ s.coordinator.reconnectAllowlistIdentities
    · by_contra hforgone
      exact hkeeps (.enrolledLate hbefore hnew.1 hnew.2 hlink hgreeted fun hh => hforgone (.inl hh))
    · refine .inr ⟨hbefore, ?_⟩
      dsimp only
      rw [FirstContactCoordinator.addReconnectContact_enrolled, if_neg fun hh => hnew hh.2]
      exact fun j hj => hj
  · exact .inr ⟨hsame.symm.trans henabled, hsubset⟩

/-- A turn of the loop, from a coordinator whose greeted links are served or in the hands of this
very turn. -/
theorem greeting_loop {c₀ : FirstContactCoordinator} {links : List UUID} {handed' : Handed}
    (hi : ts[i]? = some ⟨a :: rest, handler⟩) (h : exec rawKeyOf derive s a reply = some (s', x))
    (hl : s.Loops a c₀ links)
    (hvisited : ∀ link ∈ c₀.reachableLinks, link ∈ c₀.greetedLinks ∨ link ∈ links ∨
      ∃ next contacts others, link ∈ others ∧
        (Config.mk s' (ts.set i (.leave rest handler x))).Pending (.greet next contacts others))
    (hserved : c₀.reconnectEnabled → ∀ link ∈ c₀.reachableLinks, link ∈ c₀.greetedLinks →
      HandedComplete handed' c₀ link ∨ ∃ contacts others, Complete c₀ contacts ∧
        (Config.mk s' (ts.set i (.leave rest handler x))).Pending (.greet link contacts others))
    (hkeeps : ¬Forgoes derive (s, handed) a reply) :
    Greeting s' handed' (ts.set i (.leave rest handler x)) := by
  have hloop := exec_of_loops hl h
  obtain ⟨greeted, hold, ⟨heq, hall, hnew⟩ | ⟨next, others, heq, hall, _, _, hnew⟩⟩ :=
    greetNext_cases derive { s with coordinator := c₀ } links
  · cases hloop.trans heq
    refine ⟨fun link hlink => ?_, fun henabled link hlink hgreeted => ?_⟩
    · rcases hvisited link hlink with hg | hg | hp
      · exact .inl (hold link hg)
      · exact .inl (hall link hg)
      · exact .inr hp
    · have hbefore : link ∈ c₀.greetedLinks := by
        by_contra hungreeted
        rcases hnew link hgreeted with hg | ⟨hmem, hstopped⟩
        · exact hungreeted hg
        · exact hkeeps
            (.unplanned hl hmem hlink hungreeted henabled fun hd => hstopped ⟨henabled, hd⟩)
      exact hserved henabled link hlink hbefore
  · cases hloop.trans heq
    have hadded : (Config.mk _ (ts.set i (.leave rest handler
        (.goOn [.greet next c₀.reconnectAllowlistIdentities others])))).Pending
          (.greet next c₀.reconnectAllowlistIdentities others) :=
      pending_added hi h (.inl (List.mem_singleton_self _))
    refine ⟨fun link hlink => ?_, fun henabled link hlink hgreeted => ?_⟩
    · rcases hvisited link hlink with hg | hg | hp
      · exact .inl (hold link hg)
      · rcases hall link hg with hg | hg
        · exact .inl hg
        · exact .inr ⟨_, _, _, hg, hadded⟩
      · exact .inr hp
    · rcases hnew link hgreeted with hg | rfl
      · exact hserved henabled link hlink hg
      · exact .inr ⟨_, _, fun k hk => hk, hadded⟩

theorem greeting_act (hc : Greeting s handed ts) (hi : ts[i]? = some ⟨a :: rest, handler⟩)
    (h : exec rawKeyOf derive s a reply = some (s', x))
    (hkeeps : ¬Forgoes derive (s, handed) a reply) :
    Greeting s' (handed.note s a reply s') (ts.set i (.leave rest handler x)) := by
  have still (hcoordinator : s'.coordinator = s.coordinator)
      (hgreet : ∀ link contacts links, a ≠ .greet link contacts links) :
      Greeting s' handed (ts.set i (.leave rest handler x)) := by
    refine greeting_still hc hi h hgreet (by rw [hcoordinator]) (by rw [hcoordinator]) ?_
    rw [hcoordinator]
    exact fun henabled _ _ _ => .inr ⟨henabled, fun k hk => hk⟩
  rcases exec_cases h with ⟨_, rfl, rfl, _⟩ | ⟨rfl, _, _, _, rfl, _⟩ | ⟨_, _, _, rfl, rfl, _⟩ |
    ⟨rfl, rfl, _⟩ | ⟨c₀, links, hl, _⟩ | ⟨call, c', rfl, hhandle, rfl, _⟩
  · exact still rfl (by simp)
  · exact still rfl (by simp)
  · exact still rfl (by simp)
  · exact still rfl (by simp)
  · refine greeting_loop hi h hl ?_ ?_ hkeeps
    · intro link hlink
      rcases hl with ⟨ids, _, rfl, rfl⟩ | ⟨next, contacts, rfl, rfl⟩
      · exact .inr (.inl (List.mem_dedup.mpr (List.mem_toFinset.mp hlink)))
      · rcases hc.visited link hlink with hg | ⟨next', contacts', others, hmem, hp⟩
        · exact .inl hg
        · by_cases hself : Action.greet next' contacts' others = .greet next contacts links
          · cases hself
            exact .inr (.inl hmem)
          · exact .inr (.inr ⟨_, _, _, hmem, pending_kept hi h hp hself⟩)
    · intro henabled link hlink hgreeted
      rcases hl with ⟨ids, ha, rfl, rfl⟩ | ⟨next, contacts, rfl, rfl⟩
      · -- A link that was greeted before the call was reachable before it, so nothing is forgotten.
        have hids : link ∈ ids := List.mem_toFinset.mp hlink
        have hbefore : link ∈ s.coordinator.greetedLinks := (Finset.mem_inter.mp hgreeted).1
        have hreachable : link ∈ s.coordinator.reachableLinks := by
          by_contra haway
          exact hkeeps (.greetedAway ha hids haway hbefore)
        have hnote : handed.note s a reply s' link = handed link := by
          rcases ha with rfl | rfl
          · exact if_neg fun hh => hh.2 hreachable
          · exact if_neg fun hh => hh.2 hreachable
        rcases hc.served henabled link hreachable hbefore with ⟨contacts, hmem, hcomplete⟩ |
          ⟨contacts, others, hcomplete, hp⟩
        · exact .inl ⟨contacts, hnote ▸ hmem, hcomplete⟩
        · refine .inr ⟨contacts, others, hcomplete, pending_kept hi h hp ?_⟩
          rcases ha with rfl | rfl
          · simp
          · simp
      · rcases hc.served henabled link hlink hgreeted with hh | ⟨contacts', others, hcomplete, hp⟩
        · exact .inl (handedComplete_greet hh)
        · by_cases hself : Action.greet link contacts' others = .greet next contacts links
          · cases hself
            by_cases hcarried : reply.carried
            · refine .inl ⟨contacts, ?_, hcomplete⟩
              show contacts ∈ (if reply.carried then _ else _ : Handed) link
              rw [if_pos hcarried, Function.update_self]
              exact List.mem_append_right _ (List.mem_singleton_self _)
            · by_contra hforgone
              exact hkeeps
                (.refused hcarried hlink fun hh => hforgone (.inl (handedComplete_greet hh)))
          · exact .inr ⟨contacts', others, hcomplete, pending_kept hi h hp hself⟩
  · exact greeting_call hc hi h hhandle hkeeps

end Action

theorem greeting_step {t : GreeterStep}
    (ht : ((machine rawKeyOf derive).observed Handed.note).step t.pre t.event = some t.post)
    (hkeeps : ¬Config.Ran t (Forgoes derive))
    (hc : Greeting t.pre.shared.1 t.pre.shared.2 t.pre.threads) :
    Greeting t.post.shared.1 t.post.shared.2 t.post.threads := by
  obtain ⟨⟨⟨s, handed⟩, ts⟩, event, post⟩ := t
  rcases Machine.step_cases ht with ⟨call, _, hpost⟩ |
    ⟨i, reply, a, rest, handler, s', x, _, hi, hexec, hacts, hpost⟩
  · dsimp only at hpost
    subst hpost
    refine ⟨fun link hlink => ?_, fun henabled link hlink hgreeted => ?_⟩
    · rcases hc.visited link hlink with hold | ⟨_, _, _, hmem, hp⟩
      · exact .inl hold
      · exact .inr ⟨_, _, _, hmem, Machine.pending_start hp⟩
    · rcases hc.served henabled link hlink hgreeted with hold | ⟨_, _, hcomplete, hp⟩
      · exact .inl hold
      · exact .inr ⟨_, _, hcomplete, Machine.pending_start hp⟩
  · dsimp only at hpost hi hexec
    subst hpost
    obtain ⟨s', handed'⟩ := s'
    obtain ⟨hrun, hnote⟩ := Machine.observed_exec hexec
    dsimp only at hnote
    subst hnote
    exact greeting_act hc hi hrun fun hf => hkeeps ⟨a, reply, hacts, hf⟩

theorem greeting_launch (localIdentity : Data) :
    Greeting (launch localIdentity).shared (fun _ => []) (launch localIdentity).threads where
  visited link hlink := by simp [launch, FirstContactCoordinator.new] at hlink
  served _ link hlink := by simp [launch, FirstContactCoordinator.new] at hlink

/-- In every run without such an action, each reachable link has been handed a beacon set for every
enrolled contact in every state with nothing in progress. -/
theorem greeting_complete (rawKeyOf derive : Data → Option Data) (localIdentity : Data)
    (events : List (Event Call Reply))
    (hkeeps : ∀ t ∈ greeterSteps rawKeyOf derive localIdentity events,
      ¬Config.Ran t (Forgoes derive)) :
    ∀ t ∈ greeterSteps rawKeyOf derive localIdentity events, Greeted t.post := by
  intro t ht
  have hgreeting : Greeting t.pre.shared.1 t.pre.shared.2 t.pre.threads :=
    trace_invariant_of (fun c : Greeter => Greeting c.shared.1 c.shared.2 c.threads)
      (fun t : GreeterStep => ¬Config.Ran t (Forgoes derive))
      (fun t ht hk hc => greeting_step ht hk hc)
      (greeting_launch localIdentity) hkeeps ht
  exact greeted_of_greeting (greeting_step (step_of_mem_trace ht) (hkeeps t ht) hgreeting)

/-- A sufficient check, for contacts that all have a discovery secret: no link that is greeted is
there for what would leave it out, and the transport takes the beacon set. -/
def keepsGate (t : GreeterStep) : Bool :=
  let c := t.pre.shared.1.coordinator
  match t.pre.acts t.event with
  | some (.call (.enableReconnect _ _), _) | some (.call (.addReconnectContact _), _) =>
    c.reachableLinks ∩ c.greetedLinks = ∅
  | some (.greet _ _ _, reply) => reply.carried
  | some (.onReachable _, _) | some (.catchUp _, _) => c.greetedLinks ⊆ c.reachableLinks
  | _ => true

theorem not_forgoes_of_keepsGate {t : GreeterStep} (h : keepsGate t) :
    ¬Config.Ran t (Forgoes some) := by
  rintro ⟨a, reply, hacts, hforgoes⟩
  obtain ⟨⟨⟨s, handed⟩, ts⟩, event, post⟩ := t
  dsimp only at hacts hforgoes
  unfold keepsGate at h
  dsimp only at h
  rw [hacts] at h
  have disjoint {link : UUID}
    (hnone : s.coordinator.reachableLinks ∩ s.coordinator.greetedLinks = ∅)
      (hreachable : link ∈ s.coordinator.reachableLinks)
        (hgreeted : link ∈ s.coordinator.greetedLinks) :
      False := by
    have hmem := Finset.mem_inter.mpr ⟨hreachable, hgreeted⟩
    rw [hnone] at hmem
    exact Finset.notMem_empty _ hmem
  cases hforgoes with
  | enabledLate hreachable hgreeted => exact disjoint (of_decide_eq_true h) hreachable hgreeted
  | enrolledLate _ _ _ hreachable hgreeted =>
      exact disjoint (of_decide_eq_true h) hreachable hgreeted
  | refused hrefused => exact hrefused h
  | greetedAway ha _ haway hgreeted =>
    rcases ha with rfl | rfl
    · exact haway (of_decide_eq_true h hgreeted)
    · exact haway (of_decide_eq_true h hgreeted)
  | unplanned _ _ _ _ _ hplan => exact hplan fun _ _ => rfl

def accepted : Reply := ⟨true, none, true⟩

/-- After the boot task has caught up, a contact is enrolled and a link comes up. -/
def linkAfterEnrollment : List (Event Call Reply) :=
  [.start (.makeSessionStack [.replicate 32 5] [] ∅), .step 1 accepted, .step 1 accepted,
    .step 1 accepted, .step 1 accepted, .step 1 accepted,
    .start (.handler ⟨.addReconnectContact (.replicate 32 6), by simp, by simp⟩), .step 2 accepted,
    .start (.transport [1]), .step 3 accepted, .step 0 accepted, .step 0 accepted, .step 0 accepted]

theorem greeting_complete_linkAfterEnrollment :
    (∃ t ∈ greeterSteps FirstContactCoordinator.prefixKey some [] linkAfterEnrollment,
      Resting t.post.threads ∧ t.post.shared.1.coordinator.reconnectEnabled ∧
      t.post.shared.2 1 = [[.replicate 32 5, .replicate 32 6]]) ∧
    ∀ t ∈ greeterSteps FirstContactCoordinator.prefixKey some [] linkAfterEnrollment,
      Greeted t.post := by
  constructor
  · exact ⟨_, List.mem_of_getElem? (i := 12) rfl, resting_of_todos (n := 3) rfl, rfl, rfl⟩
  · refine greeting_complete FirstContactCoordinator.prefixKey some [] linkAfterEnrollment
      fun t ht => ?_
    have hall : (greeterSteps FirstContactCoordinator.prefixKey some [] linkAfterEnrollment).all
        keepsGate := by decide
    exact not_forgoes_of_keepsGate (List.all_eq_true.mp hall t ht)

/-- The contact is enrolled when the link is already up. -/
def enrollmentAfterLink : List (Event Call Reply) :=
  [.start (.makeSessionStack [.replicate 32 5] [] ∅), .step 1 accepted, .step 1 accepted,
    .step 1 accepted, .step 1 accepted, .step 1 accepted, .start (.transport [1]), .step 2 accepted,
    .step 0 accepted, .step 0 accepted, .step 0 accepted,
    .start (.handler ⟨.addReconnectContact (.replicate 32 6), by simp, by simp⟩), .step 3 accepted]

/-- With nothing in progress, the live link has been handed no beacon set for the contact. -/
theorem greeting_incomplete :
    ∃ t ∈ greeterSteps FirstContactCoordinator.prefixKey some [] enrollmentAfterLink,
      ¬Greeted t.post := by
  refine ⟨_, List.mem_of_getElem? (i := 12) rfl, fun h => ?_⟩
  have hhanded := h (resting_of_todos (n := 3) rfl) rfl 1 (by decide)
  revert hhanded
  decide

end AeroNyra.Reachability
