import AeroNyra.Coordinator.Reachability

/-! Convergence of presence: once nothing is in progress, what was emitted last is what the radio's
latest emission says, unless the boot task has caught up with links that are no longer those. -/

namespace AeroNyra.Reachability

open Interleave

variable {rawKeyOf : Data → Option Data} {derive : Data → Option Data}

/-- The verified identities that are mapped to links of the radio's latest emission. -/
def presentKeys (s : Reachability) : Finset Data :=
  FirstContactCoordinator.reachableKeys { s.coordinator with reachableLinks := s.latest.toFinset }

/-- If the coordinator exists and nothing is in progress, presence is that of the radio's latest
emission. -/
def Converged (c : Config Reachability Action) : Prop :=
  c.shared.booted → Quiescent c → c.shared.coordinator.lastReachableKeys = c.shared.presentKeys

/-- The boot task catches up with links other than those of the radio's latest emission, with no
emission and no call of the feed still to come that would put them right. -/
def Step.CatchesUpStale (t : Step) : Prop :=
  Config.Ran t fun s a _ => ∃ ids, a = .catchUp ids ∧ ids.toFinset ≠ s.latest.toFinset ∧
    s.updates = [] ∧ ∀ ids, ¬t.pre.Pending (.onReachable ids)

/-! ### The calls that are in progress -/

/-- The feed waits for an emission, or is in the call for the one that it took last. -/
def FeedTodo (s : Reachability) (todo : List Action) : Prop :=
  todo = [.feed] ∨ todo = [.onReachable s.reachableIDs, .feed] ∨
    ∃ link contacts links, todo = [.greet link contacts links, .feed]

/-- A call other than the feed. -/
def OtherTodo (todo : List Action) : Prop := .feed ∉ todo ∧ ∀ ids, .onReachable ids ∉ todo

/-- A call that enables reconnection catches up afterwards. -/
def CatchesUp (todo : List Action) : Prop :=
  ∀ (before after : List Action) allowlist verified,
    todo = before ++ .call (.enableReconnect allowlist verified) :: after →
      ∃ ids, .catchUp ids ∈ after

/-- What each call has left, by its place. -/
def Placed (j : Nat) (s : Reachability) (todo : List Action) : Prop :=
  (j = 0 → s.FeedTodo todo) ∧ (j ≠ 0 → OtherTodo todo) ∧ CatchesUp todo

variable {s s' : Reachability} {a : Action} {reply : Reply} {x : Exit Action}

theorem catchesUp_of_none {todo : List Action}
    (h : ∀ allowlist verified, .call (.enableReconnect allowlist verified) ∉ todo) :
    CatchesUp todo := by
  intro before after allowlist verified htodo
  exact absurd (htodo ▸ List.mem_append_right _ List.mem_cons_self) (h allowlist verified)

/-- What follows the first action of such a call is such a call. -/
theorem CatchesUp.tail {b : Action} {rest : List Action} (h : CatchesUp (b :: rest)) :
    CatchesUp rest := by
  intro before after allowlist verified hrest
  exact h (b :: before) after allowlist verified (by rw [hrest]; rfl)

theorem CatchesUp.cons {b : Action} {rest : List Action} (h : CatchesUp rest)
    (hb : ∀ allowlist verified, b = .call (.enableReconnect allowlist verified) →
      ∃ ids, .catchUp ids ∈ rest) : CatchesUp (b :: rest) := by
  intro before after allowlist verified heq
  cases before with
  | nil =>
    obtain ⟨hhead, htail⟩ := List.cons.inj heq
    exact htail ▸ hb allowlist verified hhead
  | cons b' before => exact h before after allowlist verified (List.cons.inj heq).2

/-- No action of the feed is one of a call other than the feed. -/
theorem FeedTodo.head {rest : List Action} (h : s.FeedTodo (a :: rest)) :
    (a = .feed ∧ rest = []) ∨ ((a = .onReachable s.reachableIDs ∨
      ∃ link contacts links, a = .greet link contacts links) ∧ rest = [.feed]) := by
  rcases h with h | h | ⟨link, contacts, links, h⟩
  · cases h
    exact .inl ⟨rfl, rfl⟩
  · cases h
    exact .inr ⟨.inl rfl, rfl⟩
  · cases h
    exact .inr ⟨.inr ⟨link, contacts, links, rfl⟩, rfl⟩

/-- An action of a call other than the feed, which brings in `first`, leaves such a call. -/
theorem Placed.other {j : Nat} {rest first : List Action} (hj : j ≠ 0) (h : Placed j s (a :: rest))
    (hfirst : OtherTodo first) (hcatches : CatchesUp (first ++ rest)) :
    Placed j s' (first ++ rest) := by
  obtain ⟨_, hother, _⟩ := h
  obtain ⟨hfeed, hreachable⟩ := hother hj
  refine ⟨fun h => absurd h hj, fun _ => ⟨fun hmem => ?_, fun ids hmem => ?_⟩, hcatches⟩
  · rcases List.mem_append.mp hmem with hmem | hmem
    · exact hfirst.1 hmem
    · exact hfeed (List.mem_cons_of_mem _ hmem)
  · rcases List.mem_append.mp hmem with hmem | hmem
    · exact hfirst.2 ids hmem
    · exact hreachable ids (List.mem_cons_of_mem _ hmem)

theorem placed_act {i : Nat} {rest handler : List Action} (hplaced : Placed i s (a :: rest))
    (h : exec rawKeyOf derive s a reply = some (s', x)) :
    Placed i s' (Thread.leave rest handler x).todo ∧
      (i ≠ 0 → s'.reachableIDs = s.reachableIDs) := by
  have htail : CatchesUp rest := hplaced.2.2.tail
  have hnone : OtherTodo [] := ⟨by simp, by simp⟩
  have head (hi : i = 0) := (hplaced.1 hi).head
  rcases exec_cases h with ⟨ids, rfl, rfl, rfl⟩ | ⟨rfl, ids, updates, _, rfl, rfl⟩ |
    ⟨allowlist, verified, blocked, rfl, rfl, rfl⟩ | ⟨rfl, rfl, rfl⟩ | ⟨c₀, links, hl, hloop⟩ |
    ⟨call, c', rfl, _, rfl, rfl⟩
  · have hi : i ≠ 0 := fun hi => by simpa using head hi
    exact ⟨hplaced.other hi hnone htail, fun _ => rfl⟩
  · have hi : i = 0 := by
      by_contra hi
      exact (hplaced.2.1 hi).1 List.mem_cons_self
    obtain rfl : rest = [] := by simpa using head hi
    subst hi
    refine ⟨⟨fun _ => ?_, fun hne => absurd rfl hne, ?_⟩, fun hne => absurd rfl hne⟩
    · by_cases hbooted : s.booted
      · rw [if_pos hbooted]
        exact .inr (.inl rfl)
      · rw [if_neg hbooted]
        exact .inl rfl
    · refine catchesUp_of_none fun allowlist verified hmem => ?_
      by_cases hbooted : s.booted
      · simp [Thread.leave, hbooted] at hmem
      · simp [Thread.leave, hbooted] at hmem
  · have hi : i ≠ 0 := fun hi => by simpa using head hi
    refine ⟨hplaced.other hi ⟨by simp, by simp⟩ ?_, fun _ => rfl⟩
    refine CatchesUp.cons (CatchesUp.cons (CatchesUp.cons (CatchesUp.cons htail ?_) ?_) ?_) ?_
    · simp
    · simp
    · exact fun _ _ _ => ⟨s.reachableIDs, by simp⟩
    · simp
  · have hi : i ≠ 0 := fun hi => by simpa using head hi
    exact ⟨hplaced.other hi hnone htail, fun _ => rfl⟩
  · obtain ⟨_, hids, _, _, hends⟩ := greetNext_loop derive { s with coordinator := c₀ } links
    rw [← hloop] at hids hends
    refine ⟨?_, fun _ => hids⟩
    have hfirst : ∃ first, x = .goOn first ∧ (first = [] ∨ ∃ link contacts rest,
        first = [.greet link contacts rest]) := by
      rcases hends with ⟨hx, _⟩ | ⟨link, contacts, rest, hx⟩
      · exact ⟨[], hx, .inl rfl⟩
      · exact ⟨_, hx, .inr ⟨link, contacts, rest, rfl⟩⟩
    obtain ⟨first, rfl, hfirst⟩ := hfirst
    have hcatches : CatchesUp (first ++ rest) := by
      rcases hfirst with rfl | ⟨link, contacts, links, rfl⟩
      · exact htail
      · exact htail.cons (by simp)
    by_cases hi : i = 0
    · obtain rfl : rest = [.feed] := by
        rcases head hi with ⟨rfl, _⟩ | ⟨_, hrest⟩
        · rcases hl with ⟨_, ha | ha, _⟩ | ⟨_, _, ha, _⟩
          · cases ha
          · cases ha
          · cases ha
        · exact hrest
      refine ⟨fun _ => ?_, fun hne => absurd hi hne, hcatches⟩
      rcases hfirst with rfl | ⟨link, contacts, links, rfl⟩
      · exact .inl rfl
      · exact .inr (.inr ⟨link, contacts, links, rfl⟩)
    · refine hplaced.other hi ?_ hcatches
      rcases hfirst with rfl | ⟨link, contacts, links, rfl⟩
      · exact hnone
      · exact ⟨by simp, by simp⟩
  · have hi : i ≠ 0 := fun hi => by simpa using head hi
    exact ⟨hplaced.other hi hnone htail, fun _ => rfl⟩

/-! ### What is still to come -/

/-- The invariant: what is reachable has been published or is about to be, and what the radio
emitted last has been taken up or is about to be. -/
structure Settling (c : Config Reachability Action) : Prop where
  feeds : c.threads ≠ []
  placed : ∀ (j : Nat) (u : Thread Action), c.threads[j]? = some u → Placed j c.shared u.todo
  published : c.shared.coordinator.lastReachableKeys = c.shared.coordinator.reachableKeys ∨
    (∃ link contacts links, c.Pending (.greet link contacts links)) ∨
    ∃ ids, c.Pending (.catchUp ids)
  current : c.shared.booted → c.shared.coordinator.reachableLinks = c.shared.latest.toFinset ∨
    c.shared.updates ≠ [] ∨ (∃ ids, c.Pending (.onReachable ids)) ∨ ∃ ids, c.Pending (.catchUp ids)

/-- The feed's call is one for the emission that it took last. -/
theorem Settling.onReachable_eq {c : Config Reachability Action} (hc : Settling c) {ids : List UUID}
    (h : c.Pending (.onReachable ids)) : ids = c.shared.reachableIDs := by
  obtain ⟨u, hu, hmem⟩ := h
  obtain ⟨j, hj⟩ := List.mem_iff_getElem?.mp hu
  obtain ⟨hfeed, hother, _⟩ := hc.placed j u hj
  by_cases hzero : j = 0
  · rcases hfeed hzero with htodo | htodo | ⟨link, contacts, links, htodo⟩
    · simp [htodo] at hmem
    · rw [htodo] at hmem
      simpa using hmem
    · simp [htodo] at hmem
  · exact absurd hmem ((hother hzero).2 ids)

theorem converged_of_settling {c : Config Reachability Action} (hc : Settling c) : Converged c := by
  rintro hbooted ⟨hupdates, hresting⟩
  have hnone {b : Action} (hb : b ≠ .feed) : ¬c.Pending b := hresting.not_pending hb
  have hpublished : c.shared.coordinator.lastReachableKeys =
    c.shared.coordinator.reachableKeys := by
    rcases hc.published with h | ⟨_, _, _, h⟩ | ⟨_, h⟩
    · exact h
    · exact absurd h (hnone (by simp))
    · exact absurd h (hnone (by simp))
  have hcurrent : c.shared.coordinator.reachableLinks = c.shared.latest.toFinset := by
    rcases hc.current hbooted with h | h | ⟨_, h⟩ | ⟨_, h⟩
    · exact h
    · exact absurd hupdates h
    · exact absurd h (hnone (by simp))
    · exact absurd h (hnone (by simp))
  rw [hpublished]
  unfold presentKeys
  rw [← hcurrent]

section Action

variable {ts : List (Thread Action)} {i : Nat} {rest handler : List Action}

theorem published_act (hc : Settling ⟨s, ts⟩) (hi : ts[i]? = some ⟨a :: rest, handler⟩)
    (h : exec rawKeyOf derive s a reply = some (s', x)) :
    s'.coordinator.lastReachableKeys = s'.coordinator.reachableKeys ∨
    (∃ link contacts links,
      (Config.mk s' (ts.set i (.leave rest handler x))).Pending (.greet link contacts links)) ∨
    ∃ ids, (Config.mk s' (ts.set i (.leave rest handler x))).Pending (.catchUp ids) := by
  -- What is still to be published stays so through an action that is no turn of the loop.
  have kept (hsame : s.coordinator.lastReachableKeys = s.coordinator.reachableKeys →
      s'.coordinator.lastReachableKeys = s'.coordinator.reachableKeys)
      (hgreet : ∀ link contacts links, a ≠ .greet link contacts links)
      (hcatch : ∀ ids, a ≠ .catchUp ids) :
      s'.coordinator.lastReachableKeys = s'.coordinator.reachableKeys ∨
      (∃ link contacts links,
        (Config.mk s' (ts.set i (.leave rest handler x))).Pending (.greet link contacts links)) ∨
      ∃ ids, (Config.mk s' (ts.set i (.leave rest handler x))).Pending (.catchUp ids) := by
    rcases hc.published with hold | ⟨link, contacts, links, hp⟩ | ⟨ids, hp⟩
    · exact .inl (hsame hold)
    · exact .inr (.inl ⟨link, contacts, links, pending_kept hi h hp (hgreet _ _ _).symm⟩)
    · exact .inr (.inr ⟨ids, pending_kept hi h hp (hcatch _).symm⟩)
  rcases exec_cases h with ⟨_, rfl, rfl, _⟩ | ⟨rfl, _, _, _, rfl, _⟩ | ⟨_, _, _, rfl, rfl, _⟩ |
    ⟨rfl, rfl, _⟩ | ⟨c₀, links, _, hloop⟩ | ⟨call, c', rfl, hhandle, rfl, _⟩
  · exact kept id (by simp) (by simp)
  · exact kept id (by simp) (by simp)
  · exact kept id (by simp) (by simp)
  · exact kept id (by simp) (by simp)
  · obtain ⟨_, _, _, _, ⟨_, hpublished⟩ | ⟨link, contacts, links, hx⟩⟩ :=
      greetNext_loop derive { s with coordinator := c₀ } links
    · rw [← hloop] at hpublished
      exact .inl hpublished
    · rw [← hloop] at hx
      refine .inr (.inl ⟨link, contacts, links, pending_added hi h (.inl ?_)⟩)
      dsimp only at hx
      rw [hx]
      exact List.mem_singleton_self _
  · have heffect := handle_effect hhandle
    by_cases hpublishes : publishes rawKeyOf s.coordinator reply call
    · exact .inl (heffect.published hpublishes)
    · obtain ⟨hlast, hlinks, ⟨allowlist, verified, rfl⟩ | hverified⟩ := heffect.quiet hpublishes
      · -- The boot task is still to catch up.
        obtain ⟨ids, hids⟩ := (hc.placed i _ hi).2.2 [] rest allowlist verified rfl
        exact .inr (.inr ⟨ids, pending_added hi h (.inr hids)⟩)
      · refine kept (fun hold => ?_) (by simp) (by simp)
        dsimp only
        rw [hlast, hold]
        unfold FirstContactCoordinator.reachableKeys
        rw [heffect.reachable, hlinks, hverified]

theorem current_act (hc : Settling ⟨s, ts⟩) (hi : ts[i]? = some ⟨a :: rest, handler⟩)
    (h : exec rawKeyOf derive s a reply = some (s', x))
    (hfresh : ∀ ids, a = .catchUp ids → ids.toFinset = s.latest.toFinset ∨ s.updates ≠ [] ∨
      ∃ ids, (Config.mk s ts).Pending (.onReachable ids)) (hbooted : s'.booted) :
    s'.coordinator.reachableLinks = s'.latest.toFinset ∨ s'.updates ≠ [] ∨
    (∃ ids, (Config.mk s' (ts.set i (.leave rest handler x))).Pending (.onReachable ids)) ∨
    ∃ ids, (Config.mk s' (ts.set i (.leave rest handler x))).Pending (.catchUp ids) := by
  have kept (hbefore : s.booted)
    (hlinks : s'.coordinator.reachableLinks = s.coordinator.reachableLinks)
      (hupdates : s'.updates = s.updates) (hids : s'.reachableIDs = s.reachableIDs)
      (hfeed : ∀ ids, a ≠ .onReachable ids) (hcatch : ∀ ids, a ≠ .catchUp ids) :
      s'.coordinator.reachableLinks = s'.latest.toFinset ∨ s'.updates ≠ [] ∨
      (∃ ids, (Config.mk s' (ts.set i (.leave rest handler x))).Pending (.onReachable ids)) ∨
      ∃ ids, (Config.mk s' (ts.set i (.leave rest handler x))).Pending (.catchUp ids) := by
    unfold latest
    rw [hlinks, hupdates, hids]
    rcases hc.current hbefore with hold | hold | ⟨ids, hp⟩ | ⟨ids, hp⟩
    · exact .inl hold
    · exact .inr (.inl hold)
    · exact .inr (.inr (.inl ⟨ids, pending_kept hi h hp (hfeed _).symm⟩))
    · exact .inr (.inr (.inr ⟨ids, pending_kept hi h hp (hcatch _).symm⟩))
  rcases exec_cases h with ⟨_, rfl, rfl, _⟩ | ⟨rfl, ids, _, _, rfl, rfl⟩ |
    ⟨_, _, _, rfl, rfl, rfl⟩ |
    ⟨rfl, rfl, _⟩ | ⟨c₀, links, hl, hloop⟩ | ⟨call, c', rfl, hhandle, rfl, _⟩
  · exact .inr (.inl (by simp))
  · refine .inr (.inr (.inl ⟨ids, pending_added hi h (.inl ?_)⟩))
    have hbooted : s.booted := hbooted
    rw [if_pos hbooted]
    exact List.mem_cons_self
  · exact .inr (.inr (.inr ⟨s.reachableIDs, pending_added hi h (.inl (by simp [Exit.added]))⟩))
  · exact kept hbooted rfl rfl rfl (by simp) (by simp)
  · obtain ⟨hupdates, hids, hb, hlinks, _⟩ := greetNext_loop derive
      { s with coordinator := c₀ } links
    rw [← hloop] at hupdates hids hb hlinks
    have hbefore : s.booted := hb.symm.trans hbooted
    rcases hl with ⟨ids, rfl | rfl, rfl, rfl⟩ | ⟨link, contacts, rfl, rfl⟩
    · have hids' : ids = s.reachableIDs :=
        hc.onReachable_eq ⟨_, List.mem_of_getElem? hi, List.mem_cons_self⟩
      by_cases hdrained : s.updates = []
      · refine .inl ?_
        have hlatest : s'.latest = ids := by
          unfold latest
          rw [hupdates, hids, hids']
          simp [hdrained]
        rw [hlatest]
        exact hlinks
      · exact .inr (.inl (hupdates ▸ hdrained))
    · rcases hfresh ids rfl with hsame | hmore | ⟨ids', hp⟩
      · refine .inl ?_
        have hlatest : s'.latest = s.latest := by
          unfold latest
          rw [hupdates, hids]
        rw [hlatest, ← hsame]
        exact hlinks
      · exact .inr (.inl (hupdates ▸ hmore))
      · exact .inr (.inr (.inl ⟨ids', pending_kept hi h hp (by simp)⟩))
    · exact kept hbefore hlinks hupdates hids (by simp) (by simp)
  · have heffect := handle_effect hhandle
    exact kept hbooted heffect.reachable rfl rfl (by simp) (by simp)

end Action

theorem settling_step {t : Step} (ht : (machine rawKeyOf derive).step t.pre t.event = some t.post)
    (hfresh : ¬t.CatchesUpStale) (hc : Settling t.pre) : Settling t.post := by
  have hplaced : ∀ (j : Nat) (u : Thread Action), t.post.threads[j]? = some u →
      Placed j t.post.shared u.todo := by
    refine Machine.calls_step (Q := Placed) ht hc.placed ?_ ?_
    · intro call _
      have hlength : t.pre.threads.length ≠ 0 := fun h => hc.feeds (List.length_eq_zero_iff.mp h)
      refine ⟨fun h => absurd h hlength, fun _ => ?_, catchesUp_of_none
        fun allowlist verified hmem => ?_⟩
      · cases call <;> exact ⟨by simp [machine], by simp [machine]⟩
      · cases call with
        | transport | makeSessionStack => simp [machine] at hmem
        | handler h => exact h.notEnable allowlist verified (by simpa [machine, eq_comm] using hmem)
    · intro i a reply rest handler s x hi hexec _
      obtain ⟨hself, hids⟩ := placed_act (hc.placed i _ hi) hexec
      refine ⟨hself, fun j u hne hj => ?_⟩
      obtain ⟨hfeed, hother, hcatches⟩ := hc.placed j u hj
      refine ⟨fun hzero => ?_, hother, hcatches⟩
      unfold FeedTodo
      rw [hids (fun h => hne (hzero.trans h.symm))]
      exact hfeed hzero
  obtain ⟨⟨s, ts⟩, event, post⟩ := t
  rcases Machine.step_cases ht with ⟨call, _, hpost⟩ |
    ⟨i, reply, a, rest, handler, s', x, _, hi, hexec, hacts, hpost⟩
  · dsimp only at hpost
    subst hpost
    refine ⟨by simp, hplaced, ?_, fun hbooted => ?_⟩
    · rcases hc.published with hold | ⟨_, _, _, hp⟩ | ⟨_, hp⟩
      · exact .inl hold
      · exact .inr (.inl ⟨_, _, _, Machine.pending_start hp⟩)
      · exact .inr (.inr ⟨_, Machine.pending_start hp⟩)
    · rcases hc.current hbooted with hold | hold | ⟨_, hp⟩ | ⟨_, hp⟩
      · exact .inl hold
      · exact .inr (.inl hold)
      · exact .inr (.inr (.inl ⟨_, Machine.pending_start hp⟩))
      · exact .inr (.inr (.inr ⟨_, Machine.pending_start hp⟩))
  · dsimp only at hpost hi hexec
    subst hpost
    refine ⟨by simpa using hc.feeds, hplaced, published_act hc hi hexec,
      current_act hc hi hexec fun ids ha => ?_⟩
    by_contra hstale
    rw [not_or, not_or, not_not] at hstale
    obtain ⟨hids, hdrained, hnone⟩ := hstale
    exact hfresh ⟨a, reply, hacts, ids, ha, hids, hdrained, fun ids' hp => hnone ⟨ids', hp⟩⟩

theorem settling_launch (localIdentity : Data) : Settling (launch localIdentity) where
  feeds := by simp [launch]
  placed j u hj := by
    have hlength := (List.getElem?_eq_some_iff.mp hj).1
    obtain rfl : j = 0 := by simpa [launch] using hlength
    cases hj
    exact ⟨fun _ => .inl rfl, fun h => absurd rfl h, catchesUp_of_none (by simp)⟩
  published := .inl rfl
  current h := by simp [launch] at h

/-- In every run in which the boot task does not catch up with links that are no longer those of the
radio's latest emission, presence has converged in every state with nothing in progress. -/
theorem presence_converges (rawKeyOf derive : Data → Option Data) (localIdentity : Data)
    (events : List (Event Call Reply))
    (hfresh : ∀ t ∈ steps rawKeyOf derive localIdentity events, ¬t.CatchesUpStale) :
    ∀ t ∈ steps rawKeyOf derive localIdentity events, Converged t.post := by
  intro t ht
  have hsettling : Settling t.pre :=
    trace_invariant_of Settling (fun t : Step => ¬t.CatchesUpStale)
      (fun t ht hf hc => settling_step ht hf hc) (settling_launch localIdentity) hfresh ht
  exact converged_of_settling (settling_step (step_of_mem_trace ht) (hfresh t ht) hsettling)

/-- The boot task, if the step is its call of `onReachable`, catches up with the radio's latest
emission. -/
def Step.catchesUpFresh (t : Step) : Bool :=
  match t.pre.acts t.event with
  | some (.catchUp ids, _) => ids.toFinset = t.pre.shared.latest.toFinset
  | _ => true

theorem Step.not_catchesUpStale {t : Step} (h : t.catchesUpFresh) : ¬t.CatchesUpStale := by
  rintro ⟨a, reply, hacts, ids, rfl, hstale, _⟩
  unfold Step.catchesUpFresh at h
  rw [hacts] at h
  exact hstale (of_decide_eq_true h)

def answer : Reply := ⟨true, none, true⟩

/-- A link is up before the coordinator exists, and a contact identifies itself on it after the
boot task has caught up. -/
def upBeforeBoot : List (Event Call Reply) :=
  [.start (.transport [1]), .step 1 answer, .step 0 answer,
    .start (.makeSessionStack [.replicate 32 5] [.replicate 32 5] ∅), .step 2 answer,
      .step 2 answer,
    .step 2 answer, .step 2 answer, .step 2 answer, .step 2 answer,
    .start (.handler ⟨.onBundle 1 (.replicate 64 5), by simp, by simp⟩), .step 3 answer]

theorem presence_converges_upBeforeBoot :
    (∃ t ∈ steps FirstContactCoordinator.prefixKey some [] upBeforeBoot, Quiescent t.post ∧
      t.post.shared.booted ∧ t.post.shared.coordinator.lastReachableKeys = {.replicate 32 5}) ∧
    ∀ t ∈ steps FirstContactCoordinator.prefixKey some [] upBeforeBoot, Converged t.post := by
  constructor
  · exact ⟨_, List.mem_of_getElem? (i := 11) rfl, ⟨rfl, resting_of_todos (n := 3) rfl⟩,
      rfl, by decide⟩
  · refine presence_converges FirstContactCoordinator.prefixKey some [] upBeforeBoot fun t ht => ?_
    have hall : (steps FirstContactCoordinator.prefixKey some [] upBeforeBoot).all
        Step.catchesUpFresh := by decide
    exact t.not_catchesUpStale (List.all_eq_true.mp hall t ht)

/-- The link goes down, and the feed says so, while the boot task is on its way to catch up with
it. -/
def downBeforeCatchUp : List (Event Call Reply) :=
  [.start (.transport [1]), .step 1 answer, .step 0 answer,
    .start (.makeSessionStack [.replicate 32 5] [.replicate 32 5] ∅), .step 2 answer,
      .step 2 answer,
    .step 2 answer, .start (.handler ⟨.onBundle 1 (.replicate 64 5), by simp, by simp⟩),
      .step 3 answer,
    .start (.transport []), .step 4 answer, .step 0 answer, .step 0 answer, .step 2 answer,
    .step 2 answer, .step 2 answer]

/-- With nothing in progress, the contact is emitted as reachable, though the radio has no link. -/
theorem presence_diverges : ∃ t ∈ steps FirstContactCoordinator.prefixKey some [] downBeforeCatchUp,
    t.post.shared.latest = [] ∧ t.post.shared.coordinator.lastReachableKeys = {.replicate 32 5} ∧
      ¬Converged t.post := by
  have hlast : ∃ t ∈ steps FirstContactCoordinator.prefixKey some [] downBeforeCatchUp,
      Quiescent t.post ∧ t.post.shared.booted ∧ t.post.shared.latest = [] ∧
        t.post.shared.coordinator.lastReachableKeys = {.replicate 32 5} :=
    ⟨_, List.mem_of_getElem? (i := 15) rfl, ⟨rfl, resting_of_todos (n := 4) rfl⟩, rfl,
    rfl, by decide⟩
  obtain ⟨t, ht, hquiescent, hbooted, hlatest, hkeys⟩ := hlast
  refine ⟨t, ht, hlatest, hkeys, fun hconverged => ?_⟩
  have hpresent := hconverged hbooted hquiescent
  rw [hkeys] at hpresent
  simp [presentKeys, FirstContactCoordinator.reachableKeys, hlatest] at hpresent

end AeroNyra.Reachability
