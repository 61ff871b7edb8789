import AeroNyra.Coordinator.SessionStack

/-! What a blocked identity gets out of `receive`.  The check stands once, before the first
suspension; so a block that lands while `receive` is on its way finds the rest of it unguarded. -/

namespace AeroNyra.SessionStack

open Interleave

/-- The identity for which an action of `receive` is under way that is past the check. -/
def Action.receiving : Action → Option Data
  | .dispatch m => some m.rawKey
  | .sendDeliveryAck receipt | .carryAck receipt _ => some receipt.peer
  | .resolved .receive k _ | .announce .receive k _ => some k
  | .listener (.redeemEcho _ _ k) | .listener (.surface _ k _) => some k
  | _ => none

/-- The action hands a reply of `receive` to `k` over to a transport: an acknowledgement or our
Nostr key. -/
def Answers (k : Data) (s : SessionStack) (a : Action) (reply : Reply) : Prop :=
  ∃ segment answer r next, reply = .router answer ∧
    s.router.exec segment answer = some (r, .suspend next) ∧
    ((∃ receipt, receipt.peer = k ∧ a = .carryAck receipt segment) ∨
      a = .announce .receive k segment)

/-- No step yields an event of a blocked identity, or answers one. -/
structure Silent (t : Step) : Prop where
  yields : ∃ events, t.post.shared.listener.events = t.pre.shared.listener.events ++ events ∧
    ∀ event ∈ events, event.peerKey ∉ t.pre.shared.blocked ∧ event.peerKey ∉ t.post.shared.blocked
  answers : ∀ k, Config.Ran t (Answers k) → k ∉ t.pre.shared.blocked

/-- The step blocks an identity while a `receive` of it is past its check. -/
def Overtakes (t : Step) : Prop :=
  ∃ b, t.pre.ToRun b ∧ ∃ k ∈ b.receiving, k ∉ t.pre.shared.blocked ∧ k ∈ t.post.shared.blocked

instance (t : Step) : Decidable (Overtakes t) :=
  inferInstanceAs (Decidable (∃ b, t.pre.ToRun b ∧ ∃ k ∈ b.receiving, _ ∧ _))

/-- Whoever's `receive` is under way is not blocked. -/
def Passed (c : Config SessionStack Action) : Prop :=
  ∀ b k, c.ToRun b → b.receiving = some k → k ∉ c.shared.blocked

variable {rawKeyOf : Data → Option Data} {hashHex : Data → String}
  {decodeManifest : Data → Option MediaManifest} {crypto : PTTSessionCrypto} {s : SessionStack}
  {a b : Action} {reply : Reply} {p : SessionStack × Exit Action} {k : Data}

theorem receiving_of_announces {by_ : Announcer} {rawKey : Data} {nostrRecipient : Option Data}
    {sealed : Option Envelope} (hb : b ∈ s.announceNostrIdentity by_ rawKey nostrRecipient sealed)
    (hk : b.receiving = some k) : by_ = .receive ∧ k = rawKey := by
  unfold announceNostrIdentity at hb
  split at hb
  · split at hb
    · cases hb
    · obtain rfl := List.mem_singleton.mp hb
      cases by_ with
      | receive => exact ⟨rfl, (Option.some.inj hk).symm⟩
      | send | reannounce => cases hk
    · obtain rfl := List.mem_singleton.mp hb
      cases by_ with
      | receive => exact ⟨rfl, (Option.some.inj hk).symm⟩
      | send | reannounce => cases hk
  · cases hb

theorem receiving_lift_service (invited : Option Data) (c : Pairing.Action) :
    (lift invited (.service c)).receiving = none := by
  cases c <;> first
    | rfl
    | cases invited <;> rfl

/-- On the listening side only the rest of an echo brings in more of it. -/
theorem receiving_listener {c c' : Listener.Action} {creply : Listener.Reply}
    {q : Listener × Exit Listener.Action} {l : Listener} (own : opensInbound c = false)
    (h : l.exec rawKeyOf hashHex decodeManifest crypto c creply = some q) (hc : c' ∈ q.2.added)
    {invited : Option Data} (hk : (lift invited c').receiving = some k) :
    (Action.listener c).receiving = some k := by
  rcases added_listener own h hc with ⟨_, c', _, _, _, rfl, _, _⟩ | ⟨_, _, _, rfl⟩ |
    ⟨inviteID, nostrPubkey, rawKey, rfl, ⟨redeemer, rfl⟩ | ⟨redeemed, rfl⟩⟩
  · rw [receiving_lift_service] at hk
    cases hk
  · cases hk
  · cases hk
  · exact hk

theorem receiving_of_dispatches {m : Node.Opened} {refused : List UUID}
    (h : s.Dispatches a reply m refused) :
    a.receiving = some m.rawKey ∨ (∃ envelope, a = .openInbound envelope) ∧
      m.rawKey ∉ s.blocked := by
  rcases h with ⟨rfl, _⟩ | ⟨_, rfl, _, hpassed, _⟩
  · exact .inl rfl
  · exact .inr ⟨⟨_, rfl⟩, hpassed⟩

/-- The rest of a `receive` is brought in by the check that it passed, or by an earlier part. -/
theorem receiving_added (h : Brings rawKeyOf hashHex decodeManifest crypto s a reply b)
    (hk : b.receiving = some k) :
    a.receiving = some k ∨ (∃ envelope, a = .openInbound envelope) ∧ k ∉ s.blocked := by
  cases h with
  | listener own exec added => exact .inl (receiving_listener own exec added hk)
  | announcement passed announces =>
    obtain ⟨_, rfl⟩ := receiving_of_announces announces hk
    exact .inr ⟨⟨_, rfl⟩, passed⟩
  | afterwards passed =>
    obtain rfl := Option.some.inj hk
    exact .inr ⟨⟨_, rfl⟩, passed⟩
  | redeemEcho by_ =>
    obtain rfl := Option.some.inj hk
    exact receiving_of_dispatches by_
  | receipt by_ peer =>
    obtain rfl := Option.some.inj hk
    rw [peer]
    exact receiving_of_dispatches by_
  | confirm => cases hk
  | ack => exact .inl hk
  | carryAck => exact .inl hk
  | sendAnnouncement announces => cases (receiving_of_announces announces hk).1
  | reannouncement announces => cases (receiving_of_announces announces hk).1
  | @resolved by_ => cases by_ <;> exact .inl hk
  | @announce by_ => cases by_ <;> exact .inl hk
  | departure _ departs =>
    obtain ⟨gone, rfl, _⟩ := depart_of_departures departs
    cases hk
  | gateSend | commit | announced | control | routeEcho | outbound | depart | reroute | router =>
      cases hk

theorem receiving_thread (call : Call)
    (hb : b ∈ ((machine rawKeyOf hashHex decodeManifest crypto).thread call).todo ++
      ((machine rawKeyOf hashHex decodeManifest crypto).thread call).onThrow) : b.receiving =
      none := by
  cases call with
  | listener call =>
    cases call with
    | service call =>
      have hservice : ∃ c : Pairing.Action, b = lift none (.service c) := by
        simp only [machine, Listener.machine, List.map_map, List.mem_append, List.mem_map] at hb
        rcases hb with ⟨c, _, rfl⟩ | ⟨c, _, rfl⟩
        · exact ⟨c, rfl⟩
        · exact ⟨c, rfl⟩
      obtain ⟨c, rfl⟩ := hservice
      exact receiving_lift_service none c
    | onReachable | onBundle | onReconnectFrame | receive | ingestPTTAudio | tick | engineStopped
      | handleEvent | interruptionBegan =>
      obtain rfl := List.mem_singleton.mp hb
      rfl
  | send | reannounceNostrIdentity | clearNostrAnnounceState | setNostrPublicKey | control
    | timer =>
    obtain rfl := List.mem_singleton.mp hb
    rfl

/-- A step keeps the invariant, unless it blocks somebody whose `receive` is under way. -/
theorem passed_step {t : Step}
    (ht : (machine rawKeyOf hashHex decodeManifest crypto).step t.pre t.event = some t.post)
    (hC : ¬Overtakes t) (h : Passed t.pre) : Passed t.post := by
  refine Machine.subject_step (K := fun (s : SessionStack) k => k ∉ s.blocked) ht h ?_
    (fun call _ hb => receiving_thread call hb) ?_
  · intro b k hb hk hold hblocked
    exact hC ⟨b, hb, k, hk, hold, hblocked⟩
  · intro a reply x b k _ hexec hadded hk
    rcases receiving_added (brings_of_exec hexec hadded) hk with hak | ⟨⟨envelope, rfl⟩, hout⟩
    · exact .inl hak
    · rcases exec_blocked hexec with hsame | ⟨_, heq⟩
      · have hsame : t.post.shared.blocked = t.pre.shared.blocked := hsame
        rw [← hsame] at hout
        exact .inr hout
      · cases heq

theorem receiving_of_answers (h : Answers k s a reply) : a.receiving = some k := by
  obtain ⟨_, _, _, _, _, _, ⟨receipt, rfl, rfl⟩ | rfl⟩ := h <;> rfl

/-- Where the invariant holds, a step is silent. -/
theorem silent_of_passed {t : Step}
    (ht : (machine rawKeyOf hashHex decodeManifest crypto).step t.pre t.event = some t.post)
    (h : Passed t.pre) : Silent t := by
  refine ⟨?_, fun k ⟨a, reply, hacts, hanswers⟩ => ?_⟩
  · rcases Machine.step_cases ht with ⟨call, _, hpost⟩ |
      ⟨i, reply, a, rest, handler, s, x, _, _, hx, hacts, hpost⟩
    · exact ⟨[], by simp [hpost], by simp⟩
    · have hshared : t.post.shared = s := by rw [hpost]
      have hyields {k : Data} (hk : k ∉ t.pre.shared.blocked)
          (hkeys : ∀ keys, a ≠ .listener (.service (.setBlockedIdentities keys)))
          (hof : Listener.YieldsOf k t.pre.shared.listener s.listener) :
          ∃ events, t.post.shared.listener.events = t.pre.shared.listener.events ++ events ∧
            ∀ event ∈ events, event.peerKey ∉ t.pre.shared.blocked ∧
              event.peerKey ∉ t.post.shared.blocked := by
        obtain ⟨events, hevents, hall⟩ := hof
        have hsame : s.blocked = t.pre.shared.blocked :=
          (exec_blocked hx).resolve_right fun ⟨keys, heq⟩ => hkeys keys heq
        refine ⟨events, by rw [hshared, hevents], fun event hevent => ?_⟩
        rw [hshared, hsame, (hall event hevent).1]
        exact ⟨hk, hk⟩
      rcases exec_yields hx with hsame | ⟨nostrPubkey, k, redeemed, rfl, hof⟩ |
        ⟨m, refused, hby, hof⟩
      · have hsame : s.listener.events = t.pre.shared.listener.events := hsame
        exact ⟨[], by simp [hshared, hsame], by simp⟩
      · exact hyields (h _ k (Config.toRun_of_acts hacts) rfl) (by simp) hof
      · rcases receiving_of_dispatches hby with hreceiving | ⟨⟨envelope, rfl⟩, hout⟩
        · refine hyields (h _ _ (Config.toRun_of_acts hacts) hreceiving) ?_ hof
          rintro keys rfl
          cases hreceiving
        · exact hyields hout (by simp) hof
  · exact h a k (Config.toRun_of_acts hacts) (receiving_of_answers hanswers)

/-- In every run in which nobody is blocked while a `receive` of theirs is under way, no blocked
identity gets anything out of `receive`. -/
theorem blocked_silent (rawKeyOf : Data → Option Data) (hashHex : Data → String)
    (decodeManifest : Data → Option MediaManifest) (crypto : PTTSessionCrypto) (s : SessionStack)
    (es : List (Event Call Reply))
    (h : ∀ t ∈ trace (machine rawKeyOf hashHex decodeManifest crypto).step ⟨s, []⟩ es,
      ¬Overtakes t) :
    ∀ t ∈ trace (machine rawKeyOf hashHex decodeManifest crypto).step ⟨s, []⟩ es, Silent t := by
  intro t ht
  have hpassed : Passed t.pre := trace_invariant_of Passed (fun t => ¬Overtakes t)
    (fun t ht hC => passed_step ht hC) (fun b k ⟨u, hu, _⟩ => by cases hu) h ht
  exact silent_of_passed (step_of_mem_trace ht) hpassed

open Listener (contact)

def contacts : ContactAllowlist := ContactAllowlist.empty.enroll contact 0 true

def greeting : MessagePayload := ⟨.text, [104, 105]⟩

/-- The contact is blocked; then a message of it comes in. -/
def blockedFirst : List (Event Call Reply) :=
  setKey ++ blockContact 1 ++ ([.start (.listener (.receive (.new (.filled 2) []))),
    .step 2 (opening contact greeting)] : List (Event Call Reply))

set_option maxRecDepth 8192 in
theorem blocked_silent_first : ∃ c', run plainMachine.step ⟨launchWith contacts, []⟩ blockedFirst =
    some c' ∧
    c'.shared.blocked = {contact} ∧
    ∀ t ∈ trace plainMachine.step ⟨launchWith contacts, []⟩ blockedFirst, Silent t :=
  ⟨_, rfl, by decide, blocked_silent _ _ _ _ (launchWith contacts) blockedFirst (by decide)⟩

/-- A message of the contact comes in while an announcement is due to it; the contact is blocked
before the announcement goes out and before the message is dispatched. -/
def blockedMeanwhile : List (Event Call Reply) :=
  setKey ++ ([.start (.listener (.receive (.new (.filled 2) []))),
    .step 1 (opening contact greeting)] : List (Event Call Reply)) ++
    blockContact 2 ++ ([.step 1 (.nostrKey none), .step 1 (.router .ok), .step 1 (.router .ok),
      .step 1 .done, .step 1 (.decoders [])] : List (Event Call Reply))

set_option maxRecDepth 8192 in
theorem blocked_heard : ∃ c', run plainMachine.step ⟨launchWith contacts, []⟩ blockedMeanwhile =
    some c' ∧
    c'.shared.blocked = {contact} ∧
    c'.shared.listener.events = [.content (.received contact [104, 105] (.filled 2))] ∧
    ¬∀ t ∈ trace plainMachine.step ⟨launchWith contacts, []⟩ blockedMeanwhile, Silent t := by
  refine ⟨_, rfl, by decide, rfl, fun hall => ?_⟩
  have hlast := hall _ (List.mem_of_getLast? rfl)
  obtain ⟨events, hevents, hout⟩ := hlast.yields
  have hreceived : events = [.content (.received contact [104, 105] (.filled 2))] := hevents.symm
  exact (hout _ (by rw [hreceived]; exact List.mem_singleton_self _)).1 (by decide)

end AeroNyra.SessionStack
