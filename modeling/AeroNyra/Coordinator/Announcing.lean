import AeroNyra.Coordinator.SessionStack

/-! Whom our Nostr key is announced to.  `announceNostrIdentity` asks whether the peer was told,
and not whether it is enrolled: an envelope that opens is enough. -/

namespace AeroNyra.SessionStack

open Interleave

/-- The identity for which an announcement is sealed and on its way. -/
def Action.announcing : Action → Option Data
  | .resolved _ k _ | .announce _ k _ => some k
  | _ => none

/-- An announcement for `k` is handed over to a transport. -/
def Announces (k : Data) (s : SessionStack) (a : Action) (reply : Reply) : Prop :=
  ∃ by_ segment answer r next, a = .announce by_ k segment ∧ reply = .router answer ∧
    s.router.exec segment answer = some (r, .suspend next)

/-- The identity that an action comes to announce our key to, where the announcement can be
sealed. -/
def announcee (s : SessionStack) : Action → Reply → Option Data
  | .openInbound _, .opened rawKey _ (some _) _ => if rawKey ∈ s.blocked then none else some rawKey
  | .beginSend rawKey _ _, .announcement (some _) => some rawKey
  | .reannounce rawKey _, .announcement (some _) => some rawKey
  | _, _ => none

/-- The step comes to an announcement that is due to somebody who is not enrolled, or removes an
enrolled identity while an announcement to it is on its way. -/
def Strays (t : Step) : Prop :=
  (Config.Ran t fun s a reply => ∃ k ∈ announcee s a reply, s.announcementDue k ∧ k ∉ s.enrolled) ∨
  ∃ b, t.pre.ToRun b ∧ ∃ k ∈ b.announcing, k ∈ t.pre.shared.enrolled ∧ k ∉ t.post.shared.enrolled

instance (t : Step) : Decidable (Strays t) :=
  inferInstanceAs (Decidable (Config.Ran t (fun s a reply => ∃ k ∈ announcee s a reply, _ ∧ _) ∨
    ∃ b, t.pre.ToRun b ∧ ∃ k ∈ b.announcing, _ ∧ _))

/-- Whoever an announcement is on its way to is enrolled. -/
def Addressed (c : Config SessionStack Action) : Prop :=
  ∀ b k, c.ToRun b → b.announcing = some k → k ∈ c.shared.enrolled

variable {rawKeyOf : Data → Option Data} {hashHex : Data → String}
  {decodeManifest : Data → Option MediaManifest} {crypto : PTTSessionCrypto} {s : SessionStack}
  {a b : Action} {reply : Reply} {p : SessionStack × Exit Action} {k : Data}

/-- An announcement is begun for whom it is due to. -/
theorem announcing_of_begun {by_ : Announcer} {rawKey : Data} {nostrRecipient : Option Data}
    {sealed : Option Envelope} (hb : b ∈ s.announceNostrIdentity by_ rawKey nostrRecipient sealed) :
    b.announcing = some rawKey ∧ s.announcementDue rawKey ∧ ∃ envelope, sealed = some envelope := by
  unfold announceNostrIdentity at hb
  split at hb
  · rename_i hdue
    split at hb
    · cases hb
    · obtain rfl := List.mem_singleton.mp hb
      exact ⟨rfl, hdue, _, rfl⟩
    · obtain rfl := List.mem_singleton.mp hb
      exact ⟨rfl, hdue, _, rfl⟩
  · cases hb

theorem announcing_lift (invited : Option Data) (c : Listener.Action) :
    (lift invited c).announcing = none := by
  unfold lift
  split
  · rfl
  · rfl
  · split <;> rfl
  · rfl

/-- An announcement is begun by an action that comes to it, or it is the rest of one. -/
theorem announcing_added (h : Brings rawKeyOf hashHex decodeManifest crypto s a reply b)
    (hk : b.announcing = some k) :
    a.announcing = some k ∨ announcee s a reply = some k ∧ s.announcementDue k := by
  cases h with
  | listener =>
    rw [announcing_lift] at hk
    cases hk
  | announcement passed announces =>
    obtain ⟨hrawKey, hdue, envelope, rfl⟩ := announcing_of_begun announces
    obtain rfl := Option.some.inj (hrawKey.symm.trans hk)
    exact .inr ⟨if_neg passed, hdue⟩
  | sendAnnouncement announces =>
    obtain ⟨hrawKey, hdue, envelope, rfl⟩ := announcing_of_begun announces
    obtain rfl := Option.some.inj (hrawKey.symm.trans hk)
    exact .inr ⟨rfl, hdue⟩
  | reannouncement announces =>
    obtain ⟨hrawKey, hdue, envelope, rfl⟩ := announcing_of_begun announces
    obtain rfl := Option.some.inj (hrawKey.symm.trans hk)
    exact .inr ⟨rfl, hdue⟩
  | resolved => exact .inl hk
  | announce => exact .inl hk
  | departure _ departs =>
    obtain ⟨gone, rfl, _⟩ := depart_of_departures departs
    cases hk
  | afterwards | redeemEcho | receipt | confirm | ack | carryAck | gateSend | commit | announced
    | control | routeEcho | outbound | depart | reroute | router => cases hk

theorem announcing_thread (call : Call)
    (hb : b ∈ ((machine rawKeyOf hashHex decodeManifest crypto).thread call).todo ++
      ((machine rawKeyOf hashHex decodeManifest crypto).thread call).onThrow) : b.announcing =
      none := by
  cases call with
  | listener call =>
    rcases List.mem_append.mp hb with hb | hb
    · obtain ⟨c, _, rfl⟩ := List.mem_map.mp hb
      exact announcing_lift none c
    · obtain ⟨c, _, rfl⟩ := List.mem_map.mp hb
      exact announcing_lift none c
  | send | reannounceNostrIdentity | clearNostrAnnounceState | setNostrPublicKey | control
    | timer =>
    obtain rfl := List.mem_singleton.mp hb
    rfl

/-- Only the two mirrors change who is enrolled. -/
theorem exec_enrolled (h : s.exec rawKeyOf hashHex decodeManifest crypto a reply = some p) :
    p.1.enrolled = s.enrolled ∨ ∃ c, a = .listener (.service c) := by
  rcases exec_access h with hsame | ⟨c, _, _, rfl, _⟩
  · exact .inl hsame.enrolled
  · exact .inr ⟨c, rfl⟩

/-- A step keeps the invariant, unless it strays. -/
theorem addressed_step {t : Step}
    (ht : (machine rawKeyOf hashHex decodeManifest crypto).step t.pre t.event = some t.post)
    (hC : ¬Strays t) (h : Addressed t.pre) : Addressed t.post := by
  refine Machine.subject_step (K := fun (s : SessionStack) k => k ∈ s.enrolled) ht h ?_
    (fun call _ hb => announcing_thread call hb) ?_
  · intro b k hb hk hold
    by_contra hnot
    exact hC (.inr ⟨b, hb, k, hk, hold, hnot⟩)
  · intro a reply x b k hacts hexec hadded hk
    rcases announcing_added (brings_of_exec hexec hadded) hk with hak | ⟨hcomes, hdue⟩
    · exact .inl hak
    · by_cases hin : k ∈ t.pre.shared.enrolled
      · rcases exec_enrolled hexec with hsame | ⟨c, rfl⟩
        · have hsame : t.post.shared.enrolled = t.pre.shared.enrolled := hsame
          rw [← hsame] at hin
          exact .inr hin
        · cases hcomes
      · exact absurd (.inl ⟨a, reply, hacts, k, hcomes, hdue, hin⟩) hC

/-- In every run in which no step strays, announcements are handed over for enrolled identities
only. -/
theorem announced_to_enrolled (rawKeyOf : Data → Option Data) (hashHex : Data → String)
    (decodeManifest : Data → Option MediaManifest) (crypto : PTTSessionCrypto) (s : SessionStack)
    (es : List (Event Call Reply))
    (h : ∀ t ∈ trace (machine rawKeyOf hashHex decodeManifest crypto).step ⟨s, []⟩ es, ¬Strays t) :
    ∀ t ∈ trace (machine rawKeyOf hashHex decodeManifest crypto).step ⟨s, []⟩ es,
      ∀ k, Config.Ran t (Announces k) → k ∈ t.pre.shared.enrolled := by
  intro t ht k ⟨a, reply, hacts, by_, segment, answer, r, next, ha, _⟩
  have haddressed : Addressed t.pre := trace_invariant_of Addressed (fun t => ¬Strays t)
    (fun t ht hC => addressed_step ht hC) (fun b k ⟨u, hu, _⟩ => by cases hu) h ht
  exact haddressed a k (Config.toRun_of_acts hacts) (by rw [ha]; rfl)

open Listener (contact)

/-- A message that opens, while our key is set; then the announcement goes out. -/
def greeted : List (Event Call Reply) :=
  setKey ++ ([.start (.listener (.receive (.new (.filled 2) []))),
    .step 1 (opening contact ⟨.text, [104, 105]⟩), .step 1 (.nostrKey none),
    .step 1 (.router .ok)] : List (Event Call Reply))

set_option maxRecDepth 8192 in
theorem announced_to_contact : ∃ c', run plainMachine.step
      ⟨launchWith (.enroll .empty contact 0 true), []⟩ greeted = some c' ∧
    ∀ t ∈ trace plainMachine.step ⟨launchWith (.enroll .empty contact 0 true), []⟩ greeted,
      ∀ k, Config.Ran t (Announces k) → k ∈ t.pre.shared.enrolled :=
  ⟨_, rfl, announced_to_enrolled _ _ _ _ _ greeted (by decide)⟩

/-- Nobody is enrolled, and a message of a stranger opens. -/
theorem announced_to_stranger : ∃ c',
    run plainMachine.step ⟨launchWith .empty, []⟩ greeted = some c' ∧ c'.shared.enrolled = [] ∧
    ¬∀ t ∈ trace plainMachine.step ⟨launchWith .empty, []⟩ greeted,
      ∀ k, Config.Ran t (Announces k) → k ∈ t.pre.shared.enrolled := by
  refine ⟨_, rfl, rfl, fun hall => ?_⟩
  have hlast := hall _ (List.mem_of_getLast? rfl) contact
    ⟨_, _, rfl, .receive, _, .ok, _, _, rfl, rfl, rfl⟩
  cases hlast

end AeroNyra.SessionStack
