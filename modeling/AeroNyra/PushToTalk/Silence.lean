import AeroNyra.PushToTalk.StaleClose

/-! What a removal silences.  An audio frame is checked against the context of its link alone, so a
context that outlives the removal of its peer keeps decoding.  The second history records which
peers were removed, and what they did since. -/

namespace AeroNyra.Listener

open Interleave

/-- The peer whose removal ends with the action: the last gate was told, or there was nothing to
remove. -/
def removed (l : Listener) : Action → Option Data
  | .service (.removeVerifiedContact k) => some k
  | .service (.revoke k) | .service (.rollback k) =>
    if l.services.allowlist.contains k then none else some k
  | _ => none

/-- The peer that the action verifies, with the state after it. -/
def reverified (l' : Listener) : Action → Option Data
  | .service (.addVerifiedContact k) => if k ∈ l'.verified then some k else none
  | _ => none

/-- The peers that were removed and not verified since, and those that were verified since and have
opened no session. -/
structure Standing where
  silenced : Finset Data := ∅
  unopened : Finset Data := ∅

namespace Standing

/-- The peer has been removed, and has not been verified and opened a session since. -/
def Silent (s : Standing) (k : Data) : Prop := k ∈ s.silenced ∨ k ∈ s.unopened

def note (s : Standing) (l : Listener × Holders) (a : Action) (_ : Reply)
    (l' : Listener × Holders) :
    Standing :=
  match removed l.1 a, reverified l'.1 a, l.1.opens a with
  | some k, _, _ => ⟨insert k s.silenced, s.unopened.erase k⟩
  | none, some k, _ => if k ∈ s.silenced then ⟨s.silenced.erase k, insert k s.unopened⟩ else s
  | none, none, some (k, _, _) => { s with unopened := s.unopened.erase k }
  | none, none, none => s

end Standing

/-- A silenced peer is not verified, and no silent peer holds a link. -/
structure Quiet (l : Listener) (holders : Holders) (s : Standing) : Prop where
  unverified : ∀ k ∈ s.silenced, k ∉ l.verified
  unheld : ∀ k, s.Silent k → ∀ link id, holders.lookup link ≠ some (k, id)

/-- The removal ends while a context of the peer is left, or without a removal while the peer is
verified. -/
def Action.LeavesTalking (l : Listener × Holders) (a : Action) (_ : Reply) : Prop :=
  ∃ k, removed l.1 a = some k ∧
    ((∃ link id, l.2.lookup link = some (k, id)) ∨
      (a ≠ .service (.removeVerifiedContact k) ∧ k ∈ l.1.verified))

variable {rawKeyOf : Data → Option Data} {hashHex : Data → String}
  {decodeManifest : Data → Option MediaManifest} {crypto : PTTSessionCrypto} {l l' : Listener}
  {a : Action} {reply : Reply} {holders : Holders} {s : Standing}

/-- Who holds a link after an action: who did before, or the peer that the action opens a session
of. -/
theorem held_before {k id : Data} {link : UUID}
    (heffect : Effect rawKeyOf crypto l a reply l')
    (h : (holders.note l a reply l').lookup link = some (k, id)) :
    holders.lookup link = some (k, id) ∨ ∃ secret, l.opens a = some (k, id, secret) := by
  cases heffect with
  | open_ hopens =>
    rw [Holders.note_open hopens] at h
    split at h
    · cases h
      exact .inr ⟨_, hopens⟩
    · exact .inl h
  | close hopens hcloses =>
    rw [Holders.note_close hopens hcloses] at h
    split at h
    · cases h
    · exact .inl h
  | still _ hopens hcloses =>
    rw [Holders.note_other hopens hcloses] at h
    exact .inl h
  | service | presence | audio | tick | engineStopped | handle | interruption | burn => exact .inl h

/-- Nobody holds a link newly but by an open. -/
theorem Quiet.unheld_of_not_opens (h : Quiet l holders s)
    (heffect : Effect rawKeyOf crypto l a reply l')
    (hopens : l.opens a = none) {k : Data} (hk : s.Silent k) (link : UUID) (id : Data) :
    (holders.note l a reply l').lookup link ≠ some (k, id) := by
  intro hlookup
  rcases held_before heffect hlookup with hold | ⟨secret, hnew⟩
  · exact h.unheld k hk link id hold
  · cases hopens.symm.trans hnew

/-- Only a verification ends the silence of a peer's gate. -/
theorem Quiet.unverified_of_effect (h : Quiet l holders s)
    (heffect : Effect rawKeyOf crypto l a reply l') {k : Data} (hk : k ∈ s.silenced)
    (hverify : a ≠ .service (.addVerifiedContact k)) : k ∉ l'.verified := by
  intro hv
  rcases verified_of_effect heffect hv with hold | hnew
  · exact h.unverified k hk hold
  · exact hverify hnew

theorem opens_of_removed {k : Data} (h : removed l a = some k) : l.opens a = none := by
  cases a with
  | dispatch => cases h
  | _ => rfl

theorem ne_addVerified_of_removed {k : Data} (h : removed l a = some k) (j : Data) :
    a ≠ .service (.addVerifiedContact j) := by
  rintro rfl
  cases h

theorem eq_of_reverified {k : Data} (h : reverified l' a = some k) :
    a = .service (.addVerifiedContact k) := by
  unfold reverified at h
  split at h
  · split at h
    · cases h
      rfl
    · cases h
  · cases h

/-- A removal that leaves no context silences its peer. -/
theorem Quiet.remove (h : Quiet l holders s) (heffect : Effect rawKeyOf crypto l a reply l')
    {k : Data} (hremoved : removed l a = some k) (hends : ¬a.LeavesTalking (l, holders) reply) :
    Quiet l' (holders.note l a reply l') ⟨insert k s.silenced, s.unopened.erase k⟩ := by
  have hopens := opens_of_removed hremoved
  have hverify := ne_addVerified_of_removed hremoved
  have hunheld : ∀ link id, (holders.note l a reply l').lookup link ≠ some (k, id) := by
    intro link id hlookup
    rcases held_before heffect hlookup with hold | ⟨secret, hnew⟩
    · exact hends ⟨k, hremoved, .inl ⟨link, id, hold⟩⟩
    · cases hopens.symm.trans hnew
  constructor
  · intro j hj
    rcases Finset.mem_insert.mp hj with rfl | hj
    · intro hv
      by_cases ha : a = .service (.removeVerifiedContact j)
      · subst ha
        cases heffect with
        | service hexec =>
          obtain rfl := Option.some.inj hexec
          exact ((FirstContactCoordinator.mem_removeVerifiedContact j j).mp hv).1 rfl
        | open_ hopens' => cases hopens'
        | close _ hcloses => cases hcloses
        | still hreceives => cases hreceives
      · rcases verified_of_effect heffect hv with hold | hnew
        · exact hends ⟨j, hremoved, .inr ⟨ha, hold⟩⟩
        · exact hverify j hnew
    · exact h.unverified_of_effect heffect hj (hverify j)
  · intro j hj link id
    by_cases hjk : j = k
    · rw [hjk]
      exact hunheld link id
    · refine h.unheld_of_not_opens heffect hopens ?_ link id
      rcases hj with hj | hj
      · exact .inl ((Finset.mem_insert.mp hj).resolve_left hjk)
      · exact .inr (Finset.mem_of_mem_erase hj)

/-- An open ends the silence of a peer that was verified again. -/
theorem Quiet.open_ (h : Quiet l holders s) (heffect : Effect rawKeyOf crypto l a reply l')
    {k id secret : Data} (hopens : l.opens a = some (k, id, secret)) :
    Quiet l' (holders.note l a reply l') { s with unopened := s.unopened.erase k } := by
  have hverify (j : Data) : a ≠ .service (.addVerifiedContact j) := by
    rintro rfl
    cases hopens
  refine ⟨fun j hj => h.unverified_of_effect heffect hj (hverify j), ?_⟩
  intro j hj link id' hlookup
  have hsilent : s.Silent j := hj.imp_right Finset.mem_of_mem_erase
  rcases held_before heffect hlookup with hold | ⟨secret', hnew⟩
  · exact h.unheld j hsilent link id' hold
  · cases hopens.symm.trans hnew
    rcases hj with hj | hj
    · exact h.unverified k hj (verified_of_opens hopens)
    · exact Finset.notMem_erase k s.unopened hj

theorem Quiet.effect (h : Quiet l holders s) (heffect : Effect rawKeyOf crypto l a reply l')
    (hends : ¬a.LeavesTalking (l, holders) reply) :
    Quiet l' (holders.note l a reply l')
      (s.note (l, holders) a reply (l', holders.note l a reply l')) := by
  unfold Standing.note
  split
  · rename_i k hremoved
    exact h.remove heffect hremoved hends
  · rename_i k hremoved hreverified
    obtain rfl := eq_of_reverified hreverified
    have hunverified : ∀ j ∈ s.silenced, j ≠ k → j ∉ l'.verified := by
      intro j hj hjk
      refine h.unverified_of_effect heffect hj ?_
      rintro heq
      cases heq
      exact hjk rfl
    split
    · refine ⟨fun j hj => ?_, fun j hj => ?_⟩
      · exact hunverified j (Finset.mem_of_mem_erase hj) (Finset.ne_of_mem_erase hj)
      · refine h.unheld_of_not_opens heffect rfl ?_
        rcases hj with hj | hj
        · exact .inl (Finset.mem_of_mem_erase hj)
        · rcases Finset.mem_insert.mp hj with rfl | hj
          · exact .inl ‹_›
          · exact .inr hj
    · rename_i hk
      refine ⟨fun j hj => hunverified j hj fun e => hk (e ▸ hj), fun j hj => ?_⟩
      exact h.unheld_of_not_opens heffect rfl hj
  · rename_i k id secret _ _ hopens
    exact h.open_ heffect hopens
  · rename_i hremoved hreverified hopens
    refine ⟨fun j hj hv => ?_, fun j hj => h.unheld_of_not_opens heffect hopens hj⟩
    rcases verified_of_effect heffect hv with hold | rfl
    · exact h.unverified j hj hold
    · simp [reverified, hv] at hreverified

/-! ### Runs -/

/-- The machine with the holders and the standing of the peers beside it. -/
def standingMachine (rawKeyOf : Data → Option Data) (hashHex : Data → String)
    (decodeManifest : Data → Option MediaManifest) (crypto : PTTSessionCrypto) :
    Machine ((Listener × Holders) × Standing) Action Call Reply :=
  (heldMachine rawKeyOf hashHex decodeManifest crypto).observed Standing.note

abbrev StandingStep := Transition (Config ((Listener × Holders) × Standing) Action)
    (Event Call Reply)

/-- The app after its launch, with no holders and nobody silenced. -/
def launchStanding (services : Pairing) : Config ((Listener × Holders) × Standing) Action :=
  ⟨((launch services, ∅), {}), []⟩

/-- The step decodes a frame, and so hands it to the player, on a link that `k` holds. -/
def StandingStep.Plays (crypto : PTTSessionCrypto) (t : StandingStep) (k : Data) : Prop :=
  Config.Ran t fun s a reply => ∃ link frame decoded seq pcm id,
    a = .ingestPTTAudio link frame ∧ reply = .pcm decoded ∧
      (s.1.1.pttReceiver.receive crypto link frame decoded).2 = .decoded seq pcm ∧
      s.1.2.lookup link = some (k, id)

/-- The step plays no frame of a peer that was removed and not verified, or has opened no session,
since. -/
def StandingStep.PlaysNoSilent (crypto : PTTSessionCrypto) (t : StandingStep) : Prop :=
  ∀ k, t.Plays crypto k → ¬t.pre.shared.2.Silent k

/-- Silent peers are quiet in the shared state. -/
def AllQuiet (c : Config ((Listener × Holders) × Standing) Action) : Prop :=
  Quiet c.shared.1.1 c.shared.1.2 c.shared.2

theorem allQuiet_step (t : StandingStep)
    (ht : (standingMachine rawKeyOf hashHex decodeManifest crypto).step t.pre t.event = some t.post)
    (hends : ¬Config.Ran t fun s a reply => a.LeavesTalking s.1 reply) (h : AllQuiet t.pre) :
    AllQuiet t.post := by
  refine Machine.observed_step_invariant
    (fun (s : Listener × Holders) standing => Quiet s.1 s.2 standing) ?_ ht hends h
  rintro ⟨l, holders⟩ standing a reply ⟨l', holders'⟩ x hheld hends hquiet
  obtain ⟨hexec, hnote⟩ := Machine.observed_exec hheld
  dsimp only at hexec hnote
  subst hnote
  exact hquiet.effect (exec_effect hexec) hends

/-- In every run whose removals all end with no context of their peer left, and with their peer
unverified, no frame of a removed peer is decoded or handed to the player until that peer is
verified again and opens a session. -/
theorem removed_silenced {services : Pairing} {es : List (Event Call Reply)}
    (hends : ∀ t ∈ trace (standingMachine rawKeyOf hashHex decodeManifest crypto).step
        (launchStanding services) es,
      ¬Config.Ran t fun s a reply => Action.LeavesTalking s.1 a reply) :
    ∀ t ∈ trace (standingMachine rawKeyOf hashHex decodeManifest crypto).step
        (launchStanding services) es, StandingStep.PlaysNoSilent crypto t := by
  have hstart : AllQuiet (launchStanding services) := by
    refine ⟨fun k hk => ?_, fun k _ link id => ?_⟩
    · simp [launchStanding] at hk
    · simp [launchStanding]
  rintro t ht k ⟨a, reply, _, link, frame, decoded, seq, pcm, id, _, _, _, hlink⟩ hsilent
  have hquiet : AllQuiet t.pre := trace_invariant_of AllQuiet _ allQuiet_step hstart hends ht
  exact hquiet.unheld k hsilent link id hlink

/-- The contact closes its session before it is revoked, and sends one more frame. -/
def closedThenRevoked : List (Event Call Reply) :=
  linkUp ++ openMessage 2 1 ++ closeMessage 3 1 ++ revokeContact 4 ++ audioFrame 5 0 1

/-- The step ends no removal, or it tells the last gate while nobody holds a link. -/
def StandingStep.endsQuietly (t : StandingStep) : Bool :=
  (t.pre.acts t.event).all fun p =>
    match p.1 with
    | .service (.removeVerifiedContact _) => t.pre.shared.1.2.keys.isEmpty
    | a => (removed t.pre.shared.1.1 a).isNone

theorem StandingStep.not_leavesTalking {t : StandingStep} (h : t.endsQuietly) :
    ¬Config.Ran t fun s a reply => a.LeavesTalking s.1 reply := by
  rintro ⟨a, reply, hacts, k, hremoved, hleft⟩
  rw [endsQuietly, hacts, Option.all_some] at h
  dsimp only at h
  split at h
  · rename_i j
    have hempty : t.pre.shared.1.2.keys = [] := List.isEmpty_iff.mp h
    obtain rfl : j = k := Option.some.inj hremoved
    rcases hleft with ⟨link, id, hlink⟩ | ⟨hother, _⟩
    · have hmem : link ∈ t.pre.shared.1.2.keys := AList.lookup_isSome.mp (by rw [hlink]; rfl)
      simp [hempty] at hmem
    · exact hother rfl
  · rw [hremoved] at h
    cases h

set_option maxRecDepth 16384 in
theorem removed_silenced_closed :
    (trace (standingMachine FirstContactCoordinator.prefixKey (fun _ => "") (fun _ => none)
        plainCrypto).step (launchStanding launchContact.shared.services) closedThenRevoked).length =
      closedThenRevoked.length ∧
    ∀ t ∈ trace (standingMachine FirstContactCoordinator.prefixKey (fun _ => "") (fun _ => none)
        plainCrypto).step (launchStanding launchContact.shared.services) closedThenRevoked,
      StandingStep.PlaysNoSilent plainCrypto t := by
  have hquiet : (trace
    (standingMachine FirstContactCoordinator.prefixKey (fun _ => "") (fun _ => none)
      plainCrypto).step (launchStanding launchContact.shared.services) closedThenRevoked).all
        StandingStep.endsQuietly := by decide +kernel
  refine ⟨by decide +kernel, removed_silenced fun t ht => ?_⟩
  exact StandingStep.not_leavesTalking (List.all_eq_true.mp hquiet t ht)

/-- The contact is revoked in the middle of a session, and sends one more frame. -/
def revokedMidSession : List (Event Call Reply) :=
  linkUp ++ openMessage 2 1 ++ revokeContact 3 ++ audioFrame 4 0 1

set_option maxRecDepth 16384 in
theorem removed_plays :
    ∃ t ∈ trace (standingMachine FirstContactCoordinator.prefixKey (fun _ => "") (fun _ => none)
        plainCrypto).step (launchStanding launchContact.shared.services) revokedMidSession,
      StandingStep.Plays plainCrypto t contact ∧ contact ∈ t.pre.shared.2.silenced ∧
      contact ∉ t.pre.shared.1.1.verified ∧ contact ∉ t.pre.shared.1.1.enrolled ∧
      ¬StandingStep.PlaysNoSilent plainCrypto t := by
  have hplays : ∃ t ∈ trace (standingMachine FirstContactCoordinator.prefixKey (fun _ => "")
      (fun _ => none) plainCrypto).step
      (launchStanding launchContact.shared.services) revokedMidSession,
      StandingStep.Plays plainCrypto t contact ∧ contact ∈ t.pre.shared.2.silenced ∧
      contact ∉ t.pre.shared.1.1.verified ∧ contact ∉ t.pre.shared.1.1.enrolled := by
    refine ⟨_, List.mem_of_getLast? rfl, ⟨_, _, rfl, 7, _, _, 0, [], _, rfl, rfl, rfl, rfl⟩, ?_, ?_,
      ?_⟩
    · decide
    · decide
    · decide
  obtain ⟨t, ht, hplays, hsilenced, hverified, henrolled⟩ := hplays
  exact ⟨t, ht, hplays, hsilenced, hverified, henrolled, fun h => h contact hplays (.inl hsilenced)⟩

end AeroNyra.Listener
