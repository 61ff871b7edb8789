import AeroNyra.PushToTalk.Listener

/-! The verified gate.  Each arm of `receive` and each of the three ways to presence carries its
own copy of the gate; whatever reaches the user is of an identity that is verified when it is
emitted. -/

namespace AeroNyra

open Interleave

namespace FirstContactCoordinator

variable (c : FirstContactCoordinator)

/-- `onReconnectItsMe` with the peer key of the `.reconnected` event that it yields. -/
def admitReconnect (link : UUID) (opened : Option (Data × Data)) :
    FirstContactCoordinator × Option Data :=
  match opened with
  | none => (c, none)
  | some (rawKey, plaintext) =>
    if rawKey ∈ c.verifiedIdentities then
      if isHello plaintext then
        (emitReachablePeers { c with linkPeers := AList.insert link rawKey c.linkPeers },
          some rawKey)
      else (c, none)
    else (c, none)

/-- `onReconnectFrame` with the peer key of the event. -/
def reconnectFrame (link : UUID) (data : Data) (opened : Option (Data × Data)) :
    FirstContactCoordinator × Option Data :=
  if c.reconnectEnabled then
    match data with
    | [] => (c, none)
    | discriminator :: _ =>
      if discriminator = reconnectItsMe then c.admitReconnect link opened else (c, none)
  else (c, none)

theorem reconnectFrame_fst (link : UUID) (data : Data) (opened : Option (Data × Data)) :
    (c.reconnectFrame link data opened).1 = c.onReconnectFrame link data opened := by
  have hitsMe : (c.admitReconnect link opened).1 = c.onReconnectItsMe link opened := by
    rcases opened with _ | ⟨rawKey, plaintext⟩
    · rfl
    · simp only [admitReconnect, onReconnectItsMe]
      split
      · split <;> rfl
      · rfl
  by_cases henabled : c.reconnectEnabled
  · cases data with
    | nil => simp only [reconnectFrame, onReconnectFrame, if_pos henabled]
    | cons discriminator rest =>
      simp only [reconnectFrame, onReconnectFrame, if_pos henabled]
      split
      · exact hitsMe
      · rfl
  · simp only [reconnectFrame, onReconnectFrame, if_neg henabled]

variable {c} {link : UUID} {data : Data} {opened : Option (Data × Data)} {k : Data}

theorem verified_of_reconnected (h : (c.reconnectFrame link data opened).2 = some k) :
    k ∈ c.verifiedIdentities := by
  unfold reconnectFrame at h
  split at h
  · split at h
    · cases h
    · split at h
      · unfold admitReconnect at h
        split at h
        · cases h
        · split at h
          · rename_i hverified
            split at h
            · obtain rfl := Option.some.inj h
              exact hverified
            · cases h
          · cases h
      · cases h
  · cases h

/-- What `c'` emitted after `c` are the keys that are reachable and verified in `c'`. -/
def Publishes (c c' : FirstContactCoordinator) : Prop :=
  c'.reachablePeers = c.reachablePeers ∨ c'.reachablePeers = c.reachablePeers ++ [c'.reachableKeys]

end FirstContactCoordinator

open FirstContactCoordinator (Publishes)

theorem Pairing.publishes {s : Pairing} {a : Pairing.Action} {reply : Pairing.Reply}
    {p : Pairing × Exit Pairing.Action} (h : s.exec a reply = some p) :
    Publishes s.coordinator p.1.coordinator := by
  have hcall (call : FirstContactCoordinator.Call) (q : FirstContactCoordinator)
      (hexec : FirstContactCoordinator.exec (fun _ => none) s.coordinator (.call call)
        ⟨false, none⟩ = some (q, .goOn [])) : Publishes s.coordinator q :=
    (FirstContactCoordinator.exec_presence hexec).emitted
  cases a with
  | addReconnectContact k =>
    obtain rfl := Option.some.inj h
    exact hcall (.addReconnectContact k) _ rfl
  | removeReconnectContact k =>
    obtain rfl := Option.some.inj h
    exact hcall (.removeReconnectContact k) _ rfl
  | addVerifiedContact k =>
    obtain rfl := Option.some.inj h
    exact hcall (.addVerifiedContact k) _ rfl
  | removeVerifiedContact k =>
    obtain rfl := Option.some.inj h
    exact hcall (.removeVerifiedContact k) _ rfl
  | setBlockedIdentities keys =>
    obtain rfl := Option.some.inj h
    exact .inl rfl
  | onBundle k =>
    obtain rfl := Option.some.inj h
    dsimp only [onBundle, FirstContactCoordinator.onBundle]
    split
    · exact .inr rfl
    · exact .inl rfl
  | establish =>
    obtain rfl := Option.some.inj h
    unfold establish
    split
    · exact .inr rfl
    · exact .inl rfl
  | enroll | markVerified | revoke | mintInvite | burn | scan | rollback | throwMalformed | redeem
    | echoRouted | block | unblock | release =>
    rw [coordinator_exec rfl h]
    exact .inl rfl

namespace Listener

variable {rawKeyOf : Data → Option Data} {hashHex : Data → String}
  {decodeManifest : Data → Option MediaManifest} {crypto : PTTSessionCrypto} {l l' : Listener}

/-- The peer key of the `.reconnected` event that an action yields. -/
def reconnected (l : Listener) : Action → Reply → Option Data
  | .presence (.call (.onReconnectFrame link data)), .presence reply =>
    (l.coordinator.reconnectFrame link data reply.opened).2
  | _, _ => none

/-- The link has a receive context in `l'` that has seen no frame, and did not have it in `l`. -/
def CreatesContext (l l' : Listener) (link : UUID) : Prop :=
  ∃ key, l'.pttReceiver.contexts.lookup link = some { key } ∧
    l.pttReceiver.contexts.lookup link ≠ some { key }

/-- Every event that is new in `l'` and reaches the user is of an identity that is verified. -/
def YieldsVerified (l l' : Listener) : Prop :=
  ∃ events, l'.events = l.events ++ events ∧
    ∀ event ∈ events, event.UserReaching → event.peerKey ∈ l.verified

/-- What is emitted between `l` and `l'` is of identities that are verified.  Only the calls of the
services change who is verified, and they yield nothing but presence, which they publish after the
change. -/
structure Covered (l l' : Listener) (reconnected : Option Data) : Prop where
  steady : l'.verified = l.verified ∨
    l'.events = l.events ∧ l'.pttReceiver = l.pttReceiver ∧ reconnected = none
  yields : YieldsVerified l l'
  reconnects : ∀ k ∈ reconnected, k ∈ l.verified
  contexts : ∀ link, CreatesContext l l' link →
    ∃ k, l.coordinator.linkPeers.lookup link = some k ∧ k ∈ l.verified
  reachable : ∃ emitted, l'.coordinator.reachablePeers = l.coordinator.reachablePeers ++ emitted ∧
    ∀ keys ∈ emitted, ∀ k ∈ keys, k ∈ l'.verified

theorem YieldsVerified.same (h : l'.events = l.events) : YieldsVerified l l' :=
    ⟨[], by simp [h], by simp⟩

theorem YieldsOf.verified {k : Data} (h : YieldsOf k l l') : YieldsVerified l l' := by
  obtain ⟨events, hevents, hall⟩ := h
  refine ⟨events, hevents, fun event hevent hreaches => ?_⟩
  obtain ⟨rfl, hverified⟩ := hall event hevent
  exact hverified hreaches

/-! ### What an action creates and publishes -/

theorem not_createsContext (h : l'.pttReceiver = l.pttReceiver) (link : UUID) :
    ¬CreatesContext l l' link := by
  rintro ⟨key, hnew, hold⟩
  rw [h] at hnew
  exact hold hnew

/-- A frame moves a context on, and a context that it moved has seen a frame. -/
theorem fresh_of_receive {r : PTTReceiver} {link j : UUID} {frame key : Data} {pcm : Option Pcm}
    (h : (r.receive crypto link frame pcm).1.contexts.lookup j = some { key }) :
    r.contexts.lookup j = some { key } := by
  unfold PTTReceiver.receive at h
  split at h
  · exact h
  · rename_i seq ciphertext tag _
    split at h
    · exact h
    · rename_i opener hopener
      have hsame : (opener.openFrame crypto seq ciphertext tag).1.seenAny = false →
          (opener.openFrame crypto seq ciphertext tag).1 = opener := by
        unfold PTTFrameOpener.openFrame
        split
        · exact fun _ => rfl
        · split
          · exact fun _ => rfl
          · intro hseen
            unfold PTTFrameOpener.commit at hseen
            split at hseen
            · cases hseen
            · rename_i hnot
              split at hseen <;> simp_all
      have hlookup : (AList.insert link (opener.openFrame crypto seq ciphertext tag).1
          r.contexts).lookup j = some { key } := by
        dsimp only at h
        split at h <;> exact h
      rw [Dict.lookup_insert] at hlookup
      split at hlookup
      · rename_i hj
        have hopened := Option.some.inj hlookup
        rw [hj, hopener, ← hsame (by rw [hopened]), hopened]
      · exact hlookup

theorem Covered.of_still (hyields : YieldsVerified l l') (hservices : l'.services = l.services)
    (hreceiver : l'.pttReceiver = l.pttReceiver) : Covered l l' none := by
  refine ⟨.inl (by rw [verified, coordinator, hservices]; rfl), hyields, by simp,
    fun link h => absurd h (not_createsContext hreceiver link), [], ?_, by simp⟩
  rw [coordinator, hservices]
  simp [coordinator]

theorem Covered.of_publishes {reconnected : Option Data} (hevents : l'.events = l.events)
    (hreceiver : l'.pttReceiver = l.pttReceiver) (h : Publishes l.coordinator l'.coordinator)
    (hreconnects : ∀ k ∈ reconnected, k ∈ l.verified)
    (hsteady : l'.verified = l.verified ∨ reconnected = none) : Covered l l' reconnected := by
  refine ⟨hsteady.imp_right fun h => ⟨hevents, hreceiver, h⟩, .same hevents, hreconnects,
    fun link h => absurd h (not_createsContext hreceiver link), ?_⟩
  rcases h with hquiet | hemitted
  · exact ⟨[], by simp [hquiet], by simp⟩
  · refine ⟨[l'.coordinator.reachableKeys], hemitted, fun keys hkeys k hk => ?_⟩
    rw [List.mem_singleton.mp hkeys, FirstContactCoordinator.mem_reachableKeys] at hk
    exact hk.1

theorem Covered.dispatch (m : Node.Opened) (refused : List UUID) :
    Covered l (l.dispatch hashHex decodeManifest crypto m refused).1 none := by
  have hyields : YieldsVerified l (l.dispatch hashHex decodeManifest crypto m refused).1 :=
    (YieldsOf.dispatch m refused).verified
  have heffect : Effect (fun _ => none) crypto l (.dispatch m) (.decoders refused)
      (l.dispatch hashHex decodeManifest crypto m refused).1 := dispatch_effect m refused
  generalize (l.dispatch hashHex decodeManifest crypto m refused).1 = l' at hyields heffect
  cases heffect with
  | still _ _ _ hstill => exact .of_still hyields hstill.services hstill.pttReceiver
  | close =>
    refine ⟨.inl rfl, hyields,
      by simp, fun link h => ?_, [], by simp [coordinator, pttClose, yield], by simp⟩
    obtain ⟨key, hnew, hold⟩ := h
    rw [pttClose_contexts] at hnew
    split at hnew
    · cases hnew
    · exact absurd hnew hold
  | @open_ _ _ k id secret hopens =>
    refine ⟨.inl (by rw [verified, coordinator, pttOpen_services]; rfl), hyields, by simp,
      fun link h => ?_, [], ?_, by simp⟩
    · obtain ⟨key, hnew, hold⟩ := h
      rw [pttOpen_contexts] at hnew
      split at hnew
      · rename_i hlink
        exact ⟨k, mem_linksFor.mp hlink.1, verified_of_opens hopens⟩
      · exact absurd hnew hold
    · rw [coordinator, pttOpen_services]
      simp [coordinator]

theorem Covered.exec {a : Action} {reply : Reply} {p : Listener × Exit Action}
    (h : l.exec rawKeyOf hashHex decodeManifest crypto a reply = some p) :
    Covered l p.1 (l.reconnected a reply) := by
  unfold Listener.exec at h
  split at h
  · obtain ⟨q, hq, rfl⟩ := Option.map_eq_some_iff.mp h
    exact .of_publishes rfl rfl (Pairing.publishes hq) (by simp [reconnected]) (.inr rfl)
  · rename_i a reply
    split at h
    · obtain ⟨q, hq, rfl⟩ := Option.map_eq_some_iff.mp h
      have hemitted : Publishes l.coordinator q.1 :=
        (FirstContactCoordinator.exec_presence hq).emitted
      refine .of_publishes rfl rfl hemitted (fun k hk => ?_) (.inl (presence_gates ‹_› hq))
      unfold reconnected at hk
      split at hk
      · exact FirstContactCoordinator.verified_of_reconnected hk
      · cases hk
    · cases h
  · obtain rfl := Option.some.inj h
    exact .of_still (.same rfl) rfl rfl
  · obtain rfl := Option.some.inj h
    exact .of_still (.same rfl) rfl rfl
  · obtain rfl := Option.some.inj h
    exact .dispatch _ _
  · obtain ⟨q, hq, rfl⟩ := Option.map_eq_some_iff.mp h
    rename_i inviteID nostrPubkey rawKey reply
    have hburn : l.services.exec (.burn inviteID rawKey) reply = some q := hq
    exact .of_publishes rfl rfl (Pairing.publishes hburn) (by simp [reconnected]) (.inr rfl)
  · obtain rfl := Option.some.inj h
    rename_i nostrPubkey k redeemed
    have hstill : Still l (l.surface nostrPubkey k redeemed) := .surface _ _ _
    exact .of_still (YieldsOf.surface _ _).verified hstill.services hstill.pttReceiver
  · obtain rfl := Option.some.inj h
    rename_i link frame decoded
    refine ⟨.inl rfl, .same rfl, by simp [reconnected], fun j hnew => ?_, [],
      by simp [coordinator, ingestPTTAudio], by simp⟩
    obtain ⟨key, hnew, hold⟩ := hnew
    exact absurd (fresh_of_receive hnew) hold
  · obtain rfl := Option.some.inj h
    exact .of_still (.same rfl) rfl rfl
  · obtain rfl := Option.some.inj h
    exact .of_still (.same rfl) rfl rfl
  · obtain ⟨event, _, rfl⟩ := Option.map_eq_some_iff.mp h
    exact .of_still (.same rfl) rfl rfl
  · obtain rfl := Option.some.inj h
    exact .of_still (.same rfl) rfl rfl
  · cases h

/-- The peer key of the `.reconnected` event that a step yields. -/
def reconnects (t : Step) : Option Data :=
  (t.pre.acts t.event).bind fun p => t.pre.shared.reconnected p.1 p.2

/-- In every run, whatever a step emits to the user is of an identity that is verified. -/
theorem verified_gate (rawKeyOf : Data → Option Data) (hashHex : Data → String)
    (decodeManifest : Data → Option MediaManifest) (crypto : PTTSessionCrypto)
    (c : Config Listener Action) (es : List (Event Call Reply)) :
    ∀ t ∈ trace (machine rawKeyOf hashHex decodeManifest crypto).step c es,
      Covered t.pre.shared t.post.shared (reconnects t) := by
  intro t ht
  rcases Machine.step_cases (step_of_mem_trace ht) with ⟨call, he, hpost⟩ | ⟨i, reply, a, rest,
    handler, s, x, he, _, hx, hacts, hpost⟩
  · have hnone : reconnects t = none := by simp [reconnects, he, Config.acts]
    rw [hpost, hnone]
    exact .of_still (.same rfl) rfl rfl
  · have hsome : reconnects t = t.pre.shared.reconnected a reply := by simp [reconnects, hacts]
    rw [hpost, hsome]
    exact .exec hx

/-- A contact that is reachable on link 7 opens a session. -/
def verifiedOpen : List (Event Call Reply) := linkUp ++ openMessage 2 7

set_option maxRecDepth 8192 in
theorem verified_gate_opening : ∃ t ∈ trace plainMachine.step launchContact verifiedOpen,
    CreatesContext t.pre.shared t.post.shared 7 ∧
      t.post.shared.events = [.pttOpened contact (List.replicate 16 7)] ∧
      Covered t.pre.shared t.post.shared (reconnects t) := by
  have hlast : ∃ t, (trace plainMachine.step launchContact verifiedOpen).getLast? = some t ∧
      t.post.shared.pttReceiver.contexts.lookup 7 =
        some { key := plainCrypto.initiatorToResponder (List.replicate 32 7) } ∧
      t.pre.shared.pttReceiver.contexts.lookup 7 = none ∧
      t.post.shared.events = [.pttOpened contact (List.replicate 16 7)] := ⟨_, rfl, rfl, rfl, rfl⟩
  obtain ⟨t, ht, hnew, hold, hevents⟩ := hlast
  have hmem := List.mem_of_getLast? ht
  refine ⟨t, hmem, ⟨_, hnew, by rw [hold]; exact nofun⟩, hevents, ?_⟩
  exact verified_gate _ _ _ _ launchContact verifiedOpen t hmem

end Listener

end AeroNyra
