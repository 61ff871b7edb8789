import AeroNyra.PushToTalk.Listener

/-! Who gets a peer row.  The inbox creates a row for every event with content, a new contact or a
Nostr key in it, so the admission of an identity rests on the gates of `receive` alone. -/

namespace AeroNyra.Listener

open Interleave

variable {rawKeyOf : Data → Option Data} {hashHex : Data → String}
  {decodeManifest : Data → Option MediaManifest} {crypto : PTTSessionCrypto} {l : Listener}

namespace Yield

/-- The inbox creates a row for the event, if it lacks it. -/
def CreatesRow (event : Yield) : Prop :=
  ∃ rows : Rows, event.peerKey ∉ rows.peers ∧ event.peerKey ∈ (rows.handle event).peers

theorem createsRow_content (event : SessionEvent) : (content event).CreatesRow :=
  ⟨{}, by simp, by simp [Rows.handle, peerKey]⟩

theorem createsRow_established (k : Data) : (established k).CreatesRow :=
  ⟨{}, by simp, by simp [Rows.handle, peerKey]⟩

theorem createsRow_learnedNostrIdentity (k nostrPubkey : Data) :
    (learnedNostrIdentity k nostrPubkey).CreatesRow :=
  ⟨{}, by simp, by simp [Rows.handle, peerKey]⟩

theorem not_createsRow {event : Yield} (h : ∀ rows : Rows, rows.handle event = rows) :
    ¬event.CreatesRow := by
  rintro ⟨rows, hout, hin⟩
  rw [h rows] at hin
  exact hout hin

end Yield

/-- Every event with which `l'` extends what `l` yielded creates rows of enrolled identities
only. -/
def Admits (l l' : Listener) : Prop :=
  ∃ events, l'.events = l.events ++ events ∧
    ∀ event ∈ events, event.CreatesRow → event.peerKey ∈ l.enrolled

/-- The transfer is complete and its media identifier spells a message identifier. -/
def Completes (ingested : MediaReassembler × Option MediaReassembler.Completed) : Prop :=
  ∃ done, ingested.2 = some done ∧ ((Node.hexToBytes done.mediaID).bind MessageID.ofBytes?).isSome

/-- The payload makes a row for its sender, if the sender is verified where that is asked. -/
def MakesRow (hashHex : Data → String) (decodeManifest : Data → Option MediaManifest) (l : Listener)
    (m : Node.Opened) : Prop :=
  match MessagePayload.decodeSealed m.plaintext with
  | some ⟨.text, _⟩ => m.rawKey ∈ l.verified
  | some ⟨.mediaManifest, json⟩ => m.rawKey ∈ l.verified ∧ ∃ manifest, decodeManifest json = some
      manifest ∧ Completes (MediaReassembler.ingestManifest hashHex l.reassembler manifest)
  | some ⟨.mediaChunk, chunk⟩ => m.rawKey ∈ l.verified ∧
      Completes (MediaReassembler.ingestChunk hashHex l.reassembler chunk)
  | some ⟨.nostrIdentity, body⟩ => (MessagePayload.parseNostrIdentity body).isSome
  | _ => False

/-- A payload or a burned invite makes a row for an identity that is not enrolled. -/
def Action.Conjures (hashHex : Data → String) (decodeManifest : Data → Option MediaManifest)
    (l : Listener) (a : Action) (_ : Reply) : Prop :=
  (∃ m, a = .dispatch m ∧ m.rawKey ∉ l.enrolled ∧ MakesRow hashHex decodeManifest l m) ∨
    ∃ nostrPubkey k, a = .surface nostrPubkey k true ∧ k ∉ l.enrolled

theorem admits_same {l' : Listener} (h : l'.events = l.events) : Admits l l' :=
  ⟨[], by simp [h], by simp⟩

theorem admits_yield_iff {l' : Listener} {event : Yield} (h : l'.events = l.events ++ [event])
    (hrow : event.CreatesRow) : Admits l l' ↔ event.peerKey ∈ l.enrolled := by
  constructor
  · rintro ⟨events, hevents, hall⟩
    have heq : [event] = events := List.append_cancel_left (h.symm.trans hevents)
    exact hall event (heq ▸ List.mem_singleton_self event) hrow
  · intro hk
    refine ⟨[event], h, fun e he _ => ?_⟩
    rwa [List.mem_singleton.mp he]

theorem admits_of_no_row {l' : Listener} {event : Yield} (h : l'.events = l.events ++ [event])
    (hrow : ∀ rows : Rows, rows.handle event = rows) : Admits l l' := by
  refine ⟨[event], h, fun e he hcreates => ?_⟩
  rw [List.mem_singleton.mp he] at hcreates
  exact absurd hcreates (Yield.not_createsRow hrow)

theorem admits_finishMedia (k : Data)
    (ingested : MediaReassembler × Option MediaReassembler.Completed) :
    Admits l (l.finishMedia k ingested) ↔ (Completes ingested → k ∈ l.enrolled) := by
  obtain ⟨reassembler, completed⟩ := ingested
  cases completed with
  | none =>
    have hnone : ¬Completes (reassembler, none) := by simp [Completes]
    exact iff_of_true (admits_same rfl) fun h => absurd h hnone
  | some done =>
    cases hid : (Node.hexToBytes done.mediaID).bind MessageID.ofBytes? with
    | none =>
      have hnone : ¬Completes (reassembler, some done) := by simp [Completes, hid]
      have hsame : (l.finishMedia k (reassembler, some done)).events = l.events := by
        simp [finishMedia, emitMedia, hid]
      exact iff_of_true (admits_same hsame) fun h => absurd h hnone
    | some wireID =>
      have hdone : Completes (reassembler, some done) := ⟨done, rfl, by simp [hid]⟩
      have hevents : (l.finishMedia k (reassembler, some done)).events =
          l.events ++ [.content (.receivedMedia k done wireID)] := by
        simp [finishMedia, emitMedia, hid, yield]
      rw [admits_yield_iff hevents (Yield.createsRow_content _)]
      exact ⟨fun h _ => h, fun h => h hdone⟩

theorem admits_yieldSignal (k : Data) (signal : Option CallSignal) :
    Admits l (l.yieldSignal k signal) := by
  cases signal with
  | none => exact admits_same rfl
  | some signal => exact admits_of_no_row rfl fun _ => rfl

theorem admits_dispatch (m : Node.Opened) (refused : List UUID) :
    Admits l (l.dispatch hashHex decodeManifest crypto m refused).1 ↔
      (MakesRow hashHex decodeManifest l m → m.rawKey ∈ l.enrolled) := by
  cases hpayload : MessagePayload.decodeSealed m.plaintext with
  | none =>
    simp only [dispatch, MakesRow, hpayload]
    exact iff_of_true (admits_same rfl) False.elim
  | some payload =>
    obtain ⟨kind, body⟩ := payload
    cases kind with
    | text =>
      simp only [dispatch, MakesRow, hpayload]
      by_cases hv : m.rawKey ∈ l.verified
      · rw [if_pos hv, admits_yield_iff rfl (Yield.createsRow_content _)]
        exact ⟨fun h _ => h, fun h => h hv⟩
      · rw [if_neg hv]
        exact iff_of_true (admits_same rfl) fun h => absurd h hv
    | mediaManifest =>
      simp only [dispatch, MakesRow, hpayload]
      by_cases hv : m.rawKey ∈ l.verified
      · rw [if_pos hv]
        cases hmanifest : decodeManifest body with
        | none => exact iff_of_true (admits_same rfl) (by simp)
        | some manifest => simpa [hv] using admits_finishMedia _ _
      · rw [if_neg hv]
        exact iff_of_true (admits_same rfl) fun h => absurd h.1 hv
    | mediaChunk =>
      simp only [dispatch, MakesRow, hpayload]
      by_cases hv : m.rawKey ∈ l.verified
      · rw [if_pos hv, admits_finishMedia]
        exact ⟨fun h hmakes => h hmakes.2, fun h hdone => h ⟨hv, hdone⟩⟩
      · rw [if_neg hv]
        exact iff_of_true (admits_same rfl) fun h => absurd h.1 hv
    | nostrIdentity =>
      simp only [dispatch, MakesRow, hpayload]
      cases hparse : MessagePayload.parseNostrIdentity body with
      | none => exact iff_of_true (admits_same rfl) (by simp)
      | some nostrKey =>
        rw [admits_yield_iff rfl (Yield.createsRow_learnedNostrIdentity _ nostrKey)]
        exact ⟨fun h _ => h, fun h => h rfl⟩
    | callRequest | callAnswer | callDecline =>
      simp only [dispatch, MakesRow, hpayload]
      refine iff_of_true ?_ False.elim
      split
      · exact admits_yieldSignal _ _
      · exact admits_same rfl
    | pttOpen =>
      simp only [dispatch, MakesRow, hpayload]
      refine iff_of_true ?_ False.elim
      split
      · split
        · exact admits_same rfl
        · unfold pttOpen
          dsimp only
          split
          · exact admits_same rfl
          · exact admits_of_no_row rfl fun _ => rfl
      · exact admits_same rfl
    | pttClose =>
      simp only [dispatch, MakesRow, hpayload]
      refine iff_of_true ?_ False.elim
      split
      · split
        · exact admits_same rfl
        · exact admits_of_no_row rfl fun _ => rfl
      · exact admits_same rfl
    | ack | reconnectHello | inviteEcho | inviteEchoV2 =>
      simp only [dispatch, MakesRow, hpayload]
      exact iff_of_true (admits_same rfl) False.elim

theorem admits_surface (nostrPubkey : Option Data) (k : Data) (redeemed : Bool) :
    Admits l (l.surface nostrPubkey k redeemed) ↔ (redeemed → k ∈ l.enrolled) := by
  unfold surface
  by_cases hk : k ∈ l.enrolled
  · simp only [hk, decide_true, Bool.or_true, ↓reduceIte, implies_true, iff_true]
    cases nostrPubkey with
    | none => exact (admits_yield_iff rfl (Yield.createsRow_established _)).mpr hk
    | some key =>
      refine ⟨[.established k, .learnedNostrIdentity k key], by simp [yield], ?_⟩
      intro event hevent _
      rcases List.mem_cons.mp hevent with rfl | hevent
      · exact hk
      · obtain rfl := List.mem_singleton.mp hevent
        exact hk
  · cases redeemed with
    | false => simpa [hk] using admits_same rfl
    | true =>
      simp only [Bool.true_or, ↓reduceIte, hk, imp_false, not_true_eq_false, iff_false]
      have hfirst : Yield.CreatesRow (.established k) := Yield.createsRow_established k
      rintro ⟨events, hevents, hall⟩
      have hmem : Yield.established k ∈ events := by
        cases nostrPubkey with
        | none =>
          obtain rfl : [.established k] = events := List.append_cancel_left hevents
          simp
        | some key =>
          obtain rfl : [.established k, .learnedNostrIdentity k key] = events :=
            List.append_cancel_left ((List.append_assoc _ _ _).symm.trans hevents)
          simp
      exact hk (hall _ hmem hfirst)

theorem admits_exec_iff {a : Action} {reply : Reply} {p : Listener × Exit Action}
    (h : l.exec rawKeyOf hashHex decodeManifest crypto a reply = some p) :
    Admits l p.1 ↔ ¬a.Conjures hashHex decodeManifest l reply := by
  have hquiet (hevents : p.1.events = l.events) (hdispatch : ∀ m, a ≠ .dispatch m)
      (hsurface : ∀ nostrPubkey k redeemed, a ≠ .surface nostrPubkey k redeemed) :
      Admits l p.1 ↔ ¬a.Conjures hashHex decodeManifest l reply := by
    refine iff_of_true (admits_same hevents) ?_
    rintro (⟨m, rfl, _⟩ | ⟨nostrPubkey, k, rfl, _⟩)
    · exact hdispatch m rfl
    · exact hsurface nostrPubkey k true rfl
  unfold exec at h
  split at h
  · obtain ⟨q, _, rfl⟩ := Option.map_eq_some_iff.mp h
    exact hquiet rfl nofun nofun
  · split at h
    · obtain ⟨q, _, rfl⟩ := Option.map_eq_some_iff.mp h
      exact hquiet rfl nofun nofun
    · cases h
  · obtain rfl := Option.some.inj h
    exact hquiet rfl nofun nofun
  · obtain rfl := Option.some.inj h
    exact hquiet rfl nofun nofun
  · rename_i m refused
    obtain rfl := Option.some.inj h
    rw [admits_dispatch]
    constructor
    · rintro hmakes (⟨_, heq, hout, hrow⟩ | ⟨_, _, heq, _⟩)
      · cases heq
        exact hout (hmakes hrow)
      · cases heq
    · intro hconjures hrow
      by_contra hout
      exact hconjures (.inl ⟨m, rfl, hout, hrow⟩)
  · obtain ⟨q, _, rfl⟩ := Option.map_eq_some_iff.mp h
    exact hquiet rfl nofun nofun
  · rename_i nostrPubkey k redeemed
    obtain rfl := Option.some.inj h
    rw [admits_surface]
    constructor
    · rintro hadmitted (⟨_, heq, _⟩ | ⟨_, _, heq, hout⟩)
      · cases heq
      · cases heq
        exact hout (hadmitted rfl)
    · rintro hconjures rfl
      by_contra hout
      exact hconjures (.inr ⟨nostrPubkey, k, rfl, hout⟩)
  · obtain rfl := Option.some.inj h
    exact hquiet rfl nofun nofun
  · obtain rfl := Option.some.inj h
    exact hquiet rfl nofun nofun
  · obtain rfl := Option.some.inj h
    exact hquiet rfl nofun nofun
  · obtain ⟨event, _, rfl⟩ := Option.map_eq_some_iff.mp h
    exact hquiet rfl nofun nofun
  · obtain rfl := Option.some.inj h
    exact hquiet rfl nofun nofun
  · cases h

/-- In every run, every event that is yielded and makes the inbox create a row carries an enrolled
identity, exactly when no step conjures a row. -/
theorem rows_admitted_iff {c : Config Listener Action} {es : List (Event Call Reply)} :
    (∀ t ∈ trace (machine rawKeyOf hashHex decodeManifest crypto).step c es,
      Admits t.pre.shared t.post.shared) ↔
    ∀ t ∈ trace (machine rawKeyOf hashHex decodeManifest crypto).step c es,
      ¬Config.Ran t (Action.Conjures hashHex decodeManifest) := by
  refine forall_trace_iff fun t ht => ?_
  rcases Machine.step_shared ht with ⟨hsame, hquiet⟩ | ⟨a, reply, x, hexec, hran⟩
  · rw [hsame]
    exact iff_of_true (admits_same rfl) (hquiet _)
  · rw [hran]
    exact admits_exec_iff hexec

/-- The announcement of a stranger, whose session came from a first message. -/
def strangersAnnouncement : List (Event Call Reply) :=
  message 0 (List.replicate 32 5) ⟨.nostrIdentity, List.replicate 32 6⟩

set_option maxRecDepth 8192 in
theorem row_conjured : ∃ c', run plainMachine.step (launchWith .empty) strangersAnnouncement =
    some c' ∧
    c'.shared.enrolled = [] ∧
    c'.shared.events = [.learnedNostrIdentity (List.replicate 32 5) (List.replicate 32 6)] ∧
    ¬∀ t ∈ trace plainMachine.step (launchWith .empty) strangersAnnouncement,
      Admits t.pre.shared t.post.shared := by
  refine ⟨_, rfl, rfl, rfl, fun hall => ?_⟩
  have hlast :=
    hall _ (List.mem_of_getLast? (l := trace plainMachine.step _ strangersAnnouncement) rfl)
  have hnone := (admits_yield_iff (l := (launchWith .empty).shared) rfl
    (Yield.createsRow_learnedNostrIdentity (List.replicate 32 5) (List.replicate 32 6))).mp hlast
  cases hnone

end AeroNyra.Listener
