import AeroNyra.PushToTalk.Listener

/-! Which frames the player's gate discards.  A new receive context has a new replay window, but
only a close forgets the buffer of a link.  The history beside the machine records, for the context
of each link, the frames that its buffer took and the slots that were played for them. -/

namespace AeroNyra.Listener

open Interleave

/-- What a context has had played: the frames that the buffer of its link took, and the highest slot
of a spurt that started with one of them. -/
structure Hearing where
  fresh : Finset Nat := ∅
  own : Option Nat := none

/-- The hearing of each link's context, and whether the spurt in progress started with a frame of
the context of its link. -/
structure Playout where
  hearing : UUID → Hearing := fun _ => {}
  spurtOwn : Bool := false

namespace Playout

variable (p : Playout)

/-- A new context on each of the links has heard nothing. -/
def opened (links : List UUID) (activeLink : Option UUID) : Playout where
  hearing j := if j ∈ links then {} else p.hearing j
  spurtOwn := p.spurtOwn && !activeLink.any (· ∈ links)

/-- The buffer of the link took the frame. -/
def took (link : UUID) (seq : Nat) : Playout :=
  { p with
    hearing := fun j =>
      if j = link then { p.hearing j with fresh := insert seq (p.hearing j).fresh }
        else p.hearing j }

/-- A slot of the link is played, in a spurt that started with a frame of its context or not. -/
def played (link : UUID) (slot : Nat) (own : Bool) : Playout where
  hearing j :=
    if j = link ∧ own then
      { p.hearing j with own := some (max ((p.hearing j).own.getD slot) slot) }
    else p.hearing j
  spurtOwn := own

def note (crypto : PTTSessionCrypto) (p : Playout) (l : Listener) (a : Action) (reply : Reply)
    (_ : Listener) : Playout :=
  match l.opens a, a, reply with
  | some (k, _, _), _, .decoders refused =>
    p.opened ((l.linksFor k).filter (· ∉ refused)) l.pttPlayer.activeLink
  | _, .ingestPTTAudio link frame, .pcm decoded =>
    match (l.pttReceiver.receive crypto link frame decoded).2 with
    | .decoded seq pcm =>
      if (l.pttPlayer.activeLink = none ∨ l.pttPlayer.activeLink = some link) ∧
          (((l.pttPlayer.buffers.lookup link).getD {}).push seq pcm).2 then p.took link seq
      else p
    | _ => p
  | _, .tick, .engine ok =>
    match l.pttPlayer.clock ok with
    | (_, none) => p
    | (player, some link) =>
      p.played link player.expectedSeq
        (if l.pttPlayer.playing then p.spurtOwn
        else decide (player.expectedSeq ∈ (p.hearing link).fresh))
  | _, _, _ => p

end Playout

/-- The gate of each link is at a slot of its context, what is buffered is of its context, and so is
the spurt that is played, which has played a slot of its link. -/
structure Fresh (player : PTTPlayer) (p : Playout) : Prop where
  gate : ∀ link b slot, player.buffers.lookup link = some b → b.lastPlayed = some slot →
    ∃ own, (p.hearing link).own = some own ∧ slot ≤ own
  buffered : ∀ link b seq, player.buffers.lookup link = some b → b.Holds seq →
    seq ∈ (p.hearing link).fresh
  spurt : player.playing = true → p.spurtOwn = true
  gated : player.playing = true → ∃ link b, player.activeLink = some link ∧
    player.buffers.lookup link = some b ∧ b.lastPlayed ≠ none

/-- The action opens a session with a new context on a link whose buffer has played or holds
frames. -/
def Action.OpensStale (l : Listener) (a : Action) (reply : Reply) : Prop :=
  ∃ k id secret refused link b, l.opens a = some (k, id, secret) ∧ reply = .decoders refused ∧
    link ∈ l.linksFor k ∧ link ∉ refused ∧ l.pttPlayer.buffers.lookup link = some b ∧
    (b.lastPlayed ≠ none ∨ ∃ seq, b.Holds seq)

variable {rawKeyOf : Data → Option Data} {hashHex : Data → String}
  {decodeManifest : Data → Option MediaManifest} {crypto : PTTSessionCrypto} {l l' : Listener}
  {a : Action} {reply : Reply} {p : Playout}

theorem Playout.took_own {link j : UUID} {seq : Nat} :
    ((p.took link seq).hearing j).own = (p.hearing j).own := by
  simp only [took]
  split <;> rfl

theorem Playout.mem_took {link j : UUID} {seq i : Nat} :
    i ∈ ((p.took link seq).hearing j).fresh ↔ (j = link ∧ i = seq) ∨ i ∈ (p.hearing j).fresh := by
  by_cases hj : j = link <;> simp [took, hj]

theorem Playout.note_open {k id secret : Data} {refused : List UUID}
    (h : l.opens a = some (k, id, secret)) :
    p.note crypto l a (.decoders refused) l' =
      p.opened ((l.linksFor k).filter (· ∉ refused)) l.pttPlayer.activeLink := by
  simp [note, h]

theorem Playout.note_receives (hreceives : a.receives) (hopens : l.opens a = none) :
    p.note crypto l a reply l' = p := by
  cases a with
  | dispatch => simp [note, hopens]
  | openInbound | surface => rfl
  | service | presence | redeemEcho | ingestPTTAudio | tick | engineStopped | handleEvent
    | interruptionBegan => cases hreceives

namespace Fresh

variable {player : PTTPlayer} {link : UUID}

/-- A player that keeps a part of the buffers, or flushes them, and is not playing. -/
theorem silence (h : Fresh player p) {player' : PTTPlayer}
    (hbuffers : ∀ j b, player'.buffers.lookup j = some b →
      ∃ b', player.buffers.lookup j = some b' ∧ (b = b' ∨ b = b'.flush))
    (hsilent : player'.playing = false) : Fresh player' p := by
  refine ⟨fun j b slot hb hslot => ?_, fun j b seq hb hseq => ?_, fun hplaying => ?_,
    fun hplaying => ?_⟩
  · obtain ⟨b', hb', rfl | rfl⟩ := hbuffers j b hb
    · exact h.gate j b slot hb' hslot
    · exact h.gate j b' slot hb' hslot
  · obtain ⟨b', hb', rfl | rfl⟩ := hbuffers j b hb
    · exact h.buffered j b seq hb' hseq
    · exact absurd hseq (PTTJitterBuffer.not_holds_flush seq)
  · rw [hsilent] at hplaying
    cases hplaying
  · rw [hsilent] at hplaying
    cases hplaying

theorem drop (h : Fresh player p) (link : UUID) : Fresh (player.drop link) p := by
  have hkept {j : UUID} {b : PTTJitterBuffer} (hb : (player.drop link).buffers.lookup j = some b) :
      player.buffers.lookup j = some b := by
    rw [PTTPlayer.lookup_drop] at hb
    split at hb
    · cases hb
    · exact hb
  refine ⟨fun j b slot hb => h.gate j b slot (hkept hb), fun j b seq hb =>
    h.buffered j b seq (hkept hb),
    fun hplaying => h.spurt (PTTPlayer.drop_playing hplaying).1, fun hplaying => ?_⟩
  obtain ⟨hbefore, hactive, hother⟩ := PTTPlayer.drop_playing hplaying
  obtain ⟨j, b, hj, hb, hgate⟩ := h.gated hbefore
  have hne : j ≠ link := by
    rintro rfl
    exact hother hj
  refine ⟨j, b, hactive.trans hj, ?_, hgate⟩
  rw [PTTPlayer.lookup_drop, if_neg hne]
  exact hb

theorem dropAll (h : Fresh player p) (links : List UUID) :
    Fresh (links.foldl (·.drop) player) p := by
  induction links generalizing player with
  | nil => exact h
  | cons link links ih => exact ih (h.drop link)

/-- New contexts on links with nothing buffered and nothing played. -/
theorem opened (h : Fresh player p) {links : List UUID}
    (hclean : ∀ link ∈ links, ∀ b, player.buffers.lookup link = some b →
      b.lastPlayed = none ∧ ∀ seq, ¬b.Holds seq) : Fresh player
        (p.opened links player.activeLink) := by
  refine ⟨fun j b slot hb hslot => ?_, fun j b seq hb hseq => ?_, fun hplaying => ?_, h.gated⟩
  · by_cases hj : j ∈ links
    · rw [(hclean j hj b hb).1] at hslot
      cases hslot
    · simp only [Playout.opened, if_neg hj]
      exact h.gate j b slot hb hslot
  · by_cases hj : j ∈ links
    · exact absurd hseq ((hclean j hj b hb).2 seq)
    · simp only [Playout.opened, if_neg hj]
      exact h.buffered j b seq hb hseq
  · obtain ⟨j, b, hactive, hb, hgate⟩ := h.gated hplaying
    have hj : j ∉ links := fun hj => hgate (hclean j hj b hb).1
    simp [Playout.opened, h.spurt hplaying, hactive, hj]

/-- The gate of a link, whether it has a buffer or not. -/
theorem gate_getD (h : Fresh player p) {slot : Nat}
    (hslot : ((player.buffers.lookup link).getD {}).lastPlayed = some slot) :
    ∃ own, (p.hearing link).own = some own ∧ slot ≤ own := by
  cases hb : player.buffers.lookup link with
  | none =>
    rw [hb] at hslot
    cases hslot
  | some b =>
    rw [hb] at hslot
    exact h.gate link b slot hb hslot

theorem buffered_getD (h : Fresh player p) {seq : Nat}
    (hseq : ((player.buffers.lookup link).getD {}).Holds seq) : seq ∈ (p.hearing link).fresh := by
  cases hb : player.buffers.lookup link with
  | none =>
    rw [hb] at hseq
    exact absurd hseq (by simp [PTTJitterBuffer.Holds])
  | some b =>
    rw [hb] at hseq
    exact h.buffered link b seq hb hseq

/-- A frame that arrives, when the history keeps what it has and adds the frame if it is taken. -/
theorem arrives (h : Fresh player p) {p' : Playout} {seq : Nat} {pcm : Pcm}
    (hown : ∀ j, (p'.hearing j).own = (p.hearing j).own)
    (hheard : ∀ j, (p.hearing j).fresh ⊆ (p'.hearing j).fresh) (hspurt : p'.spurtOwn = p.spurtOwn)
    (htaken : (player.activeLink = none ∨ player.activeLink = some link) →
      (((player.buffers.lookup link).getD {}).push seq pcm).2 = true →
      seq ∈ (p'.hearing link).fresh) :
    Fresh (player.enqueue link seq pcm) p' := by
  refine ⟨fun j b slot hb hslot => ?_, fun j b i hb hi => ?_, fun hplaying => ?_,
    fun hplaying => ?_⟩
  · rw [hown]
    rw [PTTPlayer.lookup_enqueue] at hb
    split at hb
    · rename_i hj
      obtain rfl := Option.some.inj hb
      rw [PTTJitterBuffer.push_lastPlayed] at hslot
      rw [hj.1]
      exact h.gate_getD hslot
    · exact h.gate j b slot hb hslot
  · rw [PTTPlayer.lookup_enqueue] at hb
    split at hb
    · rename_i hj
      obtain rfl := Option.some.inj hb
      rw [hj.1]
      rcases PTTJitterBuffer.holds_of_push hi with hold | ⟨rfl, hkept⟩
      · exact hheard link (h.buffered_getD hold)
      · exact htaken hj.2 hkept
    · exact hheard j (h.buffered j b i hb hi)
  · rw [hspurt]
    exact h.spurt (PTTPlayer.enqueue_playing hplaying).1
  · obtain ⟨hbefore, hactive⟩ := PTTPlayer.enqueue_playing hplaying
    obtain ⟨j, b, hj, hb, hlast⟩ := h.gated hbefore
    by_cases hlink : j = link
    · subst hlink
      refine ⟨j, (((player.buffers.lookup j).getD {}).push seq pcm).1, hactive.trans hj, ?_, ?_⟩
      · rw [PTTPlayer.lookup_enqueue, if_pos ⟨rfl, .inr hj⟩]
      · rw [PTTJitterBuffer.push_lastPlayed, hb]
        exact hlast
    · refine ⟨j, b, hactive.trans hj, ?_, hlast⟩
      rw [PTTPlayer.lookup_enqueue, if_neg fun hclaim => hlink hclaim.1]
      exact hb

/-- A frame that the player takes is one of the context of its link. -/
theorem enqueue (h : Fresh player p) (link : UUID) (seq : Nat) (pcm : Pcm) :
    Fresh (player.enqueue link seq pcm)
      (if (player.activeLink = none ∨ player.activeLink = some link) ∧
          (((player.buffers.lookup link).getD {}).push seq pcm).2 then p.took link seq else p) := by
  split
  · refine h.arrives (fun j => Playout.took_own) (fun j i hi => ?_) rfl fun _ _ => ?_
    · exact Playout.mem_took.mpr (.inr hi)
    · exact Playout.mem_took.mpr (.inl ⟨rfl, rfl⟩)
  · rename_i hlost
    exact h.arrives (fun _ => rfl) (fun _ _ hi => hi) rfl fun hclaim hkept =>
      absurd ⟨hclaim, hkept⟩ hlost

/-- A slot that is played in a spurt of the context of the link. -/
theorem consume (h : Fresh player p) {player' : PTTPlayer}
    (hbuffers : player'.buffers = player.buffers)
    (hactive : player'.activeLink = some link) {b : PTTJitterBuffer}
    (hbuffer : player.buffers.lookup link = some b) :
    Fresh (player'.consume link) (p.played link player'.expectedSeq true) := by
  refine ⟨fun j b slot hb hslot => ?_, fun j b seq hb hseq => ?_, fun _ => rfl, fun hplaying => ?_⟩
  · obtain ⟨b', hb', ⟨hj, hsame⟩ | ⟨rfl, hpopped⟩⟩ := PTTPlayer.lookup_consume hb
    · have hlast : b'.lastPlayed = some slot := by
        rcases hsame with rfl | rfl <;> exact hslot
      simp only [Playout.played, hj, false_and, ↓reduceIte]
      exact h.gate j b' slot (hbuffers ▸ hb') hlast
    · have hlast : max (b'.lastPlayed.getD player'.expectedSeq) player'.expectedSeq = slot := by
        rcases hpopped with rfl | rfl <;> exact Option.some.inj hslot
      simp only [Playout.played, true_and, ↓reduceIte, Option.some.injEq, exists_eq_left']
      cases hold : b'.lastPlayed with
      | none =>
        rw [hold, Option.getD_none] at hlast
        omega
      | some last =>
        obtain ⟨own, hown, hle⟩ := h.gate j b' last (hbuffers ▸ hb') hold
        rw [hold, Option.getD_some] at hlast
        rw [hown, Option.getD_some]
        omega
  · obtain ⟨b', hb', hrest⟩ := PTTPlayer.lookup_consume hb
    have hheld : b'.Holds seq := by
      rcases hrest with ⟨_, rfl | rfl⟩ | ⟨_, rfl | rfl⟩
      · exact hseq
      · exact absurd hseq (PTTJitterBuffer.not_holds_flush seq)
      · exact PTTJitterBuffer.holds_of_pop hseq
      · exact absurd hseq (PTTJitterBuffer.not_holds_flush seq)
    have hfresh := h.buffered j b' seq (hbuffers ▸ hb') hheld
    simp only [Playout.played]
    split <;> exact hfresh
  · obtain ⟨_, hsame, hpopped⟩ := PTTPlayer.consume_playing hplaying
    refine ⟨link, (b.pop player'.expectedSeq).1, hsame.trans hactive, ?_, ?_⟩
    · rw [hpopped, Dict.lookup_modify, if_pos rfl, hbuffers, hbuffer]
      rfl
    · exact nofun

theorem tick (h : Fresh player p) (ok : Bool) : Fresh (player.tick ok)
    (match player.clock ok with
    | (_, none) => p
    | (player', some link) =>
      p.played link player'.expectedSeq
        (if player.playing then p.spurtOwn
        else decide (player'.expectedSeq ∈ (p.hearing link).fresh))) := by
  unfold PTTPlayer.tick
  rcases PTTPlayer.clock_cases (p := player) ok with ⟨hsilent, hnone⟩ |
    ⟨link, hactive, hplaying, hclock⟩ | ⟨link, first, b, hactive, hidle, hb, hfirst, hclock⟩
  · have hclock : player.clock ok = ((player.clock ok).1, none) := by rw [← hnone]
    rw [hclock]
    exact h.silence (fun j b hb => PTTPlayer.lookup_clock hb) hsilent
  · rw [hclock]
    dsimp only
    rw [if_pos hplaying, h.spurt hplaying]
    obtain ⟨j, b, hj, hb, _⟩ := h.gated hplaying
    cases hactive.symm.trans hj
    exact h.consume rfl hactive hb
  · rw [hclock]
    dsimp only
    rw [hidle, if_neg Bool.false_ne_true, decide_eq_true (h.buffered link b first hb hfirst)]
    exact h.consume rfl hactive hb

theorem effect (h : Fresh l.pttPlayer p) (heffect : Effect rawKeyOf crypto l a reply l')
    (hclean : ¬a.OpensStale l reply) : Fresh l'.pttPlayer (p.note crypto l a reply l') := by
  cases heffect with
  | open_ hopens =>
    rename_i refused k id secret _
    rw [Playout.note_open hopens, pttOpen_pttPlayer]
    refine h.opened fun link hlink b hb => ?_
    obtain ⟨hmapped, hdecodes⟩ := List.mem_filter.mp hlink
    by_contra hstale
    refine hclean
      ⟨k, id, secret, refused, link, b, hopens, rfl, hmapped, of_decide_eq_true hdecodes, hb, ?_⟩
    by_contra hnot
    obtain ⟨hgate, hframes⟩ := not_or.mp hnot
    exact hstale ⟨not_not.mp hgate, not_exists.mp hframes⟩
  | close hopens hcloses =>
    rename_i refused k id
    have hnote : p.note crypto l a (.decoders refused) (l.pttClose k id) = p := by
      cases a with
      | dispatch => simp [Playout.note, hopens]
      | service | presence | openInbound | redeemEcho | surface | ingestPTTAudio | tick
        | engineStopped | handleEvent | interruptionBegan => cases hcloses
    rw [hnote]
    exact h.dropAll _
  | audio link frame decoded =>
    have hnote : p.note crypto l (.ingestPTTAudio link frame) (.pcm decoded)
        (l.ingestPTTAudio crypto link frame decoded) =
        match (l.pttReceiver.receive crypto link frame decoded).2 with
        | .decoded seq pcm =>
          if (l.pttPlayer.activeLink = none ∨ l.pttPlayer.activeLink = some link) ∧
              (((l.pttPlayer.buffers.lookup link).getD {}).push seq pcm).2 then p.took link seq
          else p
        | _ => p := rfl
    rw [hnote]
    unfold ingestPTTAudio
    dsimp only
    cases (l.pttReceiver.receive crypto link frame decoded).2 with
    | decoded seq pcm => exact h.enqueue link seq pcm
    | replayed | authFailed | malformed | noSession | decodeError => exact h
  | tick ok => exact h.tick ok
  | engineStopped =>
    show Fresh l.pttPlayer.engineStopped p
    unfold PTTPlayer.engineStopped
    split
    · exact h.silence (fun j b hb => PTTPlayer.lookup_endSpurt hb) rfl
    · exact h
  | still hreceives hopens _ hstill =>
    rw [Playout.note_receives hreceives hopens, hstill.pttPlayer]
    exact h
  | service | presence | handle | interruption | burn => exact h

end Fresh

/-! ### Runs -/

/-- The machine with the playout beside it. -/
def playoutMachine (rawKeyOf : Data → Option Data) (hashHex : Data → String)
    (decodeManifest : Data → Option MediaManifest) (crypto : PTTSessionCrypto) :
    Machine (Listener × Playout) Action Call Reply :=
  (machine rawKeyOf hashHex decodeManifest crypto).observed (Playout.note crypto)

abbrev PlayoutStep := Transition (Config (Listener × Playout) Action) (Event Call Reply)

/-- The app after its launch, with nothing heard. -/
def launchPlayout (services : Pairing) : Config (Listener × Playout) Action :=
  ⟨(launch services, {}), []⟩

/-- The step discards a frame of the link's context, which opened and was decoded, as late. -/
def PlayoutStep.DropsLate (crypto : PTTSessionCrypto) (t : PlayoutStep) (link : UUID) (seq : Nat) :
    Prop :=
  Config.Ran t fun s a reply => ∃ frame decoded pcm b,
    a = .ingestPTTAudio link frame ∧ reply = .pcm decoded ∧
      (s.1.pttReceiver.receive crypto link frame decoded).2 = .decoded seq pcm ∧
      (s.1.pttPlayer.activeLink = none ∨ s.1.pttPlayer.activeLink = some link) ∧
      s.1.pttPlayer.buffers.lookup link = some b ∧ b.late seq = true

/-- A frame that is late is so for a slot of its own session. -/
def PlayoutStep.Playable (crypto : PTTSessionCrypto) (t : PlayoutStep) : Prop :=
  ∀ link seq, t.DropsLate crypto link seq →
    ∃ own, (t.pre.shared.2.hearing link).own = some own ∧ seq ≤ own

/-- Gates and frames are fresh in the shared state. -/
def AllFresh (c : Config (Listener × Playout) Action) : Prop :=
    Fresh c.shared.1.pttPlayer c.shared.2

theorem allFresh_launch (services : Pairing) : AllFresh (launchPlayout services) := by
  refine ⟨fun link b slot hb => ?_, fun link b seq hb => ?_, fun hplaying => ?_, fun hplaying => ?_⟩
  · simp [launchPlayout, launch] at hb
  · simp [launchPlayout, launch] at hb
  · cases hplaying
  · cases hplaying

theorem allFresh_step (t : PlayoutStep)
    (ht : (playoutMachine rawKeyOf hashHex decodeManifest crypto).step t.pre t.event = some t.post)
    (hclean : ¬Config.Ran t fun s a reply => a.OpensStale s.1 reply) (h : AllFresh t.pre) :
    AllFresh t.post := by
  refine Machine.observed_step_invariant
    (fun (l : Listener) p => Fresh l.pttPlayer p) ?_ ht hclean h
  intro l p a reply l' x hexec hclean hfresh
  exact hfresh.effect (exec_effect hexec) hclean

/-- In every run in which no session is opened on a link whose buffer has played or holds frames, no
frame is discarded as late for a slot of another session. -/
theorem session_playable {services : Pairing} {es : List (Event Call Reply)}
    (hclean : ∀ t ∈ trace (playoutMachine rawKeyOf hashHex decodeManifest crypto).step
        (launchPlayout services) es,
      ¬Config.Ran t fun s a reply => Action.OpensStale s.1 a reply) :
    ∀ t ∈ trace (playoutMachine rawKeyOf hashHex decodeManifest crypto).step
        (launchPlayout services) es, PlayoutStep.Playable crypto t := by
  rintro t ht link seq ⟨a, reply, _, frame, decoded, pcm, b, _, _, _, _, hb, hlate⟩
  have hfresh : AllFresh t.pre :=
    trace_invariant_of AllFresh _ allFresh_step (allFresh_launch services) hclean ht
  obtain ⟨slot, hslot, hle⟩ := (Option.any_eq_true _ _).mp hlate
  obtain ⟨own, hown, hgate⟩ := hfresh.gate link b slot hb hslot
  have hle : seq ≤ slot := of_decide_eq_true hle
  exact ⟨own, hown, by omega⟩

/-- The engine plays a slot, as call `i`. -/
def playSlot (i : Nat) : List (Event Call Reply) := [.start .tick, .step i (.engine true)]

/-- Three frames of the first session, of which one is played. -/
def firstSession : List (Event Call Reply) :=
  linkUp ++ openMessage 2 1 ++ audioFrame 3 0 1 ++ audioFrame 4 1 1 ++
    audioFrame 5 2 1 ++ playSlot 6

/-- The first session is closed before the second is opened and starts at 0. -/
def closedThenReopened : List (Event Call Reply) :=
  firstSession ++ closeMessage 7 1 ++ openMessage 8 2 ++ audioFrame 9 0 2

/-- The step opens no session, or it finds no buffers. -/
def PlayoutStep.opensClean (t : PlayoutStep) : Bool :=
  (t.pre.acts t.event).all fun p =>
    (t.pre.shared.1.opens p.1).isNone || t.pre.shared.1.pttPlayer.buffers.keys.isEmpty

theorem PlayoutStep.not_opensStale {t : PlayoutStep} (h : t.opensClean) :
    ¬Config.Ran t fun s a reply => Action.OpensStale s.1 a reply := by
  rintro ⟨a, reply, hacts, k, id, secret, refused, link, b, hopens, _, _, _, hb, _⟩
  rw [opensClean, hacts, Option.all_some, hopens, Option.isNone_some, Bool.false_or,
    List.isEmpty_iff] at h
  have hmem : link ∈ t.pre.shared.1.pttPlayer.buffers.keys :=
    AList.lookup_isSome.mp (by rw [hb]; rfl)
  simp [h] at hmem

set_option maxRecDepth 16384 in
theorem session_playable_reopened :
    (trace (playoutMachine FirstContactCoordinator.prefixKey (fun _ => "") (fun _ => none)
        plainCrypto).step (launchPlayout launchContact.shared.services) closedThenReopened).length =
      closedThenReopened.length ∧
    ∀ t ∈ trace (playoutMachine FirstContactCoordinator.prefixKey (fun _ => "") (fun _ => none)
        plainCrypto).step (launchPlayout launchContact.shared.services) closedThenReopened,
      PlayoutStep.Playable plainCrypto t := by
  have hclean : (trace
    (playoutMachine FirstContactCoordinator.prefixKey (fun _ => "") (fun _ => none)
      plainCrypto).step (launchPlayout launchContact.shared.services) closedThenReopened).all
        PlayoutStep.opensClean := by decide +kernel
  refine ⟨by decide +kernel, session_playable fun t ht => ?_⟩
  exact PlayoutStep.not_opensStale (List.all_eq_true.mp hclean t ht)

/-- The close of the first session is lost. -/
def reopenedUnclosed : List (Event Call Reply) := firstSession ++ openMessage 7 2 ++
    audioFrame 8 0 2

set_option maxRecDepth 16384 in
theorem session_unplayable :
    ∃ t ∈ trace (playoutMachine FirstContactCoordinator.prefixKey (fun _ => "") (fun _ => none)
        plainCrypto).step (launchPlayout launchContact.shared.services) reopenedUnclosed,
      PlayoutStep.DropsLate plainCrypto t 7 0 ∧ (t.pre.shared.2.hearing 7).fresh = ∅ ∧
      (t.pre.shared.2.hearing 7).own = none ∧ ¬PlayoutStep.Playable plainCrypto t := by
  refine ⟨_, List.mem_of_getLast? rfl, ?_, ?_, ?_, fun hplayable => ?_⟩
  · exact ⟨_, _, rfl, _, _, [], _, rfl, rfl, rfl, .inr rfl, rfl, by decide⟩
  · decide
  · rfl
  · obtain ⟨own, hown, _⟩ := hplayable 7 0
      ⟨_, _, rfl, _, _, [], _, rfl, rfl, rfl, .inr rfl, rfl, by decide⟩
    cases hown

end AeroNyra.Listener
