import AeroNyra.PushToTalk.JitterBuffer

/-! The player over any sequence of frames, drops and ticks: the order of what it plays, and the
end of every claim. -/

namespace AeroNyra

/-- A frame that is played. -/
structure PlayedFrame where
  link : UUID
  seq : Nat
  pcm : Pcm

namespace PTTPlayer

open Interleave PTTJitterBuffer

inductive Event
  | enqueue (link : UUID) (seq : UInt64) (pcm : Pcm)
  | drop (link : UUID)
  | tick (engine : Bool)
  | engineStopped

def step (p : PTTPlayer) : Event → Option PTTPlayer
  | .enqueue link seq pcm => some (p.enqueue link seq.toNat pcm)
  | .drop link => some (p.drop link)
  | .tick engine => some (p.tick engine)
  | .engineStopped => some p.engineStopped

/-- The frame that a tick plays. -/
def playedAt (p : PTTPlayer) (engine : Bool) : Option PlayedFrame :=
  match p.clock engine with
  | (_, none) => none
  | (p, some link) =>
    match (((p.buffers.lookup link).getD {}).pop p.expectedSeq).2 with
    | .frame pcm => some ⟨link, p.expectedSeq, pcm⟩
    | _ => none

/-- The frame that a step plays. -/
def played (t : Transition PTTPlayer Event) : Option PlayedFrame :=
  match t.event with
  | .tick engine => t.pre.playedAt engine
  | _ => none

variable {p p' : PTTPlayer} {link : UUID} {seq : Nat} {pcm : Pcm} {engine : Bool}

/-! ### What the clock does -/

/-- The buffer of a link; a link without one has an empty buffer. -/
def bufferOf (p : PTTPlayer) (link : UUID) : PTTJitterBuffer := (p.buffers.lookup link).getD {}

/-- What a tick does up to its slot. -/
inductive Clocked (p : PTTPlayer) : PTTPlayer × Option UUID → Prop
  | idle (hactive : p.activeLink = none) : Clocked p (p.endSpurt false, none)
  | waits (hplaying : p.playing = false) (hticks : p.prebufferTicks + 1 < prebufferTimeoutTicks) :
    Clocked p ({ p with prebufferTicks := p.prebufferTicks + 1 }, none)
  /-- The prebuffering ends with no frame, or with an engine that cannot play. -/
  | ends (expectedSeq : Nat) :
    Clocked p (endSpurt { p with
      prebufferTicks := p.prebufferTicks + 1
      expectedSeq } true, none)
  | goesOn (link : UUID) (hactive : p.activeLink = some link)
      (hplaying : p.playing = true) : Clocked p (p, some link)
  | starts (link : UUID) (first : Nat) (hactive : p.activeLink = some link)
      (hplaying : p.playing = false) :
    Clocked p ({ p with
      prebufferTicks := p.prebufferTicks + 1
      expectedSeq := first
      playing := true }, some link)

theorem clocked (p : PTTPlayer) (engine : Bool) : Clocked p (p.clock engine) := by
  unfold clock
  split
  · rename_i hactive
    exact .idle hactive
  · rename_i link hactive
    split
    · rename_i hplaying
      exact .goesOn link hactive hplaying
    · rename_i hplaying
      rw [Bool.not_eq_true] at hplaying
      dsimp only
      split
      · split
        · split
          · exact .ends p.expectedSeq
          · exact .waits hplaying (by omega)
        · rename_i first hfirst
          split
          · exact .starts link first hactive hplaying
          · exact .ends first
      · rename_i hready
        refine .waits hplaying ?_
        simp only [Bool.or_eq_true, decide_eq_true_eq, not_or] at hready
        omega

/-- What a slot comes to. -/
inductive Consumed (p : PTTPlayer) (link : UUID) : PTTPlayer → Prop
  | plays (pcm : Pcm) (hframe : (p.bufferOf link).frames.lookup p.expectedSeq = some pcm) :
    Consumed p link { p with
      buffers := p.buffers.modify link fun _ => ((p.bufferOf link).pop p.expectedSeq).1
      silenceRun := 0
      expectedSeq := (p.expectedSeq + 1) % 2 ^ 64 }
  | fills (hsilence : p.silenceRun + 1 < maxConsecutiveSilence) :
    Consumed p link { p with
      buffers := p.buffers.modify link fun _ => ((p.bufferOf link).pop p.expectedSeq).1
      silenceRun := p.silenceRun + 1
      expectedSeq := (p.expectedSeq + 1) % 2 ^ 64 }
  | ends :
    Consumed p link (endSpurt { p with
      buffers := p.buffers.modify link fun _ => ((p.bufferOf link).pop p.expectedSeq).1
      silenceRun := p.silenceRun + 1 } true)

theorem consumed (p : PTTPlayer) (link : UUID) : Consumed p link (p.consume link) := by
  unfold consume
  dsimp only
  split
  · rename_i pcm hpop
    exact .plays pcm (lookup_of_frame hpop)
  · split
    · exact .ends
    · exact .fills (by omega)
  · split
    · exact .ends
    · exact .fills (by omega)

/-! ### The buffers -/

/-- What a step does to the buffer of a link. -/
inductive Handled (e : Event) (link : UUID) (b : PTTJitterBuffer) : PTTJitterBuffer → Prop
  | same : Handled e link b b
  | flushed {b' : PTTJitterBuffer} (h : Handled e link b b') : Handled e link b b'.flush
  | popped {b' : PTTJitterBuffer} (h : Handled e link b b') (seq : Nat) : Handled e link b
      (b'.pop seq).1
  | pushed (seq : UInt64) (pcm : Pcm) (hevent : e = .enqueue link seq pcm) : Handled e link b
      (b.push seq.toNat pcm).1
  | dropped (hevent : e = .drop link) : Handled e link b {}

namespace Handled

variable {e : Event} {b b' : PTTJitterBuffer}

theorem sound (h : Handled e link b b') (hb : b.Sound) : b'.Sound := by
  induction h with
  | same => exact hb
  | flushed => exact sound_flush _
  | popped _ seq ih => exact ih.pop seq
  | pushed seq pcm => exact hb.push seq.toNat pcm
  | dropped => exact sound_empty

theorem late (h : Handled e link b b') (hdrop : e ≠ .drop link) (hlate : b.late seq = true) :
    b'.late seq = true := by
  induction h with
  | same => exact hlate
  | flushed _ ih => exact ih
  | popped _ slot ih => exact late_pop (.inl ih)
  | pushed i pcm =>
    rw [PTTJitterBuffer.late, push_lastPlayed]
    exact hlate
  | dropped hevent => exact absurd hevent hdrop

theorem lookup (h : Handled e link b b') (hframe : b'.frames.lookup seq = some pcm) :
    b.frames.lookup seq = some pcm ∨ ∃ s : UInt64, s.toNat = seq ∧ e = .enqueue link s pcm := by
  induction h with
  | same => exact .inl hframe
  | flushed => cases hframe
  | popped _ slot ih => exact ih (lookup_of_pop hframe)
  | pushed s added hevent =>
    rcases lookup_of_push hframe with hheld | ⟨rfl, rfl⟩
    · exact .inl hheld
    · exact .inr ⟨s, rfl, hevent⟩
  | dropped => cases hframe

theorem endSpurt (h : Handled e link b (p.bufferOf link)) :
    Handled e link b ((p.endSpurt true).bufferOf link) := by
  unfold PTTPlayer.endSpurt bufferOf
  dsimp only
  split
  · exact h
  · rename_i active _
    rw [if_pos rfl, Dict.lookup_modify]
    split
    · rename_i heq
      subst heq
      unfold bufferOf at h
      cases hlookup : p.buffers.lookup link with
      | none =>
        rw [hlookup] at h
        exact h
      | some held =>
        rw [hlookup] at h
        exact h.flushed
    · exact h

theorem consume (h : Handled e link b (p.bufferOf link)) (active : UUID) :
    Handled e link b ((p.consume active).bufferOf link) := by
  have hpopped : Handled e link b
      (((p.buffers.modify active fun _ =>
        ((p.bufferOf active).pop p.expectedSeq).1).lookup link).getD {}) := by
    rw [Dict.lookup_modify]
    split
    · rename_i heq
      subst heq
      unfold bufferOf at h ⊢
      cases hlookup : p.buffers.lookup link with
      | none =>
        rw [hlookup] at h
        exact h
      | some held =>
        rw [hlookup] at h
        exact h.popped p.expectedSeq
    · exact h
  have hconsumed := consumed p active
  generalize p.consume active = q at hconsumed
  cases hconsumed with
  | plays | fills => exact hpopped
  | ends => exact Handled.endSpurt hpopped

end Handled

theorem bufferOf_step {e : Event} (hstep : p.step e = some p') (link : UUID) :
    Handled e link (p.bufferOf link) (p'.bufferOf link) := by
  cases e with
  | enqueue source seq pcm =>
    obtain rfl := Option.some.inj hstep
    unfold bufferOf
    rw [lookup_enqueue]
    split
    · rename_i heq
      obtain ⟨rfl, _⟩ := heq
      exact .pushed seq pcm rfl
    · exact .same
  | drop source =>
    obtain rfl := Option.some.inj hstep
    unfold bufferOf
    rw [lookup_drop]
    split
    · rename_i heq
      exact .dropped (by rw [heq])
    · exact .same
  | tick engine =>
    obtain rfl := Option.some.inj hstep
    unfold tick
    have hclocked := clocked p engine
    generalize p.clock engine = r at hclocked
    cases hclocked with
    | idle hactive =>
      have hsame : (p.endSpurt false).bufferOf link = p.bufferOf link := by
        simp [bufferOf, endSpurt, hactive]
      show Handled _ _ _ ((p.endSpurt false).bufferOf link)
      rw [hsame]
      exact .same
    | waits => exact .same
    | ends expectedSeq =>
      exact @Handled.endSpurt { p with
        prebufferTicks := p.prebufferTicks + 1
        expectedSeq } link _ _ .same
    | goesOn active => exact Handled.same.consume active
    | starts active first =>
      exact @Handled.consume { p with
        prebufferTicks := p.prebufferTicks + 1
        expectedSeq := first
        playing := true } link _ _ .same active
  | engineStopped =>
    obtain rfl := Option.some.inj hstep
    unfold engineStopped
    split
    · exact Handled.same.endSpurt
    · exact .same

/-! ### What is played -/

theorem lt_of_late {b : PTTJitterBuffer} {i j : Nat} (hi : b.late i = true)
    (hj : b.late j = false) : i < j := by
  unfold late at hi hj
  cases hlast : b.lastPlayed with
  | none => simp [hlast] at hi
  | some last =>
    have hi : i ≤ last := by simpa [hlast] using hi
    have hj : last < j := by simpa [hlast] using hj
    omega

theorem late_consume (h : (p.bufferOf link).frames.lookup p.expectedSeq = some pcm) :
    ((p.consume link).bufferOf link).late p.expectedSeq = true := by
  have hpopped : (((p.buffers.modify link fun _ =>
    ((p.bufferOf link).pop p.expectedSeq).1).lookup link).getD {}).late
      p.expectedSeq = true := by
    rw [Dict.lookup_modify, if_pos rfl]
    unfold bufferOf at h ⊢
    cases hlookup : p.buffers.lookup link with
    | none =>
      rw [hlookup] at h
      cases h
    | some b => exact late_pop (.inr rfl)
  have hconsumed := consumed p link
  generalize p.consume link = q at hconsumed
  cases hconsumed with
  | plays | fills => exact hpopped
  | ends =>
    have hhandled : Handled .engineStopped link _ ((endSpurt { p with
        buffers := p.buffers.modify link fun _ => ((p.bufferOf link).pop p.expectedSeq).1
        silenceRun := p.silenceRun + 1 } true).bufferOf link) := Handled.endSpurt .same
    exact hhandled.late nofun hpopped

/-- What a tick plays is a frame of the link that is active, and its slot has passed afterwards. -/
theorem playedAt_spec {f : PlayedFrame} (h : p.playedAt engine = some f) :
    p.activeLink = some f.link ∧ (p.bufferOf f.link).frames.lookup f.seq = some f.pcm ∧
      ((p.tick engine).bufferOf f.link).late f.seq = true := by
  unfold playedAt at h
  unfold tick
  have hclocked := clocked p engine
  generalize p.clock engine = r at h hclocked
  cases hclocked with
  | idle | waits | ends => cases h
  | goesOn link hactive =>
    dsimp only at h ⊢
    split at h
    · rename_i pcm hpop
      obtain rfl := Option.some.inj h
      have hframe := lookup_of_frame hpop
      exact ⟨hactive, hframe, late_consume hframe⟩
    · cases h
  | starts link first hactive =>
    dsimp only at h ⊢
    split at h
    · rename_i pcm hpop
      obtain rfl := Option.some.inj h
      have hframe := lookup_of_frame hpop
      exact ⟨hactive, hframe, @late_consume { p with
        prebufferTicks := p.prebufferTicks + 1
        expectedSeq := first
        playing := true } link pcm hframe⟩
    · cases h

/-- The sequence number that a step plays of a link. -/
def slotOf (link : UUID) (t : Transition PTTPlayer Event) : Option Nat :=
  (played t).bind fun f => if f.link = link then some f.seq else none

theorem slotOf_spec {t : Transition PTTPlayer Event} (hstep : step t.pre t.event = some t.post)
    (h : slotOf link t = some seq) :
    (t.pre.bufferOf link).Holds seq ∧ (t.post.bufferOf link).late seq = true := by
  obtain ⟨f, hplayed, hf⟩ := Option.bind_eq_some_iff.mp h
  obtain ⟨rfl, hseq⟩ := Option.ite_none_right_eq_some.mp hf
  obtain rfl := Option.some.inj hseq
  obtain ⟨pre, event, post⟩ := t
  cases event with
  | tick engine =>
    have hpost : pre.tick engine = post := Option.some.inj hstep
    subst hpost
    obtain ⟨_, hframe, hpassed⟩ := playedAt_spec hplayed
    exact ⟨by rw [Holds, hframe]; rfl, hpassed⟩
  | enqueue | drop | engineStopped => cases hplayed

/-- Without a drop of the link, what is played of it is in order, and after what was played
before. -/
theorem slots_sorted {es : List Event} (hsound : ∀ link, (p.bufferOf link).Sound)
    (hdrop : ∀ e ∈ es, e ≠ .drop link) :
    ((trace step p es).filterMap (slotOf link)).Pairwise (· < ·) ∧
      ∀ seq ∈ (trace step p es).filterMap (slotOf link), (p.bufferOf link).late seq = false := by
  induction es generalizing p with
  | nil => exact ⟨.nil, nofun⟩
  | cons e es ih =>
    cases hstep : p.step e with
    | none => simp [trace, hstep]
    | some q =>
      have hhandled := fun j => bufferOf_step hstep j
      obtain ⟨hsorted, hlater⟩ := ih (fun j => (hhandled j).sound (hsound j))
        fun e he => hdrop e (List.mem_cons_of_mem _ he)
      have hfresh : ∀ seq ∈ (trace step q es).filterMap (slotOf link), (p.bufferOf link).late seq =
        false := by
        intro seq hseq
        by_contra hlate
        rw [Bool.not_eq_false] at hlate
        have hkept := (hhandled link).late (hdrop e List.mem_cons_self) hlate
        rw [hlater seq hseq] at hkept
        cases hkept
      rw [trace_cons hstep, List.filterMap_cons]
      cases hslot : slotOf link ⟨p, e, q⟩ with
      | none => exact ⟨hsorted, hfresh⟩
      | some seq =>
        obtain ⟨hheld, hpassed⟩ := slotOf_spec hstep hslot
        refine ⟨List.pairwise_cons.mpr ⟨fun j hj => lt_of_late hpassed (hlater j hj), hsorted⟩,
          fun j hj => ?_⟩
        rcases List.mem_cons.mp hj with rfl | hj
        · exact (hsound link).fresh j hheld
        · exact hfresh j hj

/-! ### Where a frame comes from -/

/-- What is buffered for a link was enqueued for it. -/
def Enqueued (past : List (Transition PTTPlayer Event)) (p : PTTPlayer) : Prop :=
  ∀ link seq pcm, (p.bufferOf link).frames.lookup seq = some pcm →
    ∃ u ∈ past, ∃ s : UInt64, s.toNat = seq ∧ u.event = .enqueue link s pcm

theorem enqueued_start : Enqueued [] {} := by
  intro link seq pcm hframe
  have hnone : (none : Option Pcm) = some pcm := hframe
  cases hnone

theorem enqueued_step (past : List (Transition PTTPlayer Event)) (t : Transition PTTPlayer Event)
    (hstep : step t.pre t.event = some t.post) (h : Enqueued past t.pre) :
    Enqueued (past ++ [t]) t.post := by
  intro link seq pcm hframe
  rcases (bufferOf_step hstep link).lookup hframe with hheld | ⟨s, hs, hevent⟩
  · obtain ⟨u, hu, hfrom⟩ := h link seq pcm hheld
    exact ⟨u, List.mem_append_left _ hu, hfrom⟩
  · exact ⟨t, List.mem_append_right _ List.mem_cons_self, s, hs, hevent⟩

/-! ### The end of a claim -/

/-- A claim that waits does so within the timeout, and the silence is not one that ends it. -/
structure Timed (p : PTTPlayer) : Prop where
  waits : p.playing = false → p.activeLink ≠ none → p.prebufferTicks < prebufferTimeoutTicks
  silent : p.silenceRun < maxConsecutiveSilence

structure Running (p : PTTPlayer) : Prop extends Timed p where
  sound : ∀ link, (p.bufferOf link).Sound

/-- The ticks that a claim has left at most without another frame: each frame may have silence
before it. -/
def ticksLeft (p : PTTPlayer) : Nat :=
  match p.activeLink with
  | none => 0
  | some link =>
    if p.playing then maxConsecutiveSilence * (p.bufferOf link).frames.keys.length +
      (maxConsecutiveSilence - p.silenceRun)
    else maxConsecutiveSilence * (capacity + 1) + (prebufferTimeoutTicks - p.prebufferTicks)

/-- The ticks within which every claim ends. -/
def releaseTicks : Nat := maxConsecutiveSilence * (capacity + 1) + prebufferTimeoutTicks

theorem ticksLeft_none (h : p.activeLink = none) : p.ticksLeft = 0 := by
  simp [ticksLeft, h]

theorem ticksLeft_playing (hactive : p.activeLink = some link) (hplaying : p.playing = true) :
    p.ticksLeft = maxConsecutiveSilence * (p.bufferOf link).frames.keys.length +
      (maxConsecutiveSilence - p.silenceRun) := by
  simp [ticksLeft, hactive, hplaying]

theorem ticksLeft_waiting (hactive : p.activeLink = some link) (hplaying : p.playing = false) :
    p.ticksLeft = maxConsecutiveSilence * (capacity + 1) +
      (prebufferTimeoutTicks - p.prebufferTicks) := by
  simp [ticksLeft, hactive, hplaying]

theorem Running.ticksLeft_le (h : p.Running) : p.ticksLeft ≤ releaseTicks := by
  cases hactive : p.activeLink with
  | none =>
    rw [ticksLeft_none hactive]
    exact Nat.zero_le _
  | some link =>
    have hbound := (h.sound link).bounded
    have hscaled := Nat.mul_le_mul_left maxConsecutiveSilence hbound
    have hsum : maxConsecutiveSilence * (capacity + 1) = maxConsecutiveSilence * capacity +
      maxConsecutiveSilence := rfl
    unfold releaseTicks
    cases hplaying : p.playing with
    | true =>
      rw [ticksLeft_playing hactive hplaying]
      omega
    | false =>
      rw [ticksLeft_waiting hactive hplaying]
      omega

/-- A claim has ticks left. -/
theorem Running.released (h : p.Running) (hleft : p.ticksLeft = 0) : p.activeLink = none := by
  cases hactive : p.activeLink with
  | none => rfl
  | some link =>
    cases hplaying : p.playing with
    | true =>
      have hsilent := h.silent
      rw [ticksLeft_playing hactive hplaying] at hleft
      omega
    | false =>
      have hwaits := h.waits hplaying (by simp [hactive])
      rw [ticksLeft_waiting hactive hplaying] at hleft
      omega

/-- The buffer of the link whose slot is consumed. -/
theorem length_consumed (p : PTTPlayer) (link : UUID) :
    (((p.buffers.modify link fun _ => ((p.bufferOf link).pop p.expectedSeq).1).lookup link).getD
      {}).frames.keys.length ≤ (p.bufferOf link).frames.keys.length ∧
    ((p.bufferOf link).Holds p.expectedSeq →
      (((p.buffers.modify link fun _ => ((p.bufferOf link).pop p.expectedSeq).1).lookup link).getD
        {}).frames.keys.length < (p.bufferOf link).frames.keys.length) := by
  rw [Dict.lookup_modify, if_pos rfl]
  unfold bufferOf
  cases hlookup : p.buffers.lookup link with
  | none => exact ⟨Nat.zero_le _, nofun⟩
  | some b => exact length_pop b p.expectedSeq

/-- A slot takes a tick from what is left. -/
theorem ticksLeft_consume (hactive : p.activeLink = some link) (hplaying : p.playing = true)
    (hsilence : p.silenceRun < maxConsecutiveSilence) :
    (p.consume link).ticksLeft ≤ p.ticksLeft - 1 := by
  obtain ⟨hle, hlt⟩ := length_consumed p link
  have hthree : maxConsecutiveSilence = 3 := rfl
  rw [ticksLeft_playing hactive hplaying]
  have hconsumed := consumed p link
  generalize p.consume link = q at hconsumed
  cases hconsumed with
  | plays pcm hframe =>
    have hless := hlt (by rw [Holds, hframe]; rfl)
    simp only [ticksLeft, hactive, hplaying, ↓reduceIte, hthree]
    unfold bufferOf at hless ⊢
    dsimp only at hless ⊢
    omega
  | fills hsilent =>
    simp only [ticksLeft, hactive, hplaying, ↓reduceIte, hthree]
    unfold bufferOf at hle ⊢
    dsimp only at hle ⊢
    omega
  | ends =>
    rw [ticksLeft_none rfl]
    exact Nat.zero_le _

/-- A tick goes by of what is left. -/
theorem Running.ticksLeft_tick (h : p.Running) (engine : Bool) :
    (p.tick engine).ticksLeft ≤ p.ticksLeft - 1 := by
  unfold tick
  have hclocked := clocked p engine
  generalize p.clock engine = r at hclocked
  cases hclocked with
  | idle =>
    dsimp only
    rw [ticksLeft_none rfl]
    exact Nat.zero_le _
  | waits hplaying hticks =>
    cases hactive : p.activeLink with
    | none =>
      dsimp only
      rw [ticksLeft_none hactive]
      exact Nat.zero_le _
    | some link =>
      dsimp only
      rw [ticksLeft_waiting hactive hplaying]
      simp only [ticksLeft, hplaying, Bool.false_eq_true, ↓reduceIte]
      omega
  | ends =>
    dsimp only
    rw [ticksLeft_none rfl]
    exact Nat.zero_le _
  | goesOn link hactive hplaying => exact ticksLeft_consume hactive hplaying h.silent
  | starts link first hactive hplaying =>
    have hwaits := h.waits hplaying (by simp [hactive])
    have hbound := (h.sound link).bounded
    have hconsumed := @ticksLeft_consume { p with
      prebufferTicks := p.prebufferTicks + 1
      expectedSeq := first
      playing := true } link hactive rfl h.silent
    refine hconsumed.trans (Nat.sub_le_sub_right ?_ 1)
    have hthree : maxConsecutiveSilence = 3 := rfl
    rw [ticksLeft_waiting hactive hplaying]
    simp only [ticksLeft, hactive, ↓reduceIte, hthree]
    unfold bufferOf at hbound ⊢
    dsimp only
    omega

/-- The event gives the player a frame. -/
def Event.enqueues : Event → Bool
  | .enqueue .. => true
  | _ => false

def Event.ticks : Event → Nat
  | .tick _ => 1
  | _ => 0

theorem Running.ticksLeft_step (h : p.Running) {e : Event} (hquiet : e.enqueues = false)
    (hstep : p.step e = some p') :
    p'.ticksLeft ≤ p.ticksLeft - e.ticks := by
  cases e with
  | enqueue => cases hquiet
  | drop link =>
    obtain rfl := Option.some.inj hstep
    unfold drop
    dsimp only
    split
    · rw [ticksLeft_none rfl]
      exact Nat.zero_le _
    · rename_i hother
      cases hactive : p.activeLink with
      | none =>
        rw [ticksLeft_none hactive]
        exact Nat.zero_le _
      | some active =>
        have hne : active ≠ link := fun heq => hother (heq ▸ hactive)
        simp [ticksLeft, hactive, bufferOf, hne, Event.ticks]
  | tick engine =>
    obtain rfl := Option.some.inj hstep
    exact h.ticksLeft_tick engine
  | engineStopped =>
    obtain rfl := Option.some.inj hstep
    unfold engineStopped
    split
    · rw [ticksLeft_none rfl]
      exact Nat.zero_le _
    · exact Nat.le_refl _

theorem timed_endSpurt (p : PTTPlayer) (keepBuffer : Bool) : (p.endSpurt keepBuffer).Timed :=
  ⟨fun _ hactive => absurd rfl hactive, Nat.zero_lt_succ _⟩

theorem timed_consume (hplaying : p.playing = true) (link : UUID) : (p.consume link).Timed := by
  have hconsumed := consumed p link
  generalize p.consume link = q at hconsumed
  cases hconsumed with
  | plays => exact ⟨fun hstill => absurd (hplaying.symm.trans hstill) nofun, Nat.zero_lt_succ _⟩
  | fills hsilent => exact ⟨fun hstill => absurd (hplaying.symm.trans hstill) nofun, hsilent⟩
  | ends => exact timed_endSpurt _ true

theorem Timed.step (h : p.Timed) {e : Event} (hstep : p.step e = some p') : p'.Timed := by
  cases e with
  | enqueue link seq pcm =>
    obtain rfl := Option.some.inj hstep
    unfold enqueue
    split
    · exact ⟨fun _ _ => Nat.zero_lt_succ _, Nat.zero_lt_succ _⟩
    · split
      · exact ⟨h.waits, h.silent⟩
      · exact h
  | drop link =>
    obtain rfl := Option.some.inj hstep
    unfold drop
    dsimp only
    split
    · exact timed_endSpurt _ false
    · exact ⟨h.waits, h.silent⟩
  | tick engine =>
    obtain rfl := Option.some.inj hstep
    unfold tick
    have hclocked := clocked p engine
    generalize p.clock engine = r at hclocked
    cases hclocked with
    | idle => exact timed_endSpurt p false
    | waits hplaying hticks => exact ⟨fun _ _ => hticks, h.silent⟩
    | ends => exact timed_endSpurt _ true
    | goesOn link hactive hplaying => exact timed_consume hplaying link
    | starts link first => exact timed_consume rfl link
  | engineStopped =>
    obtain rfl := Option.some.inj hstep
    unfold engineStopped
    split
    · exact timed_endSpurt p true
    · exact h

theorem Running.step (h : p.Running) {e : Event} (hstep : p.step e = some p') : p'.Running :=
  ⟨h.toTimed.step hstep, fun link => (bufferOf_step hstep link).sound (h.sound link)⟩

theorem running_start : Running {} :=
  ⟨⟨fun _ hactive => absurd rfl hactive, Nat.zero_lt_succ _⟩, fun _ => sound_empty⟩

/-- Without another frame, what is left goes down with each tick. -/
theorem ticksLeft_run {es : List Event} (h : p.Running) (hquiet : ∀ e ∈ es, e.enqueues = false)
    (hrun : run step p es = some p') :
    p'.Running ∧ p'.ticksLeft ≤ p.ticksLeft - (es.map Event.ticks).sum := by
  induction es generalizing p with
  | nil =>
    obtain rfl := Option.some.inj hrun
    exact ⟨h, Nat.le_refl _⟩
  | cons e es ih =>
    obtain ⟨q, hstep, hrest⟩ := run_cons.mp hrun
    have hfirst := h.ticksLeft_step (hquiet e List.mem_cons_self) hstep
    obtain ⟨hrunning, hleft⟩ :=
      ih (h.step hstep) (fun e he => hquiet e (List.mem_cons_of_mem _ he)) hrest
    refine ⟨hrunning, ?_⟩
    rw [List.map_cons, List.sum_cons]
    omega

/-! ### Playout -/

/-- After any run: without a drop of a link, the frames played of it have strictly increasing
numbers; every frame that was played was enqueued for the link that held the claim at its tick; and
a claim ends within a number of ticks once nothing is enqueued. -/
theorem playout {es : List Event} (hrun : run step {} es = some p) :
    (∀ link es', (∀ e ∈ es', e ≠ .drop link) → ((trace step p es').filterMap (slotOf link)).Pairwise
      (· < ·)) ∧
    (∀ before t after, trace step {} es = before ++ t :: after → ∀ f, played t = some f →
      t.pre.activeLink = some f.link ∧
        ∃ u ∈ before, ∃ seq : UInt64, seq.toNat = f.seq ∧ u.event = .enqueue f.link seq f.pcm) ∧
    ∀ es' p', (∀ e ∈ es', e.enqueues = false) → run step p es' = some p' →
      releaseTicks ≤ (es'.map Event.ticks).sum → p'.activeLink = none := by
  have hrunning : p.Running :=
    run_invariant Running (fun _ => True) (fun t ht _ h => h.step ht) running_start
      (fun _ _ => trivial) hrun
  refine ⟨fun link es' hdrop => (slots_sorted hrunning.sound hdrop).1,
    fun before t after htrace f hplayed => ?_,
    fun es' p' hquiet hrest hticks => ?_⟩
  · have hfrom := trace_history Enqueued enqueued_step enqueued_start htrace
    obtain ⟨pre, event, post⟩ := t
    cases event with
    | tick engine =>
      obtain ⟨hactive, hframe, _⟩ := playedAt_spec hplayed
      exact ⟨hactive, hfrom f.link f.seq f.pcm hframe⟩
    | enqueue | drop | engineStopped => cases hplayed
  · obtain ⟨hrunning', hleft⟩ := ticksLeft_run hrunning hquiet hrest
    have hle := hrunning.ticksLeft_le
    exact hrunning'.released (by omega)

/-- Frames out of order for a link, and one for another link, which is busy. -/
def talk : List Event :=
  [.enqueue 1 5 [5], .enqueue 2 0 [], .enqueue 1 3 [3], .enqueue 1 (UInt64.ofNat (2 ^ 64 - 1)) [],
    .tick true]

/-- The frame that comes late is not played, and silence ends the claim before the last one. -/
theorem playout_talk :
    ∃ p, run step {} talk = some p ∧ (trace step {} talk).filterMap (slotOf 1) = [3] ∧
      (trace step p [.tick true, .enqueue 1 4 [], .tick true]).filterMap (slotOf 1) = [5] ∧
      ((trace step p [.tick true, .enqueue 1 4 [], .tick true]).filterMap (slotOf 1)).Pairwise
      (· < ·) ∧
      ∀ p', run step p (List.replicate releaseTicks (.tick true)) = some p' →
      p'.activeLink = none := by
  have hrun : run step {} talk = some ((run step {} talk).get rfl) := rfl
  obtain ⟨hsorted, _, hreleased⟩ := playout hrun
  exact ⟨_, hrun, by decide +kernel, by decide +kernel, hsorted 1 _ (by simp),
    fun p' hrest => hreleased _ p' (by simp [Event.enqueues]) hrest (by decide +kernel)⟩

end PTTPlayer

end AeroNyra
