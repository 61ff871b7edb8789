import AeroNyra.Lib.Interleave
import AeroNyra.PushToTalk.Player

/-! The jitter buffer over any sequence of pushes, pops and flushes: what it holds, and what a push
reports. -/

namespace AeroNyra

namespace PTTJitterBuffer

open Interleave

variable {b : PTTJitterBuffer} {seq : Nat} {pcm : Pcm}

/-! ### One push -/

theorem length_insert {frames : Dict Nat Pcm} (h : frames.lookup seq = none) :
    (AList.insert seq pcm frames).keys.length = frames.keys.length + 1 := by
  have hnew : seq ∉ frames.keys := fun hmem => by
    have := AList.lookup_isSome.mpr hmem
    simp [h] at this
  rw [AList.keys_insert, List.erase_of_not_mem hnew, List.length_cons]

theorem length_erase {frames : Dict Nat Pcm} (h : seq ∈ frames.keys) :
    (AList.erase seq frames).keys.length + 1 = frames.keys.length := by
  have hpos := List.length_pos_of_mem h
  rw [AList.keys_erase, List.length_erase_of_mem h]
  omega

theorem dropOldest_of_room {frames : Dict Nat Pcm} (h : frames.keys.length ≤ capacity)
    (turns : Nat) :
    dropOldest turns frames = frames := by
  cases turns with
  | zero => rfl
  | succ turns => rw [dropOldest, if_neg (by omega)]

/-- One frame too many: the loop drops the oldest one. -/
theorem dropOldest_of_full {frames : Dict Nat Pcm} (h : frames.keys.length = capacity + 1)
    (turns : Nat) :
    ∃ oldest, frames.keys.min? = some oldest ∧ dropOldest (turns + 1) frames =
    AList.erase oldest frames := by
  cases hmin : frames.keys.min? with
  | none =>
    rw [List.min?_eq_none_iff] at hmin
    rw [hmin] at h
    cases h
  | some oldest =>
    have hlength := length_erase (List.min?_mem hmin)
    refine ⟨oldest, rfl, ?_⟩
    rw [dropOldest, if_pos (by omega), hmin]
    exact dropOldest_of_room (by omega) turns

/-- What a push into a buffer within its capacity comes to. -/
inductive Pushed (b : PTTJitterBuffer) (seq : Nat) (pcm : Pcm) : PTTJitterBuffer × Bool → Prop
  | late (hlate : b.late seq = true) : Pushed b seq pcm (b, false)
  | duplicate (hheld : b.Holds seq) : Pushed b seq pcm (b, false)
  | room (hlate : b.late seq = false) (hnew : b.frames.lookup seq = none)
      (hroom : b.frames.keys.length < capacity) :
    Pushed b seq pcm ({ b with frames := AList.insert seq pcm b.frames }, true)
  | full (hlate : b.late seq = false) (hnew : b.frames.lookup seq = none)
      (hfull : b.frames.keys.length = capacity)
    (oldest : Nat) (holdest : (AList.insert seq pcm b.frames).keys.min? = some oldest) :
    Pushed b seq pcm ({ b with frames := AList.erase oldest (AList.insert seq pcm b.frames) }, true)

theorem pushed (h : b.frames.keys.length ≤ capacity) (seq : Nat) (pcm : Pcm) :
    Pushed b seq pcm (b.push seq pcm) := by
  unfold push
  split
  · rename_i hlate
    exact .late hlate
  · rename_i hlate
    rw [Bool.not_eq_true] at hlate
    split
    · rename_i hheld
      exact .duplicate hheld
    · rename_i hnew
      rw [Bool.not_eq_true, Option.isSome_eq_false_iff, Option.isNone_iff_eq_none] at hnew
      have hlength : (AList.insert seq pcm b.frames).keys.length = b.frames.keys.length + 1 :=
        length_insert hnew
      dsimp only
      rcases Nat.lt_or_eq_of_le h with hroom | hfull
      · rw [dropOldest_of_room (by omega)]
        exact .room hlate hnew hroom
      · obtain ⟨oldest, holdest, hdropped⟩ :=
          dropOldest_of_full (hlength.trans (by omega)) b.frames.keys.length
        rw [hlength, hdropped]
        exact .full hlate hnew hfull oldest holdest

/-! ### What is held -/

/-- Within the capacity, and nothing of a slot that was played. -/
structure Sound (b : PTTJitterBuffer) : Prop where
  bounded : b.frames.keys.length ≤ capacity
  fresh : ∀ seq, b.Holds seq → b.late seq = false

theorem sound_empty : Sound {} := ⟨Nat.zero_le _, nofun⟩

theorem Sound.push (h : b.Sound) (seq : Nat) (pcm : Pcm) : (b.push seq pcm).1.Sound := by
  refine ⟨?_, fun j hj => ?_⟩
  · have hpushed := pushed h.bounded seq pcm
    generalize b.push seq pcm = result at hpushed
    cases hpushed with
    | late | duplicate => exact h.bounded
    | room hlate hnew hroom =>
      have hlength : (AList.insert seq pcm b.frames).keys.length = b.frames.keys.length + 1 :=
        length_insert hnew
      dsimp only
      omega
    | full hlate hnew hfull oldest holdest =>
      have hlength : (AList.insert seq pcm b.frames).keys.length = b.frames.keys.length + 1 :=
        length_insert hnew
      have herased := length_erase (List.min?_mem holdest)
      dsimp only
      omega
  · have hgate : (b.push seq pcm).1.late j = b.late j := by rw [late, late, push_lastPlayed]
    rw [hgate]
    rcases holds_of_push hj with hheld | ⟨rfl, hkept⟩
    · exact h.fresh j hheld
    · unfold PTTJitterBuffer.push at hkept
      split at hkept
      · cases hkept
      · rename_i hlate
        exact Bool.not_eq_true _ ▸ hlate

/-- What a pop leaves is later than its slot. -/
theorem lt_of_holds_pop {expectedSeq : Nat} (h : (b.pop expectedSeq).1.Holds seq) :
    expectedSeq < seq := by
  simp only [Holds, pop, Dict.lookup_filterEntries, Option.isSome_iff_exists,
    Option.filter_eq_some_iff] at h
  obtain ⟨pcm, _, hlt⟩ := h
  simpa using hlt

/-- A pop leaves no more frames than there were, and fewer when it takes one. -/
theorem length_pop (b : PTTJitterBuffer) (expectedSeq : Nat) :
    (b.pop expectedSeq).1.frames.keys.length ≤ b.frames.keys.length ∧
      (b.Holds expectedSeq → (b.pop expectedSeq).1.frames.keys.length < b.frames.keys.length) := by
  have hkeys : (b.pop expectedSeq).1.frames.keys.length =
      (b.frames.entries.filter fun e => expectedSeq < e.1).length := by
    simp [pop, Dict.filterEntries, AList.keys, List.keys]
  have hall : b.frames.keys.length = b.frames.entries.length := by simp [AList.keys, List.keys]
  rw [hkeys, hall]
  refine ⟨List.length_filter_le _ _, fun hheld => ?_⟩
  obtain ⟨e, he, heq⟩ := List.mem_map.mp (AList.lookup_isSome.mp hheld)
  refine List.length_filter_lt_length_iff_exists.mpr ⟨e, he, ?_⟩
  simp [heq]

theorem Sound.pop (h : b.Sound) (expectedSeq : Nat) : (b.pop expectedSeq).1.Sound := by
  refine ⟨(length_pop b expectedSeq).1.trans h.bounded, fun seq hseq => ?_⟩
  have hlt := lt_of_holds_pop hseq
  have hfresh := h.fresh seq (holds_of_pop hseq)
  unfold late at hfresh ⊢
  cases hlast : b.lastPlayed with
  | none => simp [PTTJitterBuffer.pop, hlast, hlt]
  | some last =>
    rw [hlast] at hfresh
    simp only [Option.any_some, decide_eq_false_iff_not, not_le] at hfresh
    simp [PTTJitterBuffer.pop, hlast, hlt, hfresh]

theorem sound_flush (b : PTTJitterBuffer) : b.flush.Sound :=
  ⟨Nat.zero_le _, fun seq hseq => absurd hseq (not_holds_flush seq)⟩

/-! ### What an operation adds and passes -/

theorem lookup_of_dropOldest {turns : Nat} {frames : Dict Nat Pcm}
    (h : (dropOldest turns frames).lookup seq = some pcm) :
    frames.lookup seq = some pcm := by
  induction turns generalizing frames with
  | zero => exact h
  | succ turns ih =>
    unfold dropOldest at h
    split at h
    · split at h
      · have herased := ih h
        rw [Dict.lookup_erase] at herased
        exact (Option.ite_none_left_eq_some.mp herased).2
      · exact h
    · exact h

/-- A push adds its frame, and no other. -/
theorem lookup_of_push {j : Nat} {held : Pcm} (h : (b.push seq pcm).1.frames.lookup j = some held) :
    b.frames.lookup j = some held ∨ (j = seq ∧ held = pcm) := by
  unfold push at h
  split at h
  · exact .inl h
  · split at h
    · exact .inl h
    · have hinserted := lookup_of_dropOldest h
      rw [Dict.lookup_insert] at hinserted
      split at hinserted
      · rename_i hj
        exact .inr ⟨hj, (Option.some.inj hinserted).symm⟩
      · exact .inl hinserted

theorem lookup_of_pop {expectedSeq j : Nat} (h : (b.pop expectedSeq).1.frames.lookup j = some pcm) :
    b.frames.lookup j = some pcm := by
  simp only [pop, Dict.lookup_filterEntries, Option.filter_eq_some_iff] at h
  exact h.1

/-- The slot of a pop has passed, and those that had passed before. -/
theorem late_pop {expectedSeq : Nat} (h : b.late seq = true ∨ seq = expectedSeq) :
    (b.pop expectedSeq).1.late seq = true := by
  have hgate : (b.pop expectedSeq).1.late seq =
    decide (seq ≤ max (b.lastPlayed.getD expectedSeq) expectedSeq) := rfl
  rw [hgate, decide_eq_true_eq]
  rcases h with hlate | rfl
  · unfold late at hlate
    cases hlast : b.lastPlayed with
    | none => simp [hlast] at hlate
    | some last =>
      have hle : seq ≤ last := by simpa [hlast] using hlate
      rw [Option.getD_some]
      omega
  · exact le_max_right _ _

/-- The frame that a pop takes was held. -/
theorem lookup_of_frame {expectedSeq : Nat} (h : (b.pop expectedSeq).2 = .frame pcm) :
    b.frames.lookup expectedSeq = some pcm := by
  unfold pop at h
  dsimp only at h
  split at h
  · rename_i hframe
    rw [hframe, Pop.frame.inj h]
  · split at h <;> cases h

/-! ### What is reported -/

/-- A push that is not late meets a full buffer whose frames are all later. -/
def Evicts (b : PTTJitterBuffer) (seq : Nat) : Prop :=
  b.late seq = false ∧ b.frames.keys.length = capacity ∧ ∀ j, b.Holds j → seq < j

/-- A push reports that it kept the frame exactly if it brought it into the buffer. -/
def Reports (b : PTTJitterBuffer) (seq : Nat) (pcm : Pcm) : Prop :=
  (b.push seq pcm).2 = true ↔ b.frames.lookup seq = none ∧
  (b.push seq pcm).1.frames.lookup seq = some pcm

/-- The oldest of the frames with a new one is the new one exactly if it is older than all
others. -/
theorem oldest_eq_iff {oldest : Nat} (hnew : b.frames.lookup seq = none)
    (holdest : (AList.insert seq pcm b.frames).keys.min? = some oldest) :
    oldest = seq ↔ ∀ j, b.Holds j → seq < j := by
  obtain ⟨hmem, hle⟩ := List.min?_eq_some_iff.mp holdest
  constructor
  · rintro rfl j hj
    have hne : j ≠ oldest := by
      rintro rfl
      rw [Holds, hnew] at hj
      cases hj
    have hkey : j ∈ (AList.insert oldest pcm b.frames).keys :=
      AList.mem_keys.mp ((AList.mem_insert _).mpr (.inr (AList.lookup_isSome.mp hj)))
    have hjle := hle j hkey
    omega
  · intro hall
    have hself : seq ∈ (AList.insert seq pcm b.frames).keys :=
      AList.mem_keys.mp ((AList.mem_insert _).mpr (.inl rfl))
    have hseq := hle seq hself
    rcases (AList.mem_insert _).mp (AList.mem_keys.mpr hmem) with heq | hheld
    · exact heq
    · have hlt := hall oldest (AList.lookup_isSome.mpr hheld)
      omega

theorem reports_iff (h : b.Sound) (seq : Nat) (pcm : Pcm) : b.Reports seq pcm ↔ ¬b.Evicts seq := by
  unfold Reports
  have hpushed := pushed h.bounded seq pcm
  generalize b.push seq pcm = result at hpushed ⊢
  cases hpushed with
  | late hlate =>
    refine iff_of_true ⟨fun hstored => ?_, fun hboth => ?_⟩ fun hevicts => ?_
    · cases hstored
    · rw [hboth.1] at hboth
      cases hboth.2
    · rw [hevicts.1] at hlate
      cases hlate
  | duplicate hheld =>
    refine iff_of_true ⟨fun hstored => ?_, fun hboth => ?_⟩ fun hevicts => ?_
    · cases hstored
    · rw [Holds, hboth.1] at hheld
      cases hheld
    · exact absurd (hevicts.2.2 seq hheld) (Nat.lt_irrefl seq)
  | room hlate hnew hroom =>
    refine iff_of_true ⟨fun _ => ⟨hnew, ?_⟩, fun _ => rfl⟩ fun hevicts => ?_
    · exact (Dict.lookup_insert _ _ _ _).trans (if_pos rfl)
    · have hfull := hevicts.2.1
      omega
  | full hlate hnew hfull oldest holdest =>
    have hkept : AList.lookup seq (AList.erase oldest (AList.insert seq pcm b.frames)) = some pcm ↔
      oldest ≠ seq := by
      rw [Dict.lookup_erase, Dict.lookup_insert, if_pos rfl]
      split
      · rename_i heq
        exact iff_of_false (fun hnone => by cases hnone) fun hne => hne heq.symm
      · rename_i hne
        exact iff_of_true rfl (Ne.symm hne)
    have hevicts : b.Evicts seq ↔ oldest = seq :=
      ⟨fun hevicts => (oldest_eq_iff hnew holdest).mpr hevicts.2.2,
        fun heq => ⟨hlate, hfull, (oldest_eq_iff hnew holdest).mp heq⟩⟩
    rw [hevicts, ← ne_eq, ← hkept]
    exact ⟨fun hreports => (hreports.mp rfl).2, fun hheld => ⟨fun _ => ⟨hnew, hheld⟩, fun _ => rfl⟩⟩

/-- A gap is a slot without its frame, and with a later one. -/
theorem pop_eq_gap_iff (expectedSeq : Nat) :
    (b.pop expectedSeq).2 = .gap ↔ b.frames.lookup expectedSeq = none ∧ ∃ seq, expectedSeq < seq ∧
    b.Holds seq := by
  cases hlookup : b.frames.lookup expectedSeq with
  | some pcm => simp [pop, hlookup]
  | none =>
    have hempty : (b.frames.filterEntries fun seq _ => expectedSeq < seq).keys.isEmpty = false ↔
        ∃ seq, expectedSeq < seq ∧ b.Holds seq := by
      rw [List.isEmpty_eq_false_iff_exists_mem]
      refine exists_congr fun seq => ?_
      rw [← AList.mem_keys, ← AList.lookup_isSome, Dict.lookup_filterEntries, Holds]
      cases b.frames.lookup seq with
      | none => simp
      | some pcm => simp [Option.filter]
    rw [← hempty]
    simp [pop, hlookup]

/-! ### Any sequence -/

inductive Event
  | push (seq : UInt64) (pcm : Pcm)
  | pop (expectedSeq : UInt64)
  | flush

def step (b : PTTJitterBuffer) : Event → Option PTTJitterBuffer
  | .push seq pcm => some (b.push seq.toNat pcm).1
  | .pop expectedSeq => some (b.pop expectedSeq.toNat).1
  | .flush => some b.flush

theorem Sound.step {b' : PTTJitterBuffer} (h : b.Sound) {e : Event} (hstep : b.step e = some b') :
    b'.Sound := by
  cases e with
  | push seq pcm => exact Option.some.inj hstep ▸ h.push seq.toNat pcm
  | pop expectedSeq => exact Option.some.inj hstep ▸ h.pop expectedSeq.toNat
  | flush => exact Option.some.inj hstep ▸ sound_flush b

/-- What is accounted for at a step: a push reports what it did, the buffer is within its capacity
and holds nothing that was played, and a pop reports the gaps. -/
structure Accounts (t : Transition PTTJitterBuffer Event) : Prop where
  reports : ∀ seq pcm, t.event = .push seq pcm → t.pre.Reports seq.toNat pcm
  sound : t.post.Sound
  gaps : ∀ expectedSeq, t.event = .pop expectedSeq → ((t.pre.pop expectedSeq.toNat).2 = .gap ↔
    t.pre.frames.lookup expectedSeq.toNat = none ∧ ∃ seq, expectedSeq.toNat < seq ∧ t.pre.Holds seq)

/-- All is accounted for but a frame that is dropped as the oldest by its own push, which is
reported as kept. -/
theorem accounts_iff (es : List Event) :
    ((∀ t ∈ trace step {} es, Accounts t) ↔
      ∀ t ∈ trace step {} es, ∀ seq pcm, t.event = .push seq pcm → ¬t.pre.Evicts seq.toNat) ∧
    ∀ t ∈ trace step {} es, t.post.Sound := by
  have hkeep : ∀ t : Transition PTTJitterBuffer Event, step t.pre t.event = some t.post →
    t.pre.Sound → t.post.Sound :=
    fun t hstep h => h.step hstep
  refine ⟨forall_trace_iff_of_invariant hkeep sound_empty fun t hstep h => ?_, fun t ht =>
    hkeep t (step_of_mem_trace ht) (trace_invariant hkeep sound_empty ht)⟩
  refine ⟨fun haccounts seq pcm hpush => (reports_iff h seq.toNat pcm).mp
    (haccounts.reports seq pcm hpush),
    fun hkept => ⟨fun seq pcm hpush => ?_, h.step hstep, fun expectedSeq _ =>
      pop_eq_gap_iff expectedSeq.toNat⟩⟩
  exact (reports_iff h seq.toNat pcm).mpr (hkept seq pcm hpush)

/-- A full buffer, and a frame that is older than all in it. -/
def tooOld : List Event := (List.range 8).map (fun i => .push (UInt64.ofNat (10 + i)) []) ++
    [.push 9 []]

/-- The frame is reported as kept, and it is not there. -/
theorem accounts_not : ¬∀ t ∈ trace step {} tooOld, Accounts t := by
  intro h
  have hlast : (trace step {} tooOld)[8]? = some ⟨_, _, _⟩ := rfl
  have hreports := (h _ (List.mem_of_getElem? hlast)).reports 9 [] rfl
  have hheld := (hreports.mp rfl).2
  cases hheld

end PTTJitterBuffer

end AeroNyra
