import AeroNyra.PushToTalk.AudioChannel

/-! The opener of frames in the words of the source.  Every difference and every shift of them is
checked, and over any sequence of frames it accepts what a set of counters says. -/

namespace AeroNyra

namespace PTTFrameOpener

/-- A frame as it comes from a link. -/
structure Frame where
  counter : UInt64
  ciphertext : Data
  tag : Data
  aad : Data

inductive Refusal
  | replayed
  | incorrectParameterSize
  | authenticationFailed
  deriving DecidableEq

/-- The opener, with its window in words. -/
structure Words where
  key : Data
  highest : UInt64 := 0
  bitmap : UInt64 := 0
  seenAny : Bool := false

namespace Words

/-- A difference, which traps below zero. -/
def minus? (a b : UInt64) : Option UInt64 := if b ≤ a then some (a - b) else none

/-- A shift by less than the width of the word. -/
def right? (a shift : UInt64) : Option UInt64 := if shift < 64 then some (a >>> shift) else none

def left? (a shift : UInt64) : Option UInt64 := if shift < 64 then some (a <<< shift) else none

def windowSize : UInt64 := 64

variable (c : ChaChaPoly) (o : Words)

/-- Whether the counter is refused as a replay. -/
def checkReplay (counter : UInt64) : Option Bool :=
  if !o.seenAny then some false
  else if o.highest < counter then some false
  else
    (minus? o.highest counter).bind fun diff =>
      if windowSize ≤ diff then some true
      else (right? o.bitmap diff).map fun bits => bits &&& 1 == 1

def commit (counter : UInt64) : Option Words :=
  if !o.seenAny then some { o with seenAny := true, highest := counter, bitmap := 1 }
  else if o.highest < counter then
    (minus? counter o.highest).bind fun shift =>
      (if windowSize ≤ shift then some 0 else left? o.bitmap shift).map fun bits =>
        { o with bitmap := bits ||| 1, highest := counter }
  else
    (minus? o.highest counter).bind fun diff =>
      (left? 1 diff).map fun bit => { o with bitmap := o.bitmap ||| bit }

/-- The plaintext of a frame under a key, where it is authentic. -/
def opened (key : Data) (f : Frame) : Option Data :=
  c.openBox key (PTTSessionCrypto.nonce f.counter.toNat) f.ciphertext f.tag f.aad

/-- The replay check, the box, the authentication, and only then the window. -/
def openFrame (f : Frame) : Option (Words × Except Refusal Data) :=
  (o.checkReplay f.counter).bind fun replays =>
    if replays then some (o, .error .replayed)
    else if f.tag.length ≠ PTTAudioWire.tagBytes then some (o, .error .incorrectParameterSize)
    else
      match opened c o.key f with
      | none => some (o, .error .authenticationFailed)
      | some plaintext => (o.commit f.counter).map fun o => (o, .ok plaintext)

/-- The opener after a sequence of frames, and the counters that it accepted. -/
def openAll (o : Words) : List Frame → Option (Words × List UInt64)
  | [] => some (o, [])
  | f :: rest =>
    (o.openFrame c f).bind fun (next, result) =>
      (openAll next rest).map fun (last, accepted) =>
        (last, match result with
          | .ok _ => f.counter :: accepted
          | .error _ => accepted)

/-! ### The words as numbers -/

/-- The opener with its window in numbers. -/
def numbers : PTTFrameOpener := ⟨o.key, o.highest.toNat, o.bitmap.toBitVec, o.seenAny⟩

theorem minus?_eq {a b : UInt64} (h : b ≤ a) : minus? a b = some (a - b) ∧
    (a - b).toNat = a.toNat - b.toNat :=
  ⟨if_pos h, UInt64.toNat_sub_of_le _ _ h⟩

theorem toNat_lt_of_lt {n : UInt64} (h : n < 64) : n.toNat < 64 := UInt64.lt_iff_toNat_lt.mp h

/-- The last bit of the shifted window. -/
theorem bit_eq {bits diff : UInt64} (h : diff < 64) :
    (bits >>> diff &&& 1 == 1) = bits.toBitVec.getLsbD diff.toNat := by
  have hmod : diff.toNat % 64 = diff.toNat := Nat.mod_eq_of_lt (toNat_lt_of_lt h)
  have hvalue : (bits >>> diff &&& 1).toNat = bits.toNat / 2 ^ diff.toNat % 2 := by
    rw [UInt64.toNat_and, UInt64.toNat_shiftRight, hmod, Nat.shiftRight_eq_div_pow]
    exact Nat.and_one_is_mod _
  rw [BitVec.getLsbD, Nat.testBit_eq_decide_div_mod_eq, Bool.eq_iff_iff, beq_iff_eq,
    decide_eq_true_eq, ← UInt64.toNat_inj, hvalue]
  rfl

theorem toBitVec_shiftLeft {bits shift : UInt64} (h : shift < 64) :
    (bits <<< shift).toBitVec = bits.toBitVec <<< shift.toNat := by
  have hmod : shift.toNat % 64 = shift.toNat := Nat.mod_eq_of_lt (toNat_lt_of_lt h)
  apply BitVec.eq_of_toNat_eq
  rw [BitVec.toNat_shiftLeft]
  have hvalue := UInt64.toNat_shiftLeft bits shift
  rw [hmod] at hvalue
  exact hvalue

variable {o} {counter : UInt64}

theorem checkReplay_eq : o.checkReplay counter = some (o.numbers.replays counter.toNat) := by
  unfold checkReplay replays
  cases hseen : o.seenAny with
  | false => simp [numbers, hseen]
  | true =>
    rw [if_neg (by decide)]
    by_cases hlt : o.highest < counter
    · have hnot : ¬counter.toNat ≤ o.highest.toNat := Nat.not_le.mpr (UInt64.lt_iff_toNat_lt.mp hlt)
      rw [if_pos hlt]
      simp [numbers, hnot]
    · have hle : counter ≤ o.highest := UInt64.not_lt.mp hlt
      have hle' : counter.toNat ≤ o.highest.toNat := UInt64.le_iff_toNat_le.mp hle
      obtain ⟨hminus, hdiff⟩ := minus?_eq hle
      rw [if_neg hlt, hminus, Option.bind_some]
      by_cases hwindow : windowSize ≤ o.highest - counter
      · have hfar : 64 ≤ o.highest.toNat - counter.toNat := by
          rw [← hdiff]
          exact UInt64.le_iff_toNat_le.mp hwindow
        rw [if_pos hwindow]
        simp [numbers, hseen, hle', PTTFrameOpener.windowSize, hfar]
      · have hshort : o.highest - counter < 64 := UInt64.not_le.mp hwindow
        have hnear : ¬64 ≤ o.highest.toNat - counter.toNat := by
          rw [← hdiff]
          exact Nat.not_le.mpr (toNat_lt_of_lt hshort)
        rw [if_neg hwindow, right?, if_pos hshort, Option.map_some, bit_eq hshort, hdiff]
        simp [numbers, hseen, hle', PTTFrameOpener.windowSize, hnear]

/-- A counter that is no replay is committed without an overflow. -/
theorem commit_eq (h : o.numbers.replays counter.toNat = false) :
    ∃ next, o.commit counter = some next ∧ next.numbers = o.numbers.commit counter.toNat := by
  unfold commit PTTFrameOpener.commit
  cases hseen : o.seenAny with
  | false => exact ⟨_, rfl, by simp [numbers, hseen]⟩
  | true =>
    have hnumbers : o.numbers.seenAny = true := hseen
    simp only [hnumbers, Bool.not_true, Bool.false_eq_true, if_false]
    by_cases hlt : o.highest < counter
    · have hlt' : o.numbers.highest < counter.toNat := UInt64.lt_iff_toNat_lt.mp hlt
      obtain ⟨hminus, hdiff⟩ := minus?_eq (UInt64.le_of_lt hlt)
      rw [if_pos hlt, if_pos hlt', hminus, Option.bind_some]
      have hwidth : windowSize ≤ counter - o.highest ↔
          PTTFrameOpener.windowSize ≤ counter.toNat - o.numbers.highest := by
        rw [UInt64.le_iff_toNat_le, hdiff]
        rfl
      by_cases hwindow : windowSize ≤ counter - o.highest
      · rw [if_pos hwindow, if_pos (hwidth.mp hwindow)]
        exact ⟨_, rfl, by simp [numbers, hseen]⟩
      · have hshort : counter - o.highest < 64 := UInt64.not_le.mp hwindow
        have hbits := @toBitVec_shiftLeft o.bitmap _ hshort
        rw [if_neg hwindow, if_neg (mt hwidth.mpr hwindow), left?, if_pos hshort]
        refine ⟨_, rfl, ?_⟩
        rw [hdiff] at hbits
        simp [numbers, hseen, hbits]
    · have hle : counter ≤ o.highest := UInt64.not_lt.mp hlt
      have hle' : counter.toNat ≤ o.highest.toNat := UInt64.le_iff_toNat_le.mp hle
      have hlt' : ¬o.numbers.highest < counter.toNat := Nat.not_lt.mpr hle'
      obtain ⟨hminus, hdiff⟩ := minus?_eq hle
      -- the replay check left the distance within the window
      have hnear : o.highest.toNat - counter.toNat < 64 := by
        by_contra hfar
        have hold : o.numbers.replays counter.toNat = true := by
          simp [replays, numbers, hseen, hle', PTTFrameOpener.windowSize, Nat.not_lt.mp hfar]
        rw [hold] at h
        cases h
      have hshort : o.highest - counter < 64 := by
        rw [UInt64.lt_iff_toNat_lt, hdiff]
        exact hnear
      have hbit := @toBitVec_shiftLeft 1 _ hshort
      rw [if_neg hlt, if_neg hlt', hminus, Option.bind_some, left?, if_pos hshort]
      have hone : BitVec.ofNat 64 (1 <<< (o.highest.toNat - counter.toNat)) =
          1#64 <<< (o.highest.toNat - counter.toNat) := natCast_one_shiftLeft _
      refine ⟨_, rfl, ?_⟩
      rw [hdiff] at hbit
      simp [numbers, hseen, hbit, hone]

/-! ### The set of counters -/

/-- A frame that opens under the key. -/
def Authentic (key : Data) (f : Frame) : Prop := f.tag.length = PTTAudioWire.tagBytes ∧
    (opened c key f).isSome

/-- What is accepted behind the counters `seen`. -/
structure Admitted (key : Data) (seen : Set Nat) (f : Frame) : Prop where
  authentic : Authentic c key f
  new : f.counter.toNat ∉ seen
  near : ∀ n ∈ seen, n < f.counter.toNat + windowSize.toNat

theorem stale_iff {seen : Set Nat} {n : Nat} :
    Stale seen n ↔ ¬(n ∉ seen ∧ ∀ m ∈ seen, m < n + windowSize.toNat) := by
  have hwindow : windowSize.toNat = PTTFrameOpener.windowSize := rfl
  rw [hwindow, Stale, not_and_or, not_not]
  simp

/-- One frame: it is admitted and its counter is one of those seen, or the opener stays as it is. -/
theorem openFrame_spec {seen : Set Nat} (h : o.numbers.Accepted seen) (f : Frame) :
    ∃ next result, o.openFrame c f = some (next, result) ∧ next.key = o.key ∧
      ((∃ plaintext, result = .ok plaintext ∧ opened c o.key f = some plaintext ∧
        Admitted c o.key seen f ∧
          next.numbers.Accepted (insert f.counter.toNat seen)) ∨
        (∃ refusal, result = .error refusal) ∧ ¬Admitted c o.key seen f ∧ next = o) := by
  unfold openFrame
  rw [checkReplay_eq, Option.bind_some]
  cases hreplays : o.numbers.replays f.counter.toNat with
  | true =>
    have hstale := stale_iff.mp (h.replays_iff.mp hreplays)
    exact ⟨o, _, rfl, rfl,
      .inr ⟨⟨_, rfl⟩, fun hadmitted => hstale ⟨hadmitted.new, hadmitted.near⟩, rfl⟩⟩
  | false =>
    have hfresh : f.counter.toNat ∉ seen ∧ ∀ n ∈ seen, n < f.counter.toNat + windowSize.toNat := by
      by_contra hnot
      rw [h.replays_iff.mpr (stale_iff.mpr hnot)] at hreplays
      cases hreplays
    rw [if_neg (by decide)]
    by_cases htag : f.tag.length = PTTAudioWire.tagBytes
    · rw [if_neg (not_not.mpr htag)]
      cases hopened : opened c o.key f with
      | none =>
        refine ⟨o, _, rfl, rfl, .inr ⟨⟨_, rfl⟩, fun hadmitted => ?_, rfl⟩⟩
        have hsome := hadmitted.authentic.2
        rw [hopened] at hsome
        cases hsome
      | some plaintext =>
        obtain ⟨next, hnext, hnumbers⟩ := commit_eq hreplays
        dsimp only
        rw [hnext, Option.map_some]
        have hkey : next.numbers.key = o.key := by
          rw [hnumbers]
          exact key_commit
        refine ⟨next, _, rfl, hkey,
          .inl ⟨plaintext, rfl, rfl, ⟨⟨htag, by rw [hopened]; rfl⟩, hfresh.1, hfresh.2⟩, ?_⟩⟩
        rw [hnumbers]
        exact h.commit _
    · rw [if_pos htag]
      exact ⟨o, _, rfl, rfl, .inr ⟨⟨_, rfl⟩, fun hadmitted => htag hadmitted.authentic.1, rfl⟩⟩

/-- Over a sequence of frames the window holds the counters that were accepted. -/
theorem openAll_spec {seen : Set Nat} (h : o.numbers.Accepted seen) (frames : List Frame) :
    ∃ last accepted, o.openAll c frames = some (last, accepted) ∧ last.key = o.key ∧
      last.numbers.Accepted (seen ∪ {n | ∃ counter ∈ accepted, counter.toNat = n}) := by
  induction frames generalizing o seen with
  | nil => exact ⟨o, [], rfl, rfl, by simpa using h⟩
  | cons f rest ih =>
    obtain ⟨next, result, hframe, hkey, hcases⟩ := openFrame_spec c h f
    rw [openAll, hframe, Option.bind_some]
    rcases hcases with ⟨plaintext, rfl, _, _, hnext⟩ | ⟨⟨refusal, rfl⟩, _, rfl⟩
    · obtain ⟨last, accepted, hrest, hlast, haccepted⟩ := ih hnext
      refine ⟨last, f.counter :: accepted, by simp [hrest], hlast.trans hkey, ?_⟩
      have hset : insert f.counter.toNat seen ∪ {n | ∃ counter ∈ accepted, counter.toNat = n} =
          seen ∪ {n | ∃ counter ∈ f.counter :: accepted, counter.toNat = n} := by
        ext n
        simp only [Set.mem_union, Set.mem_insert_iff, Set.mem_ofPred_eq, List.exists_mem_cons_iff]
        rw [@or_comm (n = f.counter.toNat), or_assoc, eq_comm]
      rwa [hset] at haccepted
    · obtain ⟨last, accepted, hrest, hlast, haccepted⟩ := ih h
      exact ⟨last, accepted, by simp [hrest], hlast, haccepted⟩

end Words

/-- Over every sequence of frames the opener is the set of the counters that it accepted: the next
frame is accepted exactly when it is authentic, its counter is not in the set, and none in the set
is ahead of it by the window or more.  A refused frame leaves the opener as it is, and nothing
overflows. -/
theorem opener_refines (c : ChaChaPoly) (key : Data) (frames : List Frame) :
    ∃ o accepted, Words.openAll c { key } frames = some (o, accepted) ∧
      ∀ f, ∃ next result, o.openFrame c f = some (next, result) ∧
        (result.toBool = true ↔ Words.Authentic c key f ∧ f.counter ∉ accepted ∧
          ∀ counter ∈ accepted, counter.toNat < f.counter.toNat + Words.windowSize.toNat) ∧
        (result.toBool = false → next = o) := by
  have hstart : (Words.numbers { key }).Accepted ∅ := .inl ⟨rfl, rfl⟩
  obtain ⟨o, accepted, hall, hkey, haccepted⟩ := Words.openAll_spec c hstart frames
  rw [Set.empty_union] at haccepted
  refine ⟨o, accepted, hall, fun f => ?_⟩
  obtain ⟨next, result, hframe, _, hcases⟩ := Words.openFrame_spec c haccepted f
  rw [hkey] at hcases
  have hadmitted : Words.Admitted c key {n | ∃ counter ∈ accepted, counter.toNat = n} f ↔
      Words.Authentic c key f ∧ f.counter ∉ accepted ∧
        ∀ counter ∈ accepted, counter.toNat < f.counter.toNat + Words.windowSize.toNat := by
    constructor
    · rintro ⟨hauthentic, hnew, hnear⟩
      exact ⟨hauthentic, fun hmem => hnew ⟨_, hmem, rfl⟩, fun n hn => hnear _ ⟨n, hn, rfl⟩⟩
    · rintro ⟨hauthentic, hnew, hnear⟩
      refine ⟨hauthentic, ?_, ?_⟩
      · rintro ⟨n, hn, hsame⟩
        exact hnew (UInt64.toNat_inj.mp hsame ▸ hn)
      · rintro _ ⟨n, hn, rfl⟩
        exact hnear n hn
  refine ⟨next, result, hframe, ?_⟩
  rw [← hadmitted]
  rcases hcases with ⟨plaintext, rfl, _, hyes, _⟩ | ⟨⟨refusal, rfl⟩, hno, hsame⟩
  · exact ⟨⟨fun _ => hyes, fun _ => rfl⟩, nofun⟩
  · exact ⟨⟨nofun, fun hyes => absurd hyes hno⟩, fun _ => hsame⟩

end PTTFrameOpener

end AeroNyra
