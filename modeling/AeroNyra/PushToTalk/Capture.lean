import AeroNyra.PushToTalk.Receiver

/-! The sending half of live audio: the layout that frames are packed in, the sealer with its
counter, and what the capture hands to the link. -/

namespace AeroNyra

/-! ### The wire -/

namespace PTTAudioWire

def aad (seq : Nat) : Data := bigEndianBytes seqBytes seq

def pack (seq : Nat) (ciphertext tag : Data) :
    Data := bigEndianBytes seqBytes seq ++ ciphertext ++ tag

theorem unpack_pack {seq : Nat} {ciphertext tag : Data} (hseq : seq < 2 ^ 64)
    (htag : tag.length = tagBytes) :
    unpack (pack seq ciphertext tag) = some (seq, ciphertext, tag) := by
  have hhead := length_bigEndianBytes seqBytes seq
  have hlength : (pack seq ciphertext tag).length = seqBytes + ciphertext.length + tagBytes := by
    rw [pack, List.length_append, List.length_append, hhead, htag]
  have hnumber : number ((pack seq ciphertext tag).take seqBytes) = seq := by
    rw [pack, List.append_assoc, List.take_left' hhead]
    exact number_bigEndianBytes hseq
  have hcipher : ((pack seq ciphertext tag).drop seqBytes).take
      ((pack seq ciphertext tag).length - seqBytes - tagBytes) = ciphertext := by
    rw [hlength, pack, List.append_assoc, List.drop_left' hhead]
    exact List.take_left' (by omega)
  have htail : (pack seq ciphertext tag).drop ((pack seq ciphertext tag).length - tagBytes) =
    tag := by
    rw [hlength, pack]
    exact List.drop_left' (by rw [List.length_append, hhead]; omega)
  rw [unpack, if_pos (by omega), hnumber, hcipher, htail]

theorem seq_lt_of_unpack {frame ciphertext tag : Data} {seq : Nat}
    (h : unpack frame = some (seq, ciphertext, tag)) : seq < 2 ^ 64 := by
  obtain ⟨hlength, h⟩ := Option.ite_none_right_eq_some.mp h
  cases h
  have hlt := number_lt (frame.take seqBytes)
  rwa [List.length_take, Nat.min_eq_left (by omega)] at hlt

theorem eq_pack_of_unpack {frame ciphertext tag : Data} {seq : Nat}
    (h : unpack frame = some (seq, ciphertext, tag)) : frame = pack seq ciphertext tag := by
  obtain ⟨hlength, h⟩ := Option.ite_none_right_eq_some.mp h
  cases h
  have hhead : bigEndianBytes seqBytes (number (frame.take seqBytes)) = frame.take seqBytes := by
    have hbytes := bigEndianBytes_number (frame.take seqBytes)
    rwa [List.length_take, Nat.min_eq_left (by omega)] at hbytes
  have htail : frame.drop (frame.length - tagBytes) =
      (frame.drop seqBytes).drop (frame.length - seqBytes - tagBytes) := by
    rw [List.drop_drop]
    congr 1
    omega
  rw [pack, hhead, htail, List.append_assoc, List.take_append_drop, List.take_append_drop]

theorem unpack_eq_none {frame : Data} : unpack frame = none ↔
    frame.length < seqBytes + tagBytes := by
  unfold unpack
  split
  · simp
    omega
  · simp
    omega

end PTTAudioWire

/-! ### The sender -/

/-- ChaCha20-Poly1305: a plaintext is sealed to a ciphertext and a tag. -/
structure ChaChaPoly where
  sealBox (key nonce plaintext aad : Data) : Data × Data
  openBox (key nonce ciphertext tag aad : Data) : Option Data

namespace PTTSessionCrypto

def nonce (counter : Nat) : Data := List.replicate 4 0 ++ bigEndianBytes 8 counter

theorem nonce_inj {a b : Nat} (ha : a < 2 ^ 64) (hb : b < 2 ^ 64)
    (h : nonce a = nonce b) : a = b := by
  have hbytes : bigEndianBytes 8 a = bigEndianBytes 8 b := List.append_cancel_left h
  have hnumber := congrArg number hbytes
  rwa [number_bigEndianBytes (by omega), number_bigEndianBytes (by omega)] at hnumber

end PTTSessionCrypto

/-- The opening of frames with the cipher; every frame authenticates its sequence number. -/
def ChaChaPoly.session (c : ChaChaPoly) (initiatorToResponder : Data → Data) :
    PTTSessionCrypto where
  initiatorToResponder := initiatorToResponder
  openSealed key counter ciphertext tag :=
    c.openBox key (PTTSessionCrypto.nonce counter) ciphertext tag (PTTAudioWire.aad counter)

structure PTTFrameSealer where
  key : Data
  counter : Nat := 0

namespace PTTFrameSealer

/-- One frame under the current counter; none at the ceiling, where the source throws. -/
def sealFrame (c : ChaChaPoly) (s : PTTFrameSealer) (plaintext aad : Data) :
    Option (PTTFrameSealer × Nat × Data × Data) :=
  if s.counter = 2 ^ 64 - 1 then none
  else
    let box := c.sealBox s.key (PTTSessionCrypto.nonce s.counter) plaintext aad
    some ({ s with counter := s.counter + 1 }, s.counter, box.1, box.2)

end PTTFrameSealer

/-- A frame that the capture handed to the link, with what it was sealed from. -/
structure SentFrame where
  seq : Nat
  opus : Data
  bytes : Data

namespace PTTCaptureEngine

/-- One captured frame, already encoded. -/
def capture (c : ChaChaPoly) (s : PTTFrameSealer) (opus : Data) :
    PTTFrameSealer × Option SentFrame :=
  match s.sealFrame c opus (PTTAudioWire.aad s.counter) with
  | none => (s, none)
  | some (s', counter, ciphertext, tag) =>
    (s', some ⟨counter, opus, PTTAudioWire.pack counter ciphertext tag⟩)

def captureAll (c : ChaChaPoly) : PTTFrameSealer → List Data → List SentFrame
  | _, [] => []
  | s, opus :: rest => (capture c s opus).2.toList ++ captureAll c (capture c s opus).1 rest

/-- The frame is what the cipher makes of its number and its audio. -/
def SealedUnder (c : ChaChaPoly) (key : Data) (x : SentFrame) : Prop :=
  let box := c.sealBox key (PTTSessionCrypto.nonce x.seq) x.opus (PTTAudioWire.aad x.seq)
  x.bytes = PTTAudioWire.pack x.seq box.1 box.2

variable {c : ChaChaPoly} {s : PTTFrameSealer} {frames : List Data} {x y : SentFrame}

theorem capture_cases (c : ChaChaPoly) (s : PTTFrameSealer) (opus : Data) :
    (s.counter = 2 ^ 64 - 1 ∧ capture c s opus = (s, none)) ∨
      ∃ x, x.seq = s.counter ∧ x.opus = opus ∧ SealedUnder c s.key x ∧ s.counter ≠ 2 ^ 64 - 1 ∧
        capture c s opus = ({ s with counter := s.counter + 1 }, some x) := by
  unfold capture PTTFrameSealer.sealFrame
  by_cases hceiling : s.counter = 2 ^ 64 - 1
  · rw [if_pos hceiling]
    exact .inl ⟨hceiling, rfl⟩
  · rw [if_neg hceiling]
    refine .inr ⟨⟨s.counter, opus, _⟩, rfl, rfl, ?_, hceiling, rfl⟩
    rfl

theorem captureAll_spec (hstart : s.counter < 2 ^ 64) (hx : x ∈ captureAll c s frames) :
    s.counter ≤ x.seq ∧ x.seq < 2 ^ 64 - 1 ∧ SealedUnder c s.key x ∧ x.opus ∈ frames := by
  induction frames generalizing s with
  | nil => cases hx
  | cons opus rest ih =>
    rw [captureAll] at hx
    rcases capture_cases c s opus with ⟨_, heq⟩ | ⟨y, hseq, hopus, hsealed, hceiling, heq⟩
    · rw [heq] at hx
      obtain ⟨hle, hlt, hunder, hmem⟩ := ih hstart hx
      exact ⟨hle, hlt, hunder, List.mem_cons_of_mem _ hmem⟩
    · rw [heq] at hx
      rcases List.mem_cons.mp hx with rfl | hx
      · exact ⟨Nat.le_of_eq hseq.symm, by omega, hsealed, hopus ▸ List.mem_cons_self⟩
      · obtain ⟨hle, hlt, hunder, hmem⟩ := ih (s := { s with counter := s.counter + 1 })
          (by dsimp only; omega) hx
        exact ⟨Nat.le_of_succ_le hle, hlt, hunder, List.mem_cons_of_mem _ hmem⟩

/-- What is sealed under a key unpacks to its number and its box. -/
theorem SealedUnder.unpack {key : Data} (h : SealedUnder c key x) (hseq : x.seq < 2 ^ 64)
    (htag : ∀ key nonce plaintext aad,
      (c.sealBox key nonce plaintext aad).2.length = PTTAudioWire.tagBytes) :
    PTTAudioWire.unpack x.bytes = some (x.seq,
      c.sealBox key (PTTSessionCrypto.nonce x.seq) x.opus (PTTAudioWire.aad x.seq)) := by
  rw [h]
  exact PTTAudioWire.unpack_pack hseq (htag _ _ _ _)

/-- A sequence number has one frame. -/
theorem eq_of_seq_eq (hstart : s.counter < 2 ^ 64) (hx : x ∈ captureAll c s frames)
    (hy : y ∈ captureAll c s frames) (hseq : x.seq = y.seq) : x = y := by
  induction frames generalizing s with
  | nil => cases hx
  | cons opus rest ih =>
    rw [captureAll] at hx hy
    rcases capture_cases c s opus with ⟨_, heq⟩ | ⟨z, hz, _, _, hceiling, heq⟩
    · rw [heq] at hx hy
      exact ih hstart hx hy
    · rw [heq] at hx hy
      have hnext : ({ s with counter := s.counter + 1 } : PTTFrameSealer).counter < 2 ^ 64 := by
        dsimp only
        omega
      rcases List.mem_cons.mp hx with rfl | hx
      · rcases List.mem_cons.mp hy with rfl | hy
        · rfl
        · have hlater := (captureAll_spec hnext hy).1
          dsimp only at hlater
          omega
      · rcases List.mem_cons.mp hy with rfl | hy
        · have hlater := (captureAll_spec hnext hx).1
          dsimp only at hlater
          omega
        · exact ih hnext hx hy

end PTTCaptureEngine

end AeroNyra
