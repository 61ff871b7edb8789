import AeroNyra.Lib.Characters
import AeroNyra.Transport.GiftWraps

/-! Texts and their UTF-8 bytes: what they are decoded from, and how many they are. -/

namespace AeroNyra

/-- The UTF-8 bytes of a text. -/
def Text.bytes (t : Text) : Data := utf8 (String.ofList t)

/-- The text whose UTF-8 bytes these are. -/
def Text.ofBytes? (b : Data) : Option Text := (String.fromUTF8? ⟨b.toArray⟩).map String.toList

theorem Text.ofBytes?_bytes (t : Text) : Text.ofBytes? t.bytes = some t := by
  have hbytes : (⟨t.bytes.toArray⟩ : ByteArray) = (String.ofList t).toByteArray := by
    simp [Text.bytes, utf8]
  rw [Text.ofBytes?, hbytes, String.fromUTF8?, dif_pos (String.isValidUTF8 _)]
  exact congrArg some (String.toList_ofList)

theorem Text.bytes_of_ofBytes? {b : Data} {t : Text} (h : Text.ofBytes? b = some t) :
    t.bytes = b := by
  obtain ⟨s, hs, rfl⟩ := Option.map_eq_some_iff.mp h
  rw [String.fromUTF8?] at hs
  by_cases hvalid : ByteArray.IsValidUTF8 ⟨b.toArray⟩
  · rw [dif_pos hvalid] at hs
    cases hs
    simp [Text.bytes, utf8, String.fromUTF8]
  · rw [dif_neg hvalid] at hs
    cases hs

/-- Texts of ASCII characters. -/
def Text.Ascii (t : Text) : Prop := ∀ c ∈ t, c.toNat < 128

instance (t : Text) : Decidable (Text.Ascii t) :=
    inferInstanceAs (Decidable (∀ c ∈ t, c.toNat < 128))

theorem Text.Ascii.append {s t : Text} (hs : Ascii s) (ht : Ascii t) : Ascii (s ++ t) := fun c hc =>
  (List.mem_append.mp hc).elim (hs c) (ht c)

theorem Text.bytes_cons (c : Char) (t : Text) :
    Text.bytes (c :: t) = utf8 (String.singleton c) ++ Text.bytes t := by
  simp [Text.bytes, utf8, String.ofList_cons]

/-- An ASCII character is one byte. -/
theorem Text.bytes_cons_of_ascii {c : Char} (h : c.toNat < 128) (t : Text) :
    Text.bytes (c :: t) = .ofNat c.toNat :: Text.bytes t := by
  have hone : c.utf8Size = 1 := by
    apply Char.utf8Size_eq_one_iff.mpr
    apply UInt32.le_iff_toNat_le.mpr
    show c.toNat ≤ 127
    omega
  have hbyte : utf8 (String.singleton c) = [.ofNat c.toNat] := by
    show (String.singleton c).toByteArray.data.toList = _
    rw [String.toByteArray_singleton, List.utf8Encode_singleton,
      String.utf8EncodeChar_eq_singleton hone, List.data_toByteArray]
    apply List.cons_eq_cons.mpr
    refine ⟨?_, rfl⟩
    apply UInt8.toNat_inj.mp
    rw [UInt8.toNat_ofNat', UInt32.toNat_toUInt8]
    rfl
  rw [Text.bytes_cons, hbyte]
  rfl

theorem Text.Ascii.length_bytes {t : Text} (h : Ascii t) : t.bytes.length = t.length := by
  induction t with
  | nil => rfl
  | cons c t ih =>
    rw [bytes_cons_of_ascii (h c List.mem_cons_self), List.length_cons, List.length_cons,
      ih fun d hd => h d (List.mem_cons_of_mem _ hd)]

theorem Text.Ascii.bytes_lt {t : Text} (h : Ascii t) : ∀ b ∈ t.bytes, b.toNat < 128 := by
  induction t with
  | nil => nofun
  | cons c t ih =>
    have hc := h c List.mem_cons_self
    intro b hb
    rw [bytes_cons_of_ascii hc] at hb
    rcases List.mem_cons.mp hb with rfl | hb
    · rw [UInt8.toNat_ofNat']
      omega
    · exact ih (fun d hd => h d (List.mem_cons_of_mem _ hd)) b hb

theorem Text.bytes_injective {s t : Text} (h : s.bytes = t.bytes) : s = t := by
  have hs := ofBytes?_bytes s
  rw [h, ofBytes?_bytes] at hs
  exact (Option.some.inj hs).symm

theorem Text.toNat_ofNat {n : Nat} (h : n < 128) : (Char.ofNat n).toNat = n := by
  have hvalid : n.isValidChar := .inl (by omega)
  rw [Char.ofNat, dif_pos hvalid]
  rfl

/-- Bytes below 128 are those of an ASCII text. -/
theorem Text.exists_ascii {bytes : Data} (h : ∀ b ∈ bytes, b.toNat < 128) :
    ∃ t : Text, Ascii t ∧ t.bytes = bytes := by
  induction bytes with
  | nil => exact ⟨[], nofun, rfl⟩
  | cons b bytes ih =>
    have hb := h b List.mem_cons_self
    have hchar := toNat_ofNat hb
    obtain ⟨t, ht, rfl⟩ := ih fun c hc => h c (List.mem_cons_of_mem _ hc)
    refine ⟨Char.ofNat b.toNat :: t, fun c hc => ?_, ?_⟩
    · rcases List.mem_cons.mp hc with rfl | hc
      · omega
      · exact ht c hc
    · rw [bytes_cons_of_ascii (by omega), hchar, UInt8.ofNat_toNat]

theorem Text.ascii_of_bytes {t : Text} (h : ∀ b ∈ t.bytes, b.toNat < 128) : Ascii t := by
  obtain ⟨s, hs, hbytes⟩ := exists_ascii h
  rwa [bytes_injective hbytes] at hs

end AeroNyra
