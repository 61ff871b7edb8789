import AeroNyra.Nostr.Bech32

/-! The strings of Bech32, and keys as such strings.  A string stands for a key exactly if its
lowercase form is the encoding of the key and its letters are all of one case, and no other symbol
fits in the place of one. -/

namespace AeroNyra

namespace Bech32

/-! ### Strings -/

def charset : Text := "qpzry9x8gf2tvdw0s3jn54khce6mua7l".toList

/-- A symbol that the alphabet does not have traps. -/
def encode (hrp : Text) (data : Data) : Access Empty Text :=
  (data ++ createChecksum hrp data).foldlM
    (fun s d => do return s ++ [← Access.inRange charset[d.toNat]?]) (hrp ++ ['1'])

/-- `lastIndex(where:)` -/
def lastIndex {α : Type} (p : α → Bool) : List α → Option Nat
  | [] => none
  | a :: rest =>
    match lastIndex p rest with
    | some i => some (i + 1)
    | none => if p a then some 0 else none

/-- The place of a character in the alphabet. -/
def symbolOf (u : Unicode) (c : Text) : Option UInt8 :=
    (charset.findIdx? fun d => u.Equal [d] c).map .ofNat

/-- Texts of no mixed case. -/
def OneCase (u : Unicode) (str : Text) : Prop := u.Equal str (u.lowercased str) ∨
    u.Equal str (u.uppercased str)

instance (u : Unicode) (str : Text) : Decidable (OneCase u str) :=
    inferInstanceAs (Decidable (_ ∨ _))

def decode (u : Unicode) (str : Text) : Option (Text × Data) := do
  guard (OneCase u str)
  let s := u.split (u.lowercased str)
  let sep ← lastIndex (fun c => u.Equal c ['1']) s
  let hrp := (s.take sep).flatten
  let dataPart := s.drop (sep + 1)
  guard (hrp ≠ [] ∧ dataPart.length ≥ 6)
  let data ← dataPart.mapM (symbolOf u)
  guard (verifyChecksum hrp data)
  return (hrp, data.take (data.length - 6))

end Bech32

namespace NIP19

open Bech32

def encode32 (key : Data) (hrp : Text) : Access Empty (Option Text) :=
  if key.length = 32 then
    match convertBits eightToFive key true with
    | some five => do return some (← encode hrp five)
    | none => return none
  else return none

def decode32 (u : Unicode) (s expected : Text) : Option Data := do
  let (hrp, data) ← decode u s
  guard (u.Equal hrp expected)
  let bytes ← convertBits fiveToEight data false
  guard (bytes.length = 32)
  return bytes

def npub (key : Data) : Access Empty (Option Text) := encode32 key "npub".toList

def nsec (key : Data) : Access Empty (Option Text) := encode32 key "nsec".toList

def publicKey (u : Unicode) (s : Text) : Option Data := decode32 u s "npub".toList

def secretKey (u : Unicode) (s : Text) : Option Data := decode32 u s "nsec".toList

end NIP19

namespace Bech32

/-! ### Letters and digits -/

/-- The scalars of an encoding. -/
def Plain (c : Char) : Prop := c.isLower ∨ c.isDigit

instance (c : Char) : Decidable (Plain c) := inferInstanceAs (Decidable (_ ∨ _))

theorem isLower_iff {c : Char} : c.isLower ↔ 97 ≤ c.toNat ∧ c.toNat ≤ 122 := by
  delta Char.isLower
  simp [UInt32.le_iff_toNat_le]

theorem isDigit_iff {c : Char} : c.isDigit ↔ 48 ≤ c.toNat ∧ c.toNat ≤ 57 := by
  delta Char.isDigit
  simp [UInt32.le_iff_toNat_le]

theorem Plain.ascii {c : Char} (h : Plain c) : c.toNat < 128 := by
  rw [Plain, isLower_iff, isDigit_iff] at h
  omega

/-- What holds of every ASCII scalar. -/
theorem forall_ascii {p : Char → Prop} (h : ∀ n < 128, p (.ofNat n)) {c : Char}
    (hc : c.toNat < 128) : p c := by
  have hp := h c.toNat hc
  rwa [Char.ofNat_toNat] at hp

theorem Plain.facts {c : Char} (h : Plain c) : c.toLower = c ∧ isSimple c ∧ c ≠ '\r' ∧
    c ≠ ';' ∧ c ≠ '\x60' ∧ c ≠ 'K' :=
  @forall_ascii (fun c => Plain c → c.toLower = c ∧ isSimple c ∧ c ≠ '\r' ∧ c ≠ ';' ∧ c ≠ '\x60' ∧
    c ≠ 'K') (by decide) c h.ascii h

theorem asciiDecomposed_ascii {c : Char} (h : c.toNat < 128) : asciiDecomposed c = c :=
  @forall_ascii (fun c => asciiDecomposed c = c) (by decide) c h

/-- A plain scalar is the decomposition of itself alone. -/
theorem Plain.decomposed_iff {c d : Char} (h : Plain c) : asciiDecomposed d = c ↔ d = c := by
  obtain ⟨_, _, _, hsemicolon, hgrave, hkelvin⟩ := h.facts
  constructor
  · intro hd
    unfold asciiDecomposed at hd
    split at hd
    · exact absurd hd.symm hsemicolon
    split at hd
    · exact absurd hd.symm hgrave
    split at hd
    · exact absurd hd.symm hkelvin
    · exact hd
  · rintro rfl
    exact asciiDecomposed_ascii h.ascii

variable {u : Unicode}

theorem map_decomposed {t : Text} (h : ∀ c ∈ t, c.toNat < 128) : t.map asciiDecomposed = t := by
  have hid : t.map asciiDecomposed = t.map id := List.map_congr_left fun c hc =>
    asciiDecomposed_ascii (h c hc)
  rw [hid, List.map_id]

theorem decomposed_ascii {t : Text} (h : ∀ c ∈ t, c.toNat < 128) : u.decomposed t = t := by
  rw [u.decomposed_near, map_decomposed h]
  intro c hc
  rw [NearASCII, asciiDecomposed_ascii (h c hc)]
  exact h c hc

/-- A text is equal to a plain one only where it is the same. -/
theorem equal_plain {s t : Text} (h : ∀ c ∈ t, Plain c) : u.Equal s t ↔ s = t := by
  constructor
  · intro hequal
    have hascii : ∀ c ∈ t, c.toNat < 128 := fun c hc => (h c hc).ascii
    have hs : u.decomposed s = t := hequal.trans (decomposed_ascii hascii)
    rw [u.decomposed_near (u.of_decomposed (by rw [hs]; exact hascii))] at hs
    subst hs
    have hid : s.map asciiDecomposed = s.map id :=
      List.map_congr_left fun c hc => ((h _ (List.mem_map_of_mem hc)).decomposed_iff.mp rfl).symm
    rw [hid, List.map_id]
  · rintro rfl
    rfl

theorem lowercased_plain {t : Text} (h : ∀ c ∈ t, Plain c) : u.lowercased t = t := by
  have hid : t.map Char.toLower = t.map id := List.map_congr_left fun c hc => (h c hc).facts.1
  rw [Unicode.lowercased_ascii fun c hc => (h c hc).ascii, hid, List.map_id]

/-! ### Letter case -/

/-- The scalars whose lowercase form is ASCII. -/
def Lettered (c : Char) : Prop := c.toNat < 128 ∨ c = kelvinSign

/-- The lowercase form of such a scalar. -/
def low (c : Char) : Char := if c = kelvinSign then 'k' else c.toLower

theorem Lettered.lowercase {c : Char} (h : Lettered c) : u.lowercaseMapping c = [low c] := by
  rcases h with h | rfl
  · have hne : c ≠ kelvinSign := fun heq => absurd h (by rw [heq]; decide)
    rw [u.lower_ascii h, low, if_neg hne]
  · exact u.lower_kelvin

theorem toUpper_low {c : Char} (h : c.toNat < 128) : (low c).toNat < 128 ∧ c.toUpper.toNat < 128 ∧
    c.toUpper = (low c).toUpper :=
  @forall_ascii (fun c => (low c).toNat < 128 ∧ c.toUpper.toNat < 128 ∧ c.toUpper = (low c).toUpper)
    (by decide) c h

theorem Lettered.low_ascii {c : Char} (h : Lettered c) : (low c).toNat < 128 := by
  rcases h with h | rfl
  · exact (toUpper_low h).1
  · decide

/-- The uppercase form of a scalar decomposes to that of its lowercase form. -/
theorem Lettered.uppercase {c : Char} (h : Lettered c) :
    ∃ d, u.uppercaseMapping c = [d] ∧ NearASCII d ∧ asciiDecomposed d = (low c).toUpper := by
  rcases h with h | rfl
  · obtain ⟨_, hupper, heq⟩ := toUpper_low h
    refine ⟨c.toUpper, u.upper_ascii h, ?_, ?_⟩
    · rw [NearASCII, asciiDecomposed_ascii hupper]
      exact hupper
    · rw [asciiDecomposed_ascii hupper, heq]
  · exact ⟨kelvinSign, u.upper_kelvin, by decide, by decide⟩

theorem Lettered.near {c : Char} (h : Lettered c) : NearASCII c := by
  rcases h with h | rfl
  · rw [NearASCII, asciiDecomposed_ascii h]
    exact h
  · decide

/-- A scalar that decomposes to its lowercase form is in lowercase. -/
theorem Lettered.eq_lowercase {c : Char} (h : Lettered c) (heq : asciiDecomposed c = low c) :
    u.lowercaseMapping c = [c] := by
  rcases h with h | rfl
  · rw [Lettered.lowercase (.inl h), ← heq, asciiDecomposed_ascii h]
  · exact absurd heq (by decide)

theorem Lettered.eq_uppercase {c : Char} (h : Lettered c)
    (heq : asciiDecomposed c = (low c).toUpper) :
    u.uppercaseMapping c = [c] := by
  rcases h with h | rfl
  · rw [u.upper_ascii h, (toUpper_low h).2.2, ← heq, asciiDecomposed_ascii h]
  · exact u.upper_kelvin

variable {s : Text}

theorem lettered_of_lowercased (h : ∀ c ∈ u.lowercased s, c.toNat < 128) : ∀ c ∈ s, Lettered c :=
    fun c hc =>
  u.of_lower fun d hd => h d (List.mem_flatMap.mpr ⟨c, hc, hd⟩)

theorem lowercased_lettered (h : ∀ c ∈ s, Lettered c) : u.lowercased s = s.map low := by
  induction s with
  | nil => rfl
  | cons c s ih =>
    have hrest : u.lowercased s = s.map low := ih fun d hd => h d (List.mem_cons_of_mem _ hd)
    rw [Unicode.lowercased, List.flatMap_cons, (h c List.mem_cons_self).lowercase,
      ← Unicode.lowercased, hrest]
    rfl

theorem decomposed_uppercased (h : ∀ c ∈ s, Lettered c) :
    u.decomposed (u.uppercased s) = (s.map low).map Char.toUpper := by
  have hforms : (∀ c ∈ u.uppercased s, NearASCII c) ∧
      (u.uppercased s).map asciiDecomposed = (s.map low).map Char.toUpper := by
    induction s with
    | nil => exact ⟨nofun, rfl⟩
    | cons c s ih =>
      obtain ⟨hnear, hmap⟩ := ih fun d hd => h d (List.mem_cons_of_mem _ hd)
      obtain ⟨d, hd, hdnear, hdupper⟩ := @Lettered.uppercase u c (h c List.mem_cons_self)
      rw [Unicode.uppercased, List.flatMap_cons, hd, ← Unicode.uppercased, List.singleton_append]
      refine ⟨?_, ?_⟩
      · intro e he
        rcases List.mem_cons.mp he with rfl | he
        · exact hdnear
        · exact hnear e he
      · rw [List.map_cons, hdupper, hmap]
        rfl
  rw [u.decomposed_near hforms.1, hforms.2]

/-- One case is that the decomposed text is all lowercase, or the uppercase form of it. -/
theorem oneCase_iff (h : ∀ c ∈ s, Lettered c) : OneCase u s ↔
    s.map asciiDecomposed = s.map low ∨ s.map asciiDecomposed = (s.map low).map Char.toUpper := by
  have hlow : ∀ c ∈ s.map low, c.toNat < 128 := by
    intro c hc
    obtain ⟨d, hd, rfl⟩ := List.mem_map.mp hc
    exact (h d hd).low_ascii
  rw [OneCase, Unicode.Equal, Unicode.Equal, u.decomposed_near fun c hc => (h c hc).near,
    lowercased_lettered h, decomposed_ascii hlow, decomposed_uppercased h]

/-! ### Symbols -/

/-- The character of a symbol. -/
def character (v : UInt8) : Char := charset.getD v.toNat '1'

variable {v w : UInt8}

theorem getElem?_charset_iff {x : Char} : charset[v.toNat]? = some x ↔ v.toNat < 2 ^ 5 ∧
    x = character v := by
  have hlength : charset.length = 2 ^ 5 := by decide
  rw [← hlength, character, List.getD_eq_getElem?_getD]
  by_cases hv : v.toNat < charset.length
  · rw [List.getElem?_eq_getElem hv]
    simp [hv, eq_comm]
  · rw [List.getElem?_eq_none (Nat.not_lt.mp hv)]
    simp [hv]

/-- What holds of every symbol. -/
theorem forall_symbol {p : UInt8 → Prop} (h : ∀ n < 2 ^ 5, p (.ofNat n))
    (hv : v.toNat < 2 ^ 5) : p v := by
  have hp := h v.toNat hv
  rwa [UInt8.ofNat_toNat] at hp

theorem plain_character (hv : v.toNat < 2 ^ 5) : Plain (character v) ∧ character v ≠ '1' :=
  @forall_symbol v (fun v => Plain (character v) ∧ character v ≠ '1') (by decide) hv

theorem findIdx?_character (hv : v.toNat < 2 ^ 5) : charset.findIdx? (· = character v) =
    some v.toNat :=
  @forall_symbol v (fun v => charset.findIdx? (· = character v) = some v.toNat) (by decide) hv

theorem character_injective (hv : v.toNat < 2 ^ 5) (hw : w.toNat < 2 ^ 5)
    (h : character v = character w) : v = w := by
  have hindex := findIdx?_character hv
  rw [h, findIdx?_character hw] at hindex
  exact UInt8.toNat_inj.mp (Option.some.inj hindex).symm

theorem plain_charset : ∀ c ∈ charset, Plain c := by decide

theorem symbolOf_iff {c : Text} : symbolOf u c = some v ↔ v.toNat < 2 ^ 5 ∧ c = [character v] := by
  constructor
  · intro h
    obtain ⟨i, hindex, rfl⟩ := Option.map_eq_some_iff.mp h
    obtain ⟨x, hget, hequal⟩ : ∃ x, charset[i]? = some x ∧ u.Equal [x] c := by
      obtain ⟨hi, hequal, _⟩ := List.findIdx?_eq_some_iff_getElem.mp hindex
      exact ⟨_, List.getElem?_eq_getElem hi, of_decide_eq_true hequal⟩
    have hplain : ∀ d ∈ [x], Plain d := fun d hd => by
      rw [List.mem_singleton.mp hd]
      exact plain_charset x (List.mem_of_getElem? hget)
    have hlt : i < 2 ^ 5 := (List.getElem?_eq_some_iff.mp hget).1
    have hi : (UInt8.ofNat i).toNat = i := UInt8.toNat_ofNat_of_lt' (by show i < 2 ^ 8; omega)
    rw [← hi] at hget
    obtain ⟨hv, rfl⟩ := getElem?_charset_iff.mp hget
    exact ⟨hv, (equal_plain hplain).mp hequal.symm⟩
  · rintro ⟨hv, rfl⟩
    have hplain : ∀ d ∈ [character v], Plain d := fun d hd => by
      rw [List.mem_singleton.mp hd]
      exact (plain_character hv).1
    have hsame : (fun d => decide (u.Equal [d] [character v])) = fun d =>
      decide (d = character v) := by
      funext d
      rw [decide_eq_decide, equal_plain hplain, List.cons.injEq, and_iff_left rfl]
    rw [symbolOf, hsame, findIdx?_character hv, Option.map_some, UInt8.ofNat_toNat]

theorem mapM_symbolOf {cs : List Text} {data : Data} : cs.mapM (symbolOf u) = some data ↔
    Within 5 data ∧ cs = data.map fun v => [character v] := by
  induction cs generalizing data with
  | nil =>
    rw [List.mapM_nil, Option.pure_def, Option.some_inj]
    constructor
    · rintro rfl
      exact ⟨nofun, rfl⟩
    · rintro ⟨_, hcs⟩
      exact (List.map_eq_nil_iff.mp hcs.symm).symm
  | cons c cs ih =>
    rw [List.mapM_cons]
    constructor
    · intro h
      obtain ⟨v, hv, h⟩ := Option.bind_eq_some_iff.mp h
      obtain ⟨rest, hrest, h⟩ := Option.bind_eq_some_iff.mp h
      obtain rfl := Option.some.inj h
      obtain ⟨hlt, rfl⟩ := symbolOf_iff.mp hv
      obtain ⟨hwithin, rfl⟩ := ih.mp hrest
      refine ⟨?_, rfl⟩
      intro b hb
      rcases List.mem_cons.mp hb with rfl | hb
      · exact hlt
      · exact hwithin b hb
    · rintro ⟨hwithin, hcs⟩
      cases data with
      | nil => cases hcs
      | cons v rest =>
        obtain ⟨rfl, hrest⟩ := List.cons.inj hcs
        have hv : symbolOf u [character v] = some v := symbolOf_iff.mpr
          ⟨hwithin v List.mem_cons_self, rfl⟩
        rw [hv, ih.mpr ⟨fun b hb => hwithin b (List.mem_cons_of_mem _ hb), hrest⟩]
        rfl

theorem foldlM_charset {data : Data} {s t : Text} :
    data.foldlM (fun s d => do return s ++ [← Access.inRange charset[d.toNat]?])
      s = (.ok t : Access Empty Text) ↔ Within 5 data ∧ t = s ++ data.map character := by
  induction data generalizing s with
  | nil =>
    rw [List.foldlM_nil, List.map_nil, List.append_nil]
    exact ⟨fun h => ⟨nofun, (Except.ok.inj h).symm⟩, fun h => by rw [h.2]; rfl⟩
  | cons v rest ih =>
    rw [List.foldlM_cons, Access.bind_ok]
    constructor
    · rintro ⟨next, hnext, h⟩
      obtain ⟨x, hx, hnext⟩ := Access.bind_ok.mp hnext
      obtain ⟨hv, rfl⟩ := getElem?_charset_iff.mp (Access.inRange_ok.mp hx)
      obtain rfl := Except.ok.inj hnext
      obtain ⟨hwithin, rfl⟩ := ih.mp h
      refine ⟨?_, by rw [List.append_assoc]; rfl⟩
      intro b hb
      rcases List.mem_cons.mp hb with rfl | hb
      · exact hv
      · exact hwithin b hb
    · rintro ⟨hwithin, rfl⟩
      have hv := hwithin v List.mem_cons_self
      refine ⟨s ++ [character v], ?_,
        ih.mpr ⟨fun b hb => hwithin b (List.mem_cons_of_mem _ hb), ?_⟩⟩
      · rw [getElem?_charset_iff.mpr ⟨hv, rfl⟩]
        rfl
      · rw [List.append_assoc]
        rfl

theorem encode_iff {hrp t : Text} {data : Data} : encode hrp data = .ok t ↔
    Within 5 data ∧ t = hrp ++ '1' :: (data ++ createChecksum hrp data).map character := by
  rw [encode, foldlM_charset, List.append_assoc, List.singleton_append]
  have hchecksum : Within 5 (data ++ createChecksum hrp data) ↔ Within 5 data :=
    ⟨fun h b hb => h b (List.mem_append_left _ hb), fun h =>
    within_append h (createChecksum_symbols hrp data)⟩
  rw [hchecksum]

/-- An encoding is of letters and digits where its prefix is. -/
theorem plain_of_encode {hrp t : Text} {data : Data} (hplain : ∀ c ∈ hrp, Plain c)
    (h : encode hrp data = .ok t) :
    ∀ c ∈ t, Plain c := by
  obtain ⟨hdata, rfl⟩ := encode_iff.mp h
  have hsymbols := within_append hdata (createChecksum_symbols hrp data)
  intro c hc
  rcases List.mem_append.mp hc with hc | hc
  · exact hplain c hc
  rcases List.mem_cons.mp hc with rfl | hc
  · decide
  · obtain ⟨v, hv, rfl⟩ := List.mem_map.mp hc
    exact (plain_character (hsymbols v hv)).1

/-! ### The separator -/

theorem lastIndex_append {α : Type} {p : α → Bool} {front back : List α} {a : α} (ha : p a)
    (hback : ∀ b ∈ back, ¬p b) : lastIndex p (front ++ a :: back) = some front.length := by
  have hnone : lastIndex p back = none := by
    induction back with
    | nil => rfl
    | cons b back ih =>
      rw [lastIndex, ih fun c hc => hback c (List.mem_cons_of_mem _ hc)]
      exact if_neg (hback b List.mem_cons_self)
  induction front with
  | nil => rw [List.nil_append, lastIndex, hnone]; exact if_pos ha
  | cons b front ih => rw [List.cons_append, lastIndex, ih]; rfl

theorem lastIndex_eq_some {α : Type} {p : α → Bool} {l : List α} {i : Nat}
    (h : lastIndex p l = some i) :
    ∃ a, p a ∧ l = l.take i ++ a :: l.drop (i + 1) := by
  induction l generalizing i with
  | nil => cases h
  | cons b l ih =>
    rw [lastIndex] at h
    split at h
    · rename_i j hj
      obtain rfl := Option.some.inj h
      obtain ⟨a, ha, hl⟩ := ih hj
      exact ⟨a, ha, congrArg (b :: ·) hl⟩
    · split at h
      · rename_i hb
        obtain rfl := Option.some.inj h
        exact ⟨b, hb, rfl⟩
      · cases h

theorem flatten_characters (data : Data) : (data.map fun v => [character v]).flatten =
    data.map character := by
  induction data with
  | nil => rfl
  | cons v data ih => rw [List.map_cons, List.flatten_cons, ih]; rfl

/-- What is decoded is encoded to the lowercase form of the string. -/
theorem encode_of_decode {str hrp : Text} {data : Data} (h : decode u str = some (hrp, data)) :
    OneCase u str ∧ encode hrp data = .ok (u.lowercased str) := by
  simp only [decode, Option.bind_eq_bind, Option.bind_eq_some_iff, Option.guard_eq_some',
    Option.pure_def, Option.some_inj, Prod.mk.injEq, exists_and_left, exists_const] at h
  obtain ⟨hcase, sep, hsep, ⟨_, hsix⟩, symbols, hsymbols, hverify, rfl, rfl⟩ := h
  obtain ⟨c, hc, hsplit⟩ := lastIndex_eq_some hsep
  obtain rfl : c = ['1'] := (equal_plain (by decide)).mp (of_decide_eq_true hc)
  obtain ⟨hwithin, hpart⟩ := mapM_symbolOf.mp hsymbols
  have hlength : 6 ≤ symbols.length := by
    have hcount := congrArg List.length hpart
    rw [List.length_map] at hcount
    omega
  have hlower := congrArg List.flatten hsplit
  rw [u.joined, List.flatten_append, List.flatten_cons, hpart, flatten_characters,
    List.singleton_append] at hlower
  have hdata : Within 5 (symbols.take (symbols.length - 6)) :=
    fun b hb => hwithin b (List.mem_of_mem_take hb)
  have hchecksum : Within 5 (symbols.drop (symbols.length - 6)) :=
    fun b hb => hwithin b (List.mem_of_mem_drop hb)
  have hsymbols := List.take_append_drop (symbols.length - 6) symbols
  rw [← hsymbols, verifyChecksum_iff hdata (by rw [List.length_drop]; omega) hchecksum] at hverify
  refine ⟨hcase, encode_iff.mpr ⟨hdata, ?_⟩⟩
  rw [← hverify, hsymbols]
  exact hlower

/-- Each scalar of a plain text is a character. -/
theorem split_plain {t : Text} (h : ∀ c ∈ t, Plain c) : u.split t = t.map ([·]) := by
  have hsimple := @Characters.simple_append t (fun hr => (h _ hr).facts.2.2.1 rfl) []
  rw [List.append_nil] at hsimple
  rw [u.simple t (List.all_eq_true.mpr fun c hc => (h c hc).facts.2.1), hsimple]
  exact List.append_nil _

/-- A string of one case is decoded, if its lowercase form is an encoding. -/
theorem decode_of_encode {str hrp : Text} {data : Data} (hne : hrp ≠ [])
    (hplain : ∀ c ∈ hrp, Plain c)
    (hcase : OneCase u str) (h : encode hrp data = .ok (u.lowercased str)) :
    decode u str = some (hrp, data) := by
  obtain ⟨hdata, hlower⟩ := encode_iff.mp h
  have hchecksum := createChecksum_symbols hrp data
  have hsymbols := within_append hdata hchecksum
  have hall := plain_of_encode hplain h
  have hsplit : u.split (u.lowercased str) = hrp.map ([·]) ++ ['1'] ::
      (data ++ createChecksum hrp data).map fun v => [character v] := by
    rw [split_plain hall, hlower, List.map_append, List.map_cons, List.map_map]
    rfl
  have hsep : lastIndex (fun c => decide (u.Equal c ['1'])) (u.split (u.lowercased str)) =
    some hrp.length := by
    rw [hsplit, lastIndex_append (by exact decide_eq_true rfl), List.length_map]
    intro c hc
    obtain ⟨v, hv, rfl⟩ := List.mem_map.mp hc
    rw [decide_eq_true_iff, equal_plain (by decide), List.cons.injEq, and_iff_left rfl]
    exact (plain_character (hsymbols v hv)).2
  have htake : (u.split (u.lowercased str)).take hrp.length = hrp.map ([·]) := by
    rw [hsplit, List.take_left' (List.length_map _)]
  have hhrp : (hrp.map ([·])).flatten = hrp := List.flatMap_singleton' hrp
  have hdrop : (u.split (u.lowercased str)).drop (hrp.length + 1) =
      (data ++ createChecksum hrp data).map fun v => [character v] := by
    rw [hsplit, ← List.singleton_append, ← List.append_assoc, List.drop_left' (by simp)]
  have hlength : (data ++ createChecksum hrp data).length = data.length + 6 := by
    rw [List.length_append, length_createChecksum]
  have hverify := (verifyChecksum_iff hdata (length_createChecksum hrp data) hchecksum).mpr rfl
  simp only [decode, Option.bind_eq_bind, Option.bind_eq_some_iff, Option.guard_eq_some',
    Option.pure_def, Option.some_inj, Prod.mk.injEq, exists_and_left, exists_const]
  refine ⟨hcase, hrp.length, hsep, ?_⟩
  rw [htake, hdrop, List.length_map, hlength, hhrp]
  refine ⟨⟨hne, Nat.le_add_left _ _⟩, _, mapM_symbolOf.mpr ⟨hsymbols, rfl⟩, hverify, rfl, ?_⟩
  rw [hlength, Nat.add_sub_cancel, List.take_left' rfl]

end Bech32

namespace NIP19

open Bech32

/-! ### Keys -/

variable {u : Unicode} {hrp s : Text} {key : Data}

/-- The prefix of keys: letters and digits, of which the first is a letter. -/
structure Prefix (hrp : Text) : Prop where
  plain : ∀ c ∈ hrp, Plain c
  letter : ∃ c rest, hrp = c :: rest ∧ c.toUpper ≠ c

theorem Prefix.ne_nil (h : Prefix hrp) : hrp ≠ [] := by
  obtain ⟨c, rest, rfl, _⟩ := h.letter
  nofun

theorem encode32_iff {t : Text} : encode32 key hrp = .ok (some t) ↔ key.length = 32 ∧
    ∃ five, convertBits eightToFive key true = some five ∧ encode hrp five = .ok t := by
  by_cases hlength : key.length = 32
  · rw [encode32, if_pos hlength, and_iff_right hlength]
    cases hfive : convertBits eightToFive key true with
    | none =>
      constructor
      · intro h
        cases h
      · rintro ⟨five, hsome, _⟩
        cases hsome
    | some five =>
      simp only [Access.bind_ok, Option.some_inj, exists_eq_left']
      constructor
      · rintro ⟨t', ht, h⟩
        rwa [← Option.some.inj (Except.ok.inj h)]
      · intro h
        exact ⟨t, h, rfl⟩
  · rw [encode32, if_neg hlength]
    constructor
    · intro h
      cases h
    · exact fun h => absurd h.1 hlength

/-- The keys that are decoded, in terms of their encodings. -/
theorem decode32_iff (h : Prefix hrp) : decode32 u s hrp = some key ↔
    OneCase u s ∧ key.length = 32 ∧ encode32 key hrp = .ok (some (u.lowercased s)) := by
  simp only [decode32, Option.bind_eq_bind, Option.bind_eq_some_iff, Option.guard_eq_some',
    Option.pure_def, Option.some_inj, exists_and_left, exists_const, Prod.exists]
  rw [encode32_iff]
  constructor
  · rintro ⟨hrp', five, hdecode, hequal, bytes, hbytes, hlength, rfl⟩
    obtain rfl := (equal_plain h.plain).mp hequal
    obtain ⟨hcase, hencode⟩ := encode_of_decode hdecode
    exact ⟨hcase, hlength, hlength, five, five_iff_eight.mpr hbytes, hencode⟩
  · rintro ⟨hcase, hlength, _, five, hfive, hencode⟩
    exact ⟨hrp, five, decode_of_encode h.ne_nil h.plain hcase hencode, rfl, key,
      five_iff_eight.mp hfive, hlength, rfl⟩

/-- A key is 52 symbols, and all its bytes are regrouped. -/
theorem five_of_key (hkey : key.length = 32) :
    ∃ five, convertBits eightToFive key true = some five ∧ Within 5 five ∧ five.length = 52 := by
  have hbytes : Within 8 key := fun b _ => b.toNat_lt
  obtain ⟨five, n, hfive, hwithin, hn, hbits⟩ := @convertBits_pad eightToFive key hbytes
  refine ⟨five, hfive, hwithin, ?_⟩
  have hn : n < 5 := hn
  have hcount := congrArg List.length hbits
  rw [List.length_append, BitGroups.length_grouped, BitGroups.length_grouped, length_numbers,
    length_numbers, hkey, List.length_replicate] at hcount
  have hcount : five.length * 5 = 32 * 8 + n := hcount
  omega

/-- What an accepted string is spelled with. -/
structure Spelled (u : Unicode) (hrp s : Text) (symbols : Data) : Prop where
  within : Within 5 symbols
  length : symbols.length = 58
  checked : verifyChecksum hrp symbols = true
  lowered : s.map low = hrp ++ '1' :: symbols.map character
  lettered : ∀ c ∈ s, Lettered c
  oneCase : (∀ c ∈ s, asciiDecomposed c = low c) ∨ ∀ c ∈ s, asciiDecomposed c = (low c).toUpper

theorem spelled_of_decode (h : Prefix hrp) (hdecode : decode32 u s hrp = some key) :
    ∃ symbols, Spelled u hrp s symbols := by
  obtain ⟨hcase, hkey, hencode⟩ := (decode32_iff h).mp hdecode
  obtain ⟨_, five, hfive, hencode⟩ := encode32_iff.mp hencode
  obtain ⟨five', hfive', hwithin, hlength⟩ := five_of_key hkey
  obtain rfl := Option.some.inj (hfive.symm.trans hfive')
  obtain ⟨_, hlower⟩ := encode_iff.mp hencode
  have hchecksum := createChecksum_symbols hrp five
  have hsymbols := within_append hwithin hchecksum
  have hlettered : ∀ c ∈ s, Lettered c :=
    lettered_of_lowercased fun c hc => (plain_of_encode h.plain hencode c hc).ascii
  refine ⟨five ++ createChecksum hrp five, hsymbols, ?_, ?_, ?_, hlettered, ?_⟩
  · rw [List.length_append, hlength, length_createChecksum]
  · exact (verifyChecksum_iff hwithin (length_createChecksum hrp five) hchecksum).mpr rfl
  · rw [← lowercased_lettered hlettered, hlower]
  · rwa [oneCase_iff hlettered, List.map_map, List.map_inj_left, List.map_inj_left] at hcase

/-- The symbols before, at and behind a place behind the separator. -/
theorem Spelled.parts {front back : Text} {c : Char} {symbols : Data}
    (h : Spelled u hrp (front ++ c :: back) symbols)
    (hplace : hrp.length < front.length) : ∃ before v behind, symbols = before ++ v :: behind ∧
      before.map character = (front.map low).drop (hrp.length + 1) ∧ character v = low c ∧
      behind.map character = back.map low := by
  have hlowered := congrArg (List.drop (hrp.length + 1)) h.lowered
  rw [List.map_append, List.map_cons, List.drop_append_of_le_length
    (by rw [List.length_map]; omega),
    ← List.singleton_append (x := '1'), ← List.append_assoc, List.drop_left' (by simp)] at hlowered
  obtain ⟨before, rest, rfl, hbefore, hrest⟩ := List.map_eq_append_iff.mp hlowered.symm
  obtain ⟨v, behind, rfl, hv, hbehind⟩ := List.map_eq_cons_iff.mp hrest
  exact ⟨before, v, behind, rfl, hbefore, hv, hbehind⟩

theorem map_character_injective {data data' : Data} (hdata : Within 5 data)
    (hdata' : Within 5 data') (h : data.map character = data'.map character) : data = data' := by
  induction data generalizing data' with
  | nil => exact (List.map_eq_nil_iff.mp h.symm).symm
  | cons v data ih =>
    cases data' with
    | nil => cases h
    | cons w data' =>
      obtain ⟨hfirst, hrest⟩ := List.cons.inj h
      rw [character_injective (hdata v List.mem_cons_self) (hdata' w List.mem_cons_self) hfirst,
        ih (fun b hb => hdata b (List.mem_cons_of_mem _ hb))
          (fun b hb => hdata' b (List.mem_cons_of_mem _ hb)) hrest]

section Replaced

variable {front back : Text} {c d : Char} {symbols symbols' : Data}

/-- Two accepted strings that differ in one scalar behind the separator agree in lowercase there
too. -/
theorem Spelled.low_eq (h : Spelled u hrp (front ++ c :: back) symbols)
    (h' : Spelled u hrp (front ++ d :: back) symbols')
    (hplace : hrp.length < front.length) : low c = low d := by
  obtain ⟨before, v, behind, rfl, hbefore, hv, hbehind⟩ := h.parts hplace
  obtain ⟨before', v', behind', rfl, hbefore', hv', hbehind'⟩ := h'.parts hplace
  have hmem {v : UInt8} {before behind : Data} : v ∈ before ++ v :: behind :=
    List.mem_append_right _ List.mem_cons_self
  have hfront (v : UInt8) {before behind : Data} (hw : Within 5 (before ++ v :: behind)) :
    Within 5 before :=
    fun b hb => hw b (List.mem_append_left _ hb)
  have hback (v : UInt8) {before behind : Data} (hw : Within 5 (before ++ v :: behind)) :
    Within 5 behind :=
    fun b hb => hw b (List.mem_append_right _ (List.mem_cons_of_mem _ hb))
  obtain rfl := map_character_injective (hfront v h.within) (hfront v' h'.within)
    (hbefore.trans hbefore'.symm)
  obtain rfl := map_character_injective (hback v h.within) (hback v' h'.within)
    (hbehind.trans hbehind'.symm)
  rw [← hv, ← hv', verifyChecksum_change (hfront v h.within) (hback v h.within) (h.within v hmem)
    (h'.within v' hmem) h.checked h'.checked]

/-- The first letter of the prefix tells which case it is. -/
theorem Spelled.decomposed_eq (hkeys : Prefix hrp) (h : Spelled u hrp (front ++ c :: back) symbols)
    (h' : Spelled u hrp (front ++ d :: back) symbols') (hplace : hrp.length < front.length) :
    asciiDecomposed c = asciiDecomposed d := by
  have hlow := h.low_eq h' hplace
  have hc : c ∈ front ++ c :: back := List.mem_append_right _ List.mem_cons_self
  have hd : d ∈ front ++ d :: back := List.mem_append_right _ List.mem_cons_self
  obtain ⟨a, rest, rfl, ha⟩ := hkeys.letter
  obtain ⟨e, front, rfl⟩ := List.exists_cons_of_length_pos
    (Nat.lt_of_le_of_lt (Nat.zero_le _) hplace)
  have he : low e = a := (List.cons.inj h.lowered).1
  have hcased : low e ≠ (low e).toUpper := by
    rw [he]
    exact ha.symm
  rcases h.oneCase with hcase | hcase <;> rcases h'.oneCase with hcase' | hcase'
  · rw [hcase c hc, hcase' d hd, hlow]
  · exact absurd ((hcase e List.mem_cons_self).symm.trans (hcase' e List.mem_cons_self)) hcased
  · exact absurd ((hcase' e List.mem_cons_self).symm.trans (hcase e List.mem_cons_self)) hcased
  · rw [hcase c hc, hcase' d hd, hlow]

end Replaced

/-! ### Encoding and decoding -/

/-- Keys and strings under a prefix stand for each other one to one, but for the case of the
letters. -/
structure OneToOne (u : Unicode) (hrp : Text) (encoded : Data → Access Empty (Option Text))
    (decoded : Text → Option Data) : Prop where
  /-- A key is decoded from its encoding. -/
  returned {key : Data} : key.length = 32 → ∃ s, encoded key = .ok (some s) ∧ decoded s = some key
  /-- A string that is accepted is, in lowercase, the encoding of the key. -/
  lowered {s : Text} {key : Data} : decoded s = some key →
    key.length = 32 ∧ encoded key = .ok (some (u.lowercased s))
  /-- It has the prefix, and symbols of a key and a checksum. -/
  shaped {s : Text} {key : Data} : decoded s = some key → ∃ symbols,
    u.lowercased s = hrp ++ '1' :: symbols ∧ symbols.length = 58 ∧ ∀ c ∈ symbols, c ∈ charset
  /-- Its letters are all lowercase, or all uppercase. -/
  unmixed {s : Text} {key : Data} : decoded s = some key →
    (∀ c ∈ s, u.lowercaseMapping c = [c]) ∨ ∀ c ∈ s, u.uppercaseMapping c = [c]
  /-- Behind the separator nothing that differs stands in the place of a character. -/
  replaced {front back : Text} {c d : Char} {key : Data} : decoded (front ++ c :: back) = some key →
    hrp.length < front.length → ¬u.Equal [c] [d] → decoded (front ++ d :: back) = none
  /-- In particular no other symbol does. -/
  changed {front back : Text} {c d : Char} {key : Data} : decoded (front ++ c :: back) = some key →
    hrp.length < front.length → d ∈ charset → d ≠ c → decoded (front ++ d :: back) = none

theorem returned_of_length (h : Prefix hrp) (hkey : key.length = 32) :
    ∃ s, encode32 key hrp = .ok (some s) ∧ decode32 u s hrp = some key := by
  obtain ⟨five, hfive, hwithin, _⟩ := five_of_key hkey
  have hencode : encode hrp five =
    .ok (hrp ++ '1' :: (five ++ createChecksum hrp five).map character) :=
    encode_iff.mpr ⟨hwithin, rfl⟩
  have hlower : u.lowercased (hrp ++ '1' :: (five ++ createChecksum hrp five).map character) =
      hrp ++ '1' :: (five ++ createChecksum hrp five).map character :=
    lowercased_plain (plain_of_encode h.plain hencode)
  have hkey32 := encode32_iff.mpr ⟨hkey, five, hfive, hencode⟩
  refine ⟨_, hkey32, ?_⟩
  rw [decode32_iff h, OneCase, hlower]
  exact ⟨.inl rfl, hkey, hkey32⟩

theorem none_of_replaced {front back : Text} {c d : Char} (h : Prefix hrp)
    (hdecode : decode32 u (front ++ c :: back) hrp = some key) (hplace : hrp.length < front.length)
    (hne : ¬u.Equal [c] [d]) : decode32 u (front ++ d :: back) hrp = none := by
  obtain ⟨symbols, hspelled⟩ := spelled_of_decode h hdecode
  rw [Option.eq_none_iff_forall_ne_some]
  intro key' hdecode'
  obtain ⟨symbols', hspelled'⟩ := spelled_of_decode h hdecode'
  have hnear {front : Text} {c : Char} (hlettered : ∀ e ∈ front ++ c :: back, Lettered e) : ∀ e ∈
    [c], NearASCII e := by
    intro e he
    rw [List.mem_singleton.mp he]
    exact (hlettered c (List.mem_append_right _ List.mem_cons_self)).near
  apply hne
  rw [Unicode.Equal, u.decomposed_near (hnear hspelled.lettered),
    u.decomposed_near (hnear hspelled'.lettered),
    List.map_singleton, List.map_singleton, hspelled.decomposed_eq h hspelled' hplace]

theorem oneToOne (h : Prefix hrp) :
    OneToOne u hrp (fun key => encode32 key hrp) (fun s => decode32 u s hrp) where
  returned := returned_of_length h
  lowered hdecode := ((decode32_iff h).mp hdecode).2
  shaped hdecode := by
    obtain ⟨symbols, hspelled⟩ := spelled_of_decode h hdecode
    refine ⟨symbols.map character, ?_, ?_, ?_⟩
    · rw [lowercased_lettered hspelled.lettered, hspelled.lowered]
    · rw [List.length_map, hspelled.length]
    · intro c hc
      obtain ⟨v, hv, rfl⟩ := List.mem_map.mp hc
      exact List.mem_of_getElem? (getElem?_charset_iff.mpr ⟨hspelled.within v hv, rfl⟩)
  unmixed hdecode := by
    obtain ⟨symbols, hspelled⟩ := spelled_of_decode h hdecode
    apply hspelled.oneCase.imp
    · intro hcase c hc
      exact (hspelled.lettered c hc).eq_lowercase (hcase c hc)
    · intro hcase c hc
      exact (hspelled.lettered c hc).eq_uppercase (hcase c hc)
  replaced := none_of_replaced h
  changed {front back c d key} hdecode hplace hd hne := by
    apply none_of_replaced h hdecode hplace
    intro hequal
    apply hne
    have hsingle : ∀ e ∈ [d], Plain e := fun e he => by
      rw [List.mem_singleton.mp he]
      exact plain_charset d hd
    exact (List.cons.inj ((equal_plain hsingle).mp hequal)).1.symm

/-- npub and nsec. -/
theorem npub_nsec (u : Unicode) :
    OneToOne u "npub".toList npub (publicKey u) ∧ OneToOne u "nsec".toList nsec (secretKey u) :=
  ⟨oneToOne ⟨by decide, _, _, rfl, by decide⟩, oneToOne ⟨by decide, _, _, rfl, by decide⟩⟩

end NIP19

end AeroNyra
