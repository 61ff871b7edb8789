import AeroNyra.Lib.Unicode
import AeroNyra.Nostr.EventJSON

/-! The three hexadecimal decoders.  They take a string character by character, and leave each pair
to the integer parser of the standard library, which takes a leading sign as well. -/

namespace AeroNyra

namespace Hexadecimal

/-! ### The parser of bytes -/

/-- The value with one digit more, `none` where it leaves the range of a byte. -/
def accumulate (negative : Bool) (value : Nat) (c : Char) : Option Nat := do
  let digit ← Node.hexDigit c
  let multiplied := value * 16
  guard (multiplied ≤ 255)
  if negative then
    guard (digit ≤ multiplied)
    return multiplied - digit
  else
    guard (multiplied + digit ≤ 255)
    return multiplied + digit

def parseDigits (negative : Bool) (digits : Text) : Option UInt8 :=
  if digits = [] then none else (digits.foldlM (accumulate negative) 0).map .ofNat

/-- `UInt8(_, radix: 16)`. -/
def parse : Text → Option UInt8
  | '-' :: digits => parseDigits true digits
  | '+' :: digits => parseDigits false digits
  | digits => parseDigits false digits

/-! ### The decoders -/

/-- The loop over the characters, two at a time, with the bytes so far. -/
def loop (bytes : Data) : List Text → Option Data
  | a :: b :: rest => (parse (a ++ b)).bind fun byte => loop (bytes ++ [byte]) rest
  | [] => some bytes
  -- past the end of the string, which an even count rules out
  | [_] => none

def decode (σ : Characters) (string : Text) : Option Data :=
  if σ.count string % 2 = 0 then loop [] (σ.split string) else none

end Hexadecimal

namespace NostrEvent

/-- `hexDecode`, over the characters of the string. -/
def hexDecodeString (σ : Characters) (string : Text) : Option Data := Hexadecimal.decode σ string

end NostrEvent

namespace NostrGiftWrap

def hexDecode (σ : Characters) (string : Text) : Option Data := Hexadecimal.decode σ string

end NostrGiftWrap

namespace FirstContactCoordinator

def hexToBytes (σ : Characters) (hex : Text) : Option Data := Hexadecimal.decode σ hex

end FirstContactCoordinator

namespace Hexadecimal

/-! ### Pairs of scalars -/

/-- What a parsed text consists of. -/
def Scanned (c : Char) : Prop := (Node.hexDigit c).isSome ∨ c = '+' ∨ c = '-'

theorem hexDigit_lt {c : Char} {n : Nat} (h : Node.hexDigit c = some n) :
    n < 16 ∧ c.toNat < 128 := by
  unfold Node.hexDigit at h
  have hle {a b : Char} (hab : a ≤ b) : a.toNat ≤ b.toNat := UInt32.le_iff_toNat_le.mp hab
  have h0 : '0'.toNat = 48 := rfl
  have h9 : '9'.toNat = 57 := rfl
  have ha : 'a'.toNat = 97 := rfl
  have hf : 'f'.toNat = 102 := rfl
  have hA : 'A'.toNat = 65 := rfl
  have hF : 'F'.toNat = 70 := rfl
  split at h
  · rename_i hc
    have hlow := hle hc.1
    have hhigh := hle hc.2
    obtain rfl := Option.some.inj h
    omega
  split at h
  · rename_i hc
    have hlow := hle hc.1
    have hhigh := hle hc.2
    obtain rfl := Option.some.inj h
    omega
  split at h
  · rename_i hc
    have hlow := hle hc.1
    have hhigh := hle hc.2
    obtain rfl := Option.some.inj h
    omega
  · cases h

theorem Scanned.ascii {c : Char} (h : Scanned c) : c.toNat < 128 := by
  rcases h with h | rfl | rfl
  · obtain ⟨n, hn⟩ := Option.isSome_iff_exists.mp h
    exact (hexDigit_lt hn).2
  · decide
  · decide

theorem scanned_of_parseDigits {negative : Bool} {digits : Text} {b : UInt8}
    (h : parseDigits negative digits = some b) : ∀ c ∈ digits, Scanned c := by
  have hfold : ∀ (t : Text) (value n : Nat), t.foldlM (accumulate negative) value = some n →
      ∀ c ∈ t, Scanned c := by
    intro t
    induction t with
    | nil => nofun
    | cons d t ih =>
      intro value n hn c hc
      obtain ⟨next, hnext, hn⟩ := Option.bind_eq_some_iff.mp hn
      obtain ⟨digit, hdigit, _⟩ := Option.bind_eq_some_iff.mp hnext
      rcases List.mem_cons.mp hc with rfl | hc
      · exact .inl (by rw [hdigit]; rfl)
      · exact ih next n hn c hc
  unfold parseDigits at h
  split at h
  · cases h
  · obtain ⟨n, hn, _⟩ := Option.map_eq_some_iff.mp h
    exact hfold digits 0 n hn

theorem scanned_of_parse {t : Text} {b : UInt8} (h : parse t = some b) : ∀ c ∈ t, Scanned c := by
  unfold parse at h
  split at h
  · intro c hc
    rcases List.mem_cons.mp hc with rfl | hc
    · exact .inr (.inr rfl)
    · exact scanned_of_parseDigits h c hc
  · intro c hc
    rcases List.mem_cons.mp hc with rfl | hc
    · exact .inr (.inl rfl)
    · exact scanned_of_parseDigits h c hc
  · exact scanned_of_parseDigits h

theorem accumulate_digit {c : Char} {value n : Nat} (hc : Node.hexDigit c = some n)
    (hvalue : value < 16) :
    accumulate false value c = some (16 * value + n) := by
  have hn := (hexDigit_lt hc).1
  simp only [accumulate, hc, Option.bind_eq_bind, Option.bind_some, guard, Option.pure_def,
    if_pos (show value * 16 ≤ 255 by omega),
    if_pos (show value * 16 + n ≤ 255 by omega), Bool.false_eq_true, if_false]
  rw [Nat.mul_comm]

theorem accumulate_other {negative : Bool} {c : Char} (hc : Node.hexDigit c = none) (value : Nat) :
    accumulate negative value c = none := by
  simp [accumulate, hc]

/-- Behind a minus sign only a zero stays in the range. -/
theorem accumulate_minus {c : Char} {n : Nat} (hc : Node.hexDigit c = some n) :
    accumulate true 0 c = if n = 0 then some 0 else none := by
  cases n with
  | zero => simp [accumulate, hc, guard]
  | succ n => simp [accumulate, hc, guard]

theorem parseDigits_one (b : Char) : parseDigits false [b] = (Node.hexDigit b).map .ofNat := by
  rw [parseDigits, if_neg (by simp), List.foldlM_cons]
  cases hb : Node.hexDigit b with
  | none =>
    rw [accumulate_other hb]
    rfl
  | some n =>
    rw [accumulate_digit hb (by decide)]
    simp

theorem parseDigits_minus (b : Char) :
    parseDigits true [b] = if Node.hexDigit b = some 0 then some 0 else none := by
  rw [parseDigits, if_neg (by simp), List.foldlM_cons]
  cases hb : Node.hexDigit b with
  | none =>
    rw [accumulate_other hb]
    rfl
  | some n =>
    rw [accumulate_minus hb]
    by_cases hn : n = 0 <;> simp [hn]

theorem parseDigits_two (a b : Char) : parseDigits false [a, b] =
    (Node.hexDigit a).bind fun high => (Node.hexDigit b).map fun low =>
    .ofNat (16 * high + low) := by
  rw [parseDigits, if_neg (by simp)]
  simp only [List.foldlM_cons, List.foldlM_nil]
  cases ha : Node.hexDigit a with
  | none =>
    rw [accumulate_other ha]
    rfl
  | some high =>
    rw [accumulate_digit ha (by decide)]
    cases hb : Node.hexDigit b with
    | none => simp [accumulate_other hb]
    | some low => simp [accumulate_digit hb (hexDigit_lt ha).1]

/-- A pair of scalars is parsed like one of the simplified decoder. -/
theorem parse_pair (a b : Char) : parse [a, b] = Node.hexByte a b := by
  unfold Node.hexByte
  by_cases hplus : a = '+'
  · subst a
    rw [if_pos rfl, parse, parseDigits_one]
  by_cases hminus : a = '-'
  · subst a
    rw [if_neg (by decide), if_pos rfl, parse, parseDigits_minus]
  · rw [if_neg hplus, if_neg hminus, parse, parseDigits_two]
    · intro digits h
      exact hminus (List.cons.inj h).1
    · intro digits h
      exact hplus (List.cons.inj h).1

/-! ### Strings -/

theorem loop_pairs {a b : Text} (bytes : Data) (rest : List Text) :
    loop bytes (a :: b :: rest) = (parse (a ++ b)).bind fun byte => loop (bytes ++ [byte]) rest :=
      rfl

/-- The loop goes over single scalars as the simplified decoder does. -/
theorem loop_singletons (t : Text) (bytes : Data) :
    loop bytes (t.map ([·])) = (Node.hexPairs t).map (bytes ++ ·) := by
  fun_induction Node.hexPairs t generalizing bytes with
  | case1 => simp [loop]
  | case2 a b rest ih =>
    rw [List.map_cons, List.map_cons, loop_pairs, List.singleton_append, parse_pair]
    cases Node.hexByte a b with
    | none => rfl
    | some byte =>
      rw [Option.bind_some, Option.bind_some, ih, Option.map_map]
      exact congrArg (Option.map · _) (funext fun more => by simp)
  | case3 c => rfl

theorem scanned_of_loop {bytes found : Data} {characters : List Text}
    (h : loop bytes characters = some found) :
    ∀ c ∈ characters.flatten, Scanned c := by
  fun_induction loop bytes characters with
  | case1 bytes a b rest ih =>
    obtain ⟨byte, hbyte, hrest⟩ := Option.bind_eq_some_iff.mp h
    intro c hc
    rw [List.flatten_cons, List.flatten_cons, ← List.append_assoc] at hc
    rcases List.mem_append.mp hc with hc | hc
    · exact scanned_of_parse hbyte c hc
    · exact ih byte hrest c hc
  | case2 => nofun
  | case3 => cases h

theorem scanned_of_hexPairs {t : Text} {bytes : Data} (h : Node.hexPairs t = some bytes) :
    ∀ c ∈ t, Scanned c := by
  have hloop := loop_singletons t []
  rw [h] at hloop
  have hall := scanned_of_loop hloop
  rwa [← List.flatMap_def, List.flatMap_singleton'] at hall

theorem even_of_hexPairs {t : Text} {bytes : Data} (h : Node.hexPairs t = some bytes) :
    t.length % 2 = 0 := by
  fun_induction Node.hexPairs t generalizing bytes with
  | case1 => rfl
  | case2 a b rest ih =>
    obtain ⟨byte, _, hrest⟩ := Option.bind_eq_some_iff.mp h
    obtain ⟨more, hmore, _⟩ := Option.map_eq_some_iff.mp hrest
    have heven := ih hmore
    rw [List.length_cons, List.length_cons]
    omega
  | case3 => cases h

/-- Texts of signs and digits are split into their scalars. -/
theorem split_scanned (σ : Characters) {t : Text} (h : ∀ c ∈ t, Scanned c) :
    σ.split t = t.map ([·]) := by
  have hsimple : t.all isSimple := by
    rw [List.all_eq_true]
    intro c hc
    have hascii := (h c hc).ascii
    simp [isSimple, hascii]
  have hreturn : '\r' ∉ t := by
    intro hr
    rcases h _ hr with hdigit | heq | heq
    · exact absurd hdigit (by decide)
    · exact absurd heq (by decide)
    · exact absurd heq (by decide)
  have happend := Characters.simple_append hreturn []
  rw [List.append_nil, show simpleCharacters [] = [] from rfl, List.append_nil] at happend
  rw [σ.simple t hsimple, happend]

/-- The decoder does what the simplified one does, however the string is split. -/
theorem decode_eq (σ : Characters) (string : Text) : decode σ string = Node.hexPairs string := by
  by_cases hall : ∀ c ∈ string, Scanned c
  · have hsplit := split_scanned σ hall
    rw [decode, Characters.count, hsplit, List.length_map, loop_singletons]
    cases hpairs : Node.hexPairs string with
    | none => exact ite_self none
    | some bytes => rw [if_pos (even_of_hexPairs hpairs), Option.map_some, List.nil_append]
  · have hnone : Node.hexPairs string = none :=
      Option.eq_none_iff_forall_ne_some.mpr fun bytes h => hall (scanned_of_hexPairs h)
    rw [hnone, Option.eq_none_iff_forall_ne_some]
    intro bytes h
    unfold decode at h
    split at h
    · have hscanned := scanned_of_loop h
      rw [σ.joined] at hscanned
      exact hall hscanned
    · cases h

/-! ### Which strings are decoded -/

/-- An even number of characters, each of them a hexadecimal digit. -/
def Hex (σ : Characters) (s : Text) : Prop :=
  σ.count s % 2 = 0 ∧ ∀ c ∈ s, (Node.hexDigit c).isSome

/-- A pair of two digits, or of a sign and a digit that leaves the value in the range. -/
def Pair (a b : Char) : Prop :=
  ((Node.hexDigit a).isSome ∧ (Node.hexDigit b).isSome) ∨ (a = '+' ∧ (Node.hexDigit b).isSome) ∨
    (a = '-' ∧ b = '0')

def Paired : Text → Prop
  | [] => True
  | a :: b :: rest => Pair a b ∧ Paired rest
  | [_] => False

/-- The texts with a sign that are decoded all the same. -/
def Signed (s : Text) : Prop := Paired s ∧ ('+' ∈ s ∨ '-' ∈ s)

theorem hexDigit_eq_zero {c : Char} : Node.hexDigit c = some 0 ↔ c = '0' := by
  constructor
  · intro h
    have hascii := (hexDigit_lt h).2
    have hall : ∀ k < 128, Node.hexDigit (Char.ofNat k) = some 0 → Char.ofNat k = '0' := by
      decide +kernel
    have hc := hall c.toNat hascii
    rw [Char.ofNat_toNat] at hc
    exact hc h
  · rintro rfl
    rfl

theorem not_sign {c : Char} (h : (Node.hexDigit c).isSome) : c ≠ '+' ∧ c ≠ '-' := by
  constructor
  · rintro rfl
    cases h
  · rintro rfl
    cases h

theorem hexByte_isSome (a b : Char) : (Node.hexByte a b).isSome ↔ Pair a b := by
  unfold Node.hexByte
  by_cases hplus : a = '+'
  · subst a
    have hdigit : Node.hexDigit '+' = none := rfl
    simp [Pair, hdigit]
  by_cases hminus : a = '-'
  · subst a
    have hdigit : Node.hexDigit '-' = none := rfl
    rw [if_neg hplus, if_pos rfl]
    by_cases hzero : Node.hexDigit b = some 0
    · rw [if_pos hzero]
      simp [Pair, hdigit, hexDigit_eq_zero.mp hzero]
    · have hb : b ≠ '0' := fun heq => hzero (hexDigit_eq_zero.mpr heq)
      rw [if_neg hzero]
      simp [Pair, hdigit, hb]
  · rw [if_neg hplus, if_neg hminus]
    cases ha : Node.hexDigit a with
    | none => simp [Pair, ha, hplus, hminus]
    | some high => cases hb : Node.hexDigit b <;> simp [Pair, ha, hb, hplus, hminus]

theorem hexPairs_isSome (s : Text) : (Node.hexPairs s).isSome ↔ Paired s := by
  fun_induction Node.hexPairs s with
  | case1 => simp [Paired]
  | case2 a b rest ih =>
    rw [Paired, ← hexByte_isSome, ← ih]
    cases Node.hexByte a b <;> simp
  | case3 => simp [Paired]

/-- Digits in pairs are two and two. -/
theorem paired_of_digits {s : Text} (heven : s.length % 2 = 0)
    (h : ∀ c ∈ s, (Node.hexDigit c).isSome) :
    Paired s := by
  fun_induction Paired s with
  | case1 => trivial
  | case2 a b rest ih =>
    rw [List.length_cons, List.length_cons] at heven
    exact ⟨.inl ⟨h a (by simp), h b (by simp)⟩, ih (by omega) fun c hc => h c (by simp [hc])⟩
  | case3 c => cases heven

theorem digits_of_paired {s : Text} (h : Paired s) (hsign : ¬('+' ∈ s ∨ '-' ∈ s)) :
    s.length % 2 = 0 ∧ ∀ c ∈ s, (Node.hexDigit c).isSome := by
  fun_induction Paired s with
  | case1 => exact ⟨rfl, nofun⟩
  | case2 a b rest ih =>
    obtain ⟨hpair, hrest⟩ := h
    have hplus : a ≠ '+' := fun heq => hsign (.inl (by simp [heq]))
    have hminus : a ≠ '-' := fun heq => hsign (.inr (by simp [heq]))
    obtain ⟨heven, hall⟩ := ih hrest fun hmem => hsign
      (hmem.imp (fun h => by simp [h]) (fun h => by simp [h]))
    rcases hpair with ⟨ha, hb⟩ | ⟨heq, _⟩ | ⟨heq, _⟩
    · refine ⟨by rw [List.length_cons, List.length_cons]; omega, fun c hc => ?_⟩
      rcases List.mem_cons.mp hc with rfl | hc
      · exact ha
      rcases List.mem_cons.mp hc with rfl | hc
      · exact hb
      · exact hall c hc
    · exact absurd heq hplus
    · exact absurd heq hminus
  | case3 => exact h.elim

/-! ### Lowercase -/

/-- A digit in lowercase is the digit of its value. -/
theorem digitChar_hexDigit {c : Char} {n : Nat} (h : Node.hexDigit c = some n) :
    Nat.digitChar n = c.toLower := by
  have hall : ∀ k < 128, (Node.hexDigit (Char.ofNat k)).all fun m => Nat.digitChar m =
    (Char.ofNat k).toLower := by
    decide +kernel
  have hc := hall c.toNat (hexDigit_lt h).2
  rw [Char.ofNat_toNat, h] at hc
  exact of_decide_eq_true hc

theorem hexEncode_hexPairs {s : Text} (h : ∀ c ∈ s, (Node.hexDigit c).isSome) {bytes : Data}
    (hbytes : Node.hexPairs s = some bytes) : NostrEvent.hexEncode bytes = s.map Char.toLower := by
  fun_induction Node.hexPairs s generalizing bytes with
  | case1 =>
    obtain rfl := Option.some.inj hbytes
    rfl
  | case2 a b rest ih =>
    obtain ⟨byte, hbyte, hrest⟩ := Option.bind_eq_some_iff.mp hbytes
    obtain ⟨more, hmore, rfl⟩ := Option.map_eq_some_iff.mp hrest
    have hencoded := ih (fun c hc => h c (by simp [hc])) hmore
    have hsign := not_sign (h a (by simp))
    rw [Node.hexByte, if_neg hsign.1, if_neg hsign.2] at hbyte
    obtain ⟨high, hhigh, hbyte⟩ := Option.bind_eq_some_iff.mp hbyte
    obtain ⟨low, hlow, rfl⟩ := Option.map_eq_some_iff.mp hbyte
    have hdigits := hexDigit_lt hhigh
    have hdigits' := hexDigit_lt hlow
    have hvalue : (UInt8.ofNat (16 * high + low)).toNat = 16 * high + low := by
      rw [UInt8.toNat_ofNat']
      omega
    rw [NostrEvent.hexEncode, List.flatMap_cons, ← NostrEvent.hexEncode, hencoded, hvalue,
      show (16 * high + low) / 16 = high by omega, show (16 * high + low) % 16 = low by omega,
      digitChar_hexDigit hhigh, digitChar_hexDigit hlow]
    rfl
  | case3 => cases hbytes

/-! ### Exactness -/

/-- Exactly the strings of digits are decoded, and the bytes are encoded as the lowercased
string. -/
structure Exact (u : Unicode) (decode : Text → Option Data) (s : Text) : Prop where
  accepts : (decode s).isSome ↔ Hex u.toCharacters s
  encodes {bytes : Data} : decode s = some bytes → NostrEvent.hexEncode bytes = u.lowercased s

theorem decode_exact_iff (u : Unicode) (s : Text) : Exact u (decode u.toCharacters) s ↔
    ¬Signed s := by
  have hsome : (decode u.toCharacters s).isSome ↔ Paired s := by rw [decode_eq, hexPairs_isSome]
  have hcount (h : ∀ c ∈ s, (Node.hexDigit c).isSome) : u.count s = s.length := by
    rw [Characters.count, split_scanned _ fun c hc => .inl (h c hc), List.length_map]
  constructor
  · rintro ⟨haccepts, _⟩ ⟨hpaired, hsign⟩
    have hhex := (haccepts.mp (hsome.mpr hpaired)).2
    rcases hsign with hplus | hminus
    · exact (not_sign (hhex _ hplus)).1 rfl
    · exact (not_sign (hhex _ hminus)).2 rfl
  · intro hsigned
    have hdigits (h : Paired s) := digits_of_paired h fun hsign => hsigned ⟨h, hsign⟩
    refine ⟨⟨fun h => ?_, fun h => ?_⟩, fun {bytes} h => ?_⟩
    · obtain ⟨heven, hall⟩ := hdigits (hsome.mp h)
      exact ⟨by rw [hcount hall]; exact heven, hall⟩
    · obtain ⟨heven, hall⟩ := h
      rw [hcount hall] at heven
      exact hsome.mpr (paired_of_digits heven hall)
    · obtain ⟨_, hall⟩ := hdigits (hsome.mp (by rw [h]; rfl))
      rw [decode_eq] at h
      rw [hexEncode_hexPairs hall h, Unicode.lowercased_ascii fun c hc =>
        Scanned.ascii (.inl (hall c hc))]

/-- Each of the decoders does what the rest of the development takes it to do. -/
theorem decoders_eq (σ : Characters) (s : Text) :
    NostrEvent.hexDecodeString σ s = NostrEvent.hexDecode s ∧
    NostrGiftWrap.hexDecode σ s = NostrEvent.hexDecode s ∧
    FirstContactCoordinator.hexToBytes σ s = Node.hexToBytes (String.ofList s) := by
  refine ⟨decode_eq σ s, decode_eq σ s, ?_⟩
  rw [Node.hexToBytes, String.toList_ofList]
  exact decode_eq σ s

/-- The three decoders are exact, and agree, on exactly the strings that they do not take with a
sign. -/
theorem decoders_exact_iff (u : Unicode) (s : Text) :
    ((Exact u (NostrEvent.hexDecodeString u.toCharacters) s ∧
      Exact u (NostrGiftWrap.hexDecode u.toCharacters) s ∧
        Exact u (FirstContactCoordinator.hexToBytes u.toCharacters) s) ∧
      NostrEvent.hexDecodeString u.toCharacters s = NostrGiftWrap.hexDecode u.toCharacters s ∧
      NostrGiftWrap.hexDecode u.toCharacters s =
        FirstContactCoordinator.hexToBytes u.toCharacters s) ↔
    ¬Signed s := by
  have hexact := decode_exact_iff u s
  constructor
  · rintro ⟨⟨h, _, _⟩, _⟩
    exact hexact.mp h
  · intro hsigned
    have h := hexact.mpr hsigned
    exact ⟨⟨h, h, h⟩, rfl, rfl⟩

/-- A plus sign and a digit are decoded. -/
theorem decoders_take_sign :
    FirstContactCoordinator.hexToBytes Unicode.basic.toCharacters "+f".toList = some [15] ∧
    ¬Exact Unicode.basic (NostrEvent.hexDecodeString Unicode.basic.toCharacters) "+f".toList ∧
    ¬Exact Unicode.basic (NostrGiftWrap.hexDecode Unicode.basic.toCharacters) "+f".toList ∧
    ¬Exact Unicode.basic (FirstContactCoordinator.hexToBytes Unicode.basic.toCharacters)
      "+f".toList := by
  have hdecoded : decode Unicode.basic.toCharacters "+f".toList = some [15] := by decide
  have hnot : ¬Exact Unicode.basic (decode Unicode.basic.toCharacters) "+f".toList := by
    rintro ⟨haccepts, _⟩
    have hhex := haccepts.mp (by rw [hdecoded]; rfl)
    exact absurd (hhex.2 '+' (by decide)) (by decide)
  exact ⟨hdecoded, hnot, hnot, hnot⟩

end Hexadecimal

end AeroNyra
