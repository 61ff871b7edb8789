import AeroNyra.Lib.Base64
import AeroNyra.Lib.PrefixCode
import AeroNyra.Nostr.Text
import Mathlib.Tactic.Ring

/-! The wire form of events.  It determines the event, and an event of plain texts has as many
bytes as its texts have characters, and a few for the keys. -/

namespace AeroNyra

/-! ### Hexadecimal -/

theorem hexByte_digitChar (b : UInt8) :
    Node.hexByte (Nat.digitChar (b.toNat / 16)) (Nat.digitChar (b.toNat % 16)) = some b := by
  have hall : ∀ n : Fin 256, Node.hexByte (Nat.digitChar (n.val / 16))
    (Nat.digitChar (n.val % 16)) =
      some (.ofNat n.val) := by decide +kernel
  have hb := hall ⟨b.toNat, b.toNat_lt⟩
  rwa [UInt8.ofNat_toNat] at hb

theorem NostrEvent.hexDecode_hexEncode (bytes : Data) :
    hexDecode (hexEncode bytes) = some bytes := by
  induction bytes with
  | nil => rfl
  | cons b bytes ih =>
    have hrest : Node.hexPairs (hexEncode bytes) = some bytes := ih
    have hcons : hexEncode (b :: bytes) =
        Nat.digitChar (b.toNat / 16) :: Nat.digitChar (b.toNat % 16) :: hexEncode bytes := rfl
    rw [hexDecode, hcons, Node.hexPairs, hexByte_digitChar, hrest]
    rfl

theorem NostrEvent.length_hexEncode (bytes : Data) :
    (hexEncode bytes).length = 2 * bytes.length := by
  induction bytes with
  | nil => rfl
  | cons b bytes ih =>
    rw [hexEncode, List.flatMap_cons, List.length_append, ← hexEncode, ih]
    simp only [List.length_cons, List.length_nil]
    omega

/-! ### JSON -/

namespace JSONEncoder

/-- What the encoder writes for a character of a string, with slashes as they are. -/
def escapeChar (c : Char) : Text :=
  if c = '"' then ['\\', '"']
  else if c = '\\' then ['\\', '\\']
  else if c = '\n' then ['\\', 'n']
  else if c = '\r' then ['\\', 'r']
  else if c = '\t' then ['\\', 't']
  else if c.toNat = 0x08 then ['\\', 'b']
  else if c.toNat = 0x0C then ['\\', 'f']
  else if c.toNat < 0x20 then
    ['\\', 'u', '0', '0', Nat.digitChar (c.toNat / 16), Nat.digitChar (c.toNat % 16)]
  else [c]

def string (s : Text) : Text := '"' :: (s.flatMap escapeChar ++ ['"'])

def array {α : Type} (element : α → Text) : List α → Text
  | [] => ['[', ']']
  | a :: rest => '[' :: (element a ++ (rest.flatMap (fun b => ',' :: element b) ++ [']']))

end JSONEncoder

namespace NostrEvent

/-- The event as compact JSON; the order of the keys has no influence on the length. -/
def json (e : NostrEvent) : Text :=
  "\x7b\"id\":".toList ++ (JSONEncoder.string e.id ++ (",\"pubkey\":".toList ++
    (JSONEncoder.string e.pubkey ++ (",\"tags\":".toList ++
    (JSONEncoder.array (JSONEncoder.array JSONEncoder.string) e.tags ++ (",\"content\":".toList ++
    (JSONEncoder.string e.content ++ (",\"sig\":".toList ++ (JSONEncoder.string e.sig ++
    (",\"created_at\":".toList ++ (decimal e.createdAt ++ ([','] ++ ("\"kind\":".toList ++
    (decimal e.kind ++ ['\x7d']))))))))))))))

end NostrEvent

namespace JSONEncoder

open PrefixCode

/-- What a decoder reads off the front of a string. -/
def unescape : Text → Option (Char × Text)
  | '"' :: _ => none
  | '\\' :: 'n' :: rest => some ('\n', rest)
  | '\\' :: 'r' :: rest => some ('\r', rest)
  | '\\' :: 't' :: rest => some ('\t', rest)
  | '\\' :: 'b' :: rest => some (Char.ofNat 0x08, rest)
  | '\\' :: 'f' :: rest => some (Char.ofNat 0x0C, rest)
  | '\\' :: 'u' :: '0' :: '0' :: a :: b :: rest =>
    (Node.hexByte a b).map fun n => (Char.ofNat n.toNat, rest)
  | '\\' :: c :: rest => some (c, rest)
  | c :: rest => some (c, rest)
  | [] => none

theorem unescape_escapeChar (c : Char) (rest : Text) :
    unescape (escapeChar c ++ rest) = some (c, rest) := by
  have hchar {n : Nat} (h : c.toNat = n) : Char.ofNat n = c := by rw [← h, Char.ofNat_toNat]
  unfold escapeChar
  split
  · subst c
    rfl
  split
  · subst c
    rfl
  split
  · subst c
    rfl
  split
  · subst c
    rfl
  split
  · subst c
    rfl
  split
  · rename_i hbackspace
    obtain rfl := hchar hbackspace
    rfl
  split
  · rename_i hfeed
    obtain rfl := hchar hfeed
    rfl
  split
  · rename_i hcontrol
    have hbyte : (UInt8.ofNat c.toNat).toNat = c.toNat := by
      rw [UInt8.toNat_ofNat']
      omega
    have hdigits := hexByte_digitChar (.ofNat c.toNat)
    rw [hbyte] at hdigits
    simp [unescape, hdigits, hbyte]
  · rename_i hquote hslash _ _ _ _ _ _
    simp only [List.singleton_append]
    rw [unescape.eq_def]
    split <;> simp_all

/-- Characters that a decoder gets back, up to a quote. -/
theorem readable_quoted {escape : Char → Text}
    (hescape : ∀ c rest, unescape (escape c ++ rest) = some (c, rest)) :
    Readable fun s : Text => s.flatMap escape ++ ['"'] := by
  have hchar : Readable escape := by
    intro a b rest rest' h
    have hread := congrArg unescape h
    rw [hescape, hescape] at hread
    cases hread
    exact ⟨rfl, rfl⟩
  refine hchar.flatMap fun c rest rest' h => ?_
  have hread := congrArg unescape h
  rw [hescape] at hread
  cases hread

theorem readable_string : Readable string := (readable_quoted unescape_escapeChar).cons '"'

theorem array_cons_append {α : Type} (element : α → Text) (a : α) (l : List α) (rest : Text) :
    array element (a :: l) ++ rest =
      '[' :: (element a ++ (l.flatMap (fun b => ',' :: element b) ++ [']'] ++ rest)) := by
  simp [array]

theorem readable_array {α : Type} {element : α → Text} (h : Readable element)
    (hne : ∀ a rest rest', element a ++ rest ≠ ']' :: rest') : Readable (array element) := by
  have hmore : Readable fun l : List α => l.flatMap (fun b => ',' :: element b) ++ [']'] := by
    refine (h.cons ',').flatMap fun a rest rest' hsame => ?_
    exact absurd (List.cons.inj hsame).1 (by decide)
  intro l l' rest rest' hsame
  cases l with
  | nil =>
    cases l' with
    | nil => exact ⟨rfl, (List.cons.inj (List.cons.inj hsame).2).2⟩
    | cons b l' =>
      rw [array_cons_append] at hsame
      exact absurd (List.cons.inj hsame).2.symm (hne b _ _)
  | cons a l =>
    cases l' with
    | nil =>
      rw [array_cons_append] at hsame
      exact absurd (List.cons.inj hsame).2 (hne a _ _)
    | cons b l' =>
      rw [array_cons_append, array_cons_append] at hsame
      obtain ⟨rfl, hrest⟩ := h _ _ _ _ (List.cons.inj hsame).2
      obtain ⟨rfl, hbehind⟩ := hmore _ _ _ _ hrest
      exact ⟨rfl, hbehind⟩

end JSONEncoder

namespace NostrEvent

open PrefixCode

theorem digit_of_mem_decimal {n : Int} {c : Char} (hc : c ∈ decimal n) : c = '-' ∨ c.isDigit := by
  have hdigits {k : Nat} (h : c ∈ Nat.toDigits 10 k) : c.isDigit :=
    Nat.isDigit_of_mem_toDigits (by decide) (by decide) h
  unfold decimal at hc
  split at hc
  · rcases List.mem_cons.mp hc with rfl | hc
    · exact .inl rfl
    · exact .inr (hdigits hc)
  · exact .inr (hdigits hc)

theorem decimal_injective : Function.Injective decimal := by
  have hdigits {m n : Nat} (h : Nat.toDigits 10 m = Nat.toDigits 10 n) : m = n := by
    have hvalue := congrArg (Nat.ofDigitChars 10 · 0) h
    simpa only [Nat.ofDigitChars_ten_toDigits] using hvalue
  have hminus (n : Nat) (rest : Text) : Nat.toDigits 10 n ≠ '-' :: rest := by
    intro h
    have hdigit := Nat.isDigit_of_mem_toDigits (c := '-') (n := n) (show 0 < 10 by decide)
      (by decide) (h ▸ List.mem_cons_self)
    cases hdigit
  intro m n h
  unfold decimal at h
  split at h <;> split at h
  · have hsame := hdigits (List.cons.inj h).2
    omega
  · exact absurd h.symm (hminus _ _)
  · exact absurd h (hminus _ _)
  · have hsame := hdigits h
    omega

theorem readable_decimal {t : Char} (hminus : t ≠ '-') (ht : t.isDigit = false) :
    Readable fun n => decimal n ++ [t] := by
  refine readable_terminated decimal_injective fun n hmem => ?_
  rcases digit_of_mem_decimal hmem with h | h
  · exact hminus h
  · rw [ht] at h
    cases h

/-- The wire form determines the event. -/
theorem json_injective : Function.Injective json := by
  have hstring := JSONEncoder.readable_string
  have htags : Readable (JSONEncoder.array (JSONEncoder.array JSONEncoder.string)) := by
    refine JSONEncoder.readable_array (JSONEncoder.readable_array hstring ?_) ?_
    · intro s rest rest' h
      exact absurd (List.cons.inj h).1 (by decide)
    · intro l rest rest' h
      cases l with
      | nil => exact absurd (List.cons.inj h).1 (by decide)
      | cons a l => exact absurd (List.cons.inj h).1 (by decide)
  have hcreated := readable_decimal (t := ',') (by decide) (by decide)
  have hkind := readable_decimal (t := '\x7d') (by decide) (by decide)
  intro a b h
  obtain ⟨hid, h⟩ := hstring _ _ _ _ (List.append_cancel_left h)
  obtain ⟨hpubkey, h⟩ := hstring _ _ _ _ (List.append_cancel_left h)
  obtain ⟨htag, h⟩ := htags _ _ _ _ (List.append_cancel_left h)
  obtain ⟨hcontent, h⟩ := hstring _ _ _ _ (List.append_cancel_left h)
  obtain ⟨hsig, h⟩ := hstring _ _ _ _ (List.append_cancel_left h)
  have h := List.append_cancel_left h
  rw [← List.append_assoc, ← List.append_assoc (decimal b.createdAt)] at h
  obtain ⟨htime, h⟩ := hcreated _ _ _ _ h
  have h := List.append_cancel_left h
  have hnumber := hkind.injective h
  cases a
  cases b
  simp_all

/-! ### Lengths -/

/-- Texts that are written as they are, a byte for each character. -/
def Plain (t : Text) : Prop := ∀ c ∈ t, JSONEncoder.escapeChar c = [c] ∧ c.toNat < 128

theorem Plain.string {t : Text} (h : Plain t) : JSONEncoder.string t = '"' :: (t ++ ['"']) := by
  have hsame : t.flatMap JSONEncoder.escapeChar = t := by
    induction t with
    | nil => rfl
    | cons c t ih =>
      rw [List.flatMap_cons, (h c List.mem_cons_self).1, ih fun d hd =>
        h d (List.mem_cons_of_mem _ hd)]
      rfl
  rw [JSONEncoder.string, hsame]

theorem Plain.ascii_string {t : Text} (h : Plain t) : Text.Ascii (JSONEncoder.string t) := by
  intro c hc
  rw [h.string] at hc
  rcases List.mem_cons.mp hc with rfl | hc
  · decide
  · rcases List.mem_append.mp hc with hc | hc
    · exact (h c hc).2
    · rw [List.mem_singleton.mp hc]
      decide

theorem Plain.length_string {t : Text} (h : Plain t) :
    (JSONEncoder.string t).length = t.length + 2 := by
  rw [h.string, List.length_cons, List.length_append, List.length_singleton]

theorem plain_hexEncode (bytes : Data) : Plain (hexEncode bytes) := by
  have hall : ∀ n < 16, JSONEncoder.escapeChar (Nat.digitChar n) = [Nat.digitChar n] ∧
      (Nat.digitChar n).toNat < 128 := by decide
  intro c hc
  obtain ⟨b, _, hc⟩ := List.mem_flatMap.mp hc
  have hb := b.toNat_lt
  simp only [List.mem_cons, List.not_mem_nil, or_false] at hc
  rcases hc with rfl | rfl
  · exact hall _ (by omega)
  · exact hall _ (by omega)

theorem plain_base64 (bytes : Data) : Plain (Base64.encode bytes) := by
  have hall : ∀ n < 64, JSONEncoder.escapeChar (Base64.digit n) = [Base64.digit n] ∧
      (Base64.digit n).toNat < 128 := by decide
  intro c hc
  rcases Base64.mem_encode hc with rfl | ⟨n, hn, rfl⟩
  · decide
  · exact hall n hn

/-- An `Int64` has twenty characters at most. -/
theorem length_decimal_le {n : Int} (hlow : -2 ^ 63 ≤ n) (hhigh : n < 2 ^ 63) :
    (decimal n).length ≤ 20 := by
  have hdigits {k : Nat} (h : k < 10 ^ 19) : (Nat.toDigits 10 k).length ≤ 19 :=
    (Nat.length_toDigits_le_iff (by decide) (by decide)).mpr h
  unfold decimal
  split
  · have hlen := hdigits (k := n.natAbs) (by omega)
    rw [List.length_cons]
    omega
  · have hlen := hdigits (k := n.natAbs) (by omega)
    omega

theorem ascii_decimal (n : Int) : Text.Ascii (decimal n) := by
  intro c hc
  rcases digit_of_mem_decimal hc with rfl | h
  · decide
  · simp only [Char.isDigit, Bool.and_eq_true, decide_eq_true_eq] at h
    have hle := UInt32.le_iff_toNat_le.mp h.2
    have hnine : ('9'.val).toNat = 57 := by decide
    rw [hnine] at hle
    exact Nat.lt_of_le_of_lt hle (by decide)

/-- An event without tags whose texts are plain has as many bytes as its texts, and those of the
keys and the numbers. -/
theorem length_json {e : NostrEvent} (htags : e.tags = []) (hid : Plain e.id)
    (hpubkey : Plain e.pubkey) (hcontent : Plain e.content) (hsig : Plain e.sig) :
    e.json.bytes.length = 75 + e.id.length + e.pubkey.length + e.content.length + e.sig.length +
      (decimal e.createdAt).length + (decimal e.kind).length := by
  have hascii : Text.Ascii e.json := by
    have hkey {s : String} {t : Text} (hs : Text.Ascii s.toList) (ht : Text.Ascii t) :
        Text.Ascii (s.toList ++ t) := hs.append ht
    unfold json
    rw [htags]
    exact hkey (by decide) (hid.ascii_string.append (hkey (by decide) (hpubkey.ascii_string.append
      (hkey (by decide) (.append (by decide) (hkey (by decide) (hcontent.ascii_string.append
      (hkey (by decide) (hsig.ascii_string.append (hkey (by decide) ((ascii_decimal _).append
      (.append (by decide) (hkey (by decide) ((ascii_decimal _).append (by decide)))))))))))))))
  rw [hascii.length_bytes]
  unfold json
  rw [htags]
  simp only [List.length_append, hid.length_string, hpubkey.length_string, hcontent.length_string,
    hsig.length_string, JSONEncoder.array, List.length_cons, List.length_nil, String.length_toList]
  obtain ⟨h₁, h₂, h₃, h₄, h₅, h₆, h₇⟩ : ("\x7b\"id\":" : String).length = 6 ∧
    (",\"pubkey\":" : String).length = 10 ∧
      (",\"tags\":" : String).length = 8 ∧ (",\"content\":" : String).length = 11 ∧
      (",\"sig\":" : String).length = 7 ∧ (",\"created_at\":" : String).length = 14 ∧
      ("\"kind\":" : String).length = 7 := by decide
  rw [h₁, h₂, h₃, h₄, h₅, h₆, h₇]
  ring

end NostrEvent

end AeroNyra
