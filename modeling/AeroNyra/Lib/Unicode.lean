import AeroNyra.Lib.Characters

/-! Letter case and equality of texts.  Both rest on tables of Unicode, of which only the part that
reaches ASCII is fixed here. -/

/-- The scalar outside ASCII whose lowercase form is an ASCII letter. -/
def kelvinSign : Char := Char.ofNat 0x212A

/-- The scalar in whose place canonical decomposition puts a single one of ASCII. -/
def asciiDecomposed (c : Char) : Char :=
  if c.toNat = 0x37E then ';' else if c.toNat = 0x1FEF then '\x60' else if c = kelvinSign
    then 'K' else c

/-- ASCII scalars, and those that decompose to one. -/
def NearASCII (c : Char) : Prop := (asciiDecomposed c).toNat < 128

instance (c : Char) : Decidable (NearASCII c) := inferInstanceAs (Decidable (_ < _))

/-- How texts are split into characters, what the case of a scalar is mapped to, and which texts are
equal. -/
structure Unicode extends Characters where
  lowercaseMapping : Char → List Char
  uppercaseMapping : Char → List Char
  /-- The canonical decomposition of a text. -/
  decomposed : List Char → List Char
  lower_ascii {c : Char} : c.toNat < 128 → lowercaseMapping c = [c.toLower]
  lower_kelvin : lowercaseMapping kelvinSign = ['k']
  of_lower {c : Char} : (∀ d ∈ lowercaseMapping c, d.toNat < 128) → c.toNat < 128 ∨ c = kelvinSign
  upper_ascii {c : Char} : c.toNat < 128 → uppercaseMapping c = [c.toUpper]
  upper_kelvin : uppercaseMapping kelvinSign = [kelvinSign]
  decomposed_near {t : List Char} : (∀ c ∈ t, NearASCII c) → decomposed t = t.map asciiDecomposed
  of_decomposed {t : List Char} : (∀ c ∈ decomposed t, c.toNat < 128) → ∀ c ∈ t, NearASCII c

namespace Unicode

/-- Scalars outside ASCII are taken for characters that have no case and do not decompose, but for
those that reach ASCII. -/
def basic : Unicode where
  toCharacters := Characters.allSimple
  lowercaseMapping c := if c = kelvinSign then ['k'] else [c.toLower]
  uppercaseMapping c := [c.toUpper]
  decomposed t := t.map asciiDecomposed
  lower_ascii {c} h := if_neg fun heq => absurd h (by rw [heq]; decide)
  lower_kelvin := rfl
  of_lower {c} h := by
    by_cases hc : c = kelvinSign
    · exact .inr hc
    · rw [if_neg hc] at h
      refine .inl ?_
      have hlower : c.toLower.toNat < 128 := h _ (List.mem_singleton_self _)
      delta Char.toLower at hlower
      split at hlower
      · rename_i hupper
        have hle : c.toNat ≤ 'Z'.toNat := UInt32.le_iff_toNat_le.mp hupper.2
        exact Nat.lt_of_le_of_lt hle (by decide)
      · exact hlower
  upper_ascii _ := rfl
  upper_kelvin := rfl
  decomposed_near _ := rfl
  of_decomposed h c hc := h _ (List.mem_map_of_mem hc)

variable (u : Unicode)

def lowercased (t : List Char) : List Char := t.flatMap u.lowercaseMapping

def uppercased (t : List Char) : List Char := t.flatMap u.uppercaseMapping

/-- `==` of strings. -/
def Equal (s t : List Char) : Prop := u.decomposed s = u.decomposed t

instance (s t : List Char) : Decidable (u.Equal s t) := inferInstanceAs (Decidable (_ = _))

variable {u}

theorem lowercased_ascii {t : List Char} (h : ∀ c ∈ t, c.toNat < 128) :
    u.lowercased t = t.map Char.toLower := by
  induction t with
  | nil => rfl
  | cons c t ih =>
    have hrest : u.lowercased t = t.map Char.toLower :=
      ih fun d hd => h d (List.mem_cons_of_mem _ hd)
    rw [lowercased, List.flatMap_cons, u.lower_ascii (h c List.mem_cons_self), ← lowercased, hrest]
    rfl

end Unicode
