import AeroNyra.Enrollment.InviteText

/-! What the damage of a transport does to the text of an invite, and which of it is undone.  A
text is read exactly if it is whitespace and at most one pair of quotes around a scheme and a body
with breaks woven in, where every `=` opens a break and a scheme that is percent-encoded is in one
piece. -/

namespace AeroNyra

/-! ### Percent encoding -/

/-- `e` is `p` with some characters percent-encoded, in either case. -/
inductive Escaped : Text → Text → Prop
  | nil : Escaped [] []
  | plain {c : Char} {p e : Text} : c ≠ '%' → Escaped p e → Escaped (c :: p) (c :: e)
  | escape {c high low : Char} {a b : Nat} {p e : Text} : hexValue? high = some a →
      hexValue? low = some b →
      c.toNat = 16 * a + b → Escaped p e → Escaped (c :: p) ('%' :: high :: low :: e)

/-- A hexadecimal digit is an ASCII character. -/
theorem toNat_lt_of_hexValue? {c : Char} {n : Nat} (h : hexValue? c = some n) : c.toNat < 128 := by
  have hle {d : Char} (hd : c ≤ d) : c.toNat ≤ d.toNat := hd
  have hnine : '9'.toNat = 57 := rfl
  have hsmall : 'f'.toNat = 102 := rfl
  have hlarge : 'F'.toNat = 70 := rfl
  unfold hexValue? at h
  split at h
  · rename_i hc
    have := hle hc.2
    omega
  · split at h
    · rename_i hc
      have := hle hc.2
      omega
    · split at h
      · rename_i hc
        have := hle hc.2
        omega
      · cases h

/-- What holds of the ASCII characters holds of a hexadecimal digit. -/
theorem hexValue?_spec {c : Char} {n : Nat} (h : hexValue? c = some n) : n < 16 ∧ c.isAlphanum := by
  have hall : ∀ k < 128, ∀ n, hexValue? (Char.ofNat k) = some n → n < 16 ∧
    (Char.ofNat k).isAlphanum := by
    decide +kernel
  have hchar := hall c.toNat (toNat_lt_of_hexValue? h) n
  rw [Char.ofNat_toNat] at hchar
  exact hchar h

theorem percentDecode_escape {high low : Char} {a b : Nat} (hhigh : hexValue? high = some a)
    (hlow : hexValue? low = some b) (e : Text) :
    percentDecode ('%' :: high :: low :: e) = (percentDecode e).map (.ofNat (16 * a + b) :: ·) := by
  rw [percentDecode, hhigh, hlow]
  cases percentDecode e <;> rfl

theorem percentDecode_plain {c : Char} (h : c ≠ '%') (e : Text) :
    percentDecode (c :: e) = (percentDecode e).map (Text.bytes [c] ++ ·) := by
  rw [percentDecode, if_neg h]
  rintro high low rest rfl
  exact absurd rfl h

namespace Escaped

variable {p e : Text}

theorem percentDecode_eq (h : Escaped p e) (hp : Text.Ascii p) :
    percentDecode e = some p.bytes := by
  induction h with
  | nil => rfl
  | @plain c p e hc _ ih =>
    rw [percentDecode_plain hc, ih fun d hd => hp d (List.mem_cons_of_mem _ hd),
      Text.bytes_cons_of_ascii (hp c List.mem_cons_self) [],
      Text.bytes_cons_of_ascii (hp c List.mem_cons_self) p]
    rfl
  | @escape c high low a b p e hhigh hlow hc _ ih =>
    rw [percentDecode_escape hhigh hlow, ih fun d hd => hp d (List.mem_cons_of_mem _ hd),
      Text.bytes_cons_of_ascii (hp c List.mem_cons_self), hc]
    rfl

theorem of_percentDecode {bytes : Data} (h : percentDecode e = some bytes)
    (hlow : ∀ b ∈ bytes, b.toNat < 128) : ∃ p, Escaped p e ∧ p.bytes = bytes := by
  induction e using percentDecode.induct generalizing bytes with
  | case1 =>
    cases h
    exact ⟨[], nil, rfl⟩
  | case2 high low rest ih =>
    cases hhigh : hexValue? high with
    | none => simp [percentDecode, hhigh] at h
    | some a =>
      cases hlow' : hexValue? low with
      | none => simp [percentDecode, hhigh, hlow'] at h
      | some b =>
        rw [percentDecode_escape hhigh hlow'] at h
        obtain ⟨bytes', hrest, rfl⟩ := Option.map_eq_some_iff.mp h
        obtain ⟨p, hp, rfl⟩ := ih hrest fun c hc => hlow c (List.mem_cons_of_mem _ hc)
        have ha := (hexValue?_spec hhigh).1
        have hb := (hexValue?_spec hlow').1
        have hbyte := hlow _ List.mem_cons_self
        rw [UInt8.toNat_ofNat', Nat.mod_eq_of_lt (by omega)] at hbyte
        have hchar : (Char.ofNat (16 * a + b)).toNat = 16 * a + b := Text.toNat_ofNat hbyte
        refine ⟨Char.ofNat (16 * a + b) :: p, escape hhigh hlow' hchar hp, ?_⟩
        rw [Text.bytes_cons_of_ascii (by omega), hchar]
  | case3 rest hshort =>
    rw [percentDecode, if_pos rfl] at h
    · cases h
    · exact hshort
  | case4 c rest _ hc ih =>
    rw [percentDecode_plain hc] at h
    obtain ⟨bytes', hrest, rfl⟩ := Option.map_eq_some_iff.mp h
    obtain ⟨p, hp, rfl⟩ := ih hrest fun d hd => hlow d (List.mem_append_right _ hd)
    have hascii : Text.Ascii [c] := Text.ascii_of_bytes fun b hb =>
      hlow b (List.mem_append_left _ hb)
    have hchar := hascii c List.mem_cons_self
    refine ⟨c :: p, plain hc hp, ?_⟩
    rw [Text.bytes_cons_of_ascii hchar, Text.bytes_cons_of_ascii hchar]
    rfl

theorem removingPercentEncoding_iff (hp : Text.Ascii p) : removingPercentEncoding e = some p ↔
    Escaped p e := by
  constructor
  · intro h
    obtain ⟨bytes, hbytes, htext⟩ := Option.bind_eq_some_iff.mp h
    have hsame := Text.bytes_of_ofBytes? htext
    subst hsame
    obtain ⟨q, hq, hqp⟩ := of_percentDecode hbytes hp.bytes_lt
    rwa [← Text.bytes_injective hqp]
  · intro h
    rw [removingPercentEncoding, h.percentDecode_eq hp, Option.bind_some, Text.ofBytes?_bytes]

theorem self (h : '%' ∉ p) : Escaped p p := by
  induction p with
  | nil => exact nil
  | cons c p ih =>
    exact plain (fun hc => h (by rw [hc]; exact List.mem_cons_self))
      (ih fun hp => h (List.mem_cons_of_mem _ hp))

theorem eq_of_bare (h : Escaped p e) (hbare : '%' ∉ e) : p = e := by
  induction h with
  | nil => rfl
  | plain _ _ ih => rw [ih fun hmem => hbare (List.mem_cons_of_mem _ hmem)]
  | escape => exact absurd List.mem_cons_self hbare

theorem length_le (h : Escaped p e) : p.length ≤ e.length ∧ e.length ≤ p.length * 3 := by
  induction h with
  | nil => exact ⟨Nat.le_refl _, Nat.le_refl _⟩
  | plain =>
    rw [List.length_cons, List.length_cons]
    omega
  | escape =>
    simp only [List.length_cons]
    omega

/-- The first escape stands where its character stood. -/
theorem percent_mem_take (h : Escaped p e) (hmem : '%' ∈ e) : '%' ∈ e.take p.length := by
  induction h with
  | nil => cases hmem
  | plain hc _ ih =>
    rcases List.mem_cons.mp hmem with rfl | hmem
    · exact absurd rfl hc
    · exact List.mem_cons_of_mem _ (ih hmem)
  | escape => exact List.mem_cons_self

theorem mem {c : Char} (h : Escaped p e) (hc : c ∈ e) : c ∈ p ∨ c = '%' ∨ c.isAlphanum := by
  induction h with
  | nil => cases hc
  | plain _ _ ih =>
    rcases List.mem_cons.mp hc with rfl | hc
    · exact .inl List.mem_cons_self
    · exact (ih hc).imp (List.mem_cons_of_mem _) id
  | escape hhigh hlow _ _ ih =>
    simp only [List.mem_cons] at hc
    rcases hc with rfl | rfl | rfl | hc
    · exact .inr (.inl rfl)
    · exact .inr (.inr (hexValue?_spec hhigh).2)
    · exact .inr (.inr (hexValue?_spec hlow).2)
    · exact (ih hc).imp (List.mem_cons_of_mem _) id

/-- Of a text that begins with encodings of two texts of one length, both are the same. -/
theorem unique {p' e' rest rest' : Text} (h : Escaped p e) (h' : Escaped p' e')
    (hlength : p.length = p'.length)
    (hsame : e ++ rest = e' ++ rest') : p = p' ∧ e = e' ∧ rest = rest' := by
  induction h generalizing p' e' with
  | nil =>
    cases p' with
    | nil =>
      cases h'
      exact ⟨rfl, rfl, hsame⟩
    | cons => cases hlength
  | @plain c p e hc _ ih =>
    cases h' with
    | nil => cases hlength
    | plain hc' h' =>
      obtain ⟨rfl, htail⟩ := List.cons.inj hsame
      obtain ⟨rfl, rfl, hrest⟩ := ih h' (Nat.succ.inj hlength) htail
      exact ⟨rfl, rfl, hrest⟩
    | escape => exact absurd (List.cons.inj hsame).1 hc
  | @escape c high low a b p e hhigh hlow hc _ ih =>
    cases h' with
    | nil => cases hlength
    | plain hc' => exact absurd (List.cons.inj hsame).1.symm hc'
    | @escape c' high' low' a' b' p' e' hhigh' hlow' hc' h' =>
      simp only [List.cons_append, List.cons.injEq, true_and] at hsame
      obtain ⟨rfl, rfl, hsame⟩ := hsame
      obtain rfl := Option.some.inj (hhigh.symm.trans hhigh')
      obtain rfl := Option.some.inj (hlow.symm.trans hlow')
      obtain ⟨rfl, rfl, hrest⟩ := ih h' (Nat.succ.inj hlength) hsame
      exact ⟨congrArg (· :: p) (Char.toNat_inj.mp (hc.trans hc'.symm)), rfl, hrest⟩

end Escaped

namespace PairingService

/-! ### Breaks -/

/-- As many soft breaks with CR and LF. -/
def softBreaks (k : Nat) : Text := (List.replicate k ['=', '\r', '\n']).flatten

/-- Breaks: hard wraps, and soft breaks whose line end comes at once, where soft breaks with CR and
LF may stand between the `=` and its LF. -/
inductive Breaks : Text → Prop
  | nil : Breaks []
  | wrap {c : Char} {g : Text} : isHardWrap c → Breaks g → Breaks (c :: g)
  | crlf {g : Text} : Breaks g → Breaks ('=' :: '\r' :: '\n' :: g)
  | lf {g : Text} (k : Nat) : Breaks g → Breaks ('=' :: (softBreaks k ++ '\n' :: g))

/-- Neither an `=` nor a hard wrap. -/
def Kept (c : Char) : Prop := c ≠ '=' ∧ isHardWrap c = false

theorem ne_of_isHardWrap {c : Char} (h : isHardWrap c) : c ≠ '=' := by
  rintro rfl
  cases h

theorem isHardWrap_cases {c : Char} (h : isHardWrap c) : c = ' ' ∨ c = '\t' ∨ c = '\r' ∨
    c = '\n' := by
  simpa [isHardWrap, or_assoc] using h

section Removing

variable {c : Char} {s : Text}

/-- The pattern begins with `=`. -/
theorem removing_of_ne (h : c ≠ '=') (pattern s : Text) :
    (c :: s).removing ('=' :: pattern) = c :: s.removing ('=' :: pattern) :=
  List.removing_cons fun hfront => h (List.cons_prefix_cons.mp hfront).1.symm

theorem removingBreaks_wrap (h : isHardWrap c) (s : Text) :
    removingBreaks (c :: s) = removingBreaks s := by
  have hc := ne_of_isHardWrap h
  rw [removingBreaks, removing_of_ne hc, removing_of_ne hc, List.filter_cons_of_neg (by simp [h]),
    removingBreaks]

theorem removingBreaks_kept (h : Kept c) (s : Text) :
    removingBreaks (c :: s) = c :: removingBreaks s := by
  rw [removingBreaks, removing_of_ne h.1, removing_of_ne h.1,
    List.filter_cons_of_pos (by simp [h.2]), removingBreaks]

theorem removing_softBreaks (k : Nat) (s : Text) :
    (softBreaks k ++ s).removing ['=', '\r', '\n'] = s.removing ['=', '\r', '\n'] := by
  induction k with
  | zero => rfl
  | succ k ih => exact (List.removing_append '=' ['\r', '\n'] _).trans ih

theorem removingBreaks_crlf (s : Text) : removingBreaks ('=' :: '\r' :: '\n' :: s) =
    removingBreaks s :=
  congrArg (fun t : Text => (t.removing ['=', '\n']).filter (!isHardWrap ·))
    (List.removing_append '=' ['\r', '\n'] s)

/-- An `=` with anything but CR and LF behind it stays at first. -/
theorem removing_lone (h : ¬['\r', '\n'] <+: s) :
    ('=' :: s).removing ['=', '\r', '\n'] = '=' :: s.removing ['=', '\r', '\n'] :=
  List.removing_cons fun hfront => h (List.cons_prefix_cons.mp hfront).2

theorem removingBreaks_lf (k : Nat) (s : Text) :
    removingBreaks ('=' :: (softBreaks k ++ '\n' :: s)) = removingBreaks s := by
  have hlone : ¬['\r', '\n'] <+: softBreaks k ++ '\n' :: s := by
    cases k with
    | zero => exact fun hfront => absurd (List.cons_prefix_cons.mp hfront).1 (by decide)
    | succ k => exact fun hfront => absurd (List.cons_prefix_cons.mp hfront).1 (by decide)
  rw [removingBreaks, removing_lone hlone, removing_softBreaks,
    removing_of_ne (show '\n' ≠ '=' by decide)]
  exact congrArg (List.filter (!isHardWrap ·)) (List.removing_append '=' ['\n'] _)

theorem removingBreaks_breaks {g : Text} (h : Breaks g) (s : Text) :
    removingBreaks (g ++ s) = removingBreaks s := by
  induction h with
  | nil => rfl
  | wrap hc _ ih => exact (removingBreaks_wrap hc _).trans ih
  | crlf _ ih => exact (removingBreaks_crlf _).trans ih
  | lf k _ ih =>
    rw [List.cons_append, List.append_assoc, List.cons_append, removingBreaks_lf, ih]

/-- What begins with a line feed without its soft breaks begins with some and then a line feed. -/
theorem exists_softBreaks {rest : Text} (h : s.removing ['=', '\r', '\n'] = '\n' :: rest) :
    ∃ k s', s = softBreaks k ++ '\n' :: s' ∧ s'.removing ['=', '\r', '\n'] = rest := by
  induction hlength : s.length using Nat.strong_induction_on generalizing s with
  | _ n ih =>
    match s with
    | [] => cases h
    | c :: s =>
      by_cases hfront : ['=', '\r', '\n'] <+: c :: s
      · obtain ⟨s', hs'⟩ := hfront
        have hdrop := List.removing_append '=' ['\r', '\n'] s'
        rw [← hs', List.cons_append, hdrop] at h
        have hshort : s'.length < n := by
          rw [← hlength, ← hs', List.length_append]
          exact Nat.lt_add_of_pos_left (by decide)
        obtain ⟨k, s'', rfl, hrest⟩ := ih _ hshort h rfl
        exact ⟨k + 1, s'', hs'.symm, hrest⟩
      · rw [List.removing_cons hfront] at h
        obtain ⟨rfl, hrest⟩ := List.cons.inj h
        exact ⟨0, s, rfl, hrest⟩

/-- A text that keeps no `=` without its breaks has breaks woven in. -/
theorem woven_removingBreaks (h : '=' ∉ removingBreaks s) :
    WovenThrough Breaks (removingBreaks s) s := by
  induction hlength : s.length using Nat.strong_induction_on generalizing s with
  | _ n ih =>
    match s with
    | [] => exact ⟨[], [], .nil, .nil, rfl⟩
    | c :: s =>
      have hshort : s.length < n := by rw [← hlength]; exact Nat.lt_succ_self _
      by_cases hwrap : isHardWrap c
      · rw [removingBreaks_wrap hwrap] at h ⊢
        exact (ih _ hshort h rfl).front (g := [c]) fun _ => .wrap hwrap
      by_cases hc : c = '='
      · subst hc
        by_cases hcrlf : ['\r', '\n'] <+: s
        · obtain ⟨s', rfl⟩ := hcrlf
          rw [List.cons_append, List.cons_append, List.nil_append, removingBreaks_crlf] at h ⊢
          exact (ih _ (by simp at hshort; omega) h rfl).front (g := ['=', '\r', '\n']) fun _ =>
            .crlf
        · by_cases hlf : ['\n'] <+: s.removing ['=', '\r', '\n']
          · obtain ⟨rest, hrest⟩ := hlf
            obtain ⟨k, s', rfl, _⟩ := exists_softBreaks hrest.symm
            rw [removingBreaks_lf] at h ⊢
            have hjoin : ∀ g, Breaks g → Breaks (('=' :: (softBreaks k ++ ['\n'])) ++ g) :=
              fun g hg => by
              rw [List.cons_append, List.append_assoc]
              exact .lf k hg
            have hfront := (ih s'.length (by simp at hshort; omega) h rfl).front hjoin
            rwa [List.cons_append, List.append_assoc] at hfront
          · refine absurd ?_ h
            rw [removingBreaks, removing_lone hcrlf,
              List.removing_cons fun hfront => hlf (List.cons_prefix_cons.mp hfront).2]
            exact List.mem_cons_self
      · rw [removingBreaks_kept ⟨hc, by simpa using hwrap⟩] at h ⊢
        exact (ih _ hshort (fun hmem => h (List.mem_cons_of_mem _ hmem)) rfl).cons .nil c

end Removing

/-! ### Characters that are sent -/

theorem Breaks.eq_or_isHardWrap {g : Text} (h : Breaks g) : ∀ c ∈ g, c = '=' ∨ isHardWrap c := by
  have hbreaks (k : Nat) : ∀ c ∈ softBreaks k, c = '=' ∨ isHardWrap c := by
    intro c hc
    obtain ⟨t, ht, hc⟩ := List.mem_flatten.mp hc
    rw [List.eq_of_mem_replicate ht] at hc
    have hall : ∀ d ∈ ['=', '\r', '\n'], d = '=' ∨ isHardWrap d := by decide
    exact hall c hc
  induction h with
  | nil => nofun
  | wrap hc _ ih => exact List.forall_mem_cons.mpr ⟨.inr hc, ih⟩
  | crlf _ ih => exact List.forall_mem_cons.mpr ⟨.inl rfl, List.forall_mem_cons.mpr ⟨.inr rfl,
      List.forall_mem_cons.mpr ⟨.inr rfl, ih⟩⟩⟩
  | lf k _ ih => exact List.forall_mem_cons.mpr ⟨.inl rfl, List.forall_mem_append.mpr ⟨hbreaks k,
      List.forall_mem_cons.mpr ⟨.inr rfl, ih⟩⟩⟩

/-- Breaks end in a line feed or a hard wrap. -/
theorem Breaks.getLast?_isHardWrap {g : Text} (h : Breaks g) :
    ∀ c, g.getLast? = some c → isHardWrap c := by
  have htail (d : Char) (g : Text) (hd : isHardWrap d) (ih : ∀ c, g.getLast? = some c →
    isHardWrap c) :
      ∀ c, (d :: g).getLast? = some c → isHardWrap c := by
    intro c hc
    rw [List.getLast?_cons] at hc
    obtain rfl := Option.some.inj hc
    cases hg : g.getLast? with
    | none => exact hd
    | some e => exact ih e hg
  induction h with
  | nil => nofun
  | wrap hc _ ih => exact htail _ _ hc ih
  | @crlf g _ ih =>
    intro c hc
    rw [show '=' :: '\r' :: '\n' :: g = ['=', '\r'] ++ '\n' :: g from rfl,
      List.getLast?_append_of_ne_nil _ (List.cons_ne_nil _ _)] at hc
    exact htail _ _ rfl ih c hc
  | @lf g k _ ih =>
    intro c hc
    rw [← List.cons_append, List.getLast?_append_of_ne_nil _ (List.cons_ne_nil _ _)] at hc
    exact htail _ _ rfl ih c hc

/-- What a transport puts into a text. -/
def isArtefact (c : Char) : Bool :=
  c == '=' || isSpaceOrNewline c || quotePairs.any fun pair => c == pair.1 || c == pair.2

/-- An ASCII character that no transport puts into a text. -/
structure Sent (c : Char) : Prop where
  ascii : c.toNat < 128
  artefact : isArtefact c = false

instance : DecidablePred Sent := fun c =>
  decidable_of_iff (c.toNat < 128 ∧ isArtefact c = false) ⟨fun h => ⟨h.1, h.2⟩, fun h => ⟨h.1, h.2⟩⟩

theorem sent_of_isBase64URL {c : Char} (h : isBase64URL c) : Sent c ∧ c ≠ '%' := by
  have hascii : c.toNat < 128 := by
    by_contra hlarge
    have hne (d : Char) (hd : d.toNat < 128) : c ≠ d := fun hc => hlarge (by rw [hc]; exact hd)
    unfold isBase64URL at h
    delta Char.isAlphanum Char.isAlpha Char.isUpper Char.isLower Char.isDigit at h
    simp [hne '-' (by decide), hne '_' (by decide), UInt32.le_iff_toNat_le] at h
    have hc : c.toNat = c.val.toNat := rfl
    omega
  have hall : ∀ k < 128, isBase64URL (Char.ofNat k) → Sent (Char.ofNat k) ∧ Char.ofNat k ≠ '%' := by
    decide +kernel
  have hchar := hall c.toNat hascii
  rw [Char.ofNat_toNat] at hchar
  exact hchar h

theorem sent_of_lowercased {p : Text} (h : lowercased p = inviteScheme) {c : Char} (hc : c ∈ p) :
    Sent c ∧ c ≠ '%' := by
  have hlower : c.toLower ∈ inviteScheme := by
    rw [← h]
    exact List.mem_map_of_mem hc
  have hascii : c.toNat < 128 := by
    by_contra hlarge
    have hsame : c.toLower = c := by
      delta Char.toLower
      rw [dif_neg]
      intro hupper
      have hle := UInt32.le_iff_toNat_le.mp hupper.2
      have hc : c.toNat = c.val.toNat := rfl
      have hz : 'Z'.val.toNat = 90 := rfl
      omega
    have hsmall : ∀ d ∈ inviteScheme, d.toNat < 128 := by decide
    exact hlarge (hsmall c (by rwa [hsame] at hlower))
  have hall : ∀ k < 128, (Char.ofNat k).toLower ∈ inviteScheme → Sent (Char.ofNat k) ∧
    Char.ofNat k ≠ '%' := by
    decide +kernel
  have hchar := hall c.toNat hascii
  rw [Char.ofNat_toNat] at hchar
  exact hchar hlower

theorem isSpaceOrNewline_of_isHardWrap {c : Char} (h : isHardWrap c) : isSpaceOrNewline c := by
  rcases isHardWrap_cases h with rfl | rfl | rfl | rfl <;> decide

namespace Sent

variable {c : Char}

theorem kept (h : Sent c) : Kept c := by
  have hc := h.artefact
  simp only [isArtefact, Bool.or_eq_false_iff, beq_eq_false_iff_ne] at hc
  refine ⟨hc.1.1, ?_⟩
  by_contra hwrap
  rw [Bool.not_eq_false] at hwrap
  rw [isSpaceOrNewline_of_isHardWrap hwrap] at hc
  cases hc.1.2

theorem simple (h : Sent c) : isSimple c := by
  simp [isSimple, h.ascii]

theorem ne_quote (h : Sent c) {pair : Char × Char} (hpair : pair ∈ quotePairs) : c ≠ pair.1 := by
  have hc := h.artefact
  simp only [isArtefact, Bool.or_eq_false_iff, List.any_eq_false] at hc
  have hne := hc.2 pair hpair
  simp only [Bool.or_eq_true, beq_iff_eq, not_or] at hne
  exact hne.1

end Sent

/-! ### What is undone -/

/-- Whitespace, and at most one pair of quotes, around a text. -/
inductive Enclosed (core : Text) : Text → Prop
  | bare {v w : Text} : v.all isSpaceOrNewline → w.all isSpaceOrNewline →
      Enclosed core (v ++ (core ++ w))
  | quoted {v v' w w' : Text} {pair : Char × Char} : pair ∈ quotePairs → v.all isSpaceOrNewline →
      w.all isSpaceOrNewline → v'.all isSpaceOrNewline → w'.all isSpaceOrNewline →
      Enclosed core (v ++ (pair.1 :: (v' ++ (core ++ w')) ++ [pair.2] ++ w))

/-- Breaks are woven into the scheme and the body, or into the body alone behind a scheme that is
percent-encoded. -/
def Broken (scheme body core : Text) : Prop :=
  ('%' ∉ scheme ∧ Woven Breaks (scheme ++ body) core) ∨
    ('%' ∈ scheme ∧ ∃ rest, core = scheme ++ rest ∧ Woven Breaks body rest)

/-- A text from which the code gets back the scheme and the body. -/
def Recoverable (scheme body s : Text) : Prop :=
  ∃ core, Enclosed core s ∧ List.Trimmed isSpaceOrNewline core ∧ Broken scheme body core

section Recovering

variable {σ : Characters} {p scheme body core rest s : Text}

/-- The characters of a text with breaks woven in. -/
theorem Broken.mem (h : Broken scheme body core) {c : Char} (hc : c ∈ core) :
    c ∈ scheme ++ body ∨ c = '=' ∨ isHardWrap c := by
  have hwoven {t s : Text} (hws : Woven Breaks t s) (hmem : c ∈ s) : c ∈ t ∨ c = '=' ∨
    isHardWrap c := by
    rcases hws.mem_of_mem hmem with ht | ⟨g, hg, hmem⟩
    · exact .inl ht
    · exact .inr (hg.eq_or_isHardWrap c hmem)
  rcases h with ⟨_, h⟩ | ⟨_, rest, rfl, h⟩
  · exact hwoven h hc
  · rcases List.mem_append.mp hc with hc | hc
    · exact .inl (List.mem_append_left _ hc)
    · exact (hwoven h hc).imp (List.mem_append_right _) id

/-- Without its breaks the text is the scheme and the body. -/
theorem removingBreaks_woven {t : Text} (h : Woven Breaks t s) (ht : ∀ c ∈ t, Kept c) :
    removingBreaks s = t :=
  h.apply_eq rfl (fun _ hg x => removingBreaks_breaks hg x) fun c hc x =>
    removingBreaks_kept (ht c hc) x

theorem removingBreaks_append (h : ∀ c ∈ p, Kept c) (s : Text) :
    removingBreaks (p ++ s) = p ++ removingBreaks s := by
  induction p with
  | nil => rfl
  | cons c p ih =>
    rw [List.cons_append, removingBreaks_kept (h c List.mem_cons_self),
      ih fun d hd => h d (List.mem_cons_of_mem _ hd)]
    rfl

/-- The text within whitespace and quotes. -/
theorem stripQuotes_enclosed (h : Enclosed core s) (htrimmed : List.Trimmed isSpaceOrNewline core)
    (hcore : ∀ c ∈ core, isSimple c ∧ ∀ pair ∈ quotePairs, c ≠ pair.1) :
    stripQuotes σ (trimmingCharacters s) = core := by
  have hspaces {v w : Text} (t : Text) (hv : v.all isSpaceOrNewline) (hw : w.all isSpaceOrNewline) :
      trimmingCharacters (v ++ (t ++ w)) = trimmingCharacters t := by
    rw [trimmingCharacters, List.trimming_append_left (List.all_eq_true.mp hv),
      List.trimming_append_right (List.all_eq_true.mp hw)]
    rfl
  cases h with
  | bare hv hw =>
    rw [hspaces _ hv hw, trimmingCharacters, htrimmed.trimming_eq, stripQuotes, if_neg]
    intro hany
    obtain ⟨pair, hpair, hquoted⟩ := List.any_eq_true.mp hany
    simp only [isQuoted, Bool.and_eq_true, beq_iff_eq] at hquoted
    have hmem : pair.1 ∈ core := by
      rw [← σ.joined core]
      exact List.mem_flatten.mpr ⟨_, List.mem_of_head? hquoted.1.2, List.mem_cons_self⟩
    exact (hcore _ hmem).2 pair hpair rfl
  | @quoted v v' w w' pair hpair hv hw hv' hw' =>
    have hends : isSpaceOrNewline pair.1 = false ∧ isSpaceOrNewline pair.2 = false ∧
      isSimple pair.1 ∧
        isSimple pair.2 ∧ pair.1 ≠ '\r' ∧ pair.2 ≠ '\n' := by
      have hall : ∀ q ∈ quotePairs, isSpaceOrNewline q.1 = false ∧ isSpaceOrNewline q.2 = false ∧
          isSimple q.1 ∧ isSimple q.2 ∧ q.1 ≠ '\r' ∧ q.2 ≠ '\n' := by decide +kernel
      exact hall pair hpair
    obtain ⟨hopen, hclose, hsopen, hsclose, hcr, hlf⟩ := hends
    have hquoted : List.Trimmed isSpaceOrNewline (pair.1 :: (v' ++ (core ++ w')) ++ [pair.2]) := by
      refine ⟨fun c hc => ?_, fun c hc => ?_⟩
      · obtain rfl := Option.some.inj hc
        exact hopen
      · rw [List.getLast?_concat] at hc
        obtain rfl := Option.some.inj hc
        exact hclose
    have hspace (t : Text) (ht : t.all isSpaceOrNewline) : t.all isSimple :=
      List.all_eq_true.mpr fun c hc => by simp [isSimple, List.all_eq_true.mp ht c hc]
    have hsimple : (pair.1 :: (v' ++ (core ++ w')) ++ [pair.2]).all isSimple := by
      have hall := List.all_eq_true.mpr fun c hc => (hcore c hc).1
      simp [hsopen, hsclose, hspace v' hv', hspace w' hw', hall]
    have hsplit : σ.split (pair.1 :: (v' ++ (core ++ w')) ++ [pair.2]) =
        [pair.1] :: (simpleCharacters (v' ++ (core ++ w')) ++ [[pair.2]]) := by
      rw [σ.simple _ hsimple, List.cons_append, Characters.simple_cons hcr,
        Characters.simple_concat hlf]
    have hany : quotePairs.any (isQuoted σ (pair.1 :: (v' ++ (core ++ w')) ++ [pair.2])) := by
      refine List.any_eq_true.mpr ⟨pair, hpair, ?_⟩
      rw [isQuoted, Characters.count, hsplit, ← List.cons_append, List.getLast?_concat]
      simp
    rw [hspaces _ hv hw, trimmingCharacters, hquoted.trimming_eq, stripQuotes, if_pos hany, hsplit,
      List.drop_one, List.tail_cons, List.dropLast_concat, Characters.simple_joined,
        hspaces _ hv' hw',
      trimmingCharacters, htrimmed.trimming_eq]

theorem ascii_of_lowercased (h : lowercased p = inviteScheme) : Text.Ascii p := fun _ hc =>
  (sent_of_lowercased h hc).1.ascii

theorem length_of_lowercased (h : lowercased p = inviteScheme) : p.length = 18 := by
  have hlength := congrArg List.length h
  rwa [lowercased, List.length_map] at hlength

theorem decodedHead_eq_some {n : Nat} {t : Text} : decodedHead σ s n = some t ↔
    ∃ p, '%' ∈ σ.pre n s ∧ Escaped p (σ.pre n s) ∧ lowercased p = inviteScheme ∧
    t = p ++ σ.dropFirst n s := by
  rw [decodedHead]
  constructor
  · intro h
    split at h
    · rename_i hpercent
      obtain ⟨p, hp, h⟩ := Option.bind_eq_some_iff.mp h
      split at h
      · rename_i hlower
        exact ⟨p, hpercent, (Escaped.removingPercentEncoding_iff
          (ascii_of_lowercased hlower)).mp hp, hlower, (Option.some.inj h).symm⟩
      · cases h
    · cases h
  · rintro ⟨p, hpercent, hp, hlower, rfl⟩
    rw [if_pos hpercent, (Escaped.removingPercentEncoding_iff (ascii_of_lowercased hlower)).mpr hp,
      Option.bind_some, if_pos hlower]

/-- Either nothing is decoded, or a front that is an encoding of the scheme. -/
theorem percentDecode_cases (s : Text) : percentDecodeSchemePrefixOnly σ s = s ∨
    ∃ p scheme rest, s = scheme ++ rest ∧ '%' ∈ scheme ∧ Escaped p scheme ∧
    lowercased p = inviteScheme ∧
      percentDecodeSchemePrefixOnly σ s = p ++ rest := by
  rw [percentDecodeSchemePrefixOnly]
  split
  · dsimp only
    generalize hfound : List.findSome? (decodedHead σ s) _ = found
    cases found with
    | none => exact .inl rfl
    | some t =>
      obtain ⟨n, _, hn⟩ := List.exists_of_findSome?_eq_some hfound
      obtain ⟨p, hpercent, hp, hlower, rfl⟩ := decodedHead_eq_some.mp hn
      exact .inr ⟨p, _, _, (Characters.pre_append_dropFirst n s).symm, hpercent, hp, hlower, rfl⟩
  · exact .inl rfl

/-- An encoding of the scheme at the front is decoded. -/
theorem percentDecode_escaped (h : Escaped p scheme) (hlower : lowercased p = inviteScheme)
    (hpercent : '%' ∈ scheme) (hcr : '\r' ∉ scheme) (hsimple : (scheme ++ rest).all isSimple) :
    percentDecodeSchemePrefixOnly σ (scheme ++ rest) = p ++ rest := by
  have hlength := length_of_lowercased hlower
  obtain ⟨hmin, hmax⟩ := h.length_le
  have hcount := @Characters.length_le_count σ scheme rest hcr hsimple
  have hscheme : inviteScheme.length = 18 := rfl
  have hfront : ¬inviteScheme <+: lowercased (scheme ++ rest) := by
    intro hfront
    have htake := List.prefix_iff_eq_take.mp hfront
    have hmem : '%' ∈ inviteScheme := by
      rw [htake, lowercased, ← List.map_take, List.take_append_of_le_length (by omega),
        hscheme, ← hlength]
      exact List.mem_map.mpr ⟨'%', h.percent_mem_take hpercent, rfl⟩
    exact absurd hmem (by decide)
  have hfound (n : Nat) (t : Text) (hn : decodedHead σ (scheme ++ rest) n = some t) : t =
    p ++ rest := by
    obtain ⟨p', _, hp', hlower', rfl⟩ := decodedHead_eq_some.mp hn
    obtain ⟨rfl, _, hrest⟩ := hp'.unique h ((length_of_lowercased hlower').trans hlength.symm)
      (Characters.pre_append_dropFirst n _)
    rw [hrest]
  have hhead : decodedHead σ (scheme ++ rest) scheme.length = some (p ++ rest) := by
    apply decodedHead_eq_some.mpr
    rw [Characters.pre_append hcr hsimple, Characters.dropFirst_append hcr hsimple]
    exact ⟨p, hpercent, h, hlower, rfl⟩
  rw [percentDecodeSchemePrefixOnly, if_pos ⟨hfront, List.mem_append_left _ hpercent, by omega⟩]
  dsimp only
  generalize hresult : List.findSome? (decodedHead σ (scheme ++ rest)) _ = result
  cases result with
  | none =>
    have hnone := List.findSome?_eq_none_iff.mp hresult scheme.length
      (List.mem_range'_1.mpr (by omega))
    rw [hhead] at hnone
    cases hnone
  | some t =>
    obtain ⟨n, _, hn⟩ := List.exists_of_findSome?_eq_some hresult
    exact hfound n t hn

theorem percentDecode_bare (h : '%' ∉ s) : percentDecodeSchemePrefixOnly σ s = s := by
  rw [percentDecodeSchemePrefixOnly, if_neg fun hguard => h hguard.2.1]

/-- The characters of an encoded scheme. -/
theorem sent_of_escaped (h : Escaped p scheme) (hlower : lowercased p = inviteScheme) {c : Char}
    (hc : c ∈ scheme) : Sent c := by
  rcases h.mem hc with hp | rfl | hc
  · exact (sent_of_lowercased hlower hp).1
  · decide
  · exact (sent_of_isBase64URL (by simp [isBase64URL, hc])).1

theorem normalize_recoverable (h : Escaped p scheme) (hlower : lowercased p = inviteScheme)
    (hbody : ∀ c ∈ body, isBase64URL c) (hs : Recoverable scheme body s) :
    normalizeInviteTransportString σ s = p ++ body := by
  obtain ⟨core, henclosed, htrimmed, hbroken⟩ := hs
  have hkeptp : ∀ c ∈ p, Kept c := fun c hc => (sent_of_lowercased hlower hc).1.kept
  have hkeptbody : ∀ c ∈ body, Kept c := fun c hc => (sent_of_isBase64URL (hbody c hc)).1.kept
  have hsent : ∀ c ∈ scheme ++ body, Sent c := List.forall_mem_append.mpr
    ⟨fun c hc => sent_of_escaped h hlower hc, fun c hc => (sent_of_isBase64URL (hbody c hc)).1⟩
  have hchars : ∀ c ∈ core, isSimple c ∧ ∀ pair ∈ quotePairs, c ≠ pair.1 := by
    intro c hc
    rcases hbroken.mem hc with hc | rfl | hwrap
    · exact ⟨(hsent c hc).simple, fun pair hpair => (hsent c hc).ne_quote hpair⟩
    · decide
    · rcases isHardWrap_cases hwrap with rfl | rfl | rfl | rfl <;> decide
  rw [normalizeInviteTransportString, stripQuotes_enclosed henclosed htrimmed hchars]
  rcases id hbroken with ⟨hbare, hwoven⟩ | ⟨hpercent, rest, rfl, hwoven⟩
  · have hnone : '%' ∉ core := by
      intro hmem
      rcases hbroken.mem hmem with hmem | hmem | hmem
      · rcases List.mem_append.mp hmem with hmem | hmem
        · exact hbare hmem
        · exact absurd (hbody _ hmem) (by decide)
      · cases hmem
      · cases hmem
    obtain rfl := h.eq_of_bare hbare
    rw [percentDecode_bare hnone, removingBreaks_woven hwoven fun c hc => (hsent c hc).kept]
  · have hcr : '\r' ∉ scheme := fun hcr => absurd (sent_of_escaped h hlower hcr) (by decide)
    have hsimple : (scheme ++ rest).all isSimple := List.all_eq_true.mpr fun c hc => (hchars c hc).1
    rw [percentDecode_escaped h hlower hpercent hcr hsimple, removingBreaks_append hkeptp,
      removingBreaks_woven hwoven hkeptbody]


/-- The text within whitespace and quotes that the code finds. -/
theorem enclosed_stripQuotes (s : Text) : Enclosed (stripQuotes σ (trimmingCharacters s)) s ∧
    List.Trimmed isSpaceOrNewline (stripQuotes σ (trimmingCharacters s)) := by
  obtain ⟨v, w, hv, hw, hs⟩ := List.exists_trimming isSpaceOrNewline s
  have hv := List.all_eq_true.mpr hv
  have hw := List.all_eq_true.mpr hw
  rw [stripQuotes]
  split
  · rename_i hany
    obtain ⟨pair, hpair, hquoted⟩ := List.any_eq_true.mp hany
    simp only [isQuoted, Bool.and_eq_true, decide_eq_true_eq, beq_iff_eq] at hquoted
    obtain ⟨⟨hcount, hfirst⟩, hlast⟩ := hquoted
    generalize hinner : (((σ.split (trimmingCharacters s)).drop 1).dropLast).flatten = inner
    have htext : trimmingCharacters s = pair.1 :: inner ++ [pair.2] := by
      rw [← σ.joined (trimmingCharacters s), ← hinner]
      match hsplit : σ.split (trimmingCharacters s), hfirst, hlast, hcount with
      | [], hfirst, _, _ => cases hfirst
      | [_], _, _, hcount => rw [Characters.count,
          hsplit] at hcount; exact absurd hcount (Nat.not_succ_le_self 1)
      | first :: second :: more, hfirst, hlast, _ =>
        obtain rfl := Option.some.inj hfirst
        have hne : second :: more ≠ [] := List.cons_ne_nil _ _
        rw [List.getLast?_cons_cons, List.getLast?_eq_some_getLast hne] at hlast
        have hend := List.dropLast_append_getLast hne
        rw [Option.some.inj hlast] at hend
        rw [List.drop_one, List.tail_cons, List.flatten_cons, ← hend, List.flatten_append,
          List.dropLast_concat]
        simp
    obtain ⟨v', w', hv', hw', hinner'⟩ := List.exists_trimming isSpaceOrNewline inner
    refine ⟨?_, List.trimmed_trimming _ _⟩
    have hall := @Enclosed.quoted (trimmingCharacters inner) _ _ _ _ _ hpair hv hw
      (List.all_eq_true.mpr hv') (List.all_eq_true.mpr hw')
    rw [trimmingCharacters, ← hinner', ← htext] at hall
    rw [trimmingCharacters] at hall ⊢
    rwa [hs.symm] at hall
  · refine ⟨?_, List.trimmed_trimming _ _⟩
    have hall := @Enclosed.bare (trimmingCharacters s) _ _ hv hw
    rwa [trimmingCharacters, hs.symm] at hall

/-- What is left without its breaks had breaks woven in, and none at its end. -/
theorem woven_of_trimmed {t : Text} (hbody : ∀ c ∈ removingBreaks t, Kept c)
    (hlast : ∀ c, t.getLast? = some c → isSpaceOrNewline c = false) :
    Woven Breaks (removingBreaks t) t := by
  refine (woven_removingBreaks fun hmem => (hbody _ hmem).1 rfl).woven hlast fun g hg c hc => ?_
  exact isSpaceOrNewline_of_isHardWrap (hg.getLast?_isHardWrap c hc)

theorem recoverable_of_normalize (hlower : lowercased p = inviteScheme)
    (hbody : ∀ c ∈ body, isBase64URL c) (h : normalizeInviteTransportString σ s = p ++ body) :
    ∃ scheme, Escaped p scheme ∧ Recoverable scheme body s := by
  obtain ⟨henclosed, htrimmed⟩ := @enclosed_stripQuotes σ s
  have hkeptp : ∀ c ∈ p, Kept c := fun c hc => (sent_of_lowercased hlower hc).1.kept
  have hkeptbody : ∀ c ∈ body, Kept c := fun c hc => (sent_of_isBase64URL (hbody c hc)).1.kept
  have hpercent : '%' ∉ p := fun hmem => (sent_of_lowercased hlower hmem).2 rfl
  rw [normalizeInviteTransportString] at h
  generalize stripQuotes σ (trimmingCharacters s) = core at h henclosed htrimmed
  rcases @percentDecode_cases σ core with hsame | ⟨q, scheme, rest, rfl, hmem, hq, hqlower, hsame⟩
  · rw [hsame] at h
    have hwoven := woven_of_trimmed (t := core)
      (by rw [h]; exact List.forall_mem_append.mpr ⟨hkeptp, hkeptbody⟩) htrimmed.2
    rw [h] at hwoven
    exact ⟨p, .self hpercent, core, henclosed, htrimmed, .inl ⟨hpercent, hwoven⟩⟩
  · have hkeptq : ∀ c ∈ q, Kept c := fun c hc => (sent_of_lowercased hqlower hc).1.kept
    rw [hsame, removingBreaks_append hkeptq] at h
    obtain ⟨rfl, rfl⟩ :=
      List.append_inj h ((length_of_lowercased hqlower).trans (length_of_lowercased hlower).symm)
    have hwoven := woven_of_trimmed (t := rest) hkeptbody fun c hc => htrimmed.2 c (by
      rw [List.getLast?_append, hc]
      rfl)
    exact ⟨scheme, hq, _, henclosed, htrimmed, .inr ⟨hmem, rest, rfl, hwoven⟩⟩

theorem isBase64URL_of_decode {wire : Data} (h : base64URLDecode σ body = some wire) :
    body ≠ [] ∧ ∀ c ∈ body, isBase64URL c := by
  rw [base64URLDecode, Option.ite_none_right_eq_some] at h
  obtain ⟨⟨hne, hall⟩, _⟩ := h
  refine ⟨hne, fun c hc => ?_⟩
  rw [← σ.joined body] at hc
  obtain ⟨ch, hch, hc⟩ := List.mem_flatten.mp hc
  have hcharacter := List.all_eq_true.mp hall ch hch
  exact List.all_eq_true.mp (Bool.and_eq_true_iff.mp hcharacter).2 c hc

/-- The texts that are read, and what from. -/
theorem redeemedInvite_eq_some {i : Invite} : redeemedInvite σ s = some i ↔
    ∃ p scheme body wire, lowercased p = inviteScheme ∧ Escaped p scheme ∧
    Recoverable scheme body s ∧
      base64URLDecode σ body = some wire ∧ Invite.ofWire? wire = some i := by
  constructor
  · intro h
    obtain ⟨body, hparse, h⟩ := Option.bind_eq_some_iff.mp h
    obtain ⟨wire, hwire, hinvite⟩ := Option.bind_eq_some_iff.mp h
    rw [parseInviteScheme, Option.ite_none_right_eq_some] at hparse
    obtain ⟨⟨_, hlower⟩, hdrop⟩ := hparse
    have hbody := Option.some.inj hdrop
    have hnormal := @Characters.pre_append_dropFirst σ inviteScheme.length
      (normalizeInviteTransportString σ s)
    rw [hbody] at hnormal
    obtain ⟨scheme, hscheme, hs⟩ :=
      recoverable_of_normalize hlower (isBase64URL_of_decode hwire).2 hnormal.symm
    exact ⟨_, scheme, body, wire, hlower, hscheme, hs, hwire, hinvite⟩
  · rintro ⟨p, scheme, body, wire, hlower, hscheme, hs, hwire, hinvite⟩
    obtain ⟨hne, hbody⟩ := isBase64URL_of_decode hwire
    have hlength : p.length = inviteScheme.length := length_of_lowercased hlower
    have hcr : '\r' ∉ p := fun hmem => absurd (sent_of_lowercased hlower hmem).1 (by decide)
    have hcr' : '\r' ∉ p ++ body := fun hmem => (List.mem_append.mp hmem).elim hcr fun hmem =>
      absurd (hbody _ hmem) (by decide)
    have hsimple : (p ++ body).all isSimple := List.all_eq_true.mpr (List.forall_mem_append.mpr
      ⟨fun c hc => (sent_of_lowercased hlower hc).1.simple,
        fun c hc => (sent_of_isBase64URL (hbody c hc)).1.simple⟩)
    have hcount := @Characters.length_le_count σ (p ++ body) [] hcr' (by rwa [List.append_nil])
    rw [List.append_nil, List.length_append] at hcount
    have hpos := List.length_pos_iff.mpr hne
    have hparse : parseInviteScheme σ (p ++ body) = some body := by
      rw [parseInviteScheme, if_pos, ← hlength, Characters.dropFirst_append hcr hsimple]
      rw [← hlength, Characters.pre_append hcr hsimple]
      exact ⟨by omega, hlower⟩
    rw [redeemedInvite, normalize_recoverable hscheme hlower hbody hs, hparse]
    show (base64URLDecode σ body).bind _ = _
    rw [hwire]
    exact hinvite

end Recovering

/-! ### Minted invites -/

variable {σ : Characters}

theorem isBase64URL_of_mem_encode {wire : Data} {c : Char} (h : c ∈ base64URLEncode wire) :
    isBase64URL c := by
  rw [base64URLEncode, List.mem_filter] at h
  obtain ⟨d, hd, rfl⟩ := List.mem_map.mp h.1
  rcases Base64.mem_encode hd with rfl | ⟨n, hn, rfl⟩
  · simp at h
  · have hall : ∀ n : Fin 64, isBase64URL
        (if Base64.digit n = '+' then '-' else if Base64.digit n = '/' then '_'
          else Base64.digit n) := by
      decide +kernel
    exact hall ⟨n, hn⟩

/-- What is minted for bytes is read as them. -/
theorem base64URLDecode_encode {wire : Data} (h : wire ≠ []) :
    base64URLDecode σ (base64URLEncode wire) = some wire := by
  have hdigits : base64URLEncode wire = ((Base64.encode wire).filter (· ≠ '=')).map
      fun c => if c = '+' then '-' else if c = '/' then '_' else c := by
    rw [base64URLEncode, List.filter_map]
    refine congrArg (List.map _) (List.filter_congr fun c _ => ?_)
    by_cases hplus : c = '+'
    · rw [hplus]; rfl
    · by_cases hslash : c = '/'
      · rw [hslash]; rfl
      · simp [hplus, hslash]
  have hback : (base64URLEncode wire).map
    (fun c => if c = '-' then '+' else if c = '_' then '/' else c) =
      (Base64.encode wire).filter (· ≠ '=') := by
    rw [hdigits, List.map_map]
    refine (List.map_congr_left fun c hc => ?_).trans (List.map_id _)
    rcases Base64.mem_encode (List.mem_filter.mp hc).1 with rfl | ⟨n, hn, rfl⟩
    · simp at hc
    · have hall : ∀ n : Fin 64, ((fun c => if c = '-' then '+' else if c = '_' then '/' else c) ∘
          fun c => if c = '+' then '-' else if c = '/' then '_' else c) (Base64.digit n) =
            id (Base64.digit n) := by
        decide +kernel
      exact hall ⟨n, hn⟩
  have hnonempty : base64URLEncode wire ≠ [] := by
    intro hnil
    rw [hnil] at hback
    have hencode := Base64.filter_encode_append wire
    rw [← hback] at hencode
    have hdecode := Base64.decode_encode wire
    rw [← hencode] at hdecode
    exact h (Option.some.inj hdecode).symm
  have hsplit : σ.split (base64URLEncode wire) = (base64URLEncode wire).map ([·]) := by
    have hcr : '\r' ∉ base64URLEncode wire := fun hmem =>
      absurd (isBase64URL_of_mem_encode hmem) (by decide)
    have happend := Characters.simple_append hcr []
    rw [List.append_nil] at happend
    rw [σ.simple _ (List.all_eq_true.mpr fun c hc =>
      (sent_of_isBase64URL (isBase64URL_of_mem_encode hc)).1.simple), happend]
    exact List.append_nil _
  have hall : (σ.split (base64URLEncode wire)).all fun ch =>
    ch.length == 1 && ch.all isBase64URL := by
    rw [hsplit, List.all_map]
    exact List.all_eq_true.mpr fun c hc => by simp [isBase64URL_of_mem_encode hc]
  rw [base64URLDecode, if_pos ⟨hnonempty, hall⟩, hback, padded, Base64.filter_encode_append]
  exact Base64.decode_encode wire

/-- What a transport makes of the text that is sent: whitespace at the ends, hard wraps and soft
breaks anywhere, and one pair of quotes. -/
inductive Damaged (sent : Text) : Bool → Text → Prop
  | intact : Damaged sent false sent
  | before {q : Bool} {c : Char} {s : Text} : isSpaceOrNewline c → Damaged sent q s →
      Damaged sent q (c :: s)
  | behind {q : Bool} {c : Char} {s : Text} : isSpaceOrNewline c → Damaged sent q s →
      Damaged sent q (s ++ [c])
  | wrap {q : Bool} {c : Char} {s t : Text} : isHardWrap c → Damaged sent q (s ++ t) →
      Damaged sent q (s ++ c :: t)
  | crlf {q : Bool} {s t : Text} : Damaged sent q (s ++ t) →
      Damaged sent q (s ++ '=' :: '\r' :: '\n' :: t)
  | lf {q : Bool} {s t : Text} : Damaged sent q (s ++ t) → Damaged sent q (s ++ '=' :: '\n' :: t)
  | quoted {pair : Char × Char} {s : Text} : pair ∈ quotePairs → Damaged sent false s →
      Damaged sent true (pair.1 :: s ++ [pair.2])

theorem isArtefact_of_isSpaceOrNewline {c : Char} (h : isSpaceOrNewline c) : isArtefact c := by
  simp [isArtefact, h]

/-- What is sent is what no transport puts into a text. -/
theorem Damaged.filter_eq {sent s : Text} {q : Bool} (h : Damaged sent q s) :
    s.filter (!isArtefact ·) = sent.filter (!isArtefact ·) := by
  have hquotes : ∀ pair ∈ quotePairs, isArtefact pair.1 ∧ isArtefact pair.2 := by decide
  have hsoft : isArtefact '=' ∧ isArtefact '\r' ∧ isArtefact '\n' := by decide
  induction h with
  | intact => rfl
  | before hc _ ih => simpa [isArtefact_of_isSpaceOrNewline hc] using ih
  | behind hc _ ih => simpa [isArtefact_of_isSpaceOrNewline hc] using ih
  | wrap hc _ ih =>
    simpa [isArtefact_of_isSpaceOrNewline (isSpaceOrNewline_of_isHardWrap hc)] using ih
  | crlf _ ih => simpa [hsoft] using ih
  | lf _ ih => simpa [hsoft] using ih
  | quoted hpair _ ih => simpa [hquotes _ hpair] using ih

theorem Recoverable.filter_eq {scheme body s : Text} (h : Recoverable scheme body s) :
    s.filter (!isArtefact ·) = (scheme ++ body).filter (!isArtefact ·) := by
  have hspaces {v : Text} (hv : v.all isSpaceOrNewline) : v.filter (!isArtefact ·) = [] :=
    List.filter_eq_nil_iff.mpr fun c hc =>
      by simp [isArtefact_of_isSpaceOrNewline (List.all_eq_true.mp hv c hc)]
  have hbreaks : ∀ g, Breaks g → ∀ c ∈ g, (!isArtefact c) = false := by
    intro g hg c hc
    rcases hg.eq_or_isHardWrap c hc with rfl | hwrap
    · rfl
    · simp [isArtefact_of_isSpaceOrNewline (isSpaceOrNewline_of_isHardWrap hwrap)]
  obtain ⟨core, henclosed, _, hbroken⟩ := h
  have hcore : core.filter (!isArtefact ·) = (scheme ++ body).filter (!isArtefact ·) := by
    rcases hbroken with ⟨_, hwoven⟩ | ⟨_, rest, rfl, hwoven⟩
    · exact hwoven.filter_eq hbreaks
    · rw [List.filter_append, List.filter_append, hwoven.filter_eq hbreaks]
  have hquotes : ∀ pair ∈ quotePairs, isArtefact pair.1 ∧ isArtefact pair.2 := by decide
  cases henclosed with
  | bare hv hw => simp only [List.filter_append, hspaces hv, hspaces hw, List.nil_append,
      List.append_nil, hcore]
  | quoted hpair hv hw hv' hw' =>
    simp [List.filter_append, hspaces hv, hspaces hw, hspaces hv', hspaces hw',
      hquotes _ hpair, hcore]

/-- The texts that are read are those that can be recovered, and of the damaged texts of an invite
these are read as the invite. -/
theorem damage_undone (σ : Characters) :
    (∀ s i, redeemedInvite σ s = some i ↔ ∃ p scheme body wire, lowercased p = inviteScheme ∧
      Escaped p scheme ∧ Recoverable scheme body s ∧ base64URLDecode σ body = some wire ∧
      Invite.ofWire? wire = some i) ∧
    ∀ i : Invite, i.Valid → ∀ scheme, Escaped inviteScheme scheme →
      ∀ quoted s, Damaged (scheme ++ base64URLEncode i.wire) quoted s →
        (redeemedInvite σ s = some i ↔ Recoverable scheme (base64URLEncode i.wire) s) := by
  refine ⟨fun s i => redeemedInvite_eq_some, fun i hi scheme hscheme quoted s hs => ?_⟩
  have hlower : lowercased inviteScheme = inviteScheme := by decide
  have hbody : ∀ c ∈ base64URLEncode i.wire, isBase64URL c :=
    fun c hc => isBase64URL_of_mem_encode hc
  have hkept {p scheme body : Text} (hp : lowercased p = inviteScheme) (he : Escaped p scheme)
      (hb : ∀ c ∈ body, isBase64URL c) : (scheme ++ body).filter (!isArtefact ·) =
      scheme ++ body := by
    apply List.filter_eq_self.mpr
    intro c hc
    have hc : Sent c := (List.mem_append.mp hc).elim (sent_of_escaped he hp) fun hc =>
      (sent_of_isBase64URL (hb c hc)).1
    rw [hc.artefact]
    rfl
  constructor
  · intro h
    obtain ⟨p, scheme', body, wire, hp, hscheme', hs', hwire, _⟩ := redeemedInvite_eq_some.mp h
    have hsame := hs'.filter_eq.symm.trans hs.filter_eq
    rw [hkept hp hscheme' (isBase64URL_of_decode hwire).2, hkept hlower hscheme hbody] at hsame
    obtain ⟨_, rfl, rfl⟩ := hscheme'.unique hscheme
      ((length_of_lowercased hp).trans (length_of_lowercased hlower).symm) hsame
    exact hs'
  · intro h
    exact redeemedInvite_eq_some.mpr
      ⟨inviteScheme, scheme, base64URLEncode i.wire, i.wire, hlower, hscheme, h,
      base64URLDecode_encode (List.cons_ne_nil _ _), Invite.ofWire?_eq_some.mpr
        (Invite.parse_ok_iff.mpr ⟨hi, rfl⟩)⟩

theorem shortInvite_valid : shortInvite.Valid := by
  have hparse : Invite.parse shortInvite.wire = .ok shortInvite := by decide +kernel
  exact (Invite.parse_ok_iff.mp hparse).1

/-- The scheme with its colon and its slashes percent-encoded. -/
def escapedScheme : Text := "aeronyra%3A%2f%2Finvite%2F".toList

theorem escaped_escapedScheme : Escaped inviteScheme escapedScheme :=
  (Escaped.removingPercentEncoding_iff (by decide)).mp (by decide +kernel)

/-- An invite in quotation marks, with its scheme percent-encoded, a soft break in its body and a
line feed at its end. -/
theorem damage_undone_quoted :
    let body := base64URLEncode shortInvite.wire
    Recoverable escapedScheme body
      ('\u201C' :: (escapedScheme ++ body.take 20) ++ '=' :: '\r' :: '\n' :: body.drop 20 ++
        ['\u201D'] ++ ['\n']) := by
  have hsent : Damaged (escapedScheme ++ base64URLEncode shortInvite.wire) false
      (escapedScheme ++ (base64URLEncode shortInvite.wire).take 20 ++
        (base64URLEncode shortInvite.wire).drop 20) := by
    rw [List.append_assoc, List.take_append_drop]
    exact .intact
  have hpair : ('\u201C', '\u201D') ∈ quotePairs := by decide
  have hdamaged := (Damaged.quoted hpair hsent.crlf).behind (c := '\n') rfl
  exact ((damage_undone .allSimple).2 shortInvite shortInvite_valid escapedScheme
    escaped_escapedScheme _ _ hdamaged).mp (by decide +kernel)

/-- Neither a soft break at the end of an invite is undone nor a line feed within an encoded
scheme. -/
theorem damage_stays :
    let body := base64URLEncode shortInvite.wire
    shortInvite.Valid ∧ Escaped inviteScheme escapedScheme ∧
      Damaged (inviteScheme ++ body) false (inviteScheme ++ body ++ ['=', '\r', '\n']) ∧
      redeemedInvite .allSimple (inviteScheme ++ body ++ ['=', '\r', '\n']) = none ∧
      Damaged (escapedScheme ++ body) false
        (escapedScheme.take 5 ++ '\n' :: (escapedScheme.drop 5 ++ body)) ∧
      redeemedInvite .allSimple (escapedScheme.take 5 ++ '\n' :: (escapedScheme.drop 5 ++ body)) =
        none := by
  refine ⟨shortInvite_valid, escaped_escapedScheme, ?_, by decide +kernel, ?_, by decide +kernel⟩
  · apply Damaged.crlf
    rw [List.append_nil]
    exact .intact
  · apply Damaged.wrap rfl
    rw [← List.append_assoc, List.take_append_drop]
    exact .intact

end PairingService

end AeroNyra
