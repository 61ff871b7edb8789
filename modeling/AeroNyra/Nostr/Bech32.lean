import AeroNyra.Lib.Access
import AeroNyra.Lib.BitGroups
import AeroNyra.Lib.Checksum
import AeroNyra.Lib.Unicode
import AeroNyra.Nostr.Text

/-! Bech32: the regrouping of bits, the checksum, and the strings.  Bits are regrouped without a
loss, and the checksum of a string is the only one that its other symbols allow. -/

namespace AeroNyra

namespace Bech32

open BitGroups

/-! ### Regrouping -/

/-- The widths of the groups before and after, the latter of one bit up to a byte. -/
structure Widths where
  source : Nat
  target : Nat
  positive : 0 < target
  byte : target ≤ 8

def eightToFive : Widths := ⟨8, 5, by decide, by decide⟩

def fiveToEight : Widths := ⟨5, 8, by decide, by decide⟩

section ConvertBits

variable (w : Widths)

/-- The inner loop: groups are taken off while the accumulator has one. -/
def drain (acc count : Nat) (out : Data) : Nat × Data :=
  if w.target ≤ count then
    drain acc (count - w.target)
      (out ++ [.ofNat ((acc >>> (count - w.target)) &&& (2 ^ w.target - 1))])
  else (count, out)
termination_by count
decreasing_by
  have hpositive := w.positive
  omega

/-- The loop over the groups, with the accumulator, the count of its bits and the groups so far. -/
def regroup : Data → Nat → Nat → Data → Option (Nat × Nat × Data)
  | [], acc, count, out => some (acc, count, out)
  | value :: rest, acc, count, out =>
    if value.toNat >>> w.source ≠ 0 then none
    else
      let acc := ((acc <<< w.source) ||| value.toNat) &&& (2 ^ (w.source + w.target - 1) - 1)
      let (count, out) := drain w acc (count + w.source) out
      regroup rest acc count out

def convertBits (data : Data) (pad : Bool) : Option Data := do
  let (acc, count, out) ← regroup w data 0 0 []
  let last := (acc <<< (w.target - count)) &&& (2 ^ w.target - 1)
  if pad then
    if count > 0 then return out ++ [.ofNat last] else return out
  else if count ≥ w.source ∨ last ≠ 0 then none
  else return out

/-- The groups as numbers. -/
def numbers (data : Data) : List Nat := data.map UInt8.toNat

/-- Groups within a width. -/
def Within (k : Nat) (data : Data) : Prop := ∀ b ∈ data, b.toNat < 2 ^ k

variable {w} {k acc count : Nat} {data out : Data}

theorem within_numbers (h : Within k data) : ∀ n ∈ numbers data, n < 2 ^ k := by
  intro n hn
  obtain ⟨b, hb, rfl⟩ := List.mem_map.mp hn
  exact h b hb

theorem within_append {data' : Data} (h : Within k data) (h' : Within k data') :
    Within k (data ++ data') :=
  fun b hb => (List.mem_append.mp hb).elim (h b) (h' b)

theorem numbers_injective {data data' : Data} (h : numbers data = numbers data') : data = data' :=
  List.map_injective_iff.mpr (fun _ _ => UInt8.toNat_inj.mp) h

theorem grouped_cons (k : Nat) (b : UInt8) (data : Data) :
    grouped k (numbers (b :: data)) = bits k b.toNat ++ grouped k (numbers data) := rfl

theorem grouped_numbers_append (k : Nat) (data data' : Data) :
    grouped k (numbers (data ++ data')) = grouped k (numbers data) ++ grouped k
      (numbers data') := by
  rw [numbers, List.map_append, grouped_append, ← numbers, ← numbers]

theorem toNat_group (w : Widths) (n : Nat) :
    (UInt8.ofNat (n &&& (2 ^ w.target - 1))).toNat = n &&& (2 ^ w.target - 1) := by
  have hlt := mask_lt w.target n
  have hbyte : 2 ^ w.target ≤ 2 ^ 8 := Nat.pow_le_pow_right (by decide) w.byte
  exact UInt8.toNat_ofNat_of_lt' (by show _ < 2 ^ 8; omega)

theorem drain_spec (acc count : Nat) (out : Data) :
    ∃ more, drain w acc count out = (count % w.target, out ++ more) ∧ Within w.target more ∧
    bits count acc = grouped w.target (numbers more) ++ bits (count % w.target) acc := by
  fun_induction drain w acc count out with
  | case1 count out hle ih =>
    obtain ⟨more, hdrain, hwithin, hbits⟩ := ih
    have hmod : (count - w.target) % w.target = count % w.target := (Nat.mod_eq_sub_mod hle).symm
    rw [hmod] at hdrain hbits
    refine ⟨.ofNat ((acc >>> (count - w.target)) &&& (2 ^ w.target - 1)) :: more, ?_, ?_, ?_⟩
    · rw [hdrain, List.append_assoc]
      rfl
    · intro b hb
      rcases List.mem_cons.mp hb with rfl | hb
      · rw [toNat_group]
        exact mask_lt _ _
      · exact hwithin b hb
    · rw [bits_take hle, hbits, grouped_cons, toNat_group, List.append_assoc]
  | case2 count out hlt =>
    refine ⟨[], ?_, nofun, ?_⟩
    · rw [Nat.mod_eq_of_lt (Nat.not_le.mp hlt), List.append_nil]
    · rw [Nat.mod_eq_of_lt (Nat.not_le.mp hlt)]
      rfl

theorem shiftRight_eq_zero {n k : Nat} : n >>> k = 0 ↔ n < 2 ^ k := by
  rw [Nat.shiftRight_eq_div_pow, Nat.div_eq_zero_iff_lt (Nat.two_pow_pos k)]

/-- Over groups within their width, the bits of the accumulator and of the groups are those of the
groups that come out and of the accumulator at the end. -/
theorem regroup_spec (hcount : count < w.target) (hdata : Within w.source data) (acc : Nat)
    (out : Data) :
    ∃ acc' count' more, regroup w data acc count out = some (acc', count', out ++ more) ∧
    count' < w.target ∧
      Within w.target more ∧
      bits count acc ++ grouped w.source (numbers data) = grouped w.target (numbers more) ++
        bits count' acc' := by
  induction data generalizing acc count out with
  | nil => exact ⟨acc, count, [],
      by rw [regroup, List.append_nil], hcount, nofun, by simp [numbers, grouped]⟩
  | cons value rest ih =>
    have hvalue : value.toNat < 2 ^ w.source := hdata value List.mem_cons_self
    obtain ⟨first, hdrain, hfirst, hbits⟩ := @drain_spec w
      (((acc <<< w.source) ||| value.toNat) &&& (2 ^ (w.source + w.target - 1) - 1))
      (count + w.source) out
    obtain ⟨acc', count', more, hrest, hcount', hmore, hall⟩ := ih (Nat.mod_lt _ w.positive)
      (fun b hb => hdata b (List.mem_cons_of_mem _ hb))
      (((acc <<< w.source) ||| value.toNat) &&& (2 ^ (w.source + w.target - 1) - 1)) (out ++ first)
    refine ⟨acc', count', first ++ more, ?_, hcount', ?_, ?_⟩
    · rw [regroup, if_neg (not_not.mpr (shiftRight_eq_zero.mpr hvalue))]
      dsimp only
      rw [hdrain, hrest, List.append_assoc]
    · intro b hb
      exact (List.mem_append.mp hb).elim (hfirst b) (hmore b)
    · rw [bits_push hvalue (by omega)] at hbits
      rw [grouped_cons, ← List.append_assoc, hbits, List.append_assoc, hall, grouped_numbers_append,
        List.append_assoc]

theorem within_of_regroup {count : Nat} {result : Nat × Nat × Data}
    (h : regroup w data acc count out = some result) :
    Within w.source data := by
  induction data generalizing acc count out with
  | nil => nofun
  | cons value rest ih =>
    rw [regroup] at h
    split at h
    · cases h
    · rename_i hshift
      intro b hb
      rcases List.mem_cons.mp hb with rfl | hb
      · exact shiftRight_eq_zero.mp (not_not.mp hshift)
      · exact ih h b hb

theorem length_numbers (data : Data) : (numbers data).length = data.length := List.length_map _

/-- Groups that are the same bits filled up with less than a group of zeros are the same. -/
theorem eq_of_padded {l l' : Data} {b : List Bool} {n n' : Nat} (hl : Within k l)
    (hl' : Within k l')
    (hn : n < k) (hn' : n' < k) (h : grouped k (numbers l) = b ++ List.replicate n false)
    (h' : grouped k (numbers l') = b ++ List.replicate n' false) : l = l' := by
  have hlength := congrArg List.length h
  have hlength' := congrArg List.length h'
  rw [length_grouped, length_numbers, List.length_append, List.length_replicate] at hlength hlength'
  have hcount : l.length = l'.length := by
    rcases Nat.lt_trichotomy l.length l'.length with hlt | heq | hgt
    · have hle := Nat.mul_le_mul_right k hlt
      rw [Nat.succ_mul] at hle
      omega
    · exact heq
    · have hle := Nat.mul_le_mul_right k hgt
      rw [Nat.succ_mul] at hle
      omega
  have hsame : n = n' := by
    rw [hcount] at hlength
    omega
  rw [← hsame, ← h] at h'
  exact numbers_injective (eq_of_grouped (within_numbers hl) (within_numbers hl')
    (by rw [length_numbers, length_numbers, hcount]) h'.symm)

theorem regroup_start (hdata : Within w.source data) : ∃ acc count out, regroup w data 0 0 [] = some
    (acc, count, out) ∧ count < w.target ∧ Within w.target out ∧
    grouped w.source (numbers data) = grouped w.target (numbers out) ++ bits count acc :=
  regroup_spec w.positive hdata 0 []

/-- Groups within their width, filled up with zeros. -/
theorem convertBits_pad (hdata : Within w.source data) :
    ∃ out n, convertBits w data true = some out ∧ Within w.target out ∧ n < w.target ∧
    grouped w.target (numbers out) = grouped w.source (numbers data) ++ List.replicate n false := by
  obtain ⟨acc, count, out, hregroup, hcount, hout, hbits⟩ := regroup_start hdata
  have hpositive := w.positive
  rw [convertBits, hregroup]
  rcases Nat.eq_zero_or_pos count with rfl | hrest
  · refine ⟨out, 0, rfl, hout, hpositive, ?_⟩
    rw [hbits, bits, List.append_nil, List.replicate_zero, List.append_nil]
  · refine ⟨out ++ [.ofNat ((acc <<< (w.target - count)) &&& (2 ^ w.target - 1))], w.target - count,
      ?_, ?_, by omega, ?_⟩
    · simp [hrest]
    · intro b hb
      rcases List.mem_append.mp hb with hb | hb
      · exact hout b hb
      · rw [List.mem_singleton.mp hb, toNat_group]
        exact mask_lt _ _
    · rw [grouped_numbers_append, grouped_cons, toNat_group, bits_pad (Nat.le_of_lt hcount), hbits,
        List.append_assoc]
      simp [grouped, numbers]

theorem within_of_convertBits {pad : Bool} (h : convertBits w data pad = some out) :
    Within w.source data := by
  obtain ⟨result, hregroup, _⟩ := Option.bind_eq_some_iff.mp h
  exact within_of_regroup hregroup

theorem convertBits_pad_iff : convertBits w data true = some out ↔ Within w.source data ∧
    Within w.target out ∧
    ∃ n < w.target, grouped w.target (numbers out) = grouped w.source (numbers data) ++
    List.replicate n false := by
  constructor
  · intro h
    have hdata := within_of_convertBits h
    obtain ⟨out', n, hout', hwithin, hn, hbits⟩ := convertBits_pad hdata
    obtain rfl := Option.some.inj (hout'.symm.trans h)
    exact ⟨hdata, hwithin, n, hn, hbits⟩
  · rintro ⟨hdata, hwithin, n, hn, hbits⟩
    obtain ⟨out', n', hout', hwithin', hn', hbits'⟩ := convertBits_pad hdata
    rw [hout', eq_of_padded hwithin' hwithin hn' hn hbits' hbits]

/-- Without padding, what is left is less than a group before, and zeros. -/
theorem convertBits_exact_iff : convertBits w data false = some out ↔ Within w.source data ∧
    Within w.target out ∧ ∃ n < w.target, n < w.source ∧
      grouped w.source (numbers data) = grouped w.target (numbers out) ++
        List.replicate n false := by
  have hlast {acc count : Nat} (hcount : count < w.target) :
      (acc <<< (w.target - count)) &&& (2 ^ w.target - 1) = 0 ↔
      bits count acc = List.replicate count false := by
    have hpad := @bits_pad count w.target acc (Nat.le_of_lt hcount)
    have hzeros : List.replicate w.target false = List.replicate count false ++ List.replicate
      (w.target - count) false := by
      rw [List.replicate_append_replicate, Nat.add_sub_cancel' (Nat.le_of_lt hcount)]
    constructor
    · intro hzero
      rw [hzero, bits_zero, hzeros] at hpad
      exact (List.append_cancel_right hpad).symm
    · intro hrest
      rw [hrest, ← hzeros, ← bits_zero] at hpad
      exact eq_of_bits (mask_lt _ _) (Nat.two_pow_pos _) hpad
  constructor
  · intro h
    have hdata := within_of_convertBits h
    obtain ⟨acc, count, out', hregroup, hcount, hout, hbits⟩ := regroup_start hdata
    rw [convertBits, hregroup] at h
    simp only [Option.bind_eq_bind, Option.bind_some, Bool.false_eq_true, if_false] at h
    split at h
    · cases h
    · rename_i haccepted
      rw [not_or, not_not, hlast hcount] at haccepted
      obtain rfl := Option.some.inj h
      rw [haccepted.2] at hbits
      exact ⟨hdata, hout, count, hcount, Nat.not_le.mp haccepted.1, hbits⟩
  · rintro ⟨hdata, hout, n, hn, hsource, hbits⟩
    obtain ⟨acc, count, out', hregroup, hcount, hout', hbits'⟩ := regroup_start hdata
    obtain ⟨hsame, hrest⟩ := groups_unique (within_numbers hout') (within_numbers hout)
      (by rw [length_bits]; exact hcount) (by rw [List.length_replicate]; exact hn)
      (hbits'.symm.trans hbits)
    obtain rfl := numbers_injective hsame
    have hlength := congrArg List.length hrest
    rw [length_bits, List.length_replicate] at hlength
    subst hlength
    rw [convertBits, hregroup]
    simp only [Option.bind_eq_bind, Option.bind_some, Bool.false_eq_true, if_false]
    rw [if_neg (by rw [not_or, not_not, hlast hcount]; exact ⟨Nat.not_le.mpr hsource, hrest⟩)]
    rfl

/-- Bytes are regrouped into symbols exactly where the symbols are regrouped into the bytes. -/
theorem five_iff_eight {bytes five : Data} : convertBits eightToFive bytes true = some five ↔
    convertBits fiveToEight five false = some bytes := by
  rw [convertBits_pad_iff, convertBits_exact_iff]
  constructor
  · rintro ⟨hbytes, hfive, n, hn, hbits⟩
    have hn : n < 5 := hn
    exact ⟨hfive, hbytes, n, by show n < 8; omega, hn, hbits⟩
  · rintro ⟨hfive, hbytes, n, _, hn, hbits⟩
    exact ⟨hbytes, hfive, n, hn, hbits⟩

end ConvertBits

/-! ### The checksum -/

def generator : Vector UInt32 5 := #v[0x3b6a57b2, 0x26508e6d, 0x1ea119fa, 0x3d4233dd, 0x2a1462b3]

/-- The inner loop: a generator is added where the bit of `top` is set. -/
def adjust (top chk : UInt32) (i : Fin 5) : UInt32 :=
  if (top >>> .ofNat i) &&& 1 ≠ 0 then chk ^^^ generator[i] else chk

def polymodStep (chk : UInt32) (v : UInt8) : UInt32 :=
  (List.finRange 5).foldl (adjust (chk >>> 25)) (((chk &&& 0x1ffffff) <<< 5) ^^^ v.toUInt32)

def polymod (values : Data) : UInt32 := values.foldl polymodStep 1

def hrpExpand (hrp : Text) : Data := (hrp.bytes.map fun c : UInt8 => c >>> 5) ++ 0 :: hrp.bytes.map
    fun c : UInt8 => c &&& 31

def verifyChecksum (hrp : Text) (data : Data) : Bool := polymod (hrpExpand hrp ++ data) == 1

/-- The six symbols of a checksum. -/
def checksumSymbols (mod : UInt32) : Data :=
  (List.range 6).map fun i => ((mod >>> (5 * (5 - .ofNat i))) &&& 31).toUInt8

def createChecksum (hrp : Text) (data : Data) : Data :=
  checksumSymbols (polymod (hrpExpand hrp ++ data ++ List.replicate 6 0) ^^^ 1)

section Polymod

theorem and_one_cases (x : UInt32) : x &&& 1 = 0 ∨ x &&& 1 = 1 := by
  rcases Nat.mod_two_eq_zero_or_one x.toNat with h | h
  · exact .inl
      (UInt32.toNat_inj.mp (by rw [UInt32.toNat_and]; exact (Nat.and_one_is_mod _).trans h))
  · exact .inr
      (UInt32.toNat_inj.mp (by rw [UInt32.toNat_and]; exact (Nat.and_one_is_mod _).trans h))

theorem xor_and (a b m : UInt32) : (a ^^^ b) &&& m = (a &&& m) ^^^ (b &&& m) := by
  apply UInt32.toNat_inj.mp
  simp only [UInt32.toNat_and, UInt32.toNat_xor, Nat.and_xor_distrib_right]

theorem xor_xor_xor_comm (a b c d : UInt32) :
    (a ^^^ b) ^^^ (c ^^^ d) = (a ^^^ c) ^^^ (b ^^^ d) := by
  rw [UInt32.xor_assoc, UInt32.xor_assoc, ← UInt32.xor_assoc b, UInt32.xor_comm b,
    UInt32.xor_assoc c]

theorem adjust_xor (top top' a b : UInt32) (i : Fin 5) :
    adjust (top ^^^ top') (a ^^^ b) i = adjust top a i ^^^ adjust top' b i := by
  have hright : a ^^^ b ^^^ generator[i] = a ^^^ (b ^^^ generator[i]) := UInt32.xor_assoc _ _ _
  have hleft : a ^^^ b ^^^ generator[i] = a ^^^ generator[i] ^^^ b := by
    rw [UInt32.xor_assoc, UInt32.xor_comm b, UInt32.xor_assoc]
  have hboth : a ^^^ b = a ^^^ generator[i] ^^^ (b ^^^ generator[i]) := by
    rw [xor_xor_xor_comm, UInt32.xor_self, UInt32.xor_zero]
  unfold adjust
  rw [UInt32.shiftRight_xor, xor_and]
  rcases and_one_cases (top >>> .ofNat i) with h | h <;>
    rcases and_one_cases (top' >>> .ofNat i) with h' | h'
  · simp [h, h']
  · simpa [h, h'] using hright
  · simpa [h, h'] using hleft
  · simpa [h, h'] using hboth

theorem foldl_adjust_xor (l : List (Fin 5)) (top top' a b : UInt32) :
    l.foldl (adjust (top ^^^ top')) (a ^^^ b) = l.foldl (adjust top) a ^^^ l.foldl
      (adjust top') b := by
  induction l generalizing a b with
  | nil => rfl
  | cons i l ih => rw [List.foldl_cons, adjust_xor, ih, List.foldl_cons, List.foldl_cons]

theorem polymodStep_linear : Checksum.Linear polymodStep (· ^^^ ·) (· ^^^ ·) := by
  intro s t a b
  unfold polymodStep
  rw [UInt32.shiftRight_xor, xor_and, UInt32.shiftLeft_xor, UInt8.toUInt32_xor, xor_xor_xor_comm,
    foldl_adjust_xor]

/-- What the bits shifted out add. -/
def reduced (top : UInt32) : UInt32 := (List.finRange 5).foldl (adjust top) 0

theorem polymodStep_eq (chk : UInt32) (v : UInt8) :
    polymodStep chk v = reduced (chk >>> 25) ^^^ (((chk &&& 0x1ffffff) <<< 5) ^^^ v.toUInt32) := by
  have hzero (l : List (Fin 5)) (a : UInt32) : l.foldl (adjust 0) a = a := by
    induction l with
    | nil => rfl
    | cons i l ih => simpa [adjust] using ih
  have h := foldl_adjust_xor (List.finRange 5) (chk >>> 25) 0 0
    (((chk &&& 0x1ffffff) <<< 5) ^^^ v.toUInt32)
  rwa [UInt32.xor_zero, UInt32.zero_xor, hzero] at h

/-- The lowest symbol tells the bits that were shifted out. -/
theorem reduced_low : ∀ n < 32, reduced (.ofNat n) &&& 31 = 0 → n = 0 := by decide

theorem reduced_lt : ∀ n < 32, (reduced (.ofNat n)).toNat < 2 ^ 30 := by decide

theorem toNat_top (chk : UInt32) : (chk >>> 25).toNat = chk.toNat / 2 ^ 25 := by
  rw [UInt32.toNat_shiftRight]
  exact Nat.shiftRight_eq_div_pow _ _

theorem toNat_kept (chk : UInt32) :
    ((chk &&& 0x1ffffff) <<< 5).toNat = chk.toNat % 2 ^ 25 * 32 := by
  have hmask : chk.toNat &&& 0x1ffffff = chk.toNat % 2 ^ 25 := Nat.and_two_pow_sub_one_eq_mod _ 25
  rw [UInt32.toNat_shiftLeft, UInt32.toNat_and]
  show (chk.toNat &&& 0x1ffffff) <<< 5 % 2 ^ 32 = _
  rw [hmask, Nat.shiftLeft_eq]
  omega

/-- What is left in a state of six symbols. -/
def registers : Set UInt32 := fun chk => chk.toNat < 2 ^ 30

def symbols : Set UInt8 := fun v => v.toNat < 2 ^ 5

variable {chk : UInt32} {v : UInt8}

theorem top_lt (h : chk ∈ registers) : (chk >>> 25).toNat < 32 := by
  have hchk : chk.toNat < 2 ^ 30 := h
  rw [toNat_top]
  omega

theorem polymodStep_kept (hchk : chk ∈ registers) (hv : v ∈ symbols) :
    polymodStep chk v ∈ registers := by
  have hv : v.toNat < 2 ^ 5 := hv
  have hreduced := reduced_lt _ (top_lt hchk)
  rw [UInt32.ofNat_toNat] at hreduced
  show (polymodStep chk v).toNat < 2 ^ 30
  rw [polymodStep_eq, UInt32.toNat_xor, UInt32.toNat_xor, toNat_kept, UInt8.toNat_toUInt32]
  apply Nat.xor_lt_two_pow hreduced
  apply Nat.xor_lt_two_pow
  · omega
  · omega

/-- No state but zero is lost. -/
theorem eq_zero_of_step (hchk : chk ∈ registers) (h : polymodStep chk 0 = 0) : chk = 0 := by
  have heq : reduced (chk >>> 25) = (chk &&& 0x1ffffff) <<< 5 := by
    rw [polymodStep_eq] at h
    simpa using h
  have hlow : ((chk &&& 0x1ffffff) <<< 5) &&& 31 = 0 := by
    apply UInt32.toNat_inj.mp
    rw [UInt32.toNat_and, toNat_kept]
    show _ &&& (2 ^ 5 - 1) = 0
    rw [Nat.and_two_pow_sub_one_eq_mod]
    omega
  have htop : (chk >>> 25).toNat = 0 := by
    apply reduced_low _ (top_lt hchk)
    rw [UInt32.ofNat_toNat, heq, hlow]
  have hkept : chk.toNat % 2 ^ 25 * 32 = 0 := by
    rw [← toNat_kept, ← heq, UInt32.toNat_inj.mp (htop.trans rfl : _ = (0 : UInt32).toNat)]
    decide
  rw [toNat_top] at htop
  apply UInt32.toNat_inj.mp
  show chk.toNat = 0
  omega

theorem polymodStep_symbol (chk : UInt32) (v : UInt8) :
    polymodStep chk v = polymodStep chk 0 ^^^ v.toUInt32 := by
  rw [polymodStep_eq, polymodStep_eq, UInt32.xor_assoc, UInt32.xor_assoc]
  simp

theorem polymodStep_separating : Checksum.Separating polymodStep registers symbols where
  kept := polymodStep_kept
  states {s t a} hs ht _ h := by
    have hs : s.toNat < 2 ^ 30 := hs
    have ht : t.toNat < 2 ^ 30 := ht
    have hdiff := polymodStep_linear s t a a
    simp only [h, UInt8.xor_self, UInt32.xor_self] at hdiff
    apply UInt32.xor_eq_zero_iff.mp
    apply eq_zero_of_step _ hdiff
    show (s ^^^ t).toNat < 2 ^ 30
    rw [UInt32.toNat_xor]
    exact Nat.xor_lt_two_pow hs ht
  symbols {s a b} _ _ _ h := by
    rw [polymodStep_symbol s a, polymodStep_symbol s b, UInt32.xor_right_inj] at h
    exact UInt8.toUInt32_inj.mp h

theorem xor_symbol (n : Nat) {m : Nat} (hm : m < 2 ^ 5) : n * 32 ^^^ m = 32 * n + m := by
  have hdiv : (n * 32 ^^^ m) / 32 = n := by
    have h := @Nat.xor_div_two_pow (n * 32) m 5
    rwa [Nat.div_eq_of_lt hm, Nat.xor_zero, Nat.mul_div_cancel _ (by decide)] at h
  have hmod : (n * 32 ^^^ m) % 32 = m := by
    have h := @Nat.xor_mod_two_pow (n * 32) m 5
    rwa [Nat.mod_eq_of_lt hm, Nat.mul_mod_left, Nat.zero_xor] at h
  omega

/-- Into a state that has room, a symbol is shifted without more. -/
theorem toNat_polymodStep (hchk : chk.toNat < 2 ^ 25) (hv : v.toNat < 2 ^ 5) :
    (polymodStep chk v).toNat = 32 * chk.toNat + v.toNat := by
  have htop : chk >>> 25 = 0 := by
    apply UInt32.toNat_inj.mp
    rw [toNat_top]
    exact Nat.div_eq_of_lt hchk
  have hreduced : reduced 0 = 0 := by decide
  rw [polymodStep_eq, htop, hreduced, UInt32.zero_xor, UInt32.toNat_xor, toNat_kept,
    Nat.mod_eq_of_lt hchk, UInt8.toNat_toUInt32]
  exact xor_symbol chk.toNat hv

/-- The number whose digits are symbols, the first of them the highest. -/
def packed (symbols : Data) (n : Nat) : Nat := symbols.foldl (fun n v => 32 * n + v.toNat) n

theorem toNat_foldl {c : Data} (hc : Within 5 c)
    (hroom : (chk.toNat + 1) * 32 ^ c.length ≤ 2 ^ 30) :
    (c.foldl polymodStep chk).toNat = packed c chk.toNat := by
  induction c generalizing chk with
  | nil => rfl
  | cons v c ih =>
    have hv : v.toNat < 2 ^ 5 := hc v List.mem_cons_self
    rw [List.length_cons, Nat.pow_succ, ← Nat.mul_assoc, Nat.mul_right_comm] at hroom
    have hpow : 0 < 32 ^ c.length := Nat.pow_pos (by decide)
    have hchk : chk.toNat < 2 ^ 25 := by
      have hle := Nat.le_mul_of_pos_right ((chk.toNat + 1) * 32) hpow
      omega
    have hstep := toNat_polymodStep hchk hv
    have hnext : ((polymodStep chk v).toNat + 1) * 32 ^ c.length ≤ 2 ^ 30 := by
      refine Nat.le_trans (Nat.mul_le_mul_right _ ?_) hroom
      omega
    rw [List.foldl_cons, ih (fun w hw => hc w (List.mem_cons_of_mem _ hw)) hnext, hstep]
    rfl

theorem toNat_digit {distance : UInt32} {k : Nat} (mod : UInt32) (hdistance : distance.toNat = k)
    (hk : k < 32) :
    (((mod >>> distance) &&& 31).toUInt8).toNat = mod.toNat / 2 ^ k % 32 := by
  have hlt : mod.toNat / 2 ^ k % 32 < 32 := Nat.mod_lt _ (by decide)
  rw [UInt32.toNat_toUInt8, UInt32.toNat_and, UInt32.toNat_shiftRight, hdistance,
    Nat.mod_eq_of_lt hk, Nat.shiftRight_eq_div_pow]
  show (_ &&& (2 ^ 5 - 1)) % 2 ^ 8 = _
  rw [Nat.and_two_pow_sub_one_eq_mod]
  omega

theorem numbers_checksumSymbols (mod : UInt32) : numbers (checksumSymbols mod) =
    [mod.toNat / 2 ^ 25 % 32, mod.toNat / 2 ^ 20 % 32, mod.toNat / 2 ^ 15 % 32,
      mod.toNat / 2 ^ 10 % 32, mod.toNat / 2 ^ 5 % 32, mod.toNat / 2 ^ 0 % 32] := by
  simp only [checksumSymbols, numbers, List.range, List.range.loop, List.map_cons, List.map_nil]
  rw [toNat_digit mod (k := 25) (by decide) (by decide), toNat_digit mod (k := 20) (by decide)
    (by decide),
    toNat_digit mod (k := 15) (by decide) (by decide), toNat_digit mod (k := 10) (by decide)
      (by decide),
    toNat_digit mod (k := 5) (by decide) (by decide), toNat_digit mod (k := 0) (by decide)
      (by decide)]

theorem length_createChecksum (hrp : Text) (data : Data) : (createChecksum hrp data).length = 6 :=
    rfl

theorem createChecksum_symbols (hrp : Text) (data : Data) : Within 5 (createChecksum hrp data) := by
  intro b hb
  have hmem : b.toNat ∈ numbers (createChecksum hrp data) := List.mem_map_of_mem hb
  rw [createChecksum, numbers_checksumSymbols] at hmem
  simp only [List.mem_cons, List.not_mem_nil, or_false] at hmem
  omega

/-- The six symbols of a state are its digits. -/
theorem eq_checksumSymbols_iff {c : Data} (hlength : c.length = 6) (hc : Within 5 c) {mod : UInt32}
    (hmod : mod ∈ registers) :
    packed c 0 = mod.toNat ↔ c = checksumSymbols mod := by
  have hmod : mod.toNat < 2 ^ 30 := hmod
  have hnumbers := numbers_checksumSymbols mod
  match c, hlength with
  | [c0, c1, c2, c3, c4, c5], _ =>
    have h0 : c0.toNat < 32 := hc c0 (by simp)
    have h1 : c1.toNat < 32 := hc c1 (by simp)
    have h2 : c2.toNat < 32 := hc c2 (by simp)
    have h3 : c3.toNat < 32 := hc c3 (by simp)
    have h4 : c4.toNat < 32 := hc c4 (by simp)
    have h5 : c5.toNat < 32 := hc c5 (by simp)
    simp only [packed, List.foldl_cons, List.foldl_nil]
    constructor
    · intro h
      apply numbers_injective
      rw [hnumbers]
      simp only [numbers, List.map_cons, List.map_nil, List.cons.injEq, and_true]
      omega
    · intro h
      rw [← h] at hnumbers
      simp only [numbers, List.map_cons, List.map_nil, List.cons.injEq, and_true] at hnumbers
      omega

/-- A checksum is added to what its place would give with zeros. -/
theorem polymod_append {c : Data} (values : Data) (hlength : c.length = 6) (hc : Within 5 c) :
    polymod (values ++ c) = polymod (values ++ List.replicate 6 0) ^^^ c.foldl polymodStep 0 := by
  have hplus : List.zipWith (· ^^^ ·) (List.replicate 6 0) c = c := by
    match c, hlength with
    | [c0, c1, c2, c3, c4, c5], _ => simp [List.replicate]
  have hsum := polymodStep_linear.foldl
    (show (List.replicate 6 0).length = c.length by rw [hlength]; rfl) (polymod values) 0
  rw [hplus, UInt32.xor_zero] at hsum
  rw [polymod, List.foldl_append, ← polymod, hsum, polymod, polymod, List.foldl_append]

theorem hrpExpand_symbols (hrp : Text) : Within 5 (hrpExpand hrp) := by
  intro b hb
  rcases List.mem_append.mp hb with hb | hb
  · obtain ⟨c, _, rfl⟩ := List.mem_map.mp hb
    have hc := c.toNat_lt
    rw [UInt8.toNat_shiftRight]
    show c.toNat >>> 5 < 2 ^ 5
    rw [Nat.shiftRight_eq_div_pow]
    omega
  · rcases List.mem_cons.mp hb with rfl | hb
    · decide
    · obtain ⟨c, _, rfl⟩ := List.mem_map.mp hb
      rw [UInt8.toNat_and]
      exact BitGroups.mask_lt 5 _

theorem polymod_registers {values : Data} (h : Within 5 values) : polymod values ∈ registers :=
  polymodStep_separating.foldl_kept h (by show (1 : UInt32).toNat < 2 ^ 30; decide)

/-- One checksum passes, and it is the one that is made. -/
theorem verifyChecksum_iff {hrp : Text} {data c : Data} (hdata : Within 5 data)
    (hlength : c.length = 6) (hc : Within 5 c) :
    verifyChecksum hrp (data ++ c) = true ↔ c = createChecksum hrp data := by
  have hzeros : Within 5 (List.replicate 6 0) := fun b hb => by
    rw [List.eq_of_mem_replicate hb]
    decide
  have hvalues : Within 5 (hrpExpand hrp ++ data) := within_append (hrpExpand_symbols hrp) hdata
  have hmod : polymod (hrpExpand hrp ++ data ++ List.replicate 6 0) ^^^ 1 ∈ registers := by
    have hstate : _ < 2 ^ 30 := polymod_registers (within_append hvalues hzeros)
    show (_ ^^^ _ : UInt32).toNat < 2 ^ 30
    rw [UInt32.toNat_xor]
    exact Nat.xor_lt_two_pow hstate (by decide)
  have hpacked : (c.foldl polymodStep 0).toNat = packed c 0 :=
    toNat_foldl hc (by rw [hlength]; decide)
  rw [verifyChecksum, beq_iff_eq, ← List.append_assoc, polymod_append _ hlength hc, createChecksum,
    ← eq_checksumSymbols_iff hlength hc hmod, ← hpacked, UInt32.toNat_inj]
  constructor
  · intro h
    rw [← h, ← UInt32.xor_assoc, UInt32.xor_self, UInt32.zero_xor]
  · intro h
    rw [h, ← UInt32.xor_assoc, UInt32.xor_self, UInt32.zero_xor]

/-- One symbol that is changed does not pass. -/
theorem verifyChecksum_change {hrp : Text} {front back : Data} {v v' : UInt8}
    (hfront : Within 5 front)
    (hback : Within 5 back) (hv : v.toNat < 2 ^ 5) (hv' : v'.toNat < 2 ^ 5)
    (h : verifyChecksum hrp (front ++ v :: back) = true)
    (h' : verifyChecksum hrp (front ++ v' :: back) = true) :
    v = v' := by
  rw [verifyChecksum, beq_iff_eq, ← List.append_assoc] at h h'
  exact polymodStep_separating.symbol_unique (within_append (hrpExpand_symbols hrp) hfront)
    hback hv hv' (by show (1 : UInt32).toNat < 2 ^ 30; decide) (h.trans h'.symm)

end Polymod

end Bech32

end AeroNyra
