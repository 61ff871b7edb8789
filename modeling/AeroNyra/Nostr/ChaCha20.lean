import AeroNyra.Core.Message

/-! The ChaCha20 stream cipher of RFC 8439.  Array accesses at computed places are checked: `none`
stands for one that is out of range.  What the cipher makes of each byte is said at once for all
lengths, so that it undoes itself. -/

namespace AeroNyra.ChaCha20

/-- The sixteen words of a block. -/
abbrev State := Vector UInt32 16

def rotl (v c : UInt32) : UInt32 := (v <<< c) ||| (v >>> (32 - c))

def quarterRound (s : State) (a b c d : Fin 16) : State :=
  let s := s.set a (s[a] + s[b])
  let s := s.set d (rotl (s[d] ^^^ s[a]) 16)
  let s := s.set c (s[c] + s[d])
  let s := s.set b (rotl (s[b] ^^^ s[c]) 12)
  let s := s.set a (s[a] + s[b])
  let s := s.set d (rotl (s[d] ^^^ s[a]) 8)
  let s := s.set c (s[c] + s[d])
  s.set b (rotl (s[b] ^^^ s[c]) 7)

/-- Four columns, and four diagonals. -/
def doubleRound (s : State) : State :=
  let s := quarterRound s 0 4 8 12
  let s := quarterRound s 1 5 9 13
  let s := quarterRound s 2 6 10 14
  let s := quarterRound s 3 7 11 15
  let s := quarterRound s 0 5 10 15
  let s := quarterRound s 1 6 11 12
  let s := quarterRound s 2 7 8 13
  quarterRound s 3 4 9 14

/-- The bytes of a word, little-endian. -/
def bytesOf (v : UInt32) : Data :=
  [v.toUInt8, (v >>> 8).toUInt8, (v >>> 16).toUInt8, (v >>> 24).toUInt8]

/-- One block of the keystream. -/
def block (initial : State) : Data :=
  let w := doubleRound^[10] initial
  (List.finRange 16).flatMap fun i => bytesOf (w[i] + initial[i])

/-- The little-endian word at `i`. -/
def load32 (b : Data) (i : Nat) : Option UInt32 := do
  let b₀ ← b[i]?
  let b₁ ← b[i + 1]?
  let b₂ ← b[i + 2]?
  let b₃ ← b[i + 3]?
  return b₀.toUInt32 ||| (b₁.toUInt32 <<< 8) ||| (b₂.toUInt32 <<< 16) ||| (b₃.toUInt32 <<< 24)

/-- The state before the first block: the words of "expand 32-byte k", the key, the counter and the
nonce. -/
def base (k n : Data) (counter : UInt32) : Option State := do
  let k₀ ← load32 k 0
  let k₁ ← load32 k 4
  let k₂ ← load32 k 8
  let k₃ ← load32 k 12
  let k₄ ← load32 k 16
  let k₅ ← load32 k 20
  let k₆ ← load32 k 24
  let k₇ ← load32 k 28
  let n₀ ← load32 n 0
  let n₁ ← load32 n 4
  let n₂ ← load32 n 8
  return #v[0x61707865, 0x3320646e, 0x79622d32, 0x6b206574, k₀, k₁, k₂, k₃, k₄, k₅, k₆, k₇,
    counter, n₀, n₁, n₂]

/-- The output of one turn of the loop: `count` bytes from `offset` on. -/
def xorBlock (input keystream : Data) (offset count : Nat) : Option Data :=
  (List.range count).mapM fun i => do
    let a ← input[offset + i]?
    let b ← keystream[i]?
    return a ^^^ b

/-- The loop over the blocks, from `offset` on. -/
def xorFrom (state : State) (input : Data) (offset : Nat) (blockCounter : UInt32) : Option Data :=
  if offset < input.length then do
    let out ← xorBlock input (block (state.set 12 blockCounter)) offset
      (min 64 (input.length - offset))
    let rest ← xorFrom state input (offset + 64) (blockCounter + 1)
    return out ++ rest
  else some []
termination_by input.length - offset

/-- The inner option is the one of the source, which refuses a key and a nonce of other lengths. -/
def xor (data key nonce : Data) (counter : UInt32) : Option (Option Data) :=
  if key.length = 32 ∧ nonce.length = 12 then do
    let state ← base key nonce counter
    (xorFrom state data 0 counter).map some
  else some none

theorem length_block (initial : State) : (block initial).length = 64 := by
  simp [block, bytesOf, List.length_flatMap]

theorem isSome_load32 {b : Data} {i : Nat} (h : i + 4 ≤ b.length) : (load32 b i).isSome := by
  simp [load32, List.getElem?_eq_getElem (show i < b.length by omega),
    List.getElem?_eq_getElem (show i + 1 < b.length by omega),
    List.getElem?_eq_getElem (show i + 2 < b.length by omega),
    List.getElem?_eq_getElem (show i + 3 < b.length by omega)]

theorem isSome_base {k n : Data} (hk : k.length = 32) (hn : n.length = 12) (counter : UInt32) :
    (base k n counter).isSome := by
  have hkey (i : Nat) (hi : i + 4 ≤ 32) : ∃ v, load32 k i = some v :=
    Option.isSome_iff_exists.mp (isSome_load32 (by omega))
  have hnonce (i : Nat) (hi : i + 4 ≤ 12) : ∃ v, load32 n i = some v :=
    Option.isSome_iff_exists.mp (isSome_load32 (by omega))
  obtain ⟨k₀, h₀⟩ := hkey 0 (by omega)
  obtain ⟨k₁, h₁⟩ := hkey 4 (by omega)
  obtain ⟨k₂, h₂⟩ := hkey 8 (by omega)
  obtain ⟨k₃, h₃⟩ := hkey 12 (by omega)
  obtain ⟨k₄, h₄⟩ := hkey 16 (by omega)
  obtain ⟨k₅, h₅⟩ := hkey 20 (by omega)
  obtain ⟨k₆, h₆⟩ := hkey 24 (by omega)
  obtain ⟨k₇, h₇⟩ := hkey 28 (by omega)
  obtain ⟨n₀, g₀⟩ := hnonce 0 (by omega)
  obtain ⟨n₁, g₁⟩ := hnonce 4 (by omega)
  obtain ⟨n₂, g₂⟩ := hnonce 8 (by omega)
  simp [base, h₀, h₁, h₂, h₃, h₄, h₅, h₆, h₇, g₀, g₁, g₂]

/-! ### The cipher byte by byte -/

/-- Byte `i` of the keystream from `counter` on. -/
def keystreamAt (state : State) (counter : UInt32) (i : Nat) : UInt8 :=
  (block (state.set 12 (counter + .ofNat (i / 64)))).getD (i % 64) 0

theorem mapM_eq_some {α β : Type} {f : α → Option β} {g : α → β} {l : List α}
    (h : ∀ a ∈ l, f a = some (g a)) : l.mapM f = some (l.map g) := by
  induction l with
  | nil => rfl
  | cons a l ih =>
    rw [List.mapM_cons, h a (by simp), ih fun b hb => h b (by simp [hb])]
    rfl

theorem xorBlock_eq (input keystream : Data) (offset count : Nat)
    (hinput : offset + count ≤ input.length) (hstream : count ≤ keystream.length) :
    xorBlock input keystream offset count =
      some ((List.range count).map fun i => input.getD (offset + i) 0 ^^^ keystream.getD i 0) := by
  apply mapM_eq_some
  intro i hi
  have hi := List.mem_range.mp hi
  have ha : input[offset + i]? = some (input.getD (offset + i) 0) := by
    rw [List.getD_eq_getElem?_getD, List.getElem?_eq_getElem (by omega), Option.getD_some]
  have hb : keystream[i]? = some (keystream.getD i 0) := by
    rw [List.getD_eq_getElem?_getD, List.getElem?_eq_getElem (by omega), Option.getD_some]
  rw [ha, hb]
  rfl

/-- From a whole number of blocks on, each byte meets its own byte of the keystream. -/
theorem xorFrom_eq (state : State) (input : Data) (counter : UInt32) (q : Nat) :
    xorFrom state input (64 * q) (counter + .ofNat q) =
      some ((List.range (input.length - 64 * q)).map fun i =>
        input.getD (64 * q + i) 0 ^^^ keystreamAt state counter (64 * q + i)) := by
  -- by induction on the bytes that are left
  generalize hleft : input.length - 64 * q = left
  induction left using Nat.strong_induction_on generalizing q with
  | _ left ih =>
    rw [xorFrom]
    by_cases hq : 64 * q < input.length
    · have hnext : counter + UInt32.ofNat q + 1 = counter + .ofNat (q + 1) := by
        rw [UInt32.add_assoc, UInt32.ofNat_add]
        rfl
      have hrest := ih (input.length - 64 * (q + 1)) (by omega) (q + 1) rfl
      have hcount : min 64 (input.length - 64 * q) ≤ 64 := Nat.min_le_left _ _
      have hhead := xorBlock_eq input (block (state.set 12 (counter + .ofNat q))) (64 * q)
        (min 64 (input.length - 64 * q)) (by omega) (by rw [length_block]; exact hcount)
      have hblock : (List.range (min 64 (input.length - 64 * q))).map (fun i =>
          input.getD (64 * q + i) 0 ^^^ (block (state.set 12 (counter + .ofNat q))).getD i 0) =
          (List.range (min 64 (input.length - 64 * q))).map (fun i =>
            input.getD (64 * q + i) 0 ^^^ keystreamAt state counter (64 * q + i)) := by
        apply List.map_congr_left
        intro i hi
        have hi := List.mem_range.mp hi
        rw [keystreamAt, show (64 * q + i) / 64 = q by omega, show (64 * q + i) % 64 = i by omega]
      have hsplit : left = min 64 (input.length - 64 * q) + (input.length - 64 * (q + 1)) := by
        omega
      rw [if_pos hq, hhead, hblock, hnext, show 64 * q + 64 = 64 * (q + 1) by omega, hrest, hsplit,
        List.range_add, List.map_append, List.map_map]
      refine congrArg some (congrArg₂ (· ++ ·) rfl ?_)
      apply List.map_congr_left
      intro i hi
      have hi := List.mem_range.mp hi
      have hwhole : min 64 (input.length - 64 * q) = 64 := by omega
      rw [Function.comp_apply, hwhole, show 64 * q + (64 + i) = 64 * (q + 1) + i by omega]
    · rw [if_neg hq, ← hleft, show input.length - 64 * q = 0 by omega]
      rfl

/-- The cipher meets each byte with its own byte of the keystream, for every length. -/
theorem xor_eq {key nonce : Data} (hkey : key.length = 32) (hnonce : nonce.length = 12)
    (counter : UInt32) :
    ∃ state, ∀ data, xor data key nonce counter =
      some (some (data.mapIdx fun i b => b ^^^ keystreamAt state counter i)) := by
  obtain ⟨state, hstate⟩ := Option.isSome_iff_exists.mp (isSome_base hkey hnonce counter)
  refine ⟨state, fun data => ?_⟩
  have hall := xorFrom_eq state data counter 0
  simp only [Nat.mul_zero, Nat.sub_zero, Nat.zero_add] at hall
  have hzero : counter + UInt32.ofNat 0 = counter := by simp
  rw [hzero] at hall
  rw [xor, if_pos ⟨hkey, hnonce⟩, hstate]
  show (xorFrom state data 0 counter).map some = _
  rw [hall, Option.map_some]
  congr 2
  apply List.ext_getElem
  · simp
  · intro i h₁ h₂
    have hi : i < data.length := by simpa using h₂
    simp [List.getElem?_eq_getElem hi]

/-- The cipher keeps the length. -/
theorem length_xor {data key nonce out : Data} {counter : UInt32}
    (h : xor data key nonce counter = some (some out)) :
    out.length = data.length := by
  by_cases hsizes : key.length = 32 ∧ nonce.length = 12
  · obtain ⟨state, hxor⟩ := xor_eq hsizes.1 hsizes.2 counter
    rw [hxor] at h
    cases h
    exact List.length_mapIdx
  · rw [xor, if_neg hsizes] at h
    cases h

/-- The cipher undoes itself. -/
theorem xor_xor {key nonce : Data} (hkey : key.length = 32) (hnonce : nonce.length = 12)
    (counter : UInt32) (data : Data) : ∃ out, xor data key nonce counter = some (some out) ∧
      xor out key nonce counter = some (some data) := by
  obtain ⟨state, hxor⟩ := xor_eq hkey hnonce counter
  refine ⟨_, hxor data, ?_⟩
  rw [hxor, List.mapIdx_mapIdx]
  congr 2
  apply List.ext_getElem
  · simp
  · intro i h₁ h₂
    simp only [List.getElem_mapIdx, Function.comp_apply, UInt8.xor_assoc, UInt8.xor_self,
      UInt8.xor_zero]

end AeroNyra.ChaCha20
