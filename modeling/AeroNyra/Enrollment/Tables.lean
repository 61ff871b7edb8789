import AeroNyra.Enrollment.Wire
import Mathlib.Data.List.Lex
import Mathlib.Data.List.Sort

/-! The sealed allowlist and ledger as bytes: a version, a count, and as many records of fixed
width, the smallest identifier first.  The two codecs are one, over the fields that a record has
behind its identifier. -/

namespace AeroNyra

open Access

/-! ### The order of identifiers -/

/-- `lexicographicallyPrecedes`. -/
def precedes : Data → Data → Bool
  | _, [] => false
  | [], _ :: _ => true
  | a :: as, b :: bs => if a < b then true else if b < a then false else precedes as bs

theorem precedes_iff (a b : Data) : precedes a b ↔ a.map UInt8.toNat < b.map UInt8.toNat := by
  induction a generalizing b with
  | nil => cases b <;> simp [precedes]
  | cons x a ih =>
    cases b with
    | nil => simp [precedes]
    | cons y b =>
      rw [List.map_cons, List.map_cons, List.cons_lt_cons_iff, ← ih, precedes]
      by_cases hlt : x < y
      · have hnat := UInt8.lt_iff_toNat_lt.mp hlt
        simp [hlt, hnat]
      · have hnat : ¬x.toNat < y.toNat := fun h => hlt (UInt8.lt_iff_toNat_lt.mpr h)
        by_cases hgt : y < x
        · have hnat' := UInt8.lt_iff_toNat_lt.mp hgt
          simp [hlt, hgt, show ¬x.toNat < y.toNat by omega, show ¬x.toNat = y.toNat by omega]
        · have hnat' : ¬y.toNat < x.toNat := fun h => hgt (UInt8.lt_iff_toNat_lt.mpr h)
          simp [hlt, hgt, show x.toNat = y.toNat by omega]

/-- What comes no later in a sorted list. -/
def notAfter (a b : Data) : Bool := !precedes b a

theorem notAfter_iff (a b : Data) : notAfter a b ↔ a.map UInt8.toNat ≤ b.map UInt8.toNat := by
  rw [notAfter, Bool.not_eq_true', Bool.eq_false_iff, Ne, precedes_iff, not_lt]

theorem notAfter_antisymm {a b : Data} (h : notAfter a b) (h' : notAfter b a) : a = b := by
  have hsame := le_antisymm ((notAfter_iff a b).mp h) ((notAfter_iff b a).mp h')
  exact List.map_injective_iff.mpr (fun x y hxy => UInt8.toNat_inj.mp hxy) hsame

theorem notAfter_trans (a b c : Data) (h : notAfter a b) (h' : notAfter b c) : notAfter a c :=
  (notAfter_iff a c).mpr (((notAfter_iff a b).mp h).trans ((notAfter_iff b c).mp h'))

theorem notAfter_total (a b : Data) : notAfter a b || notAfter b a := by
  rw [Bool.or_eq_true, notAfter_iff, notAfter_iff]
  exact le_total _ _

section Sorting

variable {α β : Type} (key : α → Data)

/-- `sorted` by identifiers. -/
def sortedBy (l : List α) : List α := l.mergeSort fun a b => notAfter (key a) (key b)

theorem sortedBy_perm (l : List α) : (sortedBy key l).Perm l := List.mergeSort_perm _ _

theorem pairwise_sortedBy (l : List α) :
    (sortedBy key l).Pairwise fun a b => notAfter (key a) (key b) = true :=
  List.pairwise_mergeSort (fun a b c => notAfter_trans (key a) (key b) (key c))
    (fun a b => notAfter_total (key a) (key b)) l

/-- What has one element for each identifier is sorted in one way. -/
theorem eq_of_sorted {l l' : List α} (hkey : ∀ a ∈ l, ∀ b ∈ l', key a = key b → a = b)
    (hl : l.Pairwise fun a b => notAfter (key a) (key b) = true)
    (hl' : l'.Pairwise fun a b => notAfter (key a) (key b) = true) (h : l.Perm l') : l = l' := by
  apply @List.Perm.eq_of_pairwise _ (fun a b => notAfter (key a) (key b) = true)
  · exact fun a b ha hb hab hba => hkey a ha b hb (notAfter_antisymm hab hba)
  · exact hl
  · exact hl'
  · exact h

end Sorting

/-- The entries in the order of their identifiers. -/
def sortedPairs {ν : Type} (d : Dict Data ν) : List (Data × ν) := sortedBy Prod.fst d.pairs

section SortedPairs

variable {ν : Type} {d d' : Dict Data ν}

theorem mem_sortedPairs {id : Data} {v : ν} : (id, v) ∈ sortedPairs d ↔ d.lookup id = some v := by
  rw [← Dict.mem_pairs]
  exact (sortedBy_perm Prod.fst d.pairs).mem_iff

theorem map_fst_pairs (d : Dict Data ν) : d.pairs.map Prod.fst = d.keys := by
  rw [Dict.pairs, List.map_map]
  rfl

theorem nodup_sortedPairs (d : Dict Data ν) : ((sortedPairs d).map Prod.fst).Nodup := by
  have hperm := (sortedBy_perm Prod.fst d.pairs).map Prod.fst
  rw [map_fst_pairs] at hperm
  exact hperm.nodup_iff.mpr d.nodupKeys

/-- Equal dictionaries are sorted alike. -/
theorem sortedPairs_congr (h : ∀ id, d.lookup id = d'.lookup id) :
    sortedPairs d = sortedPairs d' := by
  have hmem (r : Data × ν) : r ∈ sortedPairs d ↔ r ∈ sortedPairs d' := by
    obtain ⟨id, v⟩ := r
    rw [mem_sortedPairs, mem_sortedPairs, h]
  apply eq_of_sorted Prod.fst
  · rintro ⟨id, v⟩ hr ⟨_, v'⟩ hr' rfl
    rw [← hmem, mem_sortedPairs] at hr'
    rw [mem_sortedPairs.mp hr] at hr'
    rw [Option.some.inj hr']
  · exact pairwise_sortedBy _ _
  · exact pairwise_sortedBy _ _
  · exact (List.perm_ext_iff_of_nodup (nodup_sortedPairs d).of_map
      (nodup_sortedPairs d').of_map).mpr hmem

/-- The sorted keys are the keys of the sorted entries. -/
theorem sortedBy_keys (d : Dict Data ν) :
    sortedBy (fun id => id) d.keys = (sortedPairs d).map Prod.fst := by
  apply eq_of_sorted (fun id => id)
  · exact fun _ _ _ _ h => h
  · exact pairwise_sortedBy _ _
  · exact List.pairwise_map.mpr (pairwise_sortedBy Prod.fst d.pairs)
  · refine (sortedBy_perm _ _).trans ?_
    rw [← map_fst_pairs]
    exact ((sortedBy_perm Prod.fst d.pairs).map Prod.fst).symm

end SortedPairs

/-! ### Tables -/

/-- The errors of a codec; those of the fields are `φ`. -/
inductive TableError (φ : Type)
  | tooManyEntries (count : Nat)
  | nonStandardID (size : Nat)
  | shortBuffer
  | unknownVersion (version : UInt8)
  | lengthMismatch (expected actual : Nat)
  | badField (error : φ)
  | duplicateID
  deriving DecidableEq

/-- The fields of a record behind its identifier: how many bytes they are, how they are written, and
how they are read at a place. -/
structure Fields (φ ν : Type) where
  idSize : Nat
  size : Nat
  Valid : ν → Prop
  write : ν → Data
  read : Data → Nat → Access (TableError φ) ν
  length_write (v : ν) : (write v).length = size
  read_ok {bytes : Data} {i : Nat} {v : ν} : i + size ≤ bytes.length →
    (read bytes i = .ok v ↔ Valid v ∧ (bytes.drop i).take size = write v)
  read_safe {bytes : Data} {i : Nat} : i + size ≤ bytes.length → Safe (read bytes i)

namespace Fields

variable {φ ν : Type} (f : Fields φ ν)

def version : UInt8 := 1

def headerSize : Nat := 1 + 2

def entrySize : Nat := f.idSize + f.size

/-- Version and count. -/
def header (count : Nat) : Data := [version, .ofNat (count / 256), .ofNat count]

section Writing

variable {α : Type} (key : α → Data) (entry : α → Option ν)

/-- The loop over what is sorted. -/
def writeRecords : List α → Access (TableError φ) Data
  | [] => .ok []
  | a :: rest => do
    ensure ((key a).length = f.idSize) (.nonStandardID (key a).length)
    let v ← unwrapped (.nonStandardID (key a).length) (entry a)
    let out ← writeRecords rest
    return key a ++ f.write v ++ out

/-- The encoding of what is sorted. -/
def encode (sorted : List α) : Access (TableError φ) Data := do
  ensure (sorted.length ≤ 0xFFFF) (.tooManyEntries sorted.length)
  let out ← f.writeRecords key entry sorted
  return header sorted.length ++ out

end Writing

/-- The loop over the records from `i` on, with the entries read so far. -/
def readRecords (bytes : Data) : Nat → Nat → Dict Data ν → Access (TableError φ) (Dict Data ν)
  | 0, _, map => .ok map
  | count + 1, i, map => do
    let id ← slice bytes i (i + f.idSize)
    let v ← f.read bytes (i + f.idSize)
    ensure (map.lookup id = none) .duplicateID
    readRecords bytes count (i + f.entrySize) (AList.insert id v map)

def decode (bytes : Data) : Access (TableError φ) (Dict Data ν) := do
  ensure (headerSize ≤ bytes.length) .shortBuffer
  let first ← inRange bytes[0]?
  ensure (first = version) (.unknownVersion first)
  let high ← inRange bytes[1]?
  let low ← inRange bytes[2]?
  let count := high.toNat * 256 + low.toNat
  let expected := headerSize + count * f.entrySize
  ensure (bytes.length = expected) (.lengthMismatch expected bytes.length)
  f.readRecords bytes count headerSize ∅

/-! ### What is read -/

def record (r : Data × ν) : Data := r.1 ++ f.write r.2

/-- An identifier of the width, and fields that can be written. -/
def Standard (r : Data × ν) : Prop := r.1.length = f.idSize ∧ f.Valid r.2

/-- The bytes are a version, a count, and that many records with identifiers that differ. -/
structure Table (bytes : Data) (rs : List (Data × ν)) : Prop where
  bytes : bytes = header rs.length ++ rs.flatMap f.record
  count : rs.length ≤ 0xFFFF
  standard : ∀ r ∈ rs, f.Standard r
  distinct : (rs.map Prod.fst).Nodup

variable {f} {bytes : Data}

theorem length_record {r : Data × ν} (h : f.Standard r) : (f.record r).length = f.entrySize := by
  rw [record, List.length_append, f.length_write, h.1]
  rfl

theorem length_records {rs : List (Data × ν)} (h : ∀ r ∈ rs, f.Standard r) :
    (rs.flatMap f.record).length = rs.length * f.entrySize := by
  induction rs with
  | nil => exact (Nat.zero_mul _).symm
  | cons r rs ih =>
    rw [List.flatMap_cons, List.length_append, length_record (h r List.mem_cons_self),
      ih fun r' hr' => h r' (List.mem_cons_of_mem _ hr'), List.length_cons, Nat.succ_mul]
    omega

/-- One record at a place. -/
theorem read_record {i : Nat} (hroom : i + f.entrySize ≤ bytes.length) {id : Data} {v : ν} :
    (slice bytes i (i + f.idSize) : Access (TableError φ) Data) = .ok id ∧
        f.read bytes (i + f.idSize) = .ok v ↔
      f.Standard (id, v) ∧ bytes.drop i = f.record (id, v) ++ bytes.drop (i + f.entrySize) := by
  unfold entrySize at hroom
  have hread : f.read bytes (i + f.idSize) = .ok v ↔ _ := f.read_ok (by omega)
  rw [slice_ok, hread, Nat.add_sub_cancel_left]
  constructor
  · rintro ⟨⟨_, hle, rfl⟩, hvalid, hwrite⟩
    have hroomID : i + f.idSize ≤ bytes.length := by omega
    have hroomFields : i + f.idSize + f.size ≤ bytes.length := by omega
    have hid := spans_take hroomID
    have hfields := spans_take hroomFields
    rw [hwrite] at hfields
    refine ⟨⟨?_, hvalid⟩, ?_⟩
    · rw [List.length_take, List.length_drop]
      omega
    · rw [record, List.append_assoc, entrySize, ← Nat.add_assoc, ← hfields.2]
      exact hid.2
  · rintro ⟨⟨hid, hvalid⟩, hdrop⟩
    dsimp only at hid hvalid
    rw [record, List.append_assoc] at hdrop
    have hfields : bytes.drop (i + f.idSize) = f.write v ++ bytes.drop (i + f.entrySize) := by
      rw [← List.drop_drop, hdrop, ← hid, List.drop_left]
    refine ⟨⟨by omega, by omega, ?_⟩, hvalid, ?_⟩
    · rw [hdrop, ← hid, List.take_left]
    · rw [hfields, ← f.length_write v, List.take_left]

theorem readRecords_ok {count i : Nat} {map m : Dict Data ν}
    (hroom : i + count * f.entrySize = bytes.length) : f.readRecords bytes count i map = .ok m ↔
      ∃ rs, rs.length = count ∧ bytes.drop i = rs.flatMap f.record ∧ (∀ r ∈ rs, f.Standard r) ∧
        (rs.map Prod.fst).Nodup ∧ (∀ r ∈ rs, map.lookup r.1 = none) ∧ m = map.insertAll rs := by
  induction count generalizing i map with
  | zero =>
    rw [Nat.zero_mul, Nat.add_zero] at hroom
    constructor
    · intro h
      cases h
      exact ⟨[], rfl, by rw [hroom, List.drop_length]; rfl, nofun, List.nodup_nil, nofun, rfl⟩
    · rintro ⟨rs, hlength, _, _, _, _, rfl⟩
      rw [List.length_eq_zero_iff.mp hlength]
      rfl
  | succ count ih =>
    rw [Nat.succ_mul] at hroom
    rw [readRecords]
    simp only [bind_ok, ensure_ok, exists_const]
    have hnext (map : Dict Data ν) := @ih (i + f.entrySize) map (by omega)
    constructor
    · rintro ⟨id, hid, v, hv, hnew, hrest⟩
      obtain ⟨hstandard, hdrop⟩ := (read_record (by omega)).mp ⟨hid, hv⟩
      obtain ⟨rs, hlength, hrecords, hall, hnodup, hfresh, rfl⟩ := (hnext _).mp hrest
      refine ⟨(id, v) :: rs, by rw [List.length_cons, hlength], ?_, ?_, ?_, ?_, rfl⟩
      · rw [hdrop, hrecords, List.flatMap_cons]
      · exact List.forall_mem_cons.mpr ⟨hstandard, hall⟩
      · refine List.nodup_cons.mpr ⟨fun hmem => ?_, hnodup⟩
        obtain ⟨r, hr, hsame⟩ := List.mem_map.mp hmem
        have hnone := hfresh r hr
        rw [Dict.lookup_insert, if_pos hsame] at hnone
        cases hnone
      · refine List.forall_mem_cons.mpr ⟨hnew, fun r hr => ?_⟩
        have hnone := hfresh r hr
        rw [Dict.lookup_insert] at hnone
        split at hnone
        · cases hnone
        · exact hnone
    · rintro ⟨rs, hlength, hrecords, hall, hnodup, hfresh, rfl⟩
      obtain ⟨r, rs, rfl⟩ := List.exists_cons_of_length_eq_add_one hlength
      obtain ⟨id, v⟩ := r
      obtain ⟨hstandard, hall⟩ := List.forall_mem_cons.mp hall
      obtain ⟨hnew, hfresh⟩ := List.forall_mem_cons.mp hfresh
      obtain ⟨hnot, hnodup⟩ := List.nodup_cons.mp hnodup
      have hdrop : bytes.drop (i + f.entrySize) = rs.flatMap f.record := by
        rw [← List.drop_drop, hrecords, List.flatMap_cons, ← length_record hstandard,
          List.drop_left]
      have hroom' : i + f.entrySize ≤ bytes.length := by omega
      obtain ⟨hid, hv⟩ := (read_record hroom').mpr ⟨hstandard, by
        rw [hrecords, List.flatMap_cons, hdrop]⟩
      refine ⟨id, hid, v, hv, hnew,
        (hnext _).mpr ⟨rs, Nat.succ.inj hlength, hdrop, hall, hnodup, ?_, rfl⟩⟩
      intro r hr
      have hother : r.1 ≠ id := by
        intro hsame
        exact hnot (List.mem_map.mpr ⟨r, hr, hsame⟩)
      rw [Dict.lookup_insert, if_neg hother]
      exact hfresh r hr

theorem readRecords_safe {count i : Nat} {map : Dict Data ν}
    (hroom : i + count * f.entrySize = bytes.length) : Safe (f.readRecords bytes count i map) := by
  induction count generalizing i map with
  | zero => exact .ok _
  | succ count ih =>
    rw [Nat.succ_mul] at hroom
    have hentry : f.entrySize = f.idSize + f.size := rfl
    refine (Safe.slice (by omega) (by omega)).bind fun id _ => ?_
    refine (f.read_safe (by omega)).bind fun v _ => Safe.ensure.bind fun _ _ => ?_
    exact ih (by omega)

/-! ### What is encoded -/

section Encoded

variable {α : Type} {key : α → Data} {entry : α → Option ν} {l : List α} {rs : List (Data × ν)}

theorem writeRecords_ok (hl : l.map (fun a => (key a, entry a)) = rs.map fun r => (r.1, some r.2))
    (hall : ∀ r ∈ rs, f.Standard r) : f.writeRecords key entry l = .ok (rs.flatMap f.record) := by
  induction l generalizing rs with
  | nil =>
    rw [List.map_nil, eq_comm, List.map_eq_nil_iff] at hl
    rw [hl]
    rfl
  | cons a l ih =>
    match rs, hl with
    | r :: rs, hl =>
      simp only [List.map_cons, List.cons.injEq, Prod.mk.injEq] at hl
      obtain ⟨⟨hkey, hentry⟩, hl⟩ := hl
      obtain ⟨hr, hall⟩ := List.forall_mem_cons.mp hall
      rw [writeRecords, hkey, hentry, ensure, if_pos hr.1, ih hl hall]
      rfl

/-- Entries within the limits are encoded as their table. -/
theorem encode_ok (hl : l.map (fun a => (key a, entry a)) = rs.map fun r => (r.1, some r.2))
    (hcount : rs.length ≤ 0xFFFF) (hall : ∀ r ∈ rs, f.Standard r)
    (hnodup : (rs.map Prod.fst).Nodup) :
    ∃ bytes, f.encode key entry l = .ok bytes ∧ f.Table bytes rs := by
  have hlength : l.length = rs.length := by simpa using congrArg List.length hl
  refine ⟨header rs.length ++ rs.flatMap f.record, ?_, rfl, hcount, hall, hnodup⟩
  rw [encode, writeRecords_ok hl hall, hlength, ensure, if_pos hcount]
  rfl

end Encoded

/-! ### What is decoded -/

theorem length_header (count : Nat) : (header count).length = headerSize := rfl

/-- Two bytes hold a count. -/
theorem header_eq {count : Nat} (h : count ≤ 0xFFFF) {first high low : UInt8} :
    header count = [first, high, low] ↔ first = version ∧ count = high.toNat * 256 + low.toNat := by
  have hhigh := high.toNat_lt
  have hlow := low.toNat_lt
  simp only [header, List.cons.injEq, and_true, ← UInt8.toNat_inj, UInt8.toNat_ofNat']
  omega

/-- A version, a count, as many records as it says, and nothing more. -/
theorem exists_header {bytes : Data} (h : headerSize ≤ bytes.length) :
    ∃ first high low entries, bytes = first :: high :: low :: entries := by
  have hheader : headerSize = 3 := rfl
  obtain ⟨a, bytes, rfl⟩ := List.exists_cons_of_length_pos (by omega : 0 < bytes.length)
  rw [List.length_cons] at h
  obtain ⟨b, bytes, rfl⟩ := List.exists_cons_of_length_pos (by omega : 0 < bytes.length)
  rw [List.length_cons] at h
  obtain ⟨c, bytes, rfl⟩ := List.exists_cons_of_length_pos (by omega : 0 < bytes.length)
  exact ⟨a, b, c, bytes, rfl⟩

theorem decode_ok_iff {m : Dict Data ν} : f.decode bytes = .ok m ↔ ∃ high low entries,
    bytes = version :: high :: low :: entries ∧
      headerSize + entries.length = headerSize + (high.toNat * 256 + low.toNat) * f.entrySize ∧
      f.readRecords bytes (high.toNat * 256 + low.toNat) headerSize ∅ = .ok m := by
  have hheader : headerSize = 3 := rfl
  rw [decode]
  simp only [bind_ok, ensure_ok, exists_const, inRange_ok]
  constructor
  · rintro ⟨hlong, first, hfirst, rfl, high, hhigh, low, hlow, hlength, hrest⟩
    obtain ⟨a, b, c, entries, rfl⟩ := exists_header hlong
    obtain rfl := Option.some.inj hfirst
    obtain rfl := Option.some.inj hhigh
    obtain rfl := Option.some.inj hlow
    refine ⟨b, c, entries, rfl, ?_, hrest⟩
    rw [← hlength, List.length_cons, List.length_cons, List.length_cons]
    omega
  · rintro ⟨high, low, entries, rfl, hlength, hrest⟩
    have hlong : (version :: high :: low :: entries).length = headerSize + entries.length := by
      rw [List.length_cons, List.length_cons, List.length_cons]
      omega
    exact ⟨by omega, version, rfl, rfl, high, rfl, low, rfl, hlong.trans hlength, hrest⟩

theorem decode_ok {m : Dict Data ν} :
    f.decode bytes = .ok m ↔ ∃ rs, f.Table bytes rs ∧ m = Dict.insertAll ∅ rs := by
  rw [decode_ok_iff]
  constructor
  · rintro ⟨high, low, entries, rfl, hlength, hrest⟩
    have hhigh := high.toNat_lt
    have hlow := low.toNat_lt
    have hlong : (version :: high :: low :: entries).length = headerSize + entries.length :=
      Nat.add_comm entries.length headerSize
    obtain ⟨rs, hcount, hrecords, hall, hnodup, _, rfl⟩ :=
      (readRecords_ok (hlength.symm.trans hlong.symm)).mp hrest
    refine ⟨rs, ⟨?_, by omega, hall, hnodup⟩, rfl⟩
    rw [(header_eq (by omega)).mpr ⟨rfl, hcount⟩, ← hrecords]
    rfl
  · rintro ⟨rs, ⟨rfl, hcount, hall, hnodup⟩, rfl⟩
    have hlength := length_records hall
    have htwo : (UInt8.ofNat (rs.length / 256)).toNat * 256 + (UInt8.ofNat rs.length).toNat =
      rs.length :=
      ((header_eq hcount).mp rfl).2.symm
    refine ⟨_, _, rs.flatMap f.record, rfl, ?_, ?_⟩
    · rw [htwo, hlength]
    · have hwhole : headerSize + rs.length * f.entrySize =
        (header rs.length ++ rs.flatMap f.record).length := by
        rw [List.length_append, length_header, hlength]
      rw [htwo]
      exact (readRecords_ok hwhole).mpr ⟨rs, rfl, rfl, hall, hnodup, fun r _ => rfl, rfl⟩

theorem decode_safe (bytes : Data) : Safe (f.decode bytes) := by
  refine Safe.ensure.bind fun _ hlong => ?_
  have hlong : 3 ≤ bytes.length := ensure_ok.mp hlong
  refine (Safe.inRange (by simp; omega)).bind fun first _ => Safe.ensure.bind fun _ _ => ?_
  refine (Safe.inRange (by simp; omega)).bind fun high _ => ?_
  refine (Safe.inRange (by simp; omega)).bind fun low _ => Safe.ensure.bind fun _ hlength => ?_
  exact readRecords_safe (ensure_ok.mp hlength).symm

/-- Each listed identifier has its listed fields, and no other is there. -/
theorem Table.lookup {rs : List (Data × ν)} (h : f.Table bytes rs) {id : Data} {v : ν} :
    (Dict.insertAll ∅ rs).lookup id = some v ↔ (id, v) ∈ rs := by
  constructor
  · intro hlookup
    refine (Dict.mem_of_lookup_insertAll hlookup).resolve_right ?_
    rw [Dict.lookup_empty]
    nofun
  · intro hmem
    refine Dict.lookup_insertAll (fun v' hmem' => ?_) (.inl hmem)
    exact congrArg Prod.snd (List.inj_on_of_nodup_map h.distinct hmem' hmem rfl)

end Fields

/-! ### Fields of records -/

section Words

variable {ε : Type} {bytes : Data} {i : Nat}

/-- Eight bytes spell one `Int64`. -/
theorem int64_number_iff {part : Data} (h : part.length = 8) {v : Int} :
    int64 (number part) = v ↔ InInt64 v ∧ part = bigEndianBytes 8 (bitPattern v) := by
  constructor
  · rintro rfl
    have hlt := number_lt part
    have hback := bigEndianBytes_number part
    rw [h] at hlt hback
    refine ⟨inInt64_int64 hlt, ?_⟩
    rw [bitPattern_int64 hlt, hback]
  · rintro ⟨hv, rfl⟩
    rw [number_bigEndianBytes (bitPattern_lt v), int64_bitPattern hv]

theorem readLoop_int64 (h : i + 8 ≤ bytes.length) {v : Int} :
    (∃ n, readLoop ε bytes 8 i 0 = .ok n ∧ int64 n = v) ↔
      InInt64 v ∧ (bytes.drop i).take 8 = bigEndianBytes 8 (bitPattern v) := by
  have hlength : ((bytes.drop i).take 8).length = 8 := by
    rw [List.length_take, List.length_drop]
    omega
  rw [readLoop_ok h, ← int64_number_iff hlength]
  simp only [Except.ok.injEq, exists_eq_left']
  rfl

end Words

namespace PendingInvitesCodec

/-- A record of the ledger behind its identifier: the expiry. -/
def fields : Fields Empty Int where
  idSize := idSize
  size := 8
  Valid := InInt64
  write expiresAt := bigEndianBytes 8 (bitPattern expiresAt)
  read bytes i := do
    let expU ← readLoop _ bytes 8 i 0
    return int64 expU
  length_write _ := length_bigEndianBytes 8 _
  read_ok h := by
    rw [bind_ok]
    simpa only [pure, Except.pure, Except.ok.injEq] using readLoop_int64 h
  read_safe h := by
    rw [readLoop_ok h]
    exact .ok _

def encode (ledger : PendingInvites) : Access (TableError Empty) Data :=
  fields.encode Prod.fst (fun r => some r.2) (sortedPairs ledger.pending)

/-- `decode`, subscript by subscript. -/
def decodeIndexed (bytes : Data) : Access (TableError Empty) PendingInvites := do
  let map ← fields.decode bytes
  return ⟨map⟩

end PendingInvitesCodec

namespace ContactAllowlistCodec

/-- An unknown flag is an error of its own. -/
def verifiedOf (verifiedByte : UInt8) : Access (TableError UInt8) Bool :=
  if verifiedByte = 0x00 then .ok false
  else if verifiedByte = 0x01 then .ok true
  else .error (.threw (.badField verifiedByte))

def flag (verified : Bool) : UInt8 := if verified then 0x01 else 0x00

theorem verifiedOf_ok {b : UInt8} {verified : Bool} : verifiedOf b = .ok verified ↔
    b = flag verified := by
  unfold verifiedOf flag
  by_cases hzero : b = 0x00
  · subst hzero
    cases verified <;> simp
  · by_cases hone : b = 0x01
    · subst hone
      cases verified <;> simp
    · cases verified <;> simp [hzero, hone]

theorem safe_entry {bytes : Data} {i : Nat} (h : i + (8 + 1) ≤ bytes.length) : Safe (do
    let pairedU ← readLoop (TableError UInt8) bytes 8 i 0
    let verifiedByte ← inRange bytes[i + 8]?
    let verified ← verifiedOf verifiedByte
    return (⟨int64 pairedU, verified⟩ : ContactAllowlist.Entry)) := by
  rw [readLoop_ok (by omega)]
  refine (Safe.ok _).bind fun _ _ => (Safe.inRange (by simp; omega)).bind fun b _ => ?_
  refine Safe.bind ?_ fun _ _ => .ok _
  unfold verifiedOf
  split
  · exact .ok _
  · split
    · exact .ok _
    · exact .threw

/-- A record of the allowlist behind its identifier: the time of the pairing, and the flag. -/
def fields : Fields UInt8 ContactAllowlist.Entry where
  idSize := 32
  size := 8 + 1
  Valid entry := InInt64 entry.pairedAt
  write entry := bigEndianBytes 8 (bitPattern entry.pairedAt) ++ [flag entry.verified]
  read bytes i := do
    let pairedU ← readLoop _ bytes 8 i 0
    let verifiedByte ← inRange bytes[i + 8]?
    let verified ← verifiedOf verifiedByte
    return ⟨int64 pairedU, verified⟩
  length_write _ := by rw [List.length_append, length_bigEndianBytes]; rfl
  read_ok {bytes i entry} h := by
    have hget : bytes[i + 8]? = some bytes[i + 8] := List.getElem?_eq_getElem (by omega)
    have htake : (bytes.drop i).take (8 + 1) = (bytes.drop i).take 8 ++ [bytes[i + 8]] := by
      rw [List.take_add_one, List.getElem?_drop, hget]
      rfl
    obtain ⟨pairedAt, verified⟩ := entry
    simp only [bind_ok, inRange_ok, verifiedOf_ok]
    rw [htake, hget]
    constructor
    · rintro ⟨n, hn, b, hb, _, hflag, hsame⟩
      cases hb
      cases hsame
      obtain ⟨hvalid, hpaired⟩ := (readLoop_int64 (by omega)).mp ⟨n, hn, rfl⟩
      exact ⟨hvalid, by rw [hpaired, hflag]⟩
    · rintro ⟨hvalid, hsame⟩
      obtain ⟨hpaired, hflag⟩ := List.append_inj' hsame rfl
      obtain ⟨n, hn, rfl⟩ := (readLoop_int64 (by omega)).mpr ⟨hvalid, hpaired⟩
      exact ⟨n, hn, _, rfl, verified, List.singleton_inj.mp hflag, rfl⟩
  read_safe := @safe_entry

/-- The identifiers are sorted, and their entries are looked up again. -/
def encode (allowlist : ContactAllowlist) : Access (TableError UInt8) Data :=
  fields.encode (fun id => id) allowlist.entries.lookup
    (sortedBy (fun id => id) allowlist.identities)

def decode (bytes : Data) : Access (TableError UInt8) ContactAllowlist := do
  let map ← fields.decode bytes
  return ⟨map⟩

end ContactAllowlistCodec

/-! ### The stores -/

/-- The decoder over the rest of the bytes reads the same ledgers. -/
theorem PendingInvitesCodec.readRecords_iff {bytes : Data} {count i : Nat} {map m : Dict Data Int}
    (hroom : i + count * entrySize = bytes.length) : fields.readRecords bytes count i map = .ok m ↔
      decodeEntries count (bytes.drop i) map = .ok m := by
  induction count generalizing i map with
  | zero => simp [Fields.readRecords, decodeEntries]
  | succ count ih =>
    have hentry : entrySize = 16 + 8 := rfl
    rw [Nat.succ_mul, hentry] at hroom
    have hid : slice bytes i (i + fields.idSize) =
        (.ok ((bytes.drop i).take idSize) : Access (TableError Empty) Data) :=
      slice_ok.mpr
        ⟨Nat.le_add_right _ _, by show i + 16 ≤ _; omega, by rw [Nat.add_sub_cancel_left]; rfl⟩
    have hv : fields.read bytes (i + fields.idSize) =
        .ok (int64 (number (((bytes.drop i).drop idSize).take 8))) := by
      show readLoop _ bytes 8 (i + 16) 0 >>= _ = _
      rw [readLoop_ok (by omega), List.drop_drop]
      rfl
    rw [Fields.readRecords, hid, hv, decodeEntries]
    simp only [bind_ok, Except.ok.injEq, exists_eq_left', ensure_ok, exists_const]
    cases hlookup : map.lookup ((bytes.drop i).take idSize) with
    | some v => simp
    | none =>
      have hnext (map : Dict Data Int) := @ih (i + entrySize) map (by rw [hentry]; omega)
      simp only [true_and, Option.isSome_none, Bool.false_eq_true, if_false, List.drop_drop]
      exact hnext _

theorem PendingInvitesCodec.decode_ok_iff {bytes : Data} {ledger : PendingInvites} :
    decode bytes = .ok ledger ↔ ∃ high low entries, bytes = version :: high :: low :: entries ∧
      headerSize + entries.length = headerSize + (high.toNat * 256 + low.toNat) * entrySize ∧
      decodeEntries (high.toNat * 256 + low.toNat) entries ∅ = .ok ledger.pending := by
  constructor
  · intro h
    match bytes, h with
    | first :: high :: low :: entries, h =>
      by_cases hversion : first = version
      · by_cases hlength : headerSize + entries.length =
          headerSize + (high.toNat * 256 + low.toNat) * entrySize
        · rw [decode, if_neg (not_not_intro hversion), if_neg (not_not_intro hlength)] at h
          refine ⟨high, low, entries, by rw [hversion], hlength, ?_⟩
          cases hentries : decodeEntries (high.toNat * 256 + low.toNat) entries ∅ with
          | error e =>
            rw [hentries] at h
            cases h
          | ok map =>
            rw [hentries] at h
            cases h
            rfl
        · rw [decode, if_neg (not_not_intro hversion), if_pos hlength] at h
          cases h
      · rw [decode, if_pos hversion] at h
        cases h
  · rintro ⟨high, low, entries, rfl, hlength, hentries⟩
    rw [decode, if_neg (not_not_intro rfl), if_neg (not_not_intro hlength), hentries]
    rfl

theorem PendingInvitesCodec.decodeIndexed_ok {bytes : Data} {ledger : PendingInvites} :
    decodeIndexed bytes = .ok ledger ↔ decode bytes = .ok ledger := by
  rw [decodeIndexed, bind_ok, decode_ok_iff]
  simp only [Fields.decode_ok_iff]
  constructor
  · rintro ⟨m, ⟨high, low, entries, rfl, hlength, hrecords⟩, hsame⟩
    cases hsame
    refine ⟨high, low, entries, rfl, hlength, ?_⟩
    exact (readRecords_iff (hlength.symm.trans (Nat.add_comm headerSize _))).mp hrecords
  · rintro ⟨high, low, entries, rfl, hlength, hrecords⟩
    refine ⟨ledger.pending, ⟨high, low, entries, rfl, hlength, ?_⟩, rfl⟩
    exact (readRecords_iff (hlength.symm.trans (Nat.add_comm headerSize _))).mpr hrecords

/-- A store is within the limits of its codec: no more entries than two bytes count, and each one
can be written. -/
structure Fields.Fits {φ ν : Type} (f : Fields φ ν) (d : Dict Data ν) : Prop where
  count : d.keys.length ≤ 0xFFFF
  standard : ∀ id v, d.lookup id = some v → f.Standard (id, v)

/-- A codec of stores `σ`, which hold `entries`: a store within the limits is read back as it was
written, equal stores are written alike, exactly the tables are read, each as what it lists, and
what is not read is refused with an error. -/
structure Fields.Exact {φ ν σ : Type} (f : Fields φ ν) (entries : σ → Dict Data ν)
    (encode : σ → Access (TableError φ) Data) (decode : Data → Access (TableError φ) σ) : Prop where
  roundTrip : ∀ s, f.Fits (entries s) → ∃ bytes s', encode s = .ok bytes ∧ decode bytes = .ok s' ∧
    ∀ id, (entries s').lookup id = (entries s).lookup id
  ordered : ∀ s s', (∀ id, (entries s).lookup id = (entries s').lookup id) → encode s = encode s'
  accepts : ∀ bytes, (∃ s, decode bytes = .ok s) ↔ ∃ rs, f.Table bytes rs
  listed : ∀ bytes s rs, decode bytes = .ok s → f.Table bytes rs → ∀ id v,
    (entries s).lookup id = some v ↔ (id, v) ∈ rs
  refuses : ∀ bytes, (∃ s, decode bytes = .ok s) ∨ ∃ e, decode bytes = .error (.threw e)

section Exact

variable {φ ν σ : Type} {f : Fields φ ν} {entries : σ → Dict Data ν}
  {encode : σ → Access (TableError φ) Data} {decode : Data → Access (TableError φ) σ}

/-- A codec is exact when it writes the sorted entries and wraps what is decoded. -/
theorem Fields.exact (hencode : ∀ s, f.Fits (entries s) → ∃ bytes, encode s = .ok bytes ∧
      f.Table bytes (sortedPairs (entries s)))
    (hordered : ∀ s s', (∀ id, (entries s).lookup id = (entries s').lookup id) →
      encode s = encode s')
    (mk : Dict Data ν → σ) (hmk : ∀ d, entries (mk d) = d)
    (hdecode : ∀ bytes, decode bytes = f.decode bytes >>= fun map => .ok (mk map)) :
    f.Exact entries encode decode := by
  have hok (bytes : Data) (s : σ) : decode bytes = .ok s ↔ ∃ rs, f.Table bytes rs ∧
    mk (Dict.insertAll ∅ rs) = s := by
    rw [hdecode, bind_ok]
    simp only [decode_ok, Except.ok.injEq]
    exact ⟨fun ⟨_, ⟨rs, hrs, hm⟩, hs⟩ => ⟨rs, hrs, hm ▸ hs⟩, fun ⟨rs, hrs, hs⟩ =>
      ⟨_, ⟨rs, hrs, rfl⟩, hs⟩⟩
  have hlisted (bytes : Data) (s : σ) (rs : List (Data × ν)) (hs : decode bytes = .ok s)
      (hrs : f.Table bytes rs) (id : Data) (v : ν) : (entries s).lookup id = some v ↔
      (id, v) ∈ rs := by
    have hsame := (hok bytes _).mpr ⟨rs, hrs, rfl⟩
    rw [hs] at hsame
    rw [Except.ok.inj hsame, hmk]
    exact hrs.lookup
  refine ⟨fun s hfits => ?_, hordered, fun bytes => ?_, hlisted, fun bytes => ?_⟩
  · obtain ⟨bytes, hwritten, htable⟩ := hencode s hfits
    have hread := (hok bytes _).mpr ⟨_, htable, rfl⟩
    refine ⟨bytes, _, hwritten, hread, fun id => Option.ext fun v => ?_⟩
    rw [hlisted bytes _ _ hread htable, mem_sortedPairs]
  · exact ⟨fun ⟨s, hs⟩ => ((hok bytes s).mp hs).imp fun _ h => h.1,
      fun ⟨rs, hrs⟩ => ⟨_, (hok bytes _).mpr ⟨rs, hrs, rfl⟩⟩⟩
  · have hsafe : Safe (decode bytes) := by
      rw [hdecode]
      exact (decode_safe bytes).bind fun _ _ => .ok _
    cases hresult : decode bytes with
    | ok s => exact .inl ⟨s, rfl⟩
    | error e =>
      cases e with
      | threw e => exact .inr ⟨e, rfl⟩
      | trapped => exact absurd hresult hsafe

end Exact

theorem Fields.Fits.sorted {φ ν : Type} {f : Fields φ ν} {d : Dict Data ν} (h : f.Fits d) :
    (sortedPairs d).length ≤ 0xFFFF ∧ (∀ r ∈ sortedPairs d, f.Standard r) ∧
      ((sortedPairs d).map Prod.fst).Nodup := by
  refine ⟨?_, ?_, nodup_sortedPairs d⟩
  · have hlength := (sortedBy_perm Prod.fst d.pairs).length_eq
    have hkeys := congrArg List.length (map_fst_pairs d)
    rw [List.length_map] at hkeys
    have hcount := h.count
    rw [sortedPairs]
    omega
  · rintro ⟨id, v⟩ hr
    exact h.standard id v (mem_sortedPairs.mp hr)

/-- Both trust stores decode exactly what they encode. -/
theorem trust_stores_exact :
    ContactAllowlistCodec.fields.Exact ContactAllowlist.entries ContactAllowlistCodec.encode
        ContactAllowlistCodec.decode ∧
      PendingInvitesCodec.fields.Exact PendingInvites.pending PendingInvitesCodec.encode
        PendingInvitesCodec.decodeIndexed := by
  constructor
  · refine Fields.exact (fun a hfits => ?_) (fun a a' hsame => ?_) .mk (fun _ => rfl) fun _ => rfl
    · obtain ⟨hcount, hall, hnodup⟩ := hfits.sorted
      refine Fields.encode_ok ?_ hcount hall hnodup
      rw [ContactAllowlist.identities, sortedBy_keys, List.map_map]
      refine List.map_congr_left fun r hr => ?_
      exact congrArg (Prod.mk r.1) (mem_sortedPairs.mp hr)
    · have hlookup : a.entries.lookup = a'.entries.lookup := funext hsame
      rw [ContactAllowlistCodec.encode, ContactAllowlistCodec.encode, ContactAllowlist.identities,
        ContactAllowlist.identities, sortedBy_keys, sortedBy_keys, sortedPairs_congr hsame, hlookup]
  · refine Fields.exact (fun p hfits => ?_) (fun p p' hsame => ?_) .mk (fun _ => rfl) fun _ => rfl
    · obtain ⟨hcount, hall, hnodup⟩ := hfits.sorted
      exact Fields.encode_ok rfl hcount hall hnodup
    · rw [PendingInvitesCodec.encode, PendingInvitesCodec.encode, sortedPairs_congr hsame]

/-- A contact whose flag is neither of the two is refused. -/
example : ContactAllowlistCodec.decode ([1, 0, 1] ++ List.replicate 32 7 ++
    [0, 0, 0, 0, 0, 0, 0, 5] ++ [2]) = .error (.threw (.badField 2)) := by
  rfl

end AeroNyra
