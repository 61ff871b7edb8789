import Mathlib.Data.List.Induction
import Mathlib.Tactic.Common

/-! Readers that take their input in pieces, the words that a reader reads however they are cut, and
a queue of words in pieces in front of a reader. -/

universe u v w

/-- A reader: its state at the start, and what a piece makes of a state, with the item that it
completes, if any. -/
structure Reader (σ : Type u) (α : Type v) (β : Type w) where
  start : σ
  feed : σ → List α → σ × Option β

namespace Reader

variable {σ : Type u} {α : Type v} {β : Type w} (r : Reader σ α β)

/-- In the state, the rest of a word completes `x`: in one piece at once, and after a first piece,
which completes nothing, by what is left. -/
inductive Expects (x : β) : σ → List α → Prop
  | intro {s : σ} {rest : List α} (whole : rest ≠ [] → r.feed s rest = (r.start, some x))
      (silent : ∀ piece later, rest = piece ++ later → piece ≠ [] → later ≠ [] →
        (r.feed s piece).2 = none)
      (part : ∀ piece later, rest = piece ++ later → piece ≠ [] → later ≠ [] →
        Expects x (r.feed s piece).1 later) : Expects x s rest

variable {r} {x : β}

/-- A word that has a state for each of its prefixes, from which a piece leads to the next one. -/
theorem Expects.of_prefixes {word : List α} (after : List α → σ)
    (hfeed : ∀ done piece later, done ++ piece ++ later = word → piece ≠ [] →
      r.feed (after done) piece =
        if later = [] then (r.start, some x) else (after (done ++ piece), none)) :
    ∀ done rest, done ++ rest = word → r.Expects x (after done) rest := by
  intro done rest
  induction hn : rest.length using Nat.strongRecOn generalizing done rest with
  | ind n ih =>
    intro hword
    refine .intro (fun hrest => ?_) (fun piece later hsplit hpiece hlater => ?_)
      fun piece later hsplit hpiece hlater => ?_
    · rw [hfeed done rest [] (by simpa using hword) hrest, if_pos rfl]
    · subst hsplit
      rw [hfeed done piece later (by simpa using hword) hpiece, if_neg hlater]
    · subst hsplit
      rw [hfeed done piece later (by simpa using hword) hpiece, if_neg hlater]
      have hpos := List.length_pos_iff.mpr hpiece
      rw [List.length_append] at hn
      exact ih later.length (by omega) (done ++ piece) later rfl (by simpa using hword)

/-- In the state, the pieces complete their item. -/
structure Ready (r : Reader σ α β) (s : σ) (waiting : β × List (List α)) : Prop where
  pieces : waiting.2 ≠ []
  nonempty : ∀ piece ∈ waiting.2, piece ≠ []
  expects : r.Expects waiting.1 s waiting.2.flatten

/-- The reader is in front of a queue: it is at its start when nothing waits, or else at some place
in the word of the first item, and all others are to be read from the start. -/
def Awaits (r : Reader σ α β) (s : σ) : List (β × List (List α)) → Prop
  | [] => s = r.start
  | first :: later => r.Ready s first ∧ ∀ waiting ∈ later, r.Ready r.start waiting

variable {s : σ} {queue later : List (β × List (List α))}

/-- A word joins the queue. -/
theorem Awaits.enqueue (h : r.Awaits s queue) {waiting : β × List (List α)}
    (hready : r.Ready r.start waiting) : r.Awaits s (queue ++ [waiting]) := by
  cases queue with
  | nil =>
    obtain rfl : s = r.start := h
    exact ⟨hready, by simp⟩
  | cons first later =>
    refine ⟨h.1, fun w hw => ?_⟩
    rcases List.mem_append.mp hw with hw | hw
    · exact h.2 w hw
    · rw [List.mem_singleton.mp hw]
      exact hready

/-- What is behind the first item is read from the start. -/
theorem Awaits.tail {first : β × List (List α)} (h : r.Awaits s (first :: later)) :
    r.Awaits r.start later := by
  cases later with
  | nil => rfl
  | cons second later =>
    refine ⟨h.2 second List.mem_cons_self, fun w hw => ?_⟩
    exact h.2 w (List.mem_cons_of_mem _ hw)

/-- The last piece of the first item completes it. -/
theorem Awaits.last {piece : List α} (h : r.Awaits s ((x, [piece]) :: later)) :
    r.feed s piece = (r.start, some x) := by
  obtain ⟨⟨_, hnonempty, hexpects⟩, _⟩ := h
  obtain ⟨whole, _, _⟩ := hexpects
  have hpiece : piece ≠ [] := hnonempty piece List.mem_cons_self
  simpa using whole (by simpa using hpiece)

/-- Any other piece of the first item completes nothing, and the reader goes on. -/
theorem Awaits.piece {piece : List α} {pieces : List (List α)}
    (h : r.Awaits s ((x, piece :: pieces) :: later)) (hpieces : pieces ≠ []) :
    (r.feed s piece).2 = none ∧ r.Awaits (r.feed s piece).1 ((x, pieces) :: later) := by
  obtain ⟨⟨_, hnonempty, hexpects⟩, hlater⟩ := h
  obtain ⟨_, silent, part⟩ := hexpects
  have hpiece : piece ≠ [] := hnonempty piece List.mem_cons_self
  have hrest : pieces.flatten ≠ [] := by
    obtain ⟨next, rest, rfl⟩ := List.exists_cons_of_ne_nil hpieces
    have hnext : next ≠ [] := hnonempty next (by simp)
    simp [hnext]
  refine ⟨silent piece pieces.flatten (by simp) hpiece hrest, ⟨hpieces, fun p hp => ?_, ?_⟩, hlater⟩
  · exact hnonempty p (List.mem_cons_of_mem _ hp)
  · exact part piece pieces.flatten (by simp) hpiece hrest

/-! ### All pieces of a stream -/

/-- The pieces, one after another: the state that they leave, and the items that they complete. -/
def feedAll (r : Reader σ α β) : σ → List (List α) → σ × List β
  | s, [] => (s, [])
  | s, piece :: pieces =>
    let fed := r.feed s piece
    let rest := feedAll r fed.1 pieces
    (rest.1, fed.2.toList ++ rest.2)

theorem feedAll_append (s : σ) (pieces pieces' : List (List α)) :
    r.feedAll s (pieces ++ pieces') =
      ((r.feedAll (r.feedAll s pieces).1 pieces').1,
        (r.feedAll s pieces).2 ++ (r.feedAll (r.feedAll s pieces).1 pieces').2) := by
  induction pieces generalizing s with
  | nil => rfl
  | cons piece pieces ih =>
    simp only [List.cons_append, feedAll]
    rw [ih, List.append_assoc]

/-- The pieces of one item complete it and nothing else. -/
theorem Ready.feedAll {waiting : β × List (List α)} (h : r.Ready s waiting) :
    r.feedAll s waiting.2 = (r.start, [waiting.1]) := by
  obtain ⟨x, pieces⟩ := waiting
  induction pieces generalizing s with
  | nil => exact absurd rfl h.pieces
  | cons piece pieces ih =>
    have hawaits : r.Awaits s [(x, piece :: pieces)] := ⟨h, fun w hw => absurd hw List.not_mem_nil⟩
    by_cases hlast : pieces = []
    · subst hlast
      show ((r.feedAll (r.feed s piece).1 []).1, _) = _
      rw [hawaits.last]
      rfl
    · obtain ⟨hnone, hrest⟩ := hawaits.piece hlast
      show ((r.feedAll (r.feed s piece).1 pieces).1, _) = _
      rw [hnone, ih hrest.1]
      rfl

/-- Words in pieces, one after another from the start, complete their items in order. -/
theorem feedAll_words {words : List (β × List (List α))}
    (h : ∀ word ∈ words, r.Ready r.start word) :
    r.feedAll r.start (words.flatMap (·.2)) = (r.start, words.map (·.1)) := by
  induction words with
  | nil => rfl
  | cons word words ih =>
    have hfirst := (h word List.mem_cons_self).feedAll
    have hrest := ih fun w hw => h w (List.mem_cons_of_mem _ hw)
    rw [List.flatMap_cons, feedAll_append, hfirst, hrest]
    rfl

/-- The first pieces of an item complete nothing. -/
theorem Ready.feedAll_take {waiting : β × List (List α)} (h : r.Ready s waiting) {n : Nat}
    (hn : n < waiting.2.length) : (r.feedAll s (waiting.2.take n)).2 = [] := by
  obtain ⟨x, pieces⟩ := waiting
  induction pieces generalizing s n with
  | nil => exact absurd rfl h.pieces
  | cons piece pieces ih =>
    cases n with
    | zero => rfl
    | succ n =>
      have hn : n + 1 < pieces.length + 1 := hn
      have hpieces : pieces ≠ [] := List.ne_nil_of_length_pos (by omega)
      have hawaits : r.Awaits s [(x, piece :: pieces)] :=
        ⟨h, fun w hw => absurd hw List.not_mem_nil⟩
      obtain ⟨hnone, hrest⟩ := hawaits.piece hpieces
      show (r.feed s piece).2.toList ++ (Reader.feedAll r (r.feed s piece).1 (pieces.take n)).2 = []
      rw [hnone, ih hrest.1 (show n < pieces.length by omega)]
      rfl

/-- Of words in pieces, the first of which begins at `place`, the items of those that lie between
`low` and `high`. -/
def wholeWithin (low high : Nat) : Nat → List (β × List (List α)) → List β
  | _, [] => []
  | place, word :: words =>
    if low ≤ place ∧ place + word.2.length ≤ high then
      word.1 :: wholeWithin low high (place + word.2.length) words
    else wholeWithin low high (place + word.2.length) words

/-- Words behind `high`. -/
theorem wholeWithin_behind {low high place : Nat} (h : high < place)
    (words : List (β × List (List α))) :
    wholeWithin low high place words = [] := by
  induction words generalizing place with
  | nil => rfl
  | cons word words ih =>
    unfold wholeWithin
    rw [if_neg (by omega)]
    exact ih (by omega)

/-- Words before `low`. -/
theorem wholeWithin_skip {low high place : Nat} {words : List (β × List (List α))}
    (hpieces : ∀ word ∈ words, word.2 ≠ []) (h : place + (words.flatMap (·.2)).length ≤ low)
    (later : List (β × List (List α))) :
    wholeWithin low high place (words ++ later) =
      wholeWithin low high (place + (words.flatMap (·.2)).length) later := by
  induction words generalizing place with
  | nil => rfl
  | cons word words ih =>
    have hpos := List.length_pos_iff.mpr (hpieces word List.mem_cons_self)
    rw [List.flatMap_cons, List.length_append] at h ⊢
    rw [List.cons_append, wholeWithin, if_neg (by omega),
      ih (fun w hw => hpieces w (List.mem_cons_of_mem _ hw)) (by omega), Nat.add_assoc]

/-- From the start, the first `n` pieces of some words complete the items of those that have all
their pieces among them. -/
theorem feedAll_take_words {words : List (β × List (List α))}
    (h : ∀ word ∈ words, r.Ready r.start word) {low place : Nat} (hlow : low ≤ place) (n : Nat) :
    (r.feedAll r.start ((words.flatMap (·.2)).take n)).2 = wholeWithin low
    (place + n) place words := by
  induction words generalizing place n with
  | nil => simp [feedAll, wholeWithin]
  | cons word words ih =>
    have hword := h word List.mem_cons_self
    have hwords : ∀ w ∈ words, r.Ready r.start w := fun w hw => h w (List.mem_cons_of_mem _ hw)
    rw [List.flatMap_cons, List.take_append]
    unfold wholeWithin
    by_cases hall : word.2.length ≤ n
    · have hplace : place + n = place + word.2.length + (n - word.2.length) := by omega
      have hrest := ih hwords (show low ≤ place + word.2.length by omega) (n - word.2.length)
      rw [List.take_of_length_le hall, feedAll_append, hword.feedAll, if_pos (by omega),
        hrest, ← hplace]
      rfl
    · rw [Nat.sub_eq_zero_of_le (by omega), List.take_zero, List.append_nil,
        hword.feedAll_take (by omega), if_neg (by omega), wholeWithin_behind (by omega)]

theorem length_flatten_dropLast_le (pieces : List (List α)) :
    pieces.dropLast.flatten.length ≤ pieces.flatten.length := by
  rcases List.eq_nil_or_concat pieces with rfl | ⟨init, last, rfl⟩
  · exact Nat.le_refl _
  · simp

/-- The pieces of a list up to the one that brings its `n`-th element. -/
theorem exists_first_reaching {n : Nat} (hpos : 0 < n) {pieces : List (List α)}
    (h : n ≤ pieces.flatten.length) : ∃ before later, pieces = before ++ later ∧
      n ≤ before.flatten.length ∧ before.dropLast.flatten.length < n := by
  induction pieces using List.reverseRecOn with
  | nil =>
    have h : n ≤ 0 := h
    omega
  | append_singleton pieces piece ih =>
    by_cases hreached : n ≤ pieces.flatten.length
    · obtain ⟨before, later, rfl, hbefore⟩ := ih hreached
      exact ⟨before, later ++ [piece], by rw [List.append_assoc], hbefore⟩
    · refine ⟨pieces ++ [piece], [], (List.append_nil _).symm, h, ?_⟩
      rw [List.dropLast_concat]
      omega

/-- A word that the reader drops when it has the first `n` elements, and that has a state for each
shorter part: up to the piece that brings the `n`-th element, the reader completes nothing, and
then it is at its start. -/
theorem feedAll_dropped {word : List α} {n : Nat} (after : List α → σ) (hstart : after [] = r.start)
    (hpos : 0 < n)
    (hfeed : ∀ done piece later, done ++ piece ++ later = word → piece ≠ [] → done.length < n →
      r.feed (after done) piece =
        if (done ++ piece).length < n then (after (done ++ piece), none) else (r.start, none))
    (pieces : List (List α)) (later : List α) (hword : pieces.flatten ++ later = word)
    (hpieces : ∀ piece ∈ pieces, piece ≠ []) (hshort : pieces.dropLast.flatten.length < n) :
    r.feedAll r.start pieces =
      (if pieces.flatten.length < n then after pieces.flatten else r.start, []) := by
  induction pieces using List.reverseRecOn generalizing later with
  | nil => simp [feedAll, hstart, hpos]
  | append_singleton pieces piece ih =>
    rw [List.dropLast_concat] at hshort
    have hsplit : pieces.flatten ++ piece ++ later = word := by simpa using hword
    have hbefore : pieces.dropLast.flatten.length < n := by
      have hle := length_flatten_dropLast_le pieces
      omega
    have hsofar := ih (piece ++ later) (by simpa using hword)
      (fun p hp => hpieces p (List.mem_append_left _ hp)) hbefore
    rw [if_pos hshort] at hsofar
    have hlast := hfeed pieces.flatten piece later hsplit (hpieces piece (by simp)) hshort
    have hflatten : (pieces ++ [piece]).flatten = pieces.flatten ++ piece := by simp
    rw [feedAll_append, hsofar, hflatten]
    simp only [feedAll, hlast]
    split <;> rfl

end Reader

/-! ### Readers under keys -/

/-- What of a list of items under keys is under the key `k`. -/
def under {κ : Type u} {γ : Type v} [DecidableEq κ] (k : κ) (items : List (κ × γ)) : List γ :=
  items.filterMap fun item => if item.1 = k then some item.2 else none

theorem under_append {κ : Type u} {γ : Type v} [DecidableEq κ] (k : κ)
    (items items' : List (κ × γ)) :
    under k (items ++ items') = under k items ++ under k items' :=
  List.filterMap_append

/-- A state that holds a reader for each key, of which a piece under a key feeds the one. -/
structure Demux (τ : Type*) (κ : Type*) {σ : Type u} {α : Type v} {β : Type w}
    (r : Reader σ α β) where
  view : τ → κ → σ
  feed : τ → κ → List α → τ × Option β
  own : ∀ t k piece, view (feed t k piece).1 k = (r.feed (view t k) piece).1
  other : ∀ t j k piece, j ≠ k → view (feed t k piece).1 j = view t j
  item : ∀ t k piece, (feed t k piece).2 = (r.feed (view t k) piece).2

namespace Demux

variable {τ : Type*} {κ : Type*} [DecidableEq κ] {σ : Type u} {α : Type v} {β : Type w}
  {r : Reader σ α β} (d : Demux τ κ r)

/-- Pieces under keys, one after another, and the items that they complete. -/
def feedAll : τ → List (κ × List α) → τ × List (κ × β)
  | t, [] => (t, [])
  | t, (k, piece) :: pieces =>
    let fed := d.feed t k piece
    let rest := feedAll fed.1 pieces
    (rest.1, fed.2.toList.map (fun x => (k, x)) ++ rest.2)

theorem under_toList (j k : κ) (x : Option β) :
    under j (x.toList.map fun x => (k, x)) = if k = j then x.toList else [] := by
  cases x <;> by_cases h : k = j <;> simp [under, h]

/-- The reader of a key sees the pieces under the key, whatever comes in between. -/
theorem feedAll_under (t : τ) (pieces : List (κ × List α)) (k : κ) :
    d.view (d.feedAll t pieces).1 k = (r.feedAll (d.view t k) (under k pieces)).1 ∧
      under k (d.feedAll t pieces).2 = (r.feedAll (d.view t k) (under k pieces)).2 := by
  induction pieces generalizing t with
  | nil => exact ⟨rfl, rfl⟩
  | cons first pieces ih =>
    obtain ⟨j, piece⟩ := first
    obtain ⟨hview, hitems⟩ := ih (d.feed t j piece).1
    show d.view (d.feedAll (d.feed t j piece).1 pieces).1 k = _ ∧ under k (_ ++ _) = _
    rw [hview, under_append, hitems, under_toList, d.item]
    by_cases hj : j = k
    · subst hj
      have hunder : under j ((j, piece) :: pieces) = piece :: under j pieces := by simp [under]
      rw [hunder, d.own, if_pos rfl]
      exact ⟨rfl, rfl⟩
    · have hunder : under k ((j, piece) :: pieces) = under k pieces := by simp [under, hj]
      rw [hunder, d.other t k j piece (Ne.symm hj), if_neg hj]
      exact ⟨rfl, rfl⟩

end Demux
