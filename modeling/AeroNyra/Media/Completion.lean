import AeroNyra.Lib.Interleave
import AeroNyra.Media.Reassembler

/-! When a transfer completes: over any order of its manifest and its chunks, with repetitions and
among other transfers, at each step at which all of it has come since the last completion.  What
completes has the hash that its manifest announced. -/

namespace AeroNyra

theorem digitChar_inj : ∀ i < 16, ∀ j < 16, Nat.digitChar i = Nat.digitChar j → i = j := by decide

theorem hex_injective : Function.Injective hex := by
  intro a b h
  have hdigits := String.ofList_injective h
  clear h
  induction a generalizing b with
  | nil =>
    cases b with
    | nil => rfl
    | cons y b => simp at hdigits
  | cons x a ih =>
    cases b with
    | nil => simp at hdigits
    | cons y b =>
      simp only [List.flatMap_cons, List.cons_append, List.nil_append, List.cons.injEq] at hdigits
      obtain ⟨hhigh, hlow, hrest⟩ := hdigits
      have hx := x.toNat_lt
      have hy := y.toNat_lt
      have h1 := digitChar_inj _ (by omega) _ (by omega) hhigh
      have h2 := digitChar_inj _ (by omega) _ (by omega) hlow
      have hxy : x = y := UInt8.toNat_inj.mp (by omega)
      rw [hxy, ih hrest]

namespace MediaReassembler

open MediaChunker Interleave

/-- An item that is for another transfer, or for none. -/
def Elsewhere (mediaID : Data) : Item → Prop
  | .manifest m => m.mediaID ≠ hex mediaID
  | .chunk bytes => ∀ p, parse bytes = .ok p → p.mediaID ≠ mediaID

/-- One item after another. -/
def step (hashHex : Data → String) (r : MediaReassembler) (item : Item) : Option MediaReassembler :=
  some (ingest hashHex r item).1

/-- What a step returns. -/
def returned (hashHex : Data → String) (t : Transition MediaReassembler Item) : Option Completed :=
  (ingest hashHex t.pre t.event).2

/-- The step completes the transfer. -/
def Completes (hashHex : Data → String) (id : String) (t : Transition MediaReassembler Item) :
    Prop :=
  ∃ d, returned hashHex t = some d ∧ d.mediaID = id

instance (hashHex : Data → String) (id : String) (t : Transition MediaReassembler Item) :
    Decidable (Completes hashHex id t) :=
  decidable_of_iff ((returned hashHex t).any (·.mediaID = id))
    (by simp [Completes, Option.any_eq_true])

/-- What has been ingested since the start or the last completion of the transfer. -/
def since (hashHex : Data → String) (id : String) (past : List (Transition MediaReassembler Item)) :
    List Item :=
  past.foldl (fun seen t => if Completes hashHex id t then [] else seen ++ [t.event]) []

/-- The last manifest for an identifier that is within bounds. -/
def announced (id : String) (past : List Item) : Option MediaManifest :=
  (past.filterMap fun
    | .manifest m => if manifestWithinBounds m ∧ m.mediaID = id then some m else none
    | .chunk _ => none).getLast?

variable {hashHex : Data → String} {r : MediaReassembler}

theorem since_append (id : String) (past : List (Transition MediaReassembler Item))
    (t : Transition MediaReassembler Item) :
    since hashHex id (past ++ [t]) =
      if Completes hashHex id t then [] else since hashHex id past ++ [t.event] := by
  simp [since]

/-! ### Other transfers -/

/-- The buffers of an identifier are left as they are, and what is returned is for another one. -/
structure Apart (id : String) (r : MediaReassembler) (after : MediaReassembler × Option Completed) :
    Prop where
  manifest : after.1.manifests.lookup id = r.manifests.lookup id
  buffered : after.1.buffered id = r.buffered id
  returns : ∀ d, after.2 = some d → d.mediaID ≠ id

theorem Apart.rfl {id : String} : Apart id r (r, none) :=
  ⟨Eq.refl _, Eq.refl _, fun _ h => absurd h (by simp)⟩

/-- Completion is tried for another identifier, in a state that differs in its buffers only. -/
theorem apart_tryComplete {id other : String} (hne : other ≠ id) {r' : MediaReassembler}
    (hmanifest : r'.manifests.lookup id = r.manifests.lookup id)
    (hbuffered : r'.buffered id = r.buffered id) : Apart id r (tryComplete hashHex r' other) := by
  have hsame : Apart id r (r', none) := ⟨hmanifest, hbuffered, fun _ h => absurd h (by simp)⟩
  unfold tryComplete
  split
  · exact hsame
  · split
    · split
      · refine ⟨(AList.lookup_erase_ne hne.symm).trans hmanifest, ?_, ?_⟩
        · rw [← hbuffered, MediaReassembler.buffered, AList.lookup_erase_ne hne.symm]
          rfl
        · intro d hd
          rw [← Option.some.inj hd]
          exact hne
      · exact hsame
    · exact hsame

theorem apart_ingest {mediaID : Data} {item : Item} (h : Elsewhere mediaID item) :
    Apart (hex mediaID) r (ingest hashHex r item) := by
  cases item with
  | manifest m =>
    have hne : m.mediaID ≠ hex mediaID := h
    show Apart _ r (ingestManifest hashHex r m)
    unfold ingestManifest
    split
    · exact apart_tryComplete hne (AList.lookup_insert_ne hne.symm) rfl
    · exact Apart.rfl
  | chunk bytes =>
    show Apart _ r (ingestChunk hashHex r bytes)
    unfold ingestChunk
    split
    · exact Apart.rfl
    · rename_i p hp
      have hne : hex p.mediaID ≠ hex mediaID := fun heq => h p hp (hex_injective heq)
      refine apart_tryComplete hne rfl ?_
      rw [MediaReassembler.buffered, AList.lookup_insert_ne hne.symm]
      rfl

/-! ### One transfer among others -/

section Transfer

variable {c : MediaChunker} {blob mediaID : Data} {stamp : Stamp} {m : MediaManifest}
    {chunks : List Data}

/-- The buffers hold what has come of the transfer since its last completion, which is not all of
it. -/
structure Pending (hashHex : Data → String) (mediaID : Data) (m : MediaManifest)
    (chunks : List Data)
    (past : List (Transition MediaReassembler Item)) (r : MediaReassembler) : Prop where
  holds : Holds (hex mediaID) m ((since hashHex (hex mediaID) past).filter (· ∈ items m chunks)) r
  part : ¬∀ i ∈ items m chunks, i ∈ since hashHex (hex mediaID) past

theorem pending_new : Pending hashHex mediaID m chunks [] new :=
  ⟨holds_new _ _, fun h => absurd (h (.manifest m) List.mem_cons_self) List.not_mem_nil⟩

variable {past : List (Transition MediaReassembler Item)} {t : Transition MediaReassembler Item}

theorem mem_filter_append {i : Item} (h : i ∈ items m chunks) {seen : List Item} (item : Item) :
    i ∈ seen.filter (· ∈ items m chunks) ++ [item] ↔ i ∈ seen ++ [item] := by
  simp [h]

/-- A step completes the transfer, all of which has come, and empties its buffers; or it puts its
item, if that is of the transfer, into them, and some of the transfer has still not come. -/
theorem Pending.outcome (hsplit : Splits hashHex c blob stamp mediaID m chunks)
    (hbounds : manifestWithinBounds m) (h : Pending hashHex mediaID m chunks past t.pre)
    (hevent : t.event ∈ items m chunks ∨ Elsewhere mediaID t.event)
    (hstep : step hashHex t.pre t.event = some t.post) :
    (returned hashHex t = some (Completed.of mediaID stamp blob) ∧
      (∀ i ∈ items m chunks, i ∈ since hashHex (hex mediaID) past ++ [t.event]) ∧
      Holds (hex mediaID) m [] t.post) ∨
    (¬Completes hashHex (hex mediaID) t ∧
      (¬∀ i ∈ items m chunks, i ∈ since hashHex (hex mediaID) past ++ [t.event]) ∧
      Holds (hex mediaID) m
        ((since hashHex (hex mediaID) past ++ [t.event]).filter (· ∈ items m chunks)) t.post) := by
  have hpost : (ingest hashHex t.pre t.event).1 = t.post := Option.some.inj hstep
  by_cases hitem : t.event ∈ items m chunks
  · obtain ⟨r', htry, hnext⟩ := ingest_eq_tryComplete hsplit hbounds hitem h.holds
    have hseen : ∀ i ∈ (since hashHex (hex mediaID) past).filter (· ∈ items m chunks) ++ [t.event],
        i ∈ items m chunks := by
      intro i hi
      rcases List.mem_append.mp hi with hold | hnew
      · simpa using (List.mem_filter.mp hold).2
      · exact List.mem_singleton.mp hnew ▸ hitem
    have hsame : (since hashHex (hex mediaID) past ++ [t.event]).filter (· ∈ items m chunks) =
        (since hashHex (hex mediaID) past).filter (· ∈ items m chunks) ++ [t.event] := by
      simp [List.filter_append, hitem]
    by_cases hall : ∀ i ∈ items m chunks, i ∈ since hashHex (hex mediaID) past ++ [t.event]
    · left
      have hwhole := tryComplete_of_whole hsplit hbounds hseen hnext
        fun i hi => (mem_filter_append hi t.event).mpr (hall i hi)
      rw [hwhole] at htry
      refine ⟨congrArg Prod.snd htry, hall, ?_⟩
      rw [← hpost, htry]
      exact ⟨by simp, by simp [buffered, chunksOf]⟩
    · right
      have hpart := tryComplete_of_part hsplit hbounds hseen hnext
        fun hmem => hall fun i hi => (mem_filter_append hi t.event).mp (hmem i hi)
      rw [hpart] at htry
      refine ⟨?_, hall, ?_⟩
      · rintro ⟨d, hd, _⟩
        rw [returned, htry] at hd
        cases hd
      · rw [← hpost, htry, hsame]
        exact hnext
  · right
    have hother : Elsewhere mediaID t.event := hevent.resolve_left hitem
    have hapart : Apart (hex mediaID) t.pre (ingest hashHex t.pre t.event) := apart_ingest hother
    refine ⟨?_, fun hall => h.part fun i hi => ?_, ?_⟩
    · rintro ⟨d, hd, hid⟩
      exact hapart.returns d hd hid
    · rcases List.mem_append.mp (hall i hi) with hold | hnew
      · exact hold
      · exact absurd (List.mem_singleton.mp hnew ▸ hi) hitem
    · have hsame : (since hashHex (hex mediaID) past ++ [t.event]).filter (· ∈ items m chunks) =
          (since hashHex (hex mediaID) past).filter (· ∈ items m chunks) := by
        simp [List.filter_append, hitem]
      rw [← hpost, hsame]
      exact ⟨hapart.manifest.trans h.holds.manifest, hapart.buffered.trans h.holds.chunks⟩

theorem Pending.step (hsplit : Splits hashHex c blob stamp mediaID m chunks)
    (hbounds : manifestWithinBounds m) (h : Pending hashHex mediaID m chunks past t.pre)
    (hevent : t.event ∈ items m chunks ∨ Elsewhere mediaID t.event)
    (hstep : step hashHex t.pre t.event = some t.post) :
    Pending hashHex mediaID m chunks (past ++ [t]) t.post := by
  rcases h.outcome hsplit hbounds hevent hstep with ⟨hreturned, _, hholds⟩ | ⟨hnot, hpart, hholds⟩
  · have hcompletes : Completes hashHex (hex mediaID) t := ⟨_, hreturned, rfl⟩
    have hnone : since hashHex (hex mediaID) (past ++ [t]) = [] := by
      rw [since_append, if_pos hcompletes]
    constructor
    · rw [hnone]
      exact hholds
    · rw [hnone]
      exact fun hall => absurd (hall (.manifest m) List.mem_cons_self) List.not_mem_nil
  · have hmore : since hashHex (hex mediaID) (past ++ [t]) =
        since hashHex (hex mediaID) past ++ [t.event] := by
      rw [since_append, if_neg hnot]
    constructor
    · rw [hmore]
      exact hholds
    · rw [hmore]
      exact hpart

/-- A step completes the transfer exactly when all of it has come, and then with all that was
sent. -/
theorem Pending.completes_iff (hsplit : Splits hashHex c blob stamp mediaID m chunks)
    (hbounds : manifestWithinBounds m) (h : Pending hashHex mediaID m chunks past t.pre)
    (hevent : t.event ∈ items m chunks ∨ Elsewhere mediaID t.event)
    (hstep : MediaReassembler.step hashHex t.pre t.event = some t.post) :
    (Completes hashHex (hex mediaID) t ↔
      ∀ i ∈ items m chunks, i ∈ since hashHex (hex mediaID) past ++ [t.event]) ∧
    ∀ d, returned hashHex t = some d → d.mediaID = hex mediaID →
    d = Completed.of mediaID stamp blob := by
  rcases h.outcome hsplit hbounds hevent hstep with ⟨hreturned, hall, _⟩ | ⟨hnot, hpart, _⟩
  · refine ⟨iff_of_true ⟨_, hreturned, rfl⟩ hall, fun d hd _ => ?_⟩
    exact Option.some.inj (hd.symm.trans hreturned)
  · exact ⟨iff_of_false hnot hpart, fun d hd hid => absurd ⟨d, hd, hid⟩ hnot⟩

end Transfer

/-! ### The manifest of what completes -/

theorem announced_append_manifest (id : String) (past : List Item) (m : MediaManifest) :
    announced id (past ++ [.manifest m]) =
      if manifestWithinBounds m ∧ m.mediaID = id then some m else announced id past := by
  unfold announced
  rw [List.filterMap_append]
  by_cases h : manifestWithinBounds m ∧ m.mediaID = id
  · simp [h]
  · simp [h]

theorem announced_append_chunk (id : String) (past : List Item) (bytes : Data) :
    announced id (past ++ [.chunk bytes]) = announced id past := by
  simp [announced, List.filterMap_append]

/-- The manifests held are the last ones announced. -/
def Announces (past : List Item) (r : MediaReassembler) : Prop :=
  ∀ id m, r.manifests.lookup id = some m → announced id past = some m

theorem lookup_of_tryComplete {id k : String} {m : MediaManifest}
    (h : (tryComplete hashHex r id).1.manifests.lookup k = some m) :
    r.manifests.lookup k = some m := by
  unfold tryComplete at h
  split at h
  · exact h
  · split at h
    · split at h
      · by_cases hk : k = id
        · subst hk
          simp at h
        · exact (AList.lookup_erase_ne hk).symm.trans h
      · exact h
    · exact h

/-- What completes is what the manifest that is held announced. -/
theorem manifest_of_tryComplete {id : String} {d : Completed}
    (h : (tryComplete hashHex r id).2 = some d) :
    ∃ m, r.manifests.lookup id = some m ∧ hashHex d.data = m.sha256 ∧
      d = ⟨id, m.mime, d.data, m.sentAt, m.isStory, m.isPushToTalk⟩ := by
  unfold tryComplete at h
  split at h
  · cases h
  · rename_i m hm
    split at h
    · split at h
      · rename_i blob hok
        obtain rfl := Option.some.inj h
        exact ⟨m, hm, hash_of_reassemble hashHex hok, rfl⟩
      · cases h
    · cases h

/-- An item that is not ignored is buffered, so that the manifests held are still the last ones
announced, and completion is tried. -/
theorem Announces.ingest_cases {past : List Item} (h : Announces past r) (item : Item) :
    ingest hashHex r item = (r, none) ∧ Announces (past ++ [item]) r ∨
    ∃ r' id, ingest hashHex r item = tryComplete hashHex r' id ∧ Announces (past ++ [item]) r' := by
  cases item with
  | manifest m =>
    by_cases hbounds : manifestWithinBounds m
    · right
      refine ⟨_, m.mediaID, if_pos hbounds, fun id m' hm' => ?_⟩
      rw [announced_append_manifest]
      by_cases hid : m.mediaID = id
      · subst hid
        rw [AList.lookup_insert] at hm'
        rw [if_pos ⟨hbounds, rfl⟩]
        exact hm'
      · rw [AList.lookup_insert_ne (Ne.symm hid)] at hm'
        rw [if_neg (fun hboth => hid hboth.2)]
        exact h id m' hm'
    · left
      refine ⟨if_neg hbounds, fun id m' hm' => ?_⟩
      rw [announced_append_manifest, if_neg (fun hboth => hbounds hboth.1)]
      exact h id m' hm'
  | chunk bytes =>
    have hsame : Announces (past ++ [.chunk bytes]) r := fun id m' hm' =>
      (announced_append_chunk id past bytes).trans (h id m' hm')
    cases hparse : parse bytes with
    | error e =>
      left
      exact ⟨by simp [ingest, ingestChunk, hparse], hsame⟩
    | ok p =>
      right
      refine ⟨⟨r.manifests, AList.insert (hex p.mediaID) (r.buffered (hex p.mediaID) ++ [bytes])
        r.chunks⟩, hex p.mediaID, ?_, hsame⟩
      simp [ingest, ingestChunk, hparse]

theorem Announces.ingest {past : List Item} (h : Announces past r) (item : Item) :
    Announces (past ++ [item]) (ingest hashHex r item).1 := by
  rcases h.ingest_cases item with ⟨heq, hsame⟩ | ⟨r', id, heq, hnext⟩
  · rw [heq]
    exact hsame
  · rw [heq]
    exact fun k m hm => hnext k m (lookup_of_tryComplete hm)

/-- What an item completes is what the last manifest announced. -/
theorem Announces.completed {past : List Item} (h : Announces past r) {item : Item} {d : Completed}
    (hd : (MediaReassembler.ingest hashHex r item).2 = some d) :
    ∃ m, announced d.mediaID (past ++ [item]) = some m ∧ hashHex d.data = m.sha256 ∧
      d = ⟨d.mediaID, m.mime, d.data, m.sentAt, m.isStory, m.isPushToTalk⟩ := by
  rcases @Announces.ingest_cases hashHex _ _ h item with ⟨heq, _⟩ | ⟨r', id, heq, hnext⟩
  · rw [heq] at hd
    cases hd
  · rw [heq] at hd
    obtain ⟨m, hm, hsha, hfields⟩ := manifest_of_tryComplete hd
    have hid : d.mediaID = id := congrArg Completed.mediaID hfields
    rw [hid]
    exact ⟨m, hnext id m hm, hsha, hfields⟩

/-! ### Every order of ingests -/

/-- A transfer among others completes, with all that was sent, at exactly the steps at which all of
it has come since the last completion; and whatever comes, what completes has the hash and the
other fields of the last manifest for it. -/
theorem completes_exactly (hashHex : Data → String) :
    (∀ (c : MediaChunker) (blob : Data) (stamp : Stamp) (mediaID : Data) (m : MediaManifest)
      (chunks : List Data), c.split hashHex blob stamp mediaID = .ok (m, chunks) →
      manifestWithinBounds m →
      ∀ events : List Item, (∀ i ∈ events, i ∈ items m chunks ∨ Elsewhere mediaID i) →
      ∀ before t after, trace (step hashHex) new events = before ++ t :: after →
        (Completes hashHex (hex mediaID) t ↔
          ∀ i ∈ items m chunks, i ∈ since hashHex (hex mediaID) before ++ [t.event]) ∧
        ∀ d, returned hashHex t = some d → d.mediaID = hex mediaID →
          d = Completed.of mediaID stamp blob) ∧
    ∀ (events : List Item) before t after, trace (step hashHex) new events = before ++ t :: after →
      ∀ d, returned hashHex t = some d →
        ∃ m, announced d.mediaID (before.map Transition.event ++ [t.event]) = some m ∧
          hashHex d.data = m.sha256 ∧
          d = ⟨d.mediaID, m.mime, d.data, m.sentAt, m.isStory, m.isPushToTalk⟩ := by
  constructor
  · intro c blob stamp mediaID m chunks hok hbounds events hevents before t after htrace
    have hsplit := splits_of_split hashHex hok
    have hmem : ∀ u ∈ before ++ t :: after, u.event ∈ items m chunks ∨
      Elsewhere mediaID u.event := by
      intro u hu
      rw [← htrace] at hu
      exact hevents u.event (event_mem hu)
    have hpending : (∀ u ∈ before, u.event ∈ items m chunks ∨ Elsewhere mediaID u.event) →
        Pending hashHex mediaID m chunks before t.pre := by
      refine trace_history (fun past r => (∀ u ∈ past, u.event ∈ items m chunks ∨
        Elsewhere mediaID u.event) → Pending hashHex mediaID m chunks past r) ?_
          (fun _ => pending_new)
        htrace
      intro past u hstep hpast hall
      have hlast := hall u (List.mem_append_right _ List.mem_cons_self)
      exact (hpast fun v hv => hall v (List.mem_append_left _ hv)).step hsplit hbounds hlast hstep
    have hstep : step hashHex t.pre t.event = some t.post := by
      have hlast : t ∈ trace (step hashHex) new events := by
        rw [htrace]
        exact List.mem_append_right _ List.mem_cons_self
      exact step_of_mem_trace hlast
    exact (hpending fun u hu => hmem u (List.mem_append_left _ hu)).completes_iff hsplit hbounds
      (hmem t (List.mem_append_right _ List.mem_cons_self)) hstep
  · intro events before t after htrace d hd
    have hannounces : Announces (before.map Transition.event) t.pre := by
      refine trace_history (fun past r => Announces (past.map Transition.event) r) ?_
        (fun id m hm => absurd hm (by simp [new])) htrace
      intro past u hstep hpast
      rw [List.map_append, ← Option.some.inj hstep]
      exact hpast.ingest u.event
    exact hannounces.completed hd

/-- The digest of the bytes `1`, `2` and `3`. -/
def tripleHash : String := "039058c6f2c0cb492c533b0a4d14ef77cc0f78abccced5287d84a1a2011cfb81"

/-- The bytes `1`, `2` and `3` in two chunks: the second one comes first and twice, and the
manifest of another transfer in between. -/
theorem completes_exactly_outOfOrder :
    let h : Data → String := fun _ => tripleHash
    let c : MediaChunker := ⟨256, 230, by decide, by decide⟩
    let id : Data := List.replicate 16 9
    let m : MediaManifest := ⟨hex id, .jpeg, 3, 2, tripleHash, some 5, true, false⟩
    let first := chunk id 0 2 [1, 2]
    let second := chunk id 1 2 [3]
    let other : MediaManifest := ⟨"00", .mp4, 3, 2, "", none, false, false⟩
    c.split h [1, 2, 3] ⟨.jpeg, some 5, true, false⟩ id = .ok (m, [first, second]) ∧
    ∃ before t, trace (step h) new
        [.chunk second, .manifest other, .manifest m, .chunk second, .chunk first] = before ++ [t] ∧
      Completes h (hex id) t := by
  intro h c id m first second other
  have hsplit : c.split h [1, 2, 3] ⟨.jpeg, some 5, true, false⟩ id = .ok (m, [first, second]) := by
    decide +kernel
  have hevents : ∀ i ∈ [Item.chunk second, .manifest other, .manifest m, .chunk second,
    .chunk first],
      i ∈ items m [first, second] ∨ Elsewhere id i := by
    intro i hi
    simp only [List.mem_cons, List.not_mem_nil, or_false] at hi
    rcases hi with rfl | rfl | rfl | rfl | rfl
    · exact .inl (by simp [items])
    · exact .inr (by decide : other.mediaID ≠ hex id)
    · exact .inl (by simp [items])
    · exact .inl (by simp [items])
    · exact .inl (by simp [items])
  let r1 := (ingest h new (.chunk second)).1
  let r2 := (ingest h r1 (.manifest other)).1
  let r3 := (ingest h r2 (.manifest m)).1
  let r4 := (ingest h r3 (.chunk second)).1
  let r5 := (ingest h r4 (.chunk first)).1
  let before : List (Transition MediaReassembler Item) := [⟨new, .chunk second, r1⟩,
    ⟨r1, .manifest other, r2⟩, ⟨r2, .manifest m, r3⟩, ⟨r3, .chunk second, r4⟩]
  have htrace : trace (step h) new [.chunk second, .manifest other, .manifest m, .chunk second,
      .chunk first] = before ++ [⟨r4, .chunk first, r5⟩] := rfl
  refine ⟨hsplit, before, ⟨r4, .chunk first, r5⟩, htrace, ?_⟩
  have hiff :=
    ((completes_exactly h).1 c [1, 2, 3] _ id m _ hsplit (by decide) _ hevents _ _ [] htrace).1
  rw [hiff]
  decide +kernel

end MediaReassembler

end AeroNyra
