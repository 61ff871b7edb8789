import AeroNyra.Inbox.Attempts
import AeroNyra.Lib.Replica

/-! What holds between the rows, the router and the attempts under way.  A row's delivery state is a
replica of the router's state of its message: it takes the router's updates in order, and the
attempts write it from what they read back or because they failed. -/

namespace AeroNyra

open Interleave Replica

/-- The confirmed states are never given up. -/
def MessageDeliveryState.lifecycle : Lifecycle MessageDeliveryState where
  terminal := isTerminal
  final := isConfirmed
  failed := .notDelivered
  terminal_of_final _ h := isTerminal_of_isConfirmed h
  failed_of_terminal u hterminal hfinal := by
    cases u with
    | delivered => exact absurd rfl hfinal
    | relayed hops => exact absurd rfl hfinal
    | notDelivered => rfl
    | waitingForRange | sent | cast | findingPath => cases hterminal
  not_final_failed := Bool.false_ne_true

open MessageDeliveryState (lifecycle)

namespace MessageRouter

variable {r : MessageRouter} {a : Segment} {reply : Reply} {j : MessageID}

/-- A segment opens no entry, or one that is `sent`. -/
theorem opens_cases (reply : Reply) : a.opens r j = r.stateOf j ∧ ¬Segment.StartsSend j r a reply ∨
    a.opens r j = some .sent ∧ (Segment.StartsSend j r a reply ∨ r.stateOf j = none) := by
  unfold Segment.opens
  cases hsend : a.sends r with
  | some envelope =>
    by_cases hj : j = envelope.id
    · exact .inr ⟨if_pos hj, .inl ⟨envelope, hsend, hj.symm⟩⟩
    · refine .inl ⟨if_neg hj, ?_⟩
      rintro ⟨other, hother, hid⟩
      cases hsend.symm.trans hother
      exact hj hid.symm
  | none =>
    have hstarts : ¬Segment.StartsSend j r a reply := by
      rintro ⟨other, hother, _⟩
      cases hsend.symm.trans hother
    dsimp only
    split
    · rename_i k
      by_cases hj : j = k
      · subst hj
        rw [if_pos rfl]
        cases hstate : r.stateOf j with
        | none => exact .inr ⟨rfl, .inr rfl⟩
        | some state => exact .inl ⟨rfl, hstarts⟩
      · exact .inl ⟨if_neg hj, hstarts⟩
    · exact .inl ⟨rfl, hstarts⟩

/-- An update is about an entry, or is the end of a tracked send. -/
theorem opens_of_records {u : DeliveryUpdate} (h : a.records r reply = some u) :
    (a.opens r u.id).isSome ∨ a.resumes = some u.id := by
  cases hsend : a.sends r with
  | some envelope =>
    rw [Segment.records_of_sends reply hsend] at h
    split at h
    · cases h
    · cases h
      exact .inl (by simp [Segment.opens_of_sends hsend])
  | none =>
    have htracked {id : MessageID} {state : MessageDeliveryState}
        (h : r.tracked id state = some u) : (a.opens r u.id).isSome := by
      obtain ⟨old, hold, rfl⟩ := Option.map_eq_some_iff.mp h
      exact isSome_opens (Option.isSome_iff_exists.mpr ⟨old, hold⟩)
    unfold Segment.records at h
    rw [hsend] at h
    dsimp only at h
    split at h
    · exact .inl (htracked h)
    · exact .inl (htracked h)
    · exact .inl (htracked h)
    · exact .inl (htracked h)
    · cases h
      exact .inr rfl
    · cases h
      exact .inr rfl
    · split at h
      · cases h
      · cases h
        exact .inr rfl
    · obtain ⟨state, _, rfl⟩ := Option.map_eq_some_iff.mp h
      exact .inr rfl
    · exact .inl (htracked h)
    · split at h
      · rename_i hopen
        cases h
        refine .inl (isSome_opens ?_)
        cases hstate : r.stateOf _ with
        | none => simp [hstate] at hopen
        | some state => rfl
      · cases h
    · cases h

/-- The updates of `id` among some. -/
def statesFor (id : MessageID) (us : List DeliveryUpdate) : List MessageDeliveryState :=
  (us.filter (·.id = id)).map (·.state)

/-- What a segment for `id` does to the state of `j` and to its updates. -/
theorem exec_moves {q : MessageRouter × Outcome} {id : Option MessageID}
    {pending : List MessageDeliveryState} {busy opening opening' : Prop}
    (hq : r.exec a reply = some q) (hfor : a.For id)
    (hlate : r.Confirmed j → ¬a.Overwrites j r reply ∧ ¬Segment.StartsSend j r a reply)
    (hfeed : Feed lifecycle opening (r.stateOf j) pending) (hbusy : id = some j → busy)
    (hold : a.resumes = some j → opening) (hkept : opening → a.resumes = some j ∨ opening')
    (hnew : opening' → q.2.resumes = some j ∨ opening)
    (hsuspend : q.2.resumes = some j → opening') :
    Moves lifecycle busy opening opening' (r.stateOf j) pending (q.1.stateOf j)
      (pending ++ statesFor j (a.records r reply).toList) := by
  have heffect := (exec_effect hq).stateOf j
  have hconfirmed : ∀ v, r.stateOf j = some v → v.isConfirmed → r.Confirmed j := fun v hv hc => by
    simp [Confirmed, hv, hc]
  have hwrites {u : MessageDeliveryState} (hu : a.records r reply = some ⟨j, u⟩) :
      q.1.stateOf j = (a.opens r j).map (fun _ => u) ∧
        statesFor j (a.records r reply).toList = [u] := by
    rw [hu] at heffect
    exact ⟨by simpa using heffect, by simp [hu, statesFor]⟩
  have hquiet (hu : ¬∃ u, a.records r reply = some ⟨j, u⟩) :
      q.1.stateOf j = a.opens r j ∧ statesFor j (a.records r reply).toList = [] := by
    cases hrecords : a.records r reply with
    | none =>
      rw [hrecords] at heffect
      exact ⟨heffect, rfl⟩
    | some u =>
      have hne : u.id ≠ j := fun e => hu ⟨u.state, by rw [hrecords, ← e]⟩
      rw [hrecords] at heffect
      exact ⟨by simpa [Ne.symm hne] using heffect, by simp [statesFor, hne]⟩
  rcases opens_cases (r := r) (a := a) (j := j) reply with ⟨hopens, hstarts⟩ | ⟨hopens, hrestart⟩
  · by_cases hu : ∃ u, a.records r reply = some ⟨j, u⟩
    · obtain ⟨u, hu⟩ := hu
      obtain ⟨hstate, hstates⟩ := hwrites hu
      have hsome : (r.stateOf j).isSome := by
        rcases opens_of_records hu with hopen | hresumes
        · rwa [hopens] at hopen
        · exact hfeed.opened (hold hresumes)
      obtain ⟨v, hv⟩ := Option.isSome_iff_exists.mp hsome
      have hnew : q.1.stateOf j = some u := by rw [hstate, hopens, hv, Option.map_some]
      rw [hstates, hv, hnew]
      refine .write v u fun hfinal => ?_
      have hc := hconfirmed v hv hfinal
      have hstays := (exec_confirmed_iff hq hc hstarts).mpr (hlate hc).1
      show u.isConfirmed
      simpa [Confirmed, hnew] using hstays
    · obtain ⟨hstate, hstates⟩ := hquiet hu
      rw [hstates, hstate, hopens, List.append_nil]
      refine .quiet ⟨fun hopening => ?_, fun hopening => ?_⟩
      · rcases hkept hopening with hresumes | hopening'
        · exact hsuspend ((records_of_resumes hq hresumes).resolve_right hu)
        · exact hopening'
      · rcases hnew hopening with hresumes | hopening'
        · exact hold ((resumes_of_exec hq hfor hresumes).resolve_right hstarts)
        · exact hopening'
  · have hid : id = some j := by
      by_contra hne
      rcases hrestart with ⟨envelope, hsend, rfl⟩ | hnone
      · exact hne (for_of_sends hfor hsend)
      · rw [opens_of_for hfor hne, hnone] at hopens
        cases hopens
    have hcurrent : ∀ v ∈ r.stateOf j, ¬v.isConfirmed := by
      intro v hv hc
      rcases hrestart with hstarts | hnone
      · exact (hlate (hconfirmed v hv hc)).2 hstarts
      · cases hnone.symm.trans hv
    by_cases hu : ∃ u, a.records r reply = some ⟨j, u⟩
    · obtain ⟨u, hu⟩ := hu
      obtain ⟨hstate, hstates⟩ := hwrites hu
      rw [hstates, hstate, hopens]
      exact .rewrite MessageDeliveryState.sent u (hbusy hid) hcurrent Bool.false_ne_true
    · obtain ⟨hstate, hstates⟩ := hquiet hu
      rw [hstates, hstate, hopens, List.append_nil]
      refine .restart MessageDeliveryState.sent (hbusy hid) hcurrent Bool.false_ne_true ?_
      rcases hrestart with hstarts | hnone
      · rcases records_of_startsSend hq hfor hstarts with hresumes | hrecords
        · exact .inr (hsuspend hresumes)
        · exact absurd ⟨_, hrecords⟩ hu
      · refine .inl (by_contra fun hne => ?_)
        have hsome := hfeed.written hne
        simp [hnone] at hsome

theorem for_of_outcome {q : MessageRouter × Outcome} {id : Option MessageID}
    (hq : r.exec a reply = some q) (hfor : a.For id) (hj : q.2.resumes = some j) :
    id = some j := by
  cases hout : q.2 with
  | suspend next =>
    have hnext : next.resumes = some j := by rwa [hout] at hj
    exact for_of_resumes (for_of_resumption (exec_resumes hq hout) hfor) hnext
  | returned state => simp [hout, Outcome.resumes] at hj
  | rerouted count => simp [hout, Outcome.resumes] at hj
  | finished => simp [hout, Outcome.resumes] at hj

end MessageRouter

namespace MessageInbox

/-- What each call in progress does: the attempt that it makes, the one that it is about to read
the router back for, and the tracked send that it is in the middle of. -/
structure Roles where
  serving : Nat → Option Attempt
  reading : Nat → Option Attempt
  opening : Nat → Option MessageID

namespace Roles

variable (R : Roles)

def Busy (row : UUID) : Prop := ∃ i attempt, R.serving i = some attempt ∧ attempt.row = row

def Reading (row : UUID) : Prop := ∃ i attempt, R.reading i = some attempt ∧ attempt.row = row

def Opening (id : MessageID) : Prop := ∃ i, R.opening i = some id

end Roles

/-- What holds of an outbound row. -/
structure Held (s : MessageInbox) (R : Roles) (row : UUID) (m : Message) : Prop where
  drawn : ∀ id, m.wireID = some id → s.drawn.lookup id = some row
  /-- A row without an identifier is in the state of its first attempt while that is under way. -/
  unstamped : m.wireID = none → R.Busy row → m.deliveryState = .sent
  alone : m.wireID = none → ∀ i j a b, R.serving i = some a → R.serving j = some b →
    a.row = row → b.row = row → i = j
  attempts : ∀ i attempt, R.serving i = some attempt → attempt.row = row →
    m.wireID = none ∨ m.wireID = some attempt.id
  readings : ∀ i attempt, R.reading i = some attempt → attempt.row = row →
    m.wireID = some attempt.id
  follows : ∀ id, m.wireID = some id → Follows lifecycle (R.Busy row) (R.Reading row)
    m.deliveryState (s.router.stateOf id) (s.pending id)

/-- The invariant. -/
structure Coherent (s : MessageInbox) (R : Roles) : Prop where
  taken : s.taken ≤ s.router.updates.length
  drawn : ∀ i attempt, R.serving i = some attempt → s.drawn.lookup attempt.id = some attempt.row
  flying : ∀ i attempt, R.serving i = some attempt →
    ∃ m, s.rows.lookup attempt.row = some m ∧ m.isOutbound
  reads : ∀ i attempt, R.reading i = some attempt → R.serving i = some attempt
  opens : ∀ i id, R.opening i = some id → ∃ attempt, R.serving i = some attempt ∧ attempt.id = id
  feed : ∀ id, Feed lifecycle (R.Opening id) (s.router.stateOf id) (s.pending id)
  held : ∀ row m, s.rows.lookup row = some m → m.isOutbound → Held s R row m

variable {s : MessageInbox} {R R' : Roles} {row : UUID} {m : Message} {attempt : Attempt} {i : Nat}

/-- The rows that a step's roles are not about. -/
theorem Held.other (h : Held s R row m)
    (hserving : ∀ j a, a.row = row → (R'.serving j = some a ↔ R.serving j = some a))
    (hreading : ∀ j a, a.row = row → (R'.reading j = some a ↔ R.reading j = some a)) :
    Held s R' row m := by
  have hbusy : R.Busy row ↔ R'.Busy row :=
    exists₂_congr fun j a => and_congr_left fun ha => (hserving j a ha).symm
  have hread : R.Reading row ↔ R'.Reading row :=
    exists₂_congr fun j a => and_congr_left fun ha => (hreading j a ha).symm
  refine ⟨h.drawn, fun hnone hb => h.unstamped hnone (hbusy.mpr hb), ?_, ?_, ?_, ?_⟩
  · intro hnone j k a b ha hb harow hbrow
    exact h.alone hnone j k a b ((hserving j a harow).mp ha)
      ((hserving k b hbrow).mp hb) harow hbrow
  · intro j a ha harow
    exact h.attempts j a ((hserving j a harow).mp ha) harow
  · intro j a ha harow
    exact h.readings j a ((hreading j a harow).mp ha) harow
  · intro id hid
    exact (h.follows id hid).mono hbusy hread.mp

/-- A row and its attempts belong to each other. -/
theorem Coherent.row_of_drawn (h : Coherent s R) {id : MessageID}
    (hrow : s.rows.lookup row = some m) (hout : m.isOutbound) (hid : m.wireID = some id)
    (hserving : R.serving i = some attempt) (hattempt : attempt.id = id) : attempt.row = row := by
  have hdrawn := h.drawn i attempt hserving
  rw [hattempt, (h.held row m hrow hout).drawn id hid] at hdrawn
  exact (Option.some.inj hdrawn).symm

/-! ### Router steps -/

/-- A router segment that a call runs, for the message of its attempt if it makes one. -/
theorem Coherent.router (h : Coherent s R) {a : MessageRouter.Segment}
    {reply : MessageRouter.Reply} {q : MessageRouter × MessageRouter.Outcome}
    (hq : s.router.exec a reply = some q) (hfor : a.For ((R.serving i).map (·.id)))
    (hresumes : a.resumes = R.opening i)
    (hlate : ∀ j, s.router.Confirmed j →
      ¬a.Overwrites j s.router reply ∧ ¬MessageRouter.Segment.StartsSend j s.router a reply) :
    Coherent { s with router := q.1 }
      { R with opening := fun j => if j = i then q.2.resumes else R.opening j } := by
  have hupdates := (MessageRouter.exec_effect hq).updates
  have hpending (id : MessageID) : MessageInbox.pending { s with router := q.1 } id =
      s.pending id ++ MessageRouter.statesFor id (a.records s.router reply).toList := by
    rw [pending, hupdates, List.drop_append_of_le_length h.taken, List.filter_append,
      List.map_append]
    rfl
  have hmoves (busy : Prop) (id : MessageID)
      (hbusy : (R.serving i).map (·.id) = some id → busy) :
      Moves lifecycle busy (R.Opening id)
        (∃ j, (if j = i then q.2.resumes else R.opening j) = some id) (s.router.stateOf id)
        (s.pending id) (q.1.stateOf id) (MessageInbox.pending { s with router := q.1 } id) := by
    rw [hpending]
    refine MessageRouter.exec_moves hq hfor (hlate id) (h.feed id) hbusy ?_ ?_ ?_ ?_
    · intro hj
      exact ⟨i, by rw [← hresumes, hj]⟩
    · rintro ⟨j, hj⟩
      by_cases hji : j = i
      · exact .inl (by rw [hresumes, ← hji, hj])
      · exact .inr ⟨j, by rw [if_neg hji, hj]⟩
    · rintro ⟨j, hj⟩
      by_cases hji : j = i
      · exact .inl (by rwa [if_pos hji] at hj)
      · exact .inr ⟨j, by rwa [if_neg hji] at hj⟩
    · intro hj
      exact ⟨i, by rw [if_pos rfl, hj]⟩
  refine ⟨?_, h.drawn, h.flying, h.reads, ?_, ?_, ?_⟩
  · show s.taken ≤ q.1.updates.length
    rw [hupdates, List.length_append]
    exact Nat.le_add_right_of_le h.taken
  · intro j id hj
    by_cases hji : j = i
    · subst hji
      have hid := MessageRouter.for_of_outcome hq hfor (by simpa using hj)
      exact Option.map_eq_some_iff.mp hid
    · exact h.opens j id (by simpa [hji] using hj)
  · intro id
    exact (h.feed id).moves (hmoves True id fun _ => trivial)
  · intro row m hrow hout
    have hheld := h.held row m hrow hout
    refine ⟨hheld.drawn, hheld.unstamped, hheld.alone, hheld.attempts, hheld.readings, ?_⟩
    intro id hid
    refine (hheld.follows id hid).moves (hmoves (R.Busy row) id fun hserving => ?_)
    obtain ⟨attempt, hattempt, hidEq⟩ := Option.map_eq_some_iff.mp hserving
    exact ⟨i, attempt, hattempt, h.row_of_drawn hrow hout hid hattempt hidEq⟩

/-! ### Steps that write a row -/

theorem Held.rows (h : Held s R row m) (rows : Rows) : Held { s with rows } R row m :=
  ⟨h.drawn, h.unstamped, h.alone, h.attempts, h.readings, h.follows⟩

/-- `rows'` is `rows` with `m` at `row`. -/
def Puts (rows : Rows) (row : UUID) (m : Message) (rows' : Rows) : Prop :=
  ∀ j, rows'.lookup j = if j = row then some m else rows.lookup j

theorem puts_insert (rows : Rows) (row : UUID) (m : Message) :
    Puts rows row m (AList.insert row m rows) :=
  fun j => Dict.lookup_insert rows j row m

theorem puts_modify {rows : Rows} (h : rows.lookup row = some m) (f : Message → Message) :
    Puts rows row (f m) (rows.modify row f) := fun j => by
  rw [Dict.lookup_modify, h, Option.map_some]

theorem Puts.same {rows rows' : Rows} (h : Puts rows row m rows') : rows'.lookup row = some m := by
  rw [h row, if_pos rfl]

theorem Puts.ne {rows rows' : Rows} (h : Puts rows row m rows') {j : UUID} (hj : j ≠ row) :
    rows'.lookup j = rows.lookup j := by
  rw [h j, if_neg hj]

/-- The rows of the attempts under way stay outbound rows. -/
theorem Puts.flying {rows rows' : Rows} (h : Puts rows row m rows') (hout : m.isOutbound)
    {j : UUID} (hj : ∃ m', rows.lookup j = some m' ∧ m'.isOutbound) :
    ∃ m', rows'.lookup j = some m' ∧ m'.isOutbound := by
  by_cases hrow : j = row
  · subst hrow
    exact ⟨m, h.same, hout⟩
  · rwa [h.ne hrow]

/-- A row that no attempt is about. -/
theorem Coherent.insert (h : Coherent s R) {rows' : Rows} (hfresh : s.rows.lookup row = none)
    (hput : Puts s.rows row m rows') (hwire : m.wireID = none) (hout : m.isOutbound) :
    Coherent { s with rows := rows' } R := by
  have hidle (j : Nat) (a : Attempt) (ha : R.serving j = some a) : a.row ≠ row := by
    rintro rfl
    obtain ⟨m', hm', _⟩ := h.flying j a ha
    cases hfresh.symm.trans hm'
  refine ⟨h.taken, h.drawn, fun j a ha => hput.flying hout (h.flying j a ha), h.reads, h.opens,
    h.feed, fun row' m' hrow' hout' => ?_⟩
  by_cases hrow : row' = row
  · subst hrow
    obtain rfl := Option.some.inj (hput.same.symm.trans hrow')
    refine ⟨fun id hid => ?_, fun _ hbusy => ?_, fun _ j k a b ha hb harow _ => ?_,
      fun _ _ _ _ => .inl hwire, fun j a ha harow => ?_, fun id hid => ?_⟩
    · cases hwire.symm.trans hid
    · obtain ⟨j, a, ha, harow⟩ := hbusy
      exact absurd harow (hidle j a ha)
    · exact absurd harow (hidle j a ha)
    · exact absurd harow (hidle j a (h.reads j a ha))
    · cases hwire.symm.trans hid
  · rw [hput.ne hrow] at hrow'
    exact (h.held row' m' hrow' hout').rows rows'

theorem Coherent.draw (h : Coherent s R) {fresh : MessageID} (row : UUID)
    (hfresh : s.drawn.lookup fresh = none) :
    Coherent { s with drawn := AList.insert fresh row s.drawn } R := by
  have hkeep {id : MessageID} {other : UUID} (hid : s.drawn.lookup id = some other) :
      AList.lookup id (AList.insert fresh row s.drawn) = some other := by
    have hne : id ≠ fresh := by
      rintro rfl
      cases hfresh.symm.trans hid
    rw [Dict.lookup_insert, if_neg hne, hid]
  refine ⟨h.taken, fun j a ha => hkeep (h.drawn j a ha), h.flying, h.reads, h.opens, h.feed, ?_⟩
  intro row' m' hrow' hout'
  have hheld := h.held row' m' hrow' hout'
  exact ⟨fun id hid => hkeep (hheld.drawn id hid), hheld.unstamped, hheld.alone, hheld.attempts,
    hheld.readings, hheld.follows⟩

/-- A row is put in flight: again, or for the first time and then as `sent`. -/
theorem Coherent.putInFlight (h : Coherent s R) {rows' : Rows} {m' : Message}
    (hidle : R.serving i = none) (hrow : s.rows.lookup attempt.row = some m) (hout : m.isOutbound)
    (hput : Puts s.rows attempt.row m' rows') (hout' : m'.isOutbound)
    (hwire : m'.wireID = m.wireID) (hdrawn : s.drawn.lookup attempt.id = some attempt.row)
    (hstate : ¬m.deliveryState.isConfirmed) (hstate' : ¬m'.deliveryState.isConfirmed)
    (hfirst : m.wireID = some attempt.id ∨
      m.wireID = none ∧ ¬R.Busy attempt.row ∧ m'.deliveryState = .sent) :
    Coherent { s with rows := rows' }
      { R with serving := fun j => if j = i then some attempt else R.serving j } := by
  have hreading : R.reading i = none := by
    cases hread : R.reading i with
    | none => rfl
    | some a => cases hidle.symm.trans (h.reads i a hread)
  refine ⟨h.taken, fun j a ha => ?_, fun j a ha => ?_, fun j a ha => ?_, fun j id hid => ?_, h.feed,
    fun row' m₁ hrow₁ hout₁ => ?_⟩
  · by_cases hj : j = i
    · cases (if_pos hj).symm.trans ha
      exact hdrawn
    · exact h.drawn j a ((if_neg hj).symm.trans ha)
  · refine hput.flying hout' ?_
    by_cases hj : j = i
    · cases (if_pos hj).symm.trans ha
      exact ⟨m, hrow, hout⟩
    · exact h.flying j a ((if_neg hj).symm.trans ha)
  · have hj : j ≠ i := by
      rintro rfl
      cases hreading.symm.trans ha
    exact (if_neg hj).trans (h.reads j a ha)
  · obtain ⟨a, ha, haid⟩ := h.opens j id hid
    have hj : j ≠ i := by
      rintro rfl
      cases hidle.symm.trans ha
    exact ⟨a, (if_neg hj).trans ha, haid⟩
  · by_cases hrow' : row' = attempt.row
    · subst hrow'
      obtain rfl := Option.some.inj (hput.same.symm.trans hrow₁)
      have hheld := h.held attempt.row m hrow hout
      refine ⟨fun id hid => hheld.drawn id (hwire ▸ hid), fun hnone _ => ?_,
        fun hnone j k a b ha hb harow hbrow => ?_, fun j a ha harow => ?_, fun j a ha harow => ?_,
        fun id hid => ?_⟩
      · rcases hfirst with hsome | ⟨_, _, hsent⟩
        · cases (hwire.symm.trans hnone).symm.trans hsome
        · exact hsent
      · rcases hfirst with hsome | ⟨_, hbusy, _⟩
        · cases (hwire.symm.trans hnone).symm.trans hsome
        · have honly (l : Nat) (c : Attempt) (hc : (if l = i then some attempt else R.serving l) =
              some c) (hcrow : c.row = attempt.row) : l = i := by
            by_contra hl
            exact hbusy ⟨l, c, (if_neg hl).symm.trans hc, hcrow⟩
          rw [honly j a ha harow, honly k b hb hbrow]
      · by_cases hj : j = i
        · cases (if_pos hj).symm.trans ha
          rw [hwire]
          exact hfirst.elim .inr fun hnone => .inl hnone.1
        · rw [hwire]
          exact hheld.attempts j a ((if_neg hj).symm.trans ha) harow
      · rw [hwire]
        exact hheld.readings j a ha harow
      · exact (hheld.follows id (hwire ▸ hid)).attempt hstate hstate'
          ⟨i, attempt, if_pos rfl, rfl⟩ fun hread => hread
    · rw [hput.ne hrow'] at hrow₁
      refine Held.rows (s := s) ?_ rows'
      refine (h.held row' m₁ hrow₁ hout₁).other (fun j a ha => ?_) fun _ _ _ => Iff.rfl
      dsimp only
      by_cases hj : j = i
      · subst hj
        have hne : attempt ≠ a := fun e => hrow' (by rw [← ha, e])
        simp [hidle, hne]
      · rw [if_neg hj]

/-- The row of an attempt that the coordinator returned from gets the attempt's identifier. -/
theorem Coherent.stamp (h : Coherent s R) (hserving : R.serving i = some attempt)
    (hrow : s.rows.lookup attempt.row = some m) (hout : m.isOutbound) :
    Coherent
      { s with rows := s.rows.modify attempt.row ({ · with wireID := some attempt.id }) }
      { R with reading := fun j => if j = i then some attempt else R.reading j } := by
  have hput := puts_modify hrow ({ · with wireID := some attempt.id })
  have hheld := h.held attempt.row m hrow hout
  have hwire (j : Nat) (a : Attempt) (ha : R.serving j = some a) (harow : a.row = attempt.row) :
      a.id = attempt.id := by
    rcases hheld.attempts i attempt hserving rfl with hnone | hsome
    · obtain rfl := hheld.alone hnone j i a attempt ha hserving harow rfl
      cases hserving.symm.trans ha
      rfl
    · rcases hheld.attempts j a ha harow with hnone | hother
      · cases hnone.symm.trans hsome
      · exact Option.some.inj (hother.symm.trans hsome)
  refine ⟨h.taken, h.drawn, fun j a ha => hput.flying hout (h.flying j a ha), fun j a ha => ?_,
    h.opens, h.feed, fun row' m₁ hrow₁ hout₁ => ?_⟩
  · by_cases hj : j = i
    · cases (if_pos hj).symm.trans ha
      rw [hj, hserving]
    · exact h.reads j a ((if_neg hj).symm.trans ha)
  · by_cases hrow' : row' = attempt.row
    · subst hrow'
      obtain rfl := Option.some.inj (hput.same.symm.trans hrow₁)
      refine ⟨fun id hid => ?_, fun hnone => (nomatch hnone), fun hnone => (nomatch hnone),
        fun j a ha harow => .inr (congrArg some (hwire j a ha harow).symm), fun j a ha harow => ?_,
        fun id hid => ?_⟩
      · obtain rfl := Option.some.inj hid
        exact h.drawn i attempt hserving
      · by_cases hj : j = i
        · cases (if_pos hj).symm.trans ha
          rfl
        · have hold := h.reads j a ((if_neg hj).symm.trans ha)
          exact congrArg some (hwire j a hold harow).symm
      · obtain rfl := Option.some.inj hid
        rcases hheld.attempts i attempt hserving rfl with hnone | hsome
        · have hsent := hheld.unstamped hnone ⟨i, attempt, hserving, rfl⟩
          have hnot : ¬lifecycle.final m.deliveryState := by
            rw [hsent]
            exact Bool.false_ne_true
          exact .join hnot ⟨i, attempt, hserving, rfl⟩ ⟨i, attempt, if_pos rfl, rfl⟩
        · refine (hheld.follows attempt.id hsome).mono Iff.rfl ?_
          rintro ⟨j, a, ha, harow⟩
          by_cases hj : j = i
          · exact ⟨i, attempt, if_pos rfl, rfl⟩
          · exact ⟨j, a, (if_neg hj).trans ha, harow⟩
    · rw [hput.ne hrow'] at hrow₁
      refine Held.rows (s := s) ?_ _
      refine (h.held row' m₁ hrow₁ hout₁).other (fun _ _ _ => Iff.rfl) fun j a ha => ?_
      dsimp only
      by_cases hj : j = i
      · subst hj
        have hne : attempt ≠ a := fun e => hrow' (by rw [← ha, e])
        have hreading : R.reading j ≠ some a := fun hread =>
          hne (Option.some.inj (hserving.symm.trans (h.reads j a hread)))
        simp [hne, hreading]
      · rw [if_neg hj]

/-- The roles when the call at `i` is done with its attempt. -/
def Roles.finish (R : Roles) (i : Nat) : Roles :=
  { R with
    serving := fun j => if j = i then none else R.serving j
    reading := fun j => if j = i then none else R.reading j }

/-- An attempt ends with a write of its row. -/
theorem Coherent.finish (h : Coherent s R) {rows' : Rows} {m' : Message}
    (hserving : R.serving i = some attempt) (hopening : R.opening i = none)
    (hrow : s.rows.lookup attempt.row = some m) (hout : m.isOutbound)
    (hput : Puts s.rows attempt.row m' rows') (hout' : m'.isOutbound)
    (hwire : m'.wireID = m.wireID)
    (hfollows : ∀ id, m.wireID = some id → Follows lifecycle ((R.finish i).Busy attempt.row)
      ((R.finish i).Reading attempt.row) m'.deliveryState (s.router.stateOf id) (s.pending id)) :
    Coherent { s with rows := rows' } (R.finish i) := by
  have hold (j : Nat) (a : Attempt) (ha : (R.finish i).serving j = some a) :
      R.serving j = some a ∧ j ≠ i := by
    by_cases hj : j = i
    · cases (if_pos hj).symm.trans ha
    · exact ⟨(if_neg hj).symm.trans ha, hj⟩
  have hread (j : Nat) (a : Attempt) (ha : (R.finish i).reading j = some a) :
      R.reading j = some a ∧ j ≠ i := by
    by_cases hj : j = i
    · cases (if_pos hj).symm.trans ha
    · exact ⟨(if_neg hj).symm.trans ha, hj⟩
  refine ⟨h.taken, fun j a ha => h.drawn j a (hold j a ha).1,
    fun j a ha => hput.flying hout' (h.flying j a (hold j a ha).1), fun j a ha => ?_,
    fun j id hid => ?_, h.feed, fun row' m₁ hrow₁ hout₁ => ?_⟩
  · obtain ⟨hra, hj⟩ := hread j a ha
    exact (if_neg hj).trans (h.reads j a hra)
  · obtain ⟨a, ha, haid⟩ := h.opens j id hid
    have hj : j ≠ i := by
      rintro rfl
      cases hopening.symm.trans hid
    exact ⟨a, (if_neg hj).trans ha, haid⟩
  · by_cases hrow' : row' = attempt.row
    · subst hrow'
      obtain rfl := Option.some.inj (hput.same.symm.trans hrow₁)
      have hheld := h.held attempt.row m hrow hout
      refine ⟨fun id hid => hheld.drawn id (hwire ▸ hid), fun hnone hbusy => ?_,
        fun hnone j k a b ha hb => ?_, fun j a ha harow => ?_, fun j a ha harow => ?_,
        fun id hid => hfollows id (hwire ▸ hid)⟩
      · obtain ⟨j, a, ha, harow⟩ := hbusy
        obtain ⟨hsa, hj⟩ := hold j a ha
        exact absurd (hheld.alone (hwire ▸ hnone) j i a attempt hsa hserving harow rfl) hj
      · exact hheld.alone (hwire ▸ hnone) j k a b (hold j a ha).1 (hold k b hb).1
      · rw [hwire]
        exact hheld.attempts j a (hold j a ha).1 harow
      · rw [hwire]
        exact hheld.readings j a (hread j a ha).1 harow
    · rw [hput.ne hrow'] at hrow₁
      refine Held.rows (s := s) ?_ rows'
      refine (h.held row' m₁ hrow₁ hout₁).other (fun j a ha => ⟨fun hj => (hold j a hj).1, ?_⟩)
        fun j a ha => ⟨fun hj => (hread j a hj).1, ?_⟩
      · intro hsa
        have hj : j ≠ i := by
          rintro rfl
          exact hrow' (by rw [← ha, Option.some.inj (hserving.symm.trans hsa)])
        exact (if_neg hj).trans hsa
      · intro hra
        have hj : j ≠ i := by
          rintro rfl
          exact hrow' (by rw [← ha, Option.some.inj (hserving.symm.trans (h.reads j a hra))])
        exact (if_neg hj).trans hra

/-! ### The update stream -/

theorem outboundRow_spec {rows : Rows} {id : MessageID} (h : rows.outboundRow id = some row) :
    ∃ m, rows.lookup row = some m ∧ m.isOutbound ∧ m.wireID = some id := by
  obtain ⟨⟨row', m⟩, hfind, rfl⟩ := Option.map_eq_some_iff.mp h
  have hmem := Dict.mem_pairs.mp (List.mem_of_find?_eq_some hfind)
  have hprops := List.find?_some hfind
  simp only [Bool.and_eq_true, beq_iff_eq] at hprops
  exact ⟨m, hmem, hprops.1, hprops.2⟩

/-- The only outbound row with an identifier is the first one. -/
theorem outboundRow_eq {rows : Rows} {id : MessageID} (hrow : rows.lookup row = some m)
    (hout : m.isOutbound) (hid : m.wireID = some id)
    (honly : ∀ other m', rows.lookup other = some m' → m'.isOutbound → m'.wireID = some id →
      other = row) : rows.outboundRow id = some row := by
  cases hfound : rows.outboundRow id with
  | none =>
    have hnone := List.find?_eq_none.mp (Option.map_eq_none_iff.mp hfound) (row, m)
      (Dict.mem_pairs.mpr hrow)
    simp [hout, hid] at hnone
  | some other =>
    obtain ⟨m', hrow', hout', hid'⟩ := outboundRow_spec hfound
    rw [honly other m' hrow' hout' hid']

/-- An update finds the row of its message. -/
theorem Coherent.outboundRow (h : Coherent s R) {id : MessageID}
    (hrow : s.rows.lookup row = some m) (hout : m.isOutbound) (hid : m.wireID = some id) :
    s.rows.outboundRow id = some row := by
  refine outboundRow_eq hrow hout hid fun other m' hrow' hout' hid' => ?_
  have hdrawn := (h.held other m' hrow' hout').drawn id hid'
  rw [(h.held row m hrow hout).drawn id hid] at hdrawn
  exact (Option.some.inj hdrawn).symm

theorem advance_state (u : MessageDeliveryState) (now : Date) (m : Message) :
    (advance u now m).deliveryState = lifecycle.take m.deliveryState u := by
  unfold advance Lifecycle.take
  show _ = if m.deliveryState.isTerminal && !u.isTerminal then _ else _
  split
  · rfl
  · split
    · rename_i hsame
      exact beq_iff_eq.mp hsame
    · rfl

theorem advance_wireID (u : MessageDeliveryState) (now : Date) (m : Message) :
    (advance u now m).wireID = m.wireID := by
  unfold advance
  split
  · rfl
  · split <;> rfl

theorem advance_isOutbound (u : MessageDeliveryState) (now : Date) (m : Message) :
    (advance u now m).isOutbound = m.isOutbound := by
  unfold advance
  split
  · rfl
  · split <;> rfl

@[simp] theorem taken_apply (u : DeliveryUpdate) (now : Date) :
    (s.apply u now).taken = s.taken := by
  unfold MessageInbox.apply
  split <;> rfl

@[simp] theorem router_apply (u : DeliveryUpdate) (now : Date) :
    (s.apply u now).router = s.router := by
  unfold MessageInbox.apply
  split <;> rfl

@[simp] theorem drawn_apply (u : DeliveryUpdate) (now : Date) :
    (s.apply u now).drawn = s.drawn := by
  unfold MessageInbox.apply
  split <;> rfl

/-- The next update is applied. -/
theorem Coherent.apply (h : Coherent s R) {u : DeliveryUpdate} (now : Date)
    (hu : s.router.updates[s.taken]? = some u) :
    Coherent (MessageInbox.apply { s with taken := s.taken + 1 } u now) R := by
  obtain ⟨hlen, hget⟩ := List.getElem?_eq_some_iff.mp hu
  have hdrop : s.router.updates.drop s.taken = u :: s.router.updates.drop (s.taken + 1) := by
    rw [List.drop_eq_getElem_cons hlen, hget]
  have hmine : s.pending u.id =
      u.state :: MessageInbox.pending { s with taken := s.taken + 1 } u.id := by
    simp [pending, hdrop]
  have hothers {id : MessageID} (hid : id ≠ u.id) :
      s.pending id = MessageInbox.pending { s with taken := s.taken + 1 } id := by
    simp [pending, hdrop, Ne.symm hid]
  have hfeed (id : MessageID) : Feed lifecycle (R.Opening id) (s.router.stateOf id)
      (MessageInbox.pending { s with taken := s.taken + 1 } id) := by
    have hold := h.feed id
    by_cases hid : id = u.id
    · subst hid
      rw [hmine] at hold
      exact hold.take
    · rwa [hothers hid] at hold
  have hheld {row : UUID} {m : Message} (hrow : s.rows.lookup row = some m) (hout : m.isOutbound)
      (hid : m.wireID ≠ some u.id) (rows : Rows) :
      Held { s with taken := s.taken + 1, rows } R row m := by
    have hold := h.held row m hrow hout
    refine ⟨hold.drawn, hold.unstamped, hold.alone, hold.attempts, hold.readings,
      fun id hwire => ?_⟩
    have hne : id ≠ u.id := fun e => hid (e ▸ hwire)
    have hfollows := hold.follows id hwire
    rwa [hothers hne] at hfollows
  unfold MessageInbox.apply
  cases hfound : s.rows.outboundRow u.id with
  | none =>
    refine ⟨hlen, h.drawn, h.flying, h.reads, h.opens, hfeed, fun row m hrow hout => ?_⟩
    refine hheld hrow hout (fun hid => ?_) s.rows
    cases hfound.symm.trans (h.outboundRow hrow hout hid)
  | some row =>
    obtain ⟨m, hrow, hout, hid⟩ := outboundRow_spec hfound
    have hput := puts_modify hrow (advance u.state now)
    have hout' : (advance u.state now m).isOutbound := by rwa [advance_isOutbound]
    refine ⟨hlen, h.drawn, fun j a ha => hput.flying hout' (h.flying j a ha), h.reads, h.opens,
      hfeed, fun row' m' hrow' hout₁ => ?_⟩
    by_cases hsame : row' = row
    · subst hsame
      obtain rfl := Option.some.inj (hput.same.symm.trans hrow')
      have hold := h.held row' m hrow hout
      have hwire := advance_wireID u.state now m
      refine ⟨fun id hid' => hold.drawn id (hwire ▸ hid'), fun hnone => ?_, fun hnone => ?_,
        fun j a ha harow => hwire ▸ hold.attempts j a ha harow,
        fun j a ha harow => hwire ▸ hold.readings j a ha harow, fun id hid' => ?_⟩
      · cases (hwire.symm.trans hnone).symm.trans hid
      · cases (hwire.symm.trans hnone).symm.trans hid
      · obtain rfl := Option.some.inj ((hwire.symm.trans hid').symm.trans hid)
        have hfollows := hold.follows u.id hid
        have hstream := h.feed u.id
        rw [hmine] at hfollows hstream
        rw [advance_state]
        refine hfollows.take hstream fun hopening => ?_
        obtain ⟨j, hj⟩ := hopening
        obtain ⟨a, ha, haid⟩ := h.opens j u.id hj
        exact ⟨j, a, ha, h.row_of_drawn hrow hout hid ha haid⟩
    · have hkeep : s.rows.lookup row' = some m' := (hput.ne hsame).symm.trans hrow'
      refine hheld hkeep hout₁ (fun hid' => hsame ?_) _
      have hfound' := h.outboundRow hkeep hout₁ hid'
      exact Option.some.inj (hfound'.symm.trans hfound)

end MessageInbox

end AeroNyra
