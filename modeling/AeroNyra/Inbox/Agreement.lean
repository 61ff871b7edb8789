import AeroNyra.Inbox.Coherence

/-! The rows and the router over whole runs.  Where no write comes too late, a row that is confirmed
stays confirmed, and at rest every row agrees with the router, unless the inbox has given up on it
while the router has not. -/

namespace AeroNyra.MessageInbox

open Interleave Replica
open MessageDeliveryState (lifecycle)

/-- The router segment that an action runs, with the transport's answer. -/
def Action.segment? : Action → Reply → Option (MessageRouter.Segment × MessageRouter.Reply)
  | .outbound _ a, .outbound reply => a.segment?.map fun segment => (segment, reply.answer)
  | .router a, .router reply => some (a, reply)
  | _, _ => none

/-- An acknowledgement of the outbound row has been recorded. -/
def ConfirmedRow (s : MessageInbox) (row : UUID) : Prop :=
  ∃ m, s.rows.lookup row = some m ∧ m.isOutbound ∧ m.deliveryState.isConfirmed

/-- The router writes over a message whose acknowledgement it has recorded, or begins another send
of it. -/
def Step.LateWrite (t : Step) : Prop :=
  Config.Ran t fun s a reply => ∃ segment answer id, a.segment? reply = some (segment, answer) ∧
    s.router.Confirmed id ∧ (segment.Overwrites id s.router answer ∨
      MessageRouter.Segment.StartsSend id s.router segment answer)

/-- A state that the router has left is written after the row has taken the update that says so, or
a confirmed state is written ahead of the failure that the row is still to take. -/
def Step.LateReadBack (t : Step) : Prop :=
  Config.Ran t fun s a _ => ∃ attempt committed, a = .settle attempt committed ∧
    (committed ≠ s.router.stateOf attempt.id ∧
        (s.pending attempt.id = [] ∨ s.ConfirmedRow attempt.row) ∨
      committed.any (·.isConfirmed) ∧ .notDelivered ∈ s.pending attempt.id)

/-- A confirmed row is marked as failed. -/
def Step.LateFailure (t : Step) : Prop :=
  Config.Ran t fun s a _ => ∃ attempt, a = .fail attempt ∧ s.ConfirmedRow attempt.row

def Step.Late (t : Step) : Prop := t.LateWrite ∨ t.LateReadBack ∨ t.LateFailure

/-- Confirmed rows stay confirmed. -/
def Step.KeepsConfirmed (t : Step) : Prop :=
  ∀ row, t.pre.shared.ConfirmedRow row → t.post.shared.ConfirmedRow row

/-- Every outbound row that the router tracks is in the router's state, or given up on while the
router has no acknowledgement of it. -/
def Agrees (s : MessageInbox) : Prop :=
  ∀ row m id state, s.rows.lookup row = some m → m.isOutbound → m.wireID = some id →
    s.router.stateOf id = some state →
    m.deliveryState = state ∨ m.deliveryState = .notDelivered ∧ ¬state.isConfirmed

/-! ### The roles of the calls in progress -/

/-- The roles after the call at `i` has become `t`. -/
def Roles.step (R : Roles) (i : Nat) (t : Thread Action) : Roles where
  serving j := if j = i then attemptOf t else R.serving j
  reading j := if j = i then readingOf t else R.reading j
  opening j := if j = i then openingOf t else R.opening j

variable {s s' : MessageInbox} {R : Roles} {i : Nat} {t : Thread Action} {attempt : Attempt}
  {ts : List (Thread Action)} {x : Exit Action} {rest handler : List Action}

theorem update_same {β : Type} (f : Nat → Option β) {y : Option β} (hy : y = f i) :
    (fun j => if j = i then y else f j) = f := by
  funext j
  split
  · rename_i hj
    rw [hj, hy]
  · rfl

/-- A call that goes on with its attempt changes its opening only. -/
theorem step_eq_of_same (hserving : attemptOf t = R.serving i)
    (hreading : readingOf t = R.reading i) :
    R.step i t = { R with opening := fun j => if j = i then openingOf t else R.opening j } := by
  rw [Roles.step, update_same R.serving hserving, update_same R.reading hreading]

theorem step_eq (hserving : attemptOf t = R.serving i) (hreading : readingOf t = R.reading i)
    (hopening : openingOf t = R.opening i) : R.step i t = R := by
  rw [step_eq_of_same hserving hreading, update_same R.opening hopening]

/-- The router's entries stay, and the confirmed ones stay confirmed. -/
def Grows (r r' : MessageRouter) : Prop :=
  ∀ id v, r.stateOf id = some v →
    ∃ v', r'.stateOf id = some v' ∧ (v.isConfirmed → v'.isConfirmed)

/-- The state that an action is about to write back is one that the router had. -/
def Known (r : MessageRouter) (a : Action) : Prop :=
  ∀ attempt v, a = .settle attempt (some v) →
    ∃ v', r.stateOf attempt.id = some v' ∧ (v.isConfirmed → v'.isConfirmed)

/-- A step of the call at `i`, which becomes `t`. -/
structure Lands (s : MessageInbox) (R : Roles) (i : Nat) (s' : MessageInbox) (t : Thread Action) :
    Prop where
  shape : Shape t
  coherent : Coherent s' (R.step i t)
  confirmed : ∀ row, s.ConfirmedRow row → s'.ConfirmedRow row
  grows : Grows s.router s'.router
  known : ∀ a ∈ t.todo, Known s'.router a

theorem Grows.refl (r : MessageRouter) : Grows r r := fun _ v hv => ⟨v, hv, id⟩

theorem Known.grows {r r' : MessageRouter} {a : Action} (h : Known r a) (hgrows : Grows r r') :
    Known r' a := by
  intro attempt v ha
  obtain ⟨v', hv', hfinal⟩ := h attempt v ha
  obtain ⟨v'', hv'', hfinal'⟩ := hgrows _ _ hv'
  exact ⟨v'', hv'', fun hv => hfinal' (hfinal hv)⟩

/-- A step that only moves its call on. -/
theorem Lands.still (h : Coherent s R) (hshape : Shape t) (hserving : attemptOf t = R.serving i)
    (hreading : readingOf t = R.reading i) (hopening : openingOf t = R.opening i)
    (hknown : ∀ a ∈ t.todo, Known s.router a) : Lands s R i s t := by
  refine ⟨hshape, ?_, fun _ hrow => hrow, .refl _, hknown⟩
  rwa [step_eq hserving hreading hopening]

/-- What an operation does before it calls the coordinator: it refuses, inserts a row that it may
not send, puts a row in flight that it inserts, or puts one in flight that is there. -/
inductive Begins (s : MessageInbox) : MessageInbox → Exit Action → Prop
  | refused : Begins s s (.goOn [])
  | blocked (row : UUID) (m : Message) (rows : Rows) (hfresh : s.rows.lookup row = none)
    (hput : Puts s.rows row m rows) (hwire : m.wireID = none) (hout : m.isOutbound) :
    Begins s { s with rows } (.goOn [])
  | composed (attempt : Attempt) (m : Message) (announcement : Option Outbound.Announcement)
    (outgoing : Outbound.Outgoing) (hid : outgoing.id = attempt.id)
    (hfresh : s.rows.lookup attempt.row = none) (hdrawn : s.drawn.lookup attempt.id = none)
    (hwire : m.wireID = none) (hout : m.isOutbound) (hstate : m.deliveryState = .sent) :
    Begins s
      { s with
        rows := AList.insert attempt.row m s.rows
        drawn := AList.insert attempt.id attempt.row s.drawn }
      (script attempt announcement outgoing)
  | again (attempt : Attempt) (m : Message) (f : Message → Message)
    (announcement : Option Outbound.Announcement) (outgoing : Outbound.Outgoing)
    (hid : outgoing.id = attempt.id) (hrow : s.rows.lookup attempt.row = some m)
    (hout : m.isOutbound) (hout' : (f m).isOutbound) (hwire : (f m).wireID = m.wireID)
    (hreuse : m.wireID = some attempt.id) (hstate : ¬m.deliveryState.isConfirmed)
    (hstate' : ¬(f m).deliveryState.isConfirmed) :
    Begins s { s with rows := s.rows.modify attempt.row f } (script attempt announcement outgoing)
  | anew (attempt : Attempt) (m : Message) (f : Message → Message)
    (announcement : Option Outbound.Announcement) (outgoing : Outbound.Outgoing)
    (hid : outgoing.id = attempt.id) (hrow : s.rows.lookup attempt.row = some m)
    (hout : m.isOutbound) (hout' : (f m).isOutbound) (hwire : (f m).wireID = m.wireID)
    (hnone : m.wireID = none) (hdrawn : s.drawn.lookup attempt.id = none)
    (hstate : m.deliveryState = .notDelivered) (hstate' : (f m).deliveryState = .sent) :
    Begins s
      { s with
        rows := s.rows.modify attempt.row f
        drawn := AList.insert attempt.id attempt.row s.drawn }
      (script attempt announcement outgoing)

theorem begins_compose {row : UUID} {m : Message} {c : Circumstances}
    {outgoing : MessageID → Outbound.Outgoing} (hid : ∀ id, (outgoing id).id = id)
    (hwire : m.wireID = none) (hout : m.isOutbound) (hstate : m.deliveryState = .sent)
    (h : s.compose row m c outgoing = some (s', x)) : Begins s s' x := by
  unfold compose at h
  split at h
  · rename_i hfresh
    have hnone := Option.isNone_iff_eq_none.mp hfresh
    dsimp only at h
    split at h
    · unfold putInFlight at h
      dsimp only at h
      split at h
      · rename_i hdrawn
        cases h
        exact .composed ⟨row, c.fresh⟩ m c.announcement (outgoing c.fresh) (hid c.fresh) hnone
          (Option.isNone_iff_eq_none.mp hdrawn) hwire hout hstate
      · cases h
    · cases h
      refine .blocked row (m.setDeliveryState .notDelivered c.now) _ hnone (fun j => ?_) hwire hout
      rw [Dict.lookup_modify, Dict.lookup_insert, Dict.lookup_insert, if_pos rfl]
      split <;> rfl
  · cases h

theorem begins {op : Operation} {c : Circumstances} (h : s.begin c op = some (s', x)) :
    Begins s s' x := by
  have hrefused (h : some (s, (.goOn [] : Exit Action)) = some (s', x)) : Begins s s' x := by
    cases h
    exact .refused
  cases op with
  | send row trimmed peer =>
    simp only [MessageInbox.begin, send] at h
    split at h
    · split at h
      · exact hrefused h
      · exact begins_compose (fun _ => rfl) rfl rfl rfl h
    · exact hrefused h
  | sendMedia row data mime peer isStory isPushToTalk =>
    simp only [MessageInbox.begin, sendMedia] at h
    split at h
    · exact begins_compose (fun _ => rfl) rfl rfl rfl h
    · exact hrefused h
  | resend row =>
    obtain ⟨m, hrow, h⟩ := Option.bind_eq_some_iff.mp h
    split at h
    · rename_i rawKey hpeer
      split at h
      · rename_i hguard
        simp only [Bool.and_eq_true, beq_iff_eq] at hguard
        obtain ⟨⟨⟨hout, hstate⟩, _⟩, _⟩ := hguard
        have hid (id : MessageID) : (resent m rawKey c id).id = id := by
          unfold resent
          split <;> rfl
        have hunconfirmed : ¬m.deliveryState.isConfirmed := by
          rw [hstate]
          exact Bool.false_ne_true
        cases hwire : m.wireID with
        | some id =>
          rw [hwire] at h
          cases h
          exact .again ⟨row, id⟩ m (·.setDeliveryState .sent c.now) c.announcement _ (hid id) hrow
            hout hout rfl hwire hunconfirmed Bool.false_ne_true
        | none =>
          rw [hwire] at h
          unfold putInFlight at h
          dsimp only at h
          split at h
          · rename_i hdrawn
            cases h
            exact .anew ⟨row, c.fresh⟩ m (·.setDeliveryState .sent c.now) c.announcement _
              (hid c.fresh) hrow hout hout rfl hwire
              (Option.isNone_iff_eq_none.mp hdrawn) hstate rfl
          · cases h
      · exact hrefused h
    · exact hrefused h
  | redriveInFlightMedia row departed =>
    obtain ⟨m, hrow, h⟩ := Option.bind_eq_some_iff.mp h
    split at h
    · rename_i rawKey id hpeer hwire
      split at h
      · rename_i hguard
        simp only [redrivable, Bool.and_eq_true, Bool.not_eq_true'] at hguard
        have hout : m.isOutbound := hguard.1.1.1.1.1.1.1
        have hterminal : m.deliveryState.isTerminal = false := hguard.1.1.1.1.2
        have hunconfirmed : ¬m.deliveryState.isConfirmed := fun hfinal => by
          rw [MessageDeliveryState.isTerminal_of_isConfirmed hfinal] at hterminal
          cases hterminal
        cases h
        exact .again ⟨row, id⟩ m ({ · with nostrRedriveDone := true }) c.announcement _ rfl hrow
          hout hout rfl hwire hunconfirmed hunconfirmed
      · exact hrefused h
    · exact hrefused h

variable {rows : Rows} {drawn : Dict MessageID UUID} {transports : List MeshTransport}
  {seenCapacity : Nat} {events : List (Event Call Reply)} {c : Config MessageInbox Action}

/-- The receipt of the message. -/
def firstReceipt : Call := .router ⟨.confirmDelivery (.filled 1) 0, rfl⟩

end AeroNyra.MessageInbox
