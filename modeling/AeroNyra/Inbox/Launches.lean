import AeroNyra.Inbox.Agreement

/-! A sender over its launches.  The router, the calls and the stream of delivery updates end with
the app; the rows on disk and the identifiers that were drawn stay.  An acknowledgement finds its
row through the router, so it settles the rows that the same launch has put in flight. -/

namespace AeroNyra

namespace Message

/-- A relaunch leaves nobody who could settle the row. -/
def isOrphan (m : Message) : Bool :=
  m.isOutbound && (m.deliveryState == .sent || m.deliveryState == .waitingForRange ||
    m.deliveryState == .findingPath)

def reconciled (now : Date) (m : Message) : Message :=
  if m.isOrphan then m.setDeliveryState .notDelivered now else m

theorem isOutbound_reconciled (now : Date) (m : Message) :
    (m.reconciled now).isOutbound = m.isOutbound := by
  unfold reconciled
  split <;> rfl

theorem wireID_reconciled (now : Date) (m : Message) : (m.reconciled now).wireID = m.wireID := by
  unfold reconciled
  split <;> rfl

end Message

namespace Rows

/-- The identifier of an outbound row, if it has one. -/
def outboundID (rows : Rows) (row : UUID) : Option MessageID :=
  (rows.lookup row).bind fun m => if m.isOutbound then m.wireID else none

variable {rows : Rows} {row j : UUID} {m : Message} {id : MessageID}

theorem outboundID_eq_some : rows.outboundID row = some id ↔
    ∃ m, rows.lookup row = some m ∧ m.isOutbound ∧ m.wireID = some id := by
  simp [outboundID, Option.bind_eq_some_iff]

theorem outboundID_of_lookup (h : rows.lookup row = some m) (hout : m.isOutbound) :
    rows.outboundID row = m.wireID := by
  simp [outboundID, h, hout]

/-- A row without an identifier has none. -/
theorem outboundID_of_none (h : ∀ m, rows.lookup row = some m → m.wireID = none) :
    rows.outboundID row = none := by
  cases hid : rows.outboundID row with
  | none => rfl
  | some id =>
    obtain ⟨m, hrow, _, hwire⟩ := outboundID_eq_some.mp hid
    cases (h m hrow).symm.trans hwire

theorem outboundID_of_inbound (h : ∀ m, rows.lookup row = some m → ¬m.isOutbound) :
    rows.outboundID row = none := by
  unfold outboundID
  cases hrow : rows.lookup row with
  | none => rfl
  | some m => exact if_neg (h m hrow)

theorem outboundID_congr {rows' : Rows}
    (h : (rows'.lookup row).map (fun m => (m.isOutbound, m.wireID)) =
      (rows.lookup row).map fun m => (m.isOutbound, m.wireID)) :
    rows'.outboundID row = rows.outboundID row := by
  have hview (rows : Rows) : rows.outboundID row =
      ((rows.lookup row).map fun m => (m.isOutbound, m.wireID)).bind fun p =>
        if p.1 then p.2 else none := by
    rw [Option.bind_map]
    rfl
  rw [hview rows', hview rows, h]

/-- A change of a row that leaves its identifier alone. -/
theorem outboundID_modify {f : Message → Message} (hout : ∀ m, (f m).isOutbound = m.isOutbound)
    (hwire : ∀ m, (f m).wireID = m.wireID) (row j : UUID) :
    Rows.outboundID (rows.modify row f) j = rows.outboundID j := by
  refine outboundID_congr ?_
  rw [Dict.lookup_modify]
  split
  · rename_i hj
    subst hj
    simp [Function.comp_def, hout, hwire]
  · rfl

/-- A stamp gives its row the identifier and leaves the other rows theirs. -/
theorem outboundID_stamp (rows : Rows) (row j : UUID) (id : MessageID) :
    Rows.outboundID (rows.modify row ({ · with wireID := some id })) j =
      if j = row then (rows.lookup j).bind fun m => if m.isOutbound then some id else none
      else rows.outboundID j := by
  unfold outboundID
  rw [Dict.lookup_modify]
  split
  · rename_i hj
    rw [Option.bind_map, hj]
    rfl
  · rfl

end Rows

namespace MessageInbox

open Interleave Replica
open MessageDeliveryState (lifecycle)

variable (s : MessageInbox)

/-- The outbound rows that an earlier launch left in flight become `notDelivered`, those that a
relay holds excepted. -/
def reconcileBootOrphans (now : Date) : MessageInbox :=
  { s with rows := s.rows.mapValues (·.reconciled now) }

variable {s s' : MessageInbox} {a : Action} {reply : Reply} {x : Exit Action}

theorem outboundID_reconcile (now : Date) (row : UUID) :
    (s.reconcileBootOrphans now).rows.outboundID row = s.rows.outboundID row := by
  refine Rows.outboundID_congr ?_
  have hlookup : (s.reconcileBootOrphans now).rows.lookup row =
      (s.rows.lookup row).map (·.reconciled now) := Dict.lookup_mapValues ..
  rw [hlookup, Option.map_map]
  simp [Function.comp_def, Message.isOutbound_reconciled, Message.wireID_reconciled]

/-! ### What an action does to the identifiers -/

/-- The actions of `attempt`, or of none. -/
def Serves (attempt : Attempt) (x : Exit Action) : Prop :=
  ∀ b ∈ x.added, ∀ other, b.attempt? = some other → other = attempt

/-- What an action does to the identifiers of the rows and of the attempts under way. -/
inductive Identifies (s : MessageInbox) (a : Action) (x : Exit Action) (s' : MessageInbox) : Prop
  /-- It stays with its attempt, if it has one. -/
  | keep (ids : ∀ row, s'.rows.outboundID row = s.rows.outboundID row) (drawn : s'.drawn = s.drawn)
    (serves : ∀ b ∈ x.added, ∀ attempt, b.attempt? = some attempt → a.attempt? = some attempt)
  /-- It begins an attempt under the identifier of the row. -/
  | reuse (attempt : Attempt) (hid : s.rows.outboundID attempt.row = some attempt.id)
    (ids : ∀ row, s'.rows.outboundID row = s.rows.outboundID row) (drawn : s'.drawn = s.drawn)
    (serves : Serves attempt x)
  /-- It begins an attempt under a fresh identifier. -/
  | draw (attempt : Attempt) (hfresh : s.drawn.lookup attempt.id = none)
    (hnone : s.rows.outboundID attempt.row = none)
    (ids : ∀ row, s'.rows.outboundID row = s.rows.outboundID row)
    (drawn : s'.drawn = AList.insert attempt.id attempt.row s.drawn) (serves : Serves attempt x)
  /-- It writes the identifier of its attempt to the row. -/
  | stamp (attempt : Attempt) (hattempt : a.attempt? = some attempt)
    (ids : ∀ row, s'.rows.outboundID row = if row = attempt.row then
      (s.rows.lookup row).bind fun m => if m.isOutbound then some attempt.id else none
      else s.rows.outboundID row)
    (drawn : s'.drawn = s.drawn) (serves : Serves attempt x)

theorem serves_script (attempt : Attempt) (announcement : Option Outbound.Announcement)
    (m : Outbound.Outgoing) : Serves attempt (script attempt announcement m) := by
  intro b hb other hother
  rcases List.mem_append.mp hb with hb | hb
  · obtain ⟨_, _, rfl⟩ := List.mem_map.mp hb
    exact (Option.some.inj hother).symm
  · rw [List.mem_singleton.mp hb] at hother
    exact (Option.some.inj hother).symm

theorem serves_exit (attempt : Attempt) (x : Exit Outbound.Action) :
    Serves attempt (attempt.exit x) := by
  intro b hb other hother
  cases x with
  | goOn first =>
    obtain ⟨_, _, rfl⟩ := List.mem_map.mp hb
    exact (Option.some.inj hother).symm
  | throw cleanup =>
    rcases List.mem_append.mp hb with hb | hb
    · obtain ⟨_, _, rfl⟩ := List.mem_map.mp hb
      exact (Option.some.inj hother).symm
    · rw [List.mem_singleton.mp hb] at hother
      exact (Option.some.inj hother).symm

/-- A fresh row without an identifier. -/
theorem outboundID_puts {rows rows' : Rows} {row : UUID} {m : Message}
    (hfresh : rows.lookup row = none) (hput : Puts rows row m rows') (hwire : m.wireID = none)
    (j : UUID) : rows'.outboundID j = rows.outboundID j := by
  by_cases hj : j = row
  · subst hj
    have hold : rows.outboundID j = none := Rows.outboundID_of_none fun m hm => by
      cases hfresh.symm.trans hm
    rw [hold]
    refine Rows.outboundID_of_none fun m' hm' => ?_
    cases hput.same.symm.trans hm'
    exact hwire
  · unfold Rows.outboundID
    rw [hput.ne hj]

/-- A change of an outbound row that leaves its identifier alone. -/
theorem outboundID_again {rows : Rows} {row : UUID} {m : Message} {f : Message → Message}
    (hrow : rows.lookup row = some m) (hout : m.isOutbound) (hout' : (f m).isOutbound)
    (hwire : (f m).wireID = m.wireID) (j : UUID) :
    Rows.outboundID (rows.modify row f) j = rows.outboundID j := by
  refine Rows.outboundID_congr ?_
  rw [puts_modify hrow f j]
  split
  · rename_i hj
    subst hj
    simp [hrow, hout, hout', hwire]
  · rfl

theorem identifies_begin {op : Operation} {c : Circumstances} (h : s.begin c op = some (s', x)) :
    Identifies s (.begin op) x s' := by
  have hnothing : ∀ b ∈ (Exit.goOn [] : Exit Action).added, ∀ attempt, b.attempt? = some attempt →
      (Action.begin op).attempt? = some attempt := fun b hb => absurd hb List.not_mem_nil
  cases begins h with
  | refused => exact .keep (fun _ => rfl) rfl hnothing
  | blocked row m rows hfresh hput hwire hout =>
    exact .keep (outboundID_puts hfresh hput hwire) rfl hnothing
  | composed attempt m announcement outgoing hid hfresh hdrawn hwire hout hstate =>
    refine .draw attempt hdrawn ?_ (outboundID_puts hfresh (puts_insert s.rows _ m) hwire) rfl
      (serves_script attempt announcement outgoing)
    exact Rows.outboundID_of_none fun m hm => by cases hfresh.symm.trans hm
  | again attempt m f announcement outgoing hid hrow hout hout' hwire hreuse hstate hstate' =>
    refine .reuse attempt ?_ (outboundID_again hrow hout hout' hwire) rfl
      (serves_script attempt announcement outgoing)
    rw [Rows.outboundID_of_lookup hrow hout, hreuse]
  | anew attempt m f announcement outgoing hid hrow hout hout' hwire hnone hdrawn hstate hstate' =>
    refine .draw attempt hdrawn ?_ (outboundID_again hrow hout hout' hwire) rfl
      (serves_script attempt announcement outgoing)
    rw [Rows.outboundID_of_lookup hrow hout, hnone]

theorem outboundID_setDeliveryState (row : UUID) (state : MessageDeliveryState) (now : Date)
    (j : UUID) : (s.setDeliveryState row state now).rows.outboundID j = s.rows.outboundID j :=
  Rows.outboundID_modify (f := (·.setDeliveryState state now)) (fun _ => rfl) (fun _ => rfl) row j

theorem outboundID_apply (u : DeliveryUpdate) (now : Date) (j : UUID) :
    (s.apply u now).rows.outboundID j = s.rows.outboundID j := by
  unfold MessageInbox.apply
  split
  · exact Rows.outboundID_modify (advance_isOutbound u.state now) (advance_wireID u.state now) _ j
  · rfl

theorem identifies_exec (h : exec s a reply = some (s', x)) : Identifies s a x s' := by
  have hnothing (a : Action) : ∀ b ∈ (Exit.goOn [] : Exit Action).added, ∀ attempt,
      b.attempt? = some attempt → a.attempt? = some attempt :=
        fun b hb => absurd hb List.not_mem_nil
  unfold exec at h
  split at h
  · exact identifies_begin h
  · rename_i attempt b answer
    obtain ⟨⟨r, y⟩, _, heq⟩ := Option.map_eq_some_iff.mp h
    cases heq
    refine .keep (fun _ => rfl) rfl fun b hb other hother => ?_
    rw [serves_exit attempt y b hb other hother]
    rfl
  · rename_i attempt now
    cases h
    refine .stamp attempt rfl (fun row => Rows.outboundID_stamp s.rows _ row _) rfl ?_
    intro b hb other hother
    rw [List.mem_singleton.mp hb] at hother
    exact (Option.some.inj hother).symm
  · rename_i attempt now
    cases h
    refine .keep (fun _ => rfl) rfl fun b hb other hother => ?_
    rw [List.mem_singleton.mp hb] at hother
    exact hother
  · rename_i attempt committed now
    cases h
    cases committed with
    | none => exact .keep (fun _ => rfl) rfl (hnothing _)
    | some state => exact .keep (outboundID_setDeliveryState _ _ _) rfl (hnothing _)
  · cases h
    exact .keep (outboundID_setDeliveryState _ _ _) rfl (hnothing _)
  · obtain ⟨u, _, heq⟩ := Option.map_eq_some_iff.mp h
    cases heq
    exact .keep (outboundID_apply u _) (drawn_apply u _) (hnothing _)
  · obtain ⟨q, _, heq⟩ := Option.map_eq_some_iff.mp h
    cases heq
    refine .keep (fun _ => rfl) rfl fun b hb other hother => ?_
    obtain ⟨_, _, rfl⟩ := mem_added_map hb
    cases hother
  · cases h

/-- The record of the identifiers drawn only grows. -/
theorem Identifies.drawn_mono (h : Identifies s a x s') {id : MessageID} {row : UUID}
    (hid : s.drawn.lookup id = some row) : s'.drawn.lookup id = some row := by
  cases h with
  | draw attempt hfresh hnone ids drawn serves =>
    have hne : id ≠ attempt.id := by
      rintro rfl
      cases hfresh.symm.trans hid
    rw [drawn, Dict.lookup_insert, if_neg hne, hid]
  | keep ids drawn | reuse attempt hid ids drawn | stamp attempt hattempt ids drawn => rwa [drawn]

/-- An action is an operation that begins, the one that takes the next update, or leaves the updates
taken and the identifiers drawn as they are. -/
theorem exec_cases (h : exec s a reply = some (s', x)) :
    (∃ op c, a = .begin op ∧ reply = .begin c ∧ s.begin c op = some (s', x)) ∨
    (∃ u now, s.router.updates[s.taken]? = some u ∧
      s' = MessageInbox.apply { s with taken := s.taken + 1 } u now) ∨
    s'.drawn = s.drawn ∧ s'.taken = s.taken ∧ ∃ us, s'.router.updates = s.router.updates ++ us := by
  have hsame {s' : MessageInbox} (hdrawn : s'.drawn = s.drawn) (htaken : s'.taken = s.taken)
      (hrouter : s'.router = s.router) : s'.drawn = s.drawn ∧ s'.taken = s.taken ∧
        ∃ us, s'.router.updates = s.router.updates ++ us :=
    ⟨hdrawn, htaken, [], by rw [hrouter, List.append_nil]⟩
  unfold exec at h
  split at h
  · exact .inl ⟨_, _, rfl, rfl, h⟩
  · obtain ⟨⟨r, y⟩, hexec, heq⟩ := Option.map_eq_some_iff.mp h
    cases heq
    rcases Outbound.exec_router hexec with ⟨_, hrouter⟩ | ⟨segment, q, _, hq, hrouter⟩
    · exact .inr (.inr (hsame rfl rfl hrouter))
    · have hr : r = q.1 := hrouter
      subst hr
      exact .inr (.inr ⟨rfl, rfl, _, (MessageRouter.exec_effect hq).updates⟩)
  · cases h
    exact .inr (.inr (hsame rfl rfl rfl))
  · cases h
    exact .inr (.inr (hsame rfl rfl rfl))
  · rename_i attempt committed now
    cases h
    cases committed with
    | none | some => exact .inr (.inr (hsame rfl rfl rfl))
  · cases h
    exact .inr (.inr (hsame rfl rfl rfl))
  · obtain ⟨u, hu, heq⟩ := Option.map_eq_some_iff.mp h
    cases heq
    exact .inr (.inl ⟨u, _, hu, rfl⟩)
  · obtain ⟨q, hq, heq⟩ := Option.map_eq_some_iff.mp h
    cases heq
    exact .inr (.inr ⟨rfl, rfl, _, (MessageRouter.exec_effect hq).updates⟩)
  · cases h

/-- The action leaves the updates taken as they are, or is the one that takes the next. -/
theorem exec_stream (h : exec s a reply = some (s', x)) :
    (∃ us, s'.router.updates = s.router.updates ++ us ∧ s'.taken = s.taken) ∨
    ∃ u now, s.router.updates[s.taken]? = some u ∧
      s' = MessageInbox.apply { s with taken := s.taken + 1 } u now := by
  rcases exec_cases h with ⟨op, c, _, _, hbegin⟩ | happly | ⟨_, htaken, us, hupdates⟩
  · refine .inl ⟨[], ?_⟩
    cases begins hbegin with
    | refused | blocked | composed | again | anew => exact ⟨(List.append_nil _).symm, rfl⟩
  · exact .inr happly
  · exact .inl ⟨us, hupdates, htaken⟩

end MessageInbox

open MessageInbox (Action Attempt Call Circumstances Operation Reply)

structure Sender where
  inbox : Interleave.Config MessageInbox Action
  /-- The rows on disk. -/
  store : Rows
  /-- The boot reconciliation of this launch has run. -/
  reconciled : Bool

namespace Sender

open Interleave

/-- A save that fails leaves everything as it is, so it is no event. -/
inductive Event
  | inbox (e : Interleave.Event Call Reply)
  /-- The context is saved, by an operation or on its own. -/
  | save
  /-- Once in each launch, while calls may be under way. -/
  | reconcileBootOrphans (now : Date)
  /-- The app stops at any point, and starts again. -/
  | relaunch (transports : List MeshTransport) (seenCapacity : Nat)

/-- A sender right after a launch that found `store`. -/
def start (store : Rows) (drawn : Dict MessageID UUID) (transports : List MeshTransport)
    (seenCapacity : Nat) : Sender :=
  ⟨⟨.launch store drawn transports seenCapacity, []⟩, store, false⟩

variable (s : Sender)

/-- The inbox with its router. -/
abbrev state : MessageInbox := s.inbox.shared

def step : Event → Option Sender
  | .inbox e => (MessageInbox.machine.step s.inbox e).map fun inbox => { s with inbox }
  | .save => some { s with store := s.state.rows }
  | .reconcileBootOrphans now =>
    if s.reconciled then none
    else some { s with
      inbox := { s.inbox with shared := s.state.reconcileBootOrphans now }
      reconciled := true }
  | .relaunch transports seenCapacity => some (start s.store s.state.drawn transports seenCapacity)

abbrev Step := Transition Sender Event

/-- The steps of a run over any number of launches, the first of which found `store`. -/
def steps (store : Rows) (drawn : Dict MessageID UUID) (transports : List MeshTransport)
    (seenCapacity : Nat) (events : List Event) : List Step :=
  trace step (start store drawn transports seenCapacity) events

/-- A call under way runs actions for `attempt`. -/
def Serving (attempt : Attempt) : Prop :=
  ∃ t ∈ s.inbox.threads, ∃ a ∈ t.todo ++ t.onThrow, a.attempt? = some attempt

/-- Every identifier of a row, and every one under way, was drawn for its row. -/
structure Recorded : Prop where
  taken : s.state.taken ≤ s.state.router.updates.length
  rows : ∀ row id, s.state.rows.outboundID row = some id → s.state.drawn.lookup id = some row
  store : ∀ row id, s.store.outboundID row = some id → s.state.drawn.lookup id = some row
  serving : ∀ attempt, s.Serving attempt → s.state.drawn.lookup attempt.id = some attempt.row

variable {s s' : Sender}

theorem not_serving_start (store : Rows) (drawn : Dict MessageID UUID)
    (transports : List MeshTransport) (seenCapacity : Nat) (attempt : Attempt) :
    ¬(start store drawn transports seenCapacity).Serving attempt :=
  fun ⟨_, ht, _⟩ => absurd ht List.not_mem_nil

theorem recorded_start {store : Rows} {drawn : Dict MessageID UUID}
    (hdrawn : ∀ row id, store.outboundID row = some id → drawn.lookup id = some row)
    (transports : List MeshTransport) (seenCapacity : Nat) :
    (start store drawn transports seenCapacity).Recorded :=
  ⟨Nat.le_refl 0, hdrawn, hdrawn,
    fun attempt h => absurd h (not_serving_start store drawn transports seenCapacity attempt)⟩

theorem drawn_empty (row : UUID) (id : MessageID) (h : Rows.outboundID ∅ row = some id) :
    (∅ : Dict MessageID UUID).lookup id = some row := nomatch h

/-- What a step of the inbox does: a call is added that serves no attempt yet, or an action runs,
and the attempts that are served then are served already, or by what the action brings in. -/
theorem inbox_cases {e : Interleave.Event Call Reply} {c : Config MessageInbox Action}
    (h : MessageInbox.machine.step s.inbox e = some c) :
    (s.inbox.acts e = none ∧ c.shared = s.state ∧
      ∀ attempt, Serving { s with inbox := c } attempt → s.Serving attempt) ∨
    ∃ a reply x, s.inbox.acts e = some (a, reply) ∧
      MessageInbox.exec s.state a reply = some (c.shared, x) ∧
      (∀ attempt, a.attempt? = some attempt → s.Serving attempt) ∧
      ∀ attempt, Serving { s with inbox := c } attempt →
        s.Serving attempt ∨ ∃ b ∈ x.added, b.attempt? = some attempt := by
  rcases Machine.step_cases h with ⟨call, rfl, rfl⟩ |
    ⟨i, reply, a, rest, handler, s', x, _, hi, hx, hacts, rfl⟩
  · refine .inl ⟨rfl, rfl, ?_⟩
    rintro attempt ⟨t, ht, b, hb, hattempt⟩
    rcases List.mem_append.mp ht with ht | ht
    · exact ⟨t, ht, b, hb, hattempt⟩
    · rw [List.mem_singleton.mp ht] at hb
      cases call with
      | operation | deliveryUpdate | router =>
        obtain rfl := List.mem_singleton.mp hb
        cases hattempt
  · have hthread := List.mem_of_getElem? hi
    refine .inr ⟨a, reply, x, hacts, hx, fun attempt ha => ⟨_, hthread, a, List.mem_cons_self, ha⟩,
      ?_⟩
    rintro attempt ⟨t, ht, b, hb, hattempt⟩
    rcases List.mem_or_eq_of_mem_set ht with ht | rfl
    · exact .inl ⟨t, ht, b, hb, hattempt⟩
    · rcases mem_leave hb with hnew | hrest | hhandler
      · exact .inr ⟨b, hnew, hattempt⟩
      · exact .inl ⟨_, hthread, b, List.mem_append_left _ (List.mem_cons_of_mem _ hrest), hattempt⟩
      · exact .inl ⟨_, hthread, b, List.mem_append_right _ hhandler, hattempt⟩

/-- What holds of the identifiers of the rows and of the attempts, an action keeps. -/
theorem recorded_exec {c : Config MessageInbox Action} {a : Action} {reply : Reply}
    {x : Exit Action}
    (hs : s.Recorded) (hx : MessageInbox.exec s.state a reply = some (c.shared, x))
    (hserving : ∀ attempt, a.attempt? = some attempt → s.Serving attempt)
    (hserving' : ∀ attempt, Serving { s with inbox := c } attempt →
      s.Serving attempt ∨ ∃ b ∈ x.added, b.attempt? = some attempt) :
    Recorded { s with inbox := c } := by
  have hids := MessageInbox.identifies_exec hx
  refine ⟨?_, fun row id hid => ?_, fun row id hid => hids.drawn_mono (hs.store row id hid),
    fun attempt hattempt => ?_⟩
  · show c.shared.taken ≤ c.shared.router.updates.length
    rcases MessageInbox.exec_stream hx with ⟨us, hupdates, htaken⟩ | ⟨u, now, hu, happly⟩
    · rw [hupdates, htaken, List.length_append]
      exact Nat.le_add_right_of_le hs.taken
    · rw [happly, MessageInbox.taken_apply, MessageInbox.router_apply]
      exact (List.getElem?_eq_some_iff.mp hu).1
  · have hold (hid : s.state.rows.outboundID row = some id) :
        c.shared.drawn.lookup id = some row := hids.drawn_mono (hs.rows row id hid)
    cases hids with
    | keep ids | reuse attempt hreuse ids | draw attempt hfresh hnone ids =>
      exact hold ((ids row).symm.trans hid)
    | stamp attempt hattempt ids drawn =>
      have hid := (ids row).symm.trans hid
      split at hid
      · rename_i hrow
        obtain ⟨m, _, hm⟩ := Option.bind_eq_some_iff.mp hid
        split at hm
        · cases hm
          rw [hrow]
          exact drawn ▸ hs.serving attempt (hserving attempt hattempt)
        · cases hm
      · exact hold hid
  · rcases hserving' attempt hattempt with hold | ⟨b, hb, hb'⟩
    · exact hids.drawn_mono (hs.serving attempt hold)
    · show c.shared.drawn.lookup attempt.id = some attempt.row
      cases hids with
      | keep ids drawn serves =>
        exact drawn ▸ hs.serving attempt (hserving attempt (serves b hb attempt hb'))
      | reuse other hid ids drawn serves =>
        rw [serves b hb attempt hb', drawn]
        exact hs.rows other.row other.id hid
      | draw other hfresh hnone ids drawn serves =>
        rw [serves b hb attempt hb', drawn]
        exact AList.lookup_insert _
      | stamp other hother ids drawn serves =>
        rw [serves b hb attempt hb', drawn]
        exact hs.serving other (hserving other hother)

theorem recorded_step {e : Event} (h : step s e = some s') (hs : s.Recorded) : s'.Recorded := by
  cases e with
  | inbox e =>
    obtain ⟨c, hc, rfl⟩ := Option.map_eq_some_iff.mp h
    rcases inbox_cases hc with ⟨_, hshared, hserving⟩ | ⟨a, reply, x, _, hx, hserving, hserving'⟩
    · refine ⟨?_, ?_, ?_, fun attempt hattempt => ?_⟩
      · show c.shared.taken ≤ c.shared.router.updates.length
        rw [hshared]
        exact hs.taken
      · show ∀ row id, c.shared.rows.outboundID row = some id → c.shared.drawn.lookup id = some row
        rw [hshared]
        exact hs.rows
      · show ∀ row id, s.store.outboundID row = some id → c.shared.drawn.lookup id = some row
        rw [hshared]
        exact hs.store
      · show c.shared.drawn.lookup attempt.id = some attempt.row
        rw [hshared]
        exact hs.serving attempt (hserving attempt hattempt)
    · exact recorded_exec hs hx hserving hserving'
  | save =>
    cases h
    exact ⟨hs.taken, hs.rows, hs.rows, hs.serving⟩
  | reconcileBootOrphans now =>
    simp only [step] at h
    split at h
    · cases h
    · cases h
      refine ⟨hs.taken, fun row id hid => hs.rows row id ?_, hs.store, hs.serving⟩
      exact (MessageInbox.outboundID_reconcile now row).symm.trans hid
  | relaunch transports seenCapacity =>
    cases h
    exact recorded_start hs.store transports seenCapacity

/-! ### Acknowledgements -/

/-- The step hands an acknowledgement of `id` to the router. -/
def Step.Acknowledges (t : Step) (id : MessageID) : Prop :=
  ∃ e hops reply, t.event = .inbox e ∧
    t.pre.inbox.acts e = some (.router (.call (.confirmDelivery id hops)), reply)

/-- The row is on disk under `id`, and no confirmation of it is known. -/
structure Awaits (s : Sender) (row : UUID) (id : MessageID) : Prop where
  stored : s.store.outboundID row = some id
  held : s.state.rows.outboundID row = some id
  unconfirmed : ¬s.state.ConfirmedRow row

/-- The row has the identifier at every step. -/
def Keeps (s : Sender) (later : List Event) (row : UUID) (id : MessageID) : Prop :=
  ∀ t ∈ trace step s later, t.pre.state.rows.outboundID row = some id

/-- The row is confirmed at some step. -/
def Reaches (s : Sender) (later : List Event) (row : UUID) : Prop :=
  ∃ t ∈ trace step s later, t.post.state.ConfirmedRow row

/-- An update finds the row that its identifier was drawn for. -/
theorem Recorded.outboundRow (hs : s.Recorded) {row : UUID} {id : MessageID}
    (hid : s.state.rows.outboundID row = some id) : s.state.rows.outboundRow id = some row := by
  obtain ⟨m, hrow, hout, hwire⟩ := Rows.outboundID_eq_some.mp hid
  refine MessageInbox.outboundRow_eq hrow hout hwire fun other m' hrow' hout' hwire' => ?_
  have hother := hs.rows other id (Rows.outboundID_eq_some.mpr ⟨m', hrow', hout', hwire'⟩)
  rw [hs.rows row id hid] at hother
  exact (Option.some.inj hother).symm

/-- The text of row 0 goes out under an identifier, up to its last save. -/
def sending (fresh : MessageID) : List Event :=
  [.inbox (.start (.operation (.send 0 "hi" (some [9])))),
    .inbox (.step 0 (.begin ⟨0, true, none, fresh, none, [], fun _ => []⟩)), .save,
    .inbox (.step 0 (.outbound .done)), .inbox (.step 0 (.outbound (.reachable true))),
    .inbox (.step 0 (.outbound (.router .ok))), .inbox (.step 0 (.outbound (.router .ok))),
    .inbox (.step 0 (.now 0)), .inbox (.step 0 (.now 0)), .inbox (.step 0 (.now 0)), .save]

end Sender

end AeroNyra
