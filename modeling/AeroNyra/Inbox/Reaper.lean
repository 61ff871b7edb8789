import AeroNyra.Inbox.Ephemerality
import AeroNyra.Inbox.Launches

/-! What the reaper takes from the sender.  A voice note that was confirmed once is taken some time
after its first confirmation, whatever has become of it since: it is safe to take while no failure
that comes late overwrites the confirmation. -/

namespace AeroNyra

namespace Message

variable (m : Message)

/-- The row has failed, so that `resend` would send its blob, or it is in flight, so that
`redriveInFlightMedia` would when its peer departs. -/
def awaitsRetry : Bool := m.deliveryState == .notDelivered || !m.deliveryState.isTerminal

theorem awaitsRetry_eq : m.awaitsRetry = !m.deliveryState.isConfirmed := by
  unfold awaitsRetry
  cases m.deliveryState <;> rfl

/-- A voice note of ours that was confirmed once. -/
def isReceipted : Bool :=
  m.isOutbound && !m.isStory && m.mediaMime == some .m4a && m.deliveredAt.isSome

/-- The reaper has nothing to take from the row while it awaits a retry, and has taken nothing. -/
structure Kept : Prop where
  confirmed : m.isReceipted → m.deliveryState.isConfirmed
  receipted : m.isOutbound → ¬m.isStory → m.isTombstone → m.isReceipted

variable {m}

/-- A row that was never confirmed has its blob. -/
theorem kept_unconfirmed (hdelivered : m.deliveredAt = none) (hblob : ¬m.isTombstone) : m.Kept :=
  ⟨fun h => by simp [isReceipted, hdelivered] at h, fun _ _ h => absurd h hblob⟩

theorem kept_setDeliveryState {state : MessageDeliveryState} (now : Date) (h : m.Kept)
    (hstate : m.isReceipted → state.isConfirmed) : (m.setDeliveryState state now).Kept := by
  constructor
  · show (m.setDeliveryState state now).isReceipted → state.isConfirmed
    intro hreceipted
    by_cases hold : m.deliveredAt.isSome
    · apply hstate
      simp only [isReceipted, setDeliveryState, Bool.and_eq_true] at hreceipted ⊢
      exact ⟨hreceipted.1, hold⟩
    · -- the stamp is new, so the state is a confirmation
      simp only [isReceipted, setDeliveryState, Bool.and_eq_true] at hreceipted
      have hstamp := hreceipted.2
      split at hstamp
      · rename_i hguard
        exact hguard.2
      · exact absurd hstamp hold
  · intro hout hstory hblob
    have hreceipted := h.receipted hout hstory hblob
    simp only [isReceipted, Bool.and_eq_true] at hreceipted
    simp only [isReceipted, setDeliveryState, Bool.and_eq_true]
    refine ⟨hreceipted.1, ?_⟩
    split
    · rfl
    · exact hreceipted.2

theorem kept_reconciled (now : Date) (h : m.Kept) : (m.reconciled now).Kept := by
  unfold reconciled
  split
  · rename_i horphan
    apply kept_setDeliveryState now h
    intro hreceipted
    have hconfirmed := h.confirmed hreceipted
    simp only [isOrphan, Bool.and_eq_true, Bool.or_eq_true, beq_iff_eq] at horphan
    rcases horphan.2 with (hstate | hstate) | hstate <;>
      simp [hstate, MessageDeliveryState.isConfirmed] at hconfirmed
  · exact h

theorem kept_reaped (now : Date) (h : m.Kept) : (m.reaped now).Kept := by
  rcases m.reaped_cases now with ⟨hreapable, _, heq⟩ | heq
  · rw [heq]
    refine ⟨h.confirmed, fun hout hstory _ => ?_⟩
    have hstory : m.isStory = false := Bool.eq_false_iff.mpr hstory
    have hout : m.isOutbound = true := hout
    simp only [isReapable, hout, hstory, Bool.and_eq_true] at hreapable
    simpa [isReceipted, hout, hstory] using hreapable.2
  · rwa [heq]

theorem kept_advance {u : MessageDeliveryState} (now : Date) (h : m.Kept)
    (hlate : u = .notDelivered → ¬m.isReceipted) : (MessageInbox.advance u now m).Kept := by
  unfold MessageInbox.advance
  split
  · exact h
  · rename_i hguard
    split
    · exact h
    · apply kept_setDeliveryState now h
      intro hreceipted
      have hterminal := MessageDeliveryState.isTerminal_of_isConfirmed (h.confirmed hreceipted)
      have hu : u.isTerminal := by simpa [hterminal] using hguard
      cases u with
      | delivered | relayed => rfl
      | notDelivered => exact absurd hreceipted (hlate rfl)
      | waitingForRange | sent | cast | findingPath => cases hu

end Message

/-- The reaper has taken nothing that a retry of the rows would need, and will not. -/
def Rows.Kept (rows : Rows) : Prop := ∀ row m, rows.lookup row = some m → m.Kept

/-- The row is a voice note of ours that was confirmed once. -/
def Rows.receipted (rows : Rows) (row : UUID) : Bool := (rows.lookup row).any (·.isReceipted)

namespace Rows

variable {rows : Rows} {row : UUID}

theorem kept_insert {m : Message} (h : rows.Kept) (hm : m.Kept) :
    Rows.Kept (AList.insert row m rows) := by
  intro j m' hj
  rw [Dict.lookup_insert] at hj
  split at hj
  · rwa [← Option.some.inj hj]
  · exact h j m' hj

theorem kept_modify {f : Message → Message} (h : rows.Kept)
    (hf : ∀ m, rows.lookup row = some m → m.Kept → (f m).Kept) :
    Rows.Kept (rows.modify row f) := by
  intro j m' hj
  rw [Dict.lookup_modify] at hj
  split at hj
  · obtain ⟨m, hm, rfl⟩ := Option.map_eq_some_iff.mp hj
    exact hf m hm (h row m hm)
  · exact h j m' hj

theorem kept_mapValues {f : Message → Message} (h : rows.Kept) (hf : ∀ m, m.Kept → (f m).Kept) :
    Rows.Kept (rows.mapValues f) := by
  intro j m' hj
  rw [Dict.lookup_mapValues] at hj
  obtain ⟨m, hm, rfl⟩ := Option.map_eq_some_iff.mp hj
  exact hf m (h j m hm)

theorem receipted_eq_true {m : Message} (hrow : rows.lookup row = some m) (h : m.isReceipted) :
    rows.receipted row := by
  simp [receipted, hrow, h]

end Rows

namespace MessageInbox

open Interleave

variable (s : MessageInbox)

/-- The action writes over a confirmation: it gives a voice note that was confirmed once a state
that is none.  An update that is not terminal leaves such a row alone. -/
def failsLate : Action → Bool
  | .settle attempt (some state) => !state.isConfirmed && s.rows.receipted attempt.row
  | .fail attempt => s.rows.receipted attempt.row
  | .apply => s.router.updates[s.taken]?.any fun u =>
      u.state == .notDelivered && (s.rows.outboundRow u.id).any s.rows.receipted
  | _ => false

variable {s s' : MessageInbox} {a : Action} {reply : Reply} {x : Exit Action}

theorem kept_set {row : UUID} {state : MessageDeliveryState} (now : Date) (h : s.rows.Kept)
    (hlate : ∀ m, s.rows.lookup row = some m → m.isReceipted → state.isConfirmed) :
    (s.setDeliveryState row state now).rows.Kept :=
  Rows.kept_modify h fun m hm hkept => Message.kept_setDeliveryState now hkept (hlate m hm)

theorem kept_putInFlight {row : UUID} {reuse : Option MessageID} {c : Circumstances}
    {outgoing : MessageID → Outbound.Outgoing} (h : s.rows.Kept)
    (hput : s.putInFlight row reuse c outgoing = some (s', x)) : s'.rows.Kept := by
  unfold putInFlight at hput
  split at hput
  · cases hput
    exact h
  · split at hput
    · cases hput
      exact h
    · cases hput

theorem kept_compose {row : UUID} {m : Message} {c : Circumstances}
    {outgoing : MessageID → Outbound.Outgoing} (h : s.rows.Kept) (hdelivered : m.deliveredAt = none)
    (hblob : ¬m.isTombstone) (hcompose : s.compose row m c outgoing = some (s', x)) :
    s'.rows.Kept := by
  have hinsert : Rows.Kept (AList.insert row m s.rows) :=
    Rows.kept_insert h (Message.kept_unconfirmed hdelivered hblob)
  unfold compose at hcompose
  split at hcompose
  · dsimp only at hcompose
    split at hcompose
    · exact kept_putInFlight (s := { s with rows := AList.insert row m s.rows }) hinsert hcompose
    · cases hcompose
      apply kept_set (s := { s with rows := AList.insert row m s.rows }) c.now hinsert
      intro m' hm' hreceipted
      have hm' : (AList.insert row m s.rows).lookup row = some m' := hm'
      rw [Dict.lookup_insert, if_pos rfl] at hm'
      rw [← Option.some.inj hm'] at hreceipted
      simp [Message.isReceipted, hdelivered] at hreceipted
  · cases hcompose

theorem kept_begin {op : Operation} {c : Circumstances} (h : s.rows.Kept)
    (hbegin : s.begin c op = some (s', x)) : s'.rows.Kept := by
  have hrefused (heq : some (s, (.goOn [] : Exit Action)) = some (s', x)) : s'.rows.Kept := by
    cases heq
    exact h
  cases op with
  | send row trimmed peer =>
    simp only [MessageInbox.begin, send] at hbegin
    split at hbegin
    · split at hbegin
      · exact hrefused hbegin
      · refine kept_compose h ?_ ?_ hbegin
        · rfl
        · exact Bool.false_ne_true
    · exact hrefused hbegin
  | sendMedia row data mime peer isStory isPushToTalk =>
    simp only [MessageInbox.begin, sendMedia] at hbegin
    split at hbegin
    · refine kept_compose h ?_ ?_ hbegin
      · rfl
      · exact Bool.false_ne_true
    · exact hrefused hbegin
  | resend row =>
    obtain ⟨m, hrow, hbegin⟩ := Option.bind_eq_some_iff.mp hbegin
    split at hbegin
    · split at hbegin
      · rename_i hguard
        refine kept_putInFlight (kept_set c.now h fun m' hm' hreceipted => ?_) hbegin
        -- a confirmed row is not sent again
        obtain rfl := Option.some.inj (hrow.symm.trans hm')
        have hconfirmed := (h row m hrow).confirmed hreceipted
        simp only [Bool.and_eq_true, beq_iff_eq] at hguard
        rw [hguard.1.1.2] at hconfirmed
        cases hconfirmed
      · exact hrefused hbegin
    · exact hrefused hbegin
  | redriveInFlightMedia row departed =>
    obtain ⟨m, hrow, hbegin⟩ := Option.bind_eq_some_iff.mp hbegin
    split at hbegin
    · split at hbegin
      · exact kept_putInFlight (s := { s with
            rows := s.rows.modify row ({ · with nostrRedriveDone := true }) })
          (Rows.kept_modify h fun m _ hm => ⟨hm.confirmed, hm.receipted⟩) hbegin
      · exact hrefused hbegin
    · exact hrefused hbegin

theorem kept_apply {u : DeliveryUpdate} (now : Date) (h : s.rows.Kept)
    (hlate : u.state = .notDelivered → ¬(s.rows.outboundRow u.id).any s.rows.receipted) :
    (s.apply u now).rows.Kept := by
  unfold MessageInbox.apply
  split
  · rename_i row hrow
    refine Rows.kept_modify h fun m hm hkept => ?_
    apply Message.kept_advance now hkept
    intro hu hreceipted
    apply hlate hu
    simp [hrow, Rows.receipted_eq_true hm hreceipted]
  · exact h

/-- An action that does not fail late keeps what a retry may need. -/
theorem kept_exec (hx : exec s a reply = some (s', x)) (hlate : ¬s.failsLate a) (h : s.rows.Kept) :
    s'.rows.Kept := by
  unfold exec at hx
  split at hx
  · exact kept_begin h hx
  · obtain ⟨p, _, heq⟩ := Option.map_eq_some_iff.mp hx
    cases heq
    exact h
  · cases hx
    exact Rows.kept_modify h fun m _ hm => ⟨hm.confirmed, hm.receipted⟩
  · cases hx
    exact h
  · rename_i attempt committed now
    cases hx
    cases committed with
    | none => exact h
    | some state =>
      apply kept_set now h
      intro m hm hreceipted
      have hrow := Rows.receipted_eq_true hm hreceipted
      simpa [failsLate, hrow] using hlate
  · rename_i attempt now
    cases hx
    apply kept_set now h
    intro m hm hreceipted
    exact absurd (Rows.receipted_eq_true hm hreceipted) hlate
  · rename_i now
    obtain ⟨u, hu, heq⟩ := Option.map_eq_some_iff.mp hx
    cases heq
    apply kept_apply (s := { s with taken := s.taken + 1 }) now h
    intro hstate hreceipted
    apply hlate
    simp only [failsLate, hu, Option.any_some, hstate, beq_self_eq_true, Bool.true_and]
    exact hreceipted
  · obtain ⟨p, _, heq⟩ := Option.map_eq_some_iff.mp hx
    cases heq
    exact h
  · cases hx

end MessageInbox

open MessageInbox (Circumstances)

namespace Sender

open Interleave

/-- An event of the sender, or a pass of its reaper, which runs at the boot and whenever the app
comes to the foreground, at any reading of the clock.  The save that follows it is an event of its
own. -/
inductive Turn
  | event (e : Event)
  | reapExpiredMedia (now : Date)

variable (s : Sender)

def turn : Turn → Option Sender
  | .event e => s.step e
  | .reapExpiredMedia now => some { s with
      inbox := { s.inbox with
        shared := { s.state with rows := s.state.rows.reapExpiredMedia now } } }

abbrev Stage := Transition Sender Turn

/-- The steps of a run over any number of launches, the first of which found no rows. -/
def stages (transports : List MeshTransport) (seenCapacity : Nat) (turns : List Turn) :
    List Stage :=
  trace turn (start ∅ ∅ transports seenCapacity) turns

/-- The step is a pass of the reaper that takes the blob of an outbound row that is no story. -/
def Stage.Takes (t : Stage) (row : UUID) : Prop :=
  ∃ now m m', t.event = .reapExpiredMedia now ∧ t.pre.state.rows.lookup row = some m ∧
    m.isOutbound ∧ ¬m.isStory ∧ m.mediaData.isSome ∧
    t.post.state.rows.lookup row = some m' ∧ m'.mediaData = none

/-- The row awaits a retry, and its blob is gone. -/
def Misses (row : UUID) : Prop :=
  ∃ m, s.state.rows.lookup row = some m ∧ m.isOutbound ∧ ¬m.isStory ∧ m.isTombstone ∧ m.awaitsRetry

/-- What the reaper takes, no retry needs from then on. -/
def Spares (steps : List Stage) : Prop :=
  ∀ before t after, steps = before ++ t :: after → ∀ row, t.Takes row →
    ∀ u ∈ t :: after, ¬u.post.Misses row

/-- The event writes over the confirmation of a voice note. -/
def failsLate : Turn → Bool
  | .event (.inbox e) => (s.inbox.acts e).any fun p => s.state.failsLate p.1
  | _ => false

/-- What a retry may need is there, in the context and on disk. -/
structure Kept : Prop where
  context : s.state.rows.Kept
  store : s.store.Kept

variable {s s' : Sender}

theorem kept_start {store : Rows} (h : store.Kept) (drawn : Dict MessageID UUID)
    (transports : List MeshTransport) (seenCapacity : Nat) :
    (start store drawn transports seenCapacity).Kept := ⟨h, h⟩

theorem kept_turn {e : Turn} (ht : s.turn e = some s') (hlate : ¬s.failsLate e) (h : s.Kept) :
    s'.Kept := by
  cases e with
  | reapExpiredMedia now =>
    cases ht
    exact ⟨Rows.kept_mapValues h.context fun m hm => Message.kept_reaped now hm, h.store⟩
  | event e =>
    cases e with
    | inbox e =>
      obtain ⟨c, hc, rfl⟩ := Option.map_eq_some_iff.mp ht
      refine ⟨?_, h.store⟩
      rcases inbox_cases hc with ⟨_, hshared, _⟩ | ⟨a, reply, x, hacts, hx, _⟩
      · show c.shared.rows.Kept
        rw [hshared]
        exact h.context
      · refine MessageInbox.kept_exec hx (fun hfails => hlate ?_) h.context
        simp [failsLate, hacts, hfails]
    | save =>
      cases ht
      exact ⟨h.context, h.context⟩
    | reconcileBootOrphans now =>
      simp only [turn, step] at ht
      split at ht
      · cases ht
      · cases ht
        exact ⟨Rows.kept_mapValues h.context fun m hm => Message.kept_reconciled now hm, h.store⟩
    | relaunch transports seenCapacity =>
      cases ht
      exact kept_start h.store _ transports seenCapacity

theorem Kept.not_misses (h : s.Kept) (row : UUID) : ¬s.Misses row := by
  rintro ⟨m, hrow, hout, hstory, hblob, hretry⟩
  have hm := h.context row m hrow
  have hconfirmed := hm.confirmed (hm.receipted hout hstory hblob)
  simp [Message.awaitsRetry_eq, hconfirmed] at hretry

/-- In every run over any number of launches, with passes of the reaper at any readings of the
clock, in which no failure comes after a confirmation: no retry needs what the reaper has taken. -/
theorem reaper_spares (transports : List MeshTransport) (seenCapacity : Nat) (turns : List Turn)
    (hlate : ∀ t ∈ stages transports seenCapacity turns, ¬t.pre.failsLate t.event) :
    Spares (stages transports seenCapacity turns) := by
  intro before t after heq row _ u hu
  have hmem : u ∈ stages transports seenCapacity turns := by
    rw [heq]
    exact List.mem_append_right before hu
  have hempty : Rows.Kept ∅ := fun _ _ hm => nomatch hm
  have hpre : u.pre.Kept := trace_invariant_of Kept (fun t => ¬t.pre.failsLate t.event)
    (fun _ ht hlate h => kept_turn ht hlate h)
    (kept_start hempty ∅ transports seenCapacity) hlate hmem
  exact (kept_turn (step_of_mem_trace hmem) (hlate u hmem) hpre).not_misses row

/-- A voice note goes out over BLE, in a manifest and one chunk. -/
def sendingNote : List Turn :=
  let c : Circumstances :=
    ⟨0, true, some [7], .filled 1, none, [], fun _ => [.new (.filled 2) [2], .new (.filled 3) [3]]⟩
  [.inbox (.start (.operation (.sendMedia 0 [1] .m4a (some [9]) false false))),
    .inbox (.step 0 (.begin c)), .inbox (.step 0 (.outbound .done)),
    .inbox (.step 0 (.outbound (.reachable true))), .inbox (.step 0 (.outbound .done)),
    .inbox (.step 0 (.outbound .done)), .inbox (.step 0 (.outbound (.router .ok))),
    .inbox (.step 0 (.outbound (.router .ok))), .inbox (.step 0 (.outbound .done)),
    .inbox (.step 0 (.outbound (.router .ok))), .inbox (.step 0 (.outbound (.router .ok))),
    .inbox (.step 0 (.outbound .done)), .inbox (.step 0 (.now 0)), .inbox (.step 0 (.now 0)),
    .inbox (.step 0 (.now 0)), .save].map .event

/-- The receipt of the note comes in, as the call at `i`, and reaches the row at 100. -/
def noteAcknowledged (i : Nat) : List Turn :=
  [.inbox (.start MessageInbox.firstReceipt), .inbox (.step i (.router .ok)),
    .inbox (.start .deliveryUpdate), .inbox (.step (i + 1) (.now 100)), .save].map .event

/-- The peer departs, so the note goes out once more over the relays; its receipt comes in
meanwhile, and then the relays fail. -/
def redrivingNote : List Turn :=
  let c : Circumstances :=
    ⟨1, true, some [7], .filled 4, none, [], fun _ => [.new (.filled 2) [2], .new (.filled 3) [3]]⟩
  (([.inbox (.start (.operation (.redriveInFlightMedia 0 [[9]]))), .inbox (.step 1 (.begin c)),
    .inbox (.step 1 (.outbound .done)), .inbox (.step 1 (.outbound (.reachable false))),
    .inbox (.step 1 (.outbound .done)), .inbox (.step 1 (.outbound .done)),
    .inbox (.step 1 (.outbound (.router .ok)))] : List Event).map .event : List Turn) ++
  noteAcknowledged 2 ++
  (([.inbox (.step 1 (.outbound (.router .failed))), .inbox (.step 1 (.outbound (.router .ok))),
    .inbox (.step 1 (.now 101)), .save] : List Event).map .event : List Turn)

/-- A device with both transports, before its first row. -/
def twoTransports : List MeshTransport := [⟨.ble, false⟩, ⟨.internet, true⟩]

/-- A pass at `now` after `turns` takes the blob of an outbound row that is no story, which meets
`p`. -/
def takes (p : Message → Bool) (row : UUID) (now : Date) (turns : List Turn) : Bool :=
  (run turn (start ∅ ∅ twoTransports 1) turns).any fun s =>
    (s.state.rows.lookup row).any fun m =>
      m.isOutbound && !m.isStory && m.isReapable && m.isExpired now && p m

theorem takes_last (p : Message → Bool) (row : UUID) (now : Date) (turns : List Turn)
    (h : takes p row now turns) :
    ∃ t m, stages twoTransports 1 (turns ++ ([.reapExpiredMedia now] : List Turn)) =
        stages twoTransports 1 turns ++ [t] ∧ t.Takes row ∧
      t.post.state.rows.lookup row = some { m with mediaData := none } ∧
      m.isOutbound ∧ ¬m.isStory ∧ m.mediaMime.isSome ∧ p m := by
  obtain ⟨s, hrun, hs⟩ := Option.any_eq_true _ _ |>.mp h
  obtain ⟨m, hrow, hm⟩ := Option.any_eq_true _ _ |>.mp hs
  simp only [Bool.and_eq_true, Bool.not_eq_true'] at hm
  obtain ⟨⟨⟨⟨hout, hstory⟩, hreapable⟩, hexpired⟩, hp⟩ := hm
  have hreaped : m.reaped now = { m with mediaData := none } :=
    if_pos (by simp [hreapable, hexpired])
  simp only [Message.isReapable, hout, hstory, Bool.and_eq_true] at hreapable
  have hmime : m.mediaMime = some .m4a := by
    have h := hreapable.2
    simp only [Bool.not_true, Bool.or_self, Bool.false_or, Bool.and_eq_true, beq_iff_eq] at h
    exact h.1
  have hpost : (s.state.rows.reapExpiredMedia now).lookup row =
    some { m with mediaData := none } := by
    rw [Rows.lookup_reapExpiredMedia, hrow, Option.map_some, hreaped]
  refine ⟨⟨s, .reapExpiredMedia now, _⟩, m, trace_append hrun, ?_, hpost, hout, ?_, ?_, hp⟩
  · exact ⟨now, m, _, rfl, hrow, hout, Bool.eq_false_iff.mp hstory, hreapable.1, hpost, rfl⟩
  · exact Bool.eq_false_iff.mp hstory
  · rw [hmime]
    rfl

/-- A note that was received, and is gone two minutes later. -/
theorem reaper_spares_acked :
    let turns := sendingNote ++ noteAcknowledged 1 ++ [.reapExpiredMedia 220]
    (∃ t ∈ stages twoTransports 1 turns, t.Takes 0) ∧
      (∀ t ∈ stages twoTransports 1 turns, ¬t.pre.failsLate t.event) ∧
      Spares (stages twoTransports 1 turns) := by
  intro turns
  have hall : (stages twoTransports 1 turns).all fun t => !t.pre.failsLate t.event := by
    decide +kernel
  have hlate : ∀ t ∈ stages twoTransports 1 turns, ¬t.pre.failsLate t.event := fun t ht => by
    simpa using List.all_eq_true.mp hall t ht
  obtain ⟨t, _, heq, htakes, _⟩ := takes_last (fun _ => true) 0 220
    (sendingNote ++ noteAcknowledged 1) (by decide +kernel)
  refine ⟨⟨t, ?_, htakes⟩, hlate, reaper_spares twoTransports 1 turns hlate⟩
  rw [heq]
  exact List.mem_append_right _ (List.mem_singleton_self t)

/-- A note whose second transfer fails after the receipt of the first: the row has failed, and two
minutes after the receipt there is nothing left to send. -/
theorem reaper_takes_failed : ¬∀ (transports : List MeshTransport) (seenCapacity : Nat)
    (turns : List Turn), Spares (stages transports seenCapacity turns) := by
  intro hspares
  obtain ⟨t, m, heq, htakes, hrow, hout, hstory, hmime, hretry⟩ :=
    takes_last (·.awaitsRetry) 0 220 (sendingNote ++ redrivingNote) (by decide +kernel)
  refine hspares twoTransports 1 _ _ t [] heq 0 htakes t (List.mem_singleton_self t) ?_
  exact ⟨_, hrow, hout, hstory, by simpa [Message.isTombstone] using hmime, hretry⟩

end Sender

end AeroNyra
