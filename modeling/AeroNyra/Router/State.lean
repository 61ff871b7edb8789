import AeroNyra.Lib.Dict
import AeroNyra.Core.Message
import Mathlib.Data.Finset.Basic
import Mathlib.Data.Finset.Insert

/-! The state of the message router: the seen cache, the outbox, the stuck-send timers and the
stream of delivery updates, with the operations that never suspend. -/

namespace AeroNyra

/-! ### Seen cache -/

/-- The identifiers seen recently, with first-in-first-out eviction. -/
structure SeenCache where
  present : Finset MessageID
  /-- The identifiers in the order of their insertion, the oldest first. -/
  order : List MessageID
  capacity : Nat
  agree : ∀ id, id ∈ present ↔ id ∈ order
  nodup : order.Nodup
  bounded : order.length ≤ capacity
  positive : 1 ≤ capacity

namespace SeenCache

theorem bounded_new (capacity : Nat) : ([] : List MessageID).length ≤ max 1 capacity :=
    Nat.zero_le _

theorem positive_new (capacity : Nat) : 1 ≤ max 1 capacity := Nat.le_max_left _ _

def new (capacity : Nat) : SeenCache where
  present := ∅
  order := []
  capacity := max 1 capacity
  agree := by simp
  nodup := List.nodup_nil
  bounded := bounded_new capacity
  positive := positive_new capacity

/-- Whether `id` was there already, and the cache with `id` inserted. -/
def containsOrInsert (c : SeenCache) (id : MessageID) : Bool × SeenCache :=
  if seen : id ∈ c.present then (true, c)
  else if full : c.capacity < (c.order ++ [id]).length then
    match horder : c.order with
    | [] => absurd full (by have := c.positive; simp [horder]; omega)
    | evicted :: rest =>
      (false, { c with
        present := (insert id c.present).erase evicted
        order := rest ++ [id]
        agree := by
          have hnodup := c.nodup
          have hagree := c.agree
          rw [horder] at hnodup hagree
          intro other
          have hid : id ≠ evicted := fun h => seen ((hagree id).mpr (h ▸ List.mem_cons_self))
          simp only [Finset.mem_erase, Finset.mem_insert, hagree, List.mem_cons, List.mem_append,
            List.not_mem_nil, or_false]
          have : other = evicted → other ∉ rest := fun h => h ▸ (List.nodup_cons.mp hnodup).1
          grind
        nodup := by
          have hnodup := c.nodup
          have hid : id ∉ c.order := fun h => seen ((c.agree id).mpr h)
          rw [horder] at hnodup hid
          simp only [List.mem_cons, not_or] at hid
          exact List.nodup_append.mpr ⟨(List.nodup_cons.mp hnodup).2, List.nodup_singleton _,
            fun other h _ hl e => hid.2 (List.mem_singleton.mp hl ▸ e ▸ h)⟩
        bounded := by
          have := c.bounded
          rw [horder] at this
          simpa using this })
  else
    (false, { c with
      present := insert id c.present
      order := c.order ++ [id]
      agree := fun other => by simp [c.agree, or_comm]
      nodup := by
        have hid : id ∉ c.order := fun h => seen ((c.agree id).mpr h)
        exact List.nodup_append.mpr ⟨c.nodup, List.nodup_singleton _,
          fun other h _ hl e => hid (List.mem_singleton.mp hl ▸ e ▸ h)⟩
      bounded := Nat.not_lt.mp full })

end SeenCache

/-! ### Transports and outbox -/

inductive TransportKind
  | ble
  | internet
  deriving DecidableEq

/-- A transport by what the router asks of it: its kind, and whether it publishes to one
recipient. -/
structure MeshTransport where
  kind : TransportKind
  addressed : Bool
  deriving DecidableEq

/-- A change of an outbound message's delivery state, for the UI. -/
structure DeliveryUpdate where
  id : MessageID
  state : MessageDeliveryState
  deriving DecidableEq

structure OutboxEntry where
  /-- The sealed bytes; none for a media transfer, which has no single envelope. -/
  envelope : Option Envelope
  state : MessageDeliveryState
  /-- The recipient's mesh identity. -/
  peerKey : Option Data
  /-- The recipient's Nostr public key. -/
  nostrRecipient : Option Data
  reroutedOverNostr : Bool
  deriving DecidableEq

/-- Durations, in seconds. -/
abbrev Duration := Nat

/-- A stuck-send timer that is asleep. -/
structure SendTimer where
  id : MessageID
  duration : Duration
  deriving DecidableEq

/-! ### Router -/

/-- The router's state.  A timer task is a number: `timeouts` holds the one that the router can
still cancel for each identifier, and `asleep` those that have neither elapsed nor been
cancelled. -/
structure MessageRouter where
  transports : List MeshTransport
  seen : SeenCache
  outbox : Dict MessageID OutboxEntry
  timeouts : Dict MessageID Nat
  asleep : Dict Nat SendTimer
  nextTimer : Nat
  /-- The updates yielded so far, the oldest first. -/
  updates : List DeliveryUpdate

namespace MessageRouter

def defaultSeenCapacity : Nat := 2048

/-- How long a tracked text may stay `sent` without an acknowledgement. -/
def deliveryTimeout : Duration := 45

/-- The same for a media transfer. -/
def mediaDeliveryTimeout : Duration := 90

def new (transports : List MeshTransport) (seenCapacity : Nat) : MessageRouter :=
  ⟨transports, .new seenCapacity, ∅, ∅, ∅, 0, []⟩

variable (r : MessageRouter)

/-- The tracked state of an outbound message. -/
def stateOf (id : MessageID) : Option MessageDeliveryState :=
  (r.outbox.lookup id).map (·.state)

def hasTransport (kind : TransportKind) : Bool := r.transports.any (·.kind == kind)

def hasAddressedTransport : Bool := r.transports.any (·.addressed)

/-- The router after `seen.containsOrInsert`, whose answer a send ignores. -/
def markSeen (id : MessageID) : MessageRouter :=
  { r with seen := (r.seen.containsOrInsert id).2 }

def cancelTimeout (id : MessageID) : MessageRouter :=
  { r with
    asleep := match r.timeouts.lookup id with
      | some timer => AList.erase timer r.asleep
      | none => r.asleep
    timeouts := AList.erase id r.timeouts }

def armTimeout (id : MessageID) (duration : Duration) : MessageRouter :=
  let r := r.cancelTimeout id
  { r with
    timeouts := AList.insert id r.nextTimer r.timeouts
    asleep := AList.insert r.nextTimer ⟨id, duration⟩ r.asleep
    nextTimer := r.nextTimer + 1 }

/-- Records `state` for `id` and tells the UI. -/
def update (id : MessageID) (state : MessageDeliveryState) : MessageRouter :=
  let r := { r with outbox := r.outbox.modify id ({ · with state }) }
  let r := if state.isTerminal then r.cancelTimeout id else r
  { r with updates := r.updates ++ [⟨id, state⟩] }

def timeoutFired (id : MessageID) : MessageRouter :=
  let r := { r with timeouts := AList.erase id r.timeouts }
  match r.stateOf id with
  | some state => if state.isTerminal then r else r.update id .notDelivered
  | none => r

/-- Tracks a message that has no envelope of its own. -/
def beginTracking (id : MessageID) : MessageRouter :=
  match r.outbox.lookup id with
  | none => { r with outbox := AList.insert id ⟨none, .sent, none, none, false⟩ r.outbox }
  | some _ => r

def startDeliveryTimeout (id : MessageID) (duration : Duration) : MessageRouter :=
  match r.stateOf id with
  | some state => if state.isTerminal || state == .cast then r else r.armTimeout id duration
  | none => r

def extendTimeout (id : MessageID) (duration : Duration) : MessageRouter :=
  match r.stateOf id with
  | some state => if state.isTerminal || state == .cast then r else r.armTimeout id duration
  | none => r

/-- `update` for an identifier that is tracked. -/
def updateTracked (id : MessageID) (state : MessageDeliveryState) : MessageRouter :=
  match r.outbox.lookup id with
  | none => r
  | some _ => r.update id state

def markFindingPath (id : MessageID) : MessageRouter := r.updateTracked id .findingPath

def confirmDelivery (id : MessageID) (hops : Int) : MessageRouter :=
  r.updateTracked id (if hops ≤ 0 then .delivered else .relayed hops)

def confirmFailure (id : MessageID) : MessageRouter := r.updateTracked id .notDelivered

def commitToRelay (id : MessageID) : MessageRouter :=
  match r.outbox.lookup id with
  | none => r
  | some _ => (r.update id .cast).cancelTimeout id

/-! ### What the operations leave in the outbox -/

variable {r} (id j : MessageID)

@[simp] theorem cancelTimeout_asleep (task : Nat) :
    (r.cancelTimeout id).asleep.lookup task =
      if r.timeouts.lookup id = some task then none else r.asleep.lookup task := by
  unfold cancelTimeout
  cases h : r.timeouts.lookup id with
  | none => simp
  | some handle => simp [eq_comm]

@[simp] theorem markSeen_outbox : (r.markSeen id).outbox = r.outbox := rfl

@[simp] theorem markSeen_transports : (r.markSeen id).transports = r.transports := rfl

@[simp] theorem cancelTimeout_outbox : (r.cancelTimeout id).outbox = r.outbox := rfl

@[simp] theorem cancelTimeout_transports : (r.cancelTimeout id).transports = r.transports := rfl

@[simp] theorem armTimeout_outbox (d : Duration) : (r.armTimeout id d).outbox = r.outbox := rfl

@[simp] theorem update_outbox (s : MessageDeliveryState) :
    (r.update id s).outbox = r.outbox.modify id ({ · with state := s }) := by
  unfold update
  cases s.isTerminal <;> rfl

@[simp] theorem stateOf_markSeen : (r.markSeen id).stateOf j = r.stateOf j := rfl

@[simp] theorem stateOf_cancelTimeout : (r.cancelTimeout id).stateOf j = r.stateOf j := rfl

@[simp] theorem stateOf_armTimeout (d : Duration) :
    (r.armTimeout id d).stateOf j = r.stateOf j := rfl

theorem stateOf_update (s : MessageDeliveryState) :
    (r.update id s).stateOf j = if j = id then (r.stateOf id).map fun _ => s else r.stateOf j := by
  simp only [stateOf, update_outbox, Dict.lookup_modify]
  split <;> simp [Function.comp_def]

theorem stateOf_updateTracked (s : MessageDeliveryState) :
    (r.updateTracked id s).stateOf j =
      if j = id then (r.stateOf id).map fun _ => s else r.stateOf j := by
  unfold updateTracked
  split
  · rename_i h
    by_cases hj : j = id
    · subst hj
      simp [stateOf, h]
    · simp [hj]
  · exact stateOf_update id j s

theorem stateOf_commitToRelay :
    (r.commitToRelay id).stateOf j =
      if j = id then (r.stateOf id).map fun _ => .cast else r.stateOf j := by
  rw [← stateOf_updateTracked]
  unfold commitToRelay updateTracked
  split <;> rfl

theorem stateOf_beginTracking :
    (r.beginTracking id).stateOf j =
      if j = id then some ((r.stateOf id).getD .sent) else r.stateOf j := by
  unfold beginTracking
  split
  · rename_i h
    simp only [stateOf, Dict.lookup_insert]
    split <;> simp [h]
  · rename_i e h
    by_cases hj : j = id
    · subst hj
      simp [stateOf, h]
    · simp [hj]

@[simp] theorem stateOf_startDeliveryTimeout (d : Duration) :
    (r.startDeliveryTimeout id d).stateOf j = r.stateOf j := by
  unfold startDeliveryTimeout
  split
  · split <;> simp
  · rfl

@[simp] theorem stateOf_extendTimeout (d : Duration) :
    (r.extendTimeout id d).stateOf j = r.stateOf j := by
  unfold extendTimeout
  split
  · split <;> simp
  · rfl

end MessageRouter

end AeroNyra
