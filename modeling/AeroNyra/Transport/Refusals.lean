import AeroNyra.Transport.SelfHealing

/-! The backoff towards a relay that ends our subscription again and again. -/

namespace AeroNyra

def CallbackKind.isReceive : CallbackKind → Bool
  | .receive _ => true
  | _ => false

namespace RelayLine

variable {l : RelayLine} {i : Nat} {frame : RelayMessage}

/-- The frame that the callback reads from the connection's socket. -/
def frameRead (l : RelayLine) (i : Nat) : CallbackResult → Option RelayMessage
  | .success frame =>
    if (l.pending[i]?).any fun c => c.kind.isReceive && c.generation == l.conn.generation
      then frame else none
  | .failure => none

/-- The frame ends our subscription for a reason that retrying may cure. -/
def refused (l : RelayLine) : RelayMessage → Bool
  | .closed subID message => subID == l.conn.subID && !RelayConn.isPermanent message
  | _ => false

/-- The frame serves our subscription. -/
def served (l : RelayLine) : RelayMessage → Bool
  | .event subID _ | .endOfStoredEvents subID => subID == l.conn.subID
  | _ => false

/-- The delays of the reconnect timers of the current generation. -/
def retryDelays (l : RelayLine) : List Nat :=
  l.pending.filterMap fun c =>
    match c.kind with
    | .reconnect delay => if c.generation = l.conn.generation then some delay else none
    | _ => none

theorem retryDelays_scheduleReconnect (h : ∀ c ∈ l.pending, c.generation ≤ l.conn.generation) :
    (l.scheduleReconnect true).retryDelays = [reconnectDelay (l.conn.reconnectAttempts + 1)] := by
  have hpending : (l.scheduleReconnect true).pending = l.pending ++
      [⟨l.conn.generation + 1, .reconnect (reconnectDelay (l.conn.reconnectAttempts + 1))⟩] := rfl
  have hgeneration : (l.scheduleReconnect true).conn.generation = l.conn.generation + 1 := rfl
  rw [retryDelays, hpending, hgeneration, List.filterMap_append]
  -- The timers that are there already are of generations before.
  have hold : l.pending.filterMap (fun c =>
      match c.kind with
      | .reconnect delay => if c.generation = l.conn.generation + 1 then some delay else none
      | _ => none) = [] := by
    apply List.filterMap_eq_nil_iff.mpr
    intro c hc
    have hle := h c hc
    split
    · rw [if_neg (by omega)]
    · rfl
  rw [hold]
  simp

theorem handleFrame_refused (h : l.refused frame = true) :
    l.handleFrame true frame = l.scheduleReconnect true := by
  cases frame with
  | closed subID message =>
    obtain ⟨hours, hcurable⟩ := Bool.and_eq_true_iff.mp h
    have hours : subID = l.conn.subID := by simpa using hours
    have hcurable : ¬ RelayConn.isPermanent message := by simpa using hcurable
    unfold handleFrame
    dsimp only
    rw [if_neg (fun hboth => hcurable hboth.2), if_pos ⟨hours, rfl⟩]
  | event | endOfStoredEvents | ok | notice | unknown => cases h

/-- The frame that ends the subscription resets the attempts before it makes the first one. -/
theorem retryDelays_onReceive (h : l.Bounded) (hrefused : l.refused frame = true) (now : Int) :
    (l.onReceive true now l.conn.generation (.success (some frame))).retryDelays =
    [reconnectDelay 1] := by
  let stamped := { l with conn := { l.conn with reconnectAttempts := 0, lastInboundAt := now } }
  have hbounded : stamped.Bounded := ⟨h.live, h.past, h.sockets⟩
  have hframe : stamped.handleFrame true frame = stamped.scheduleReconnect true :=
    handleFrame_refused hrefused
  have htorn : l.onReceive true now l.conn.generation (.success (some frame)) =
    stamped.scheduleReconnect true := by
    rw [onReceive, if_pos rfl]
    show (if true = true ∧ (stamped.handleFrame true frame).conn.task.isSome then
      (stamped.handleFrame true frame).receiveNext l.conn.generation
      else stamped.handleFrame true frame) = _
    rw [hframe, if_neg (by rw [hbounded.scheduleReconnect.task]; simp)]
  rw [htorn, retryDelays_scheduleReconnect hbounded.past]

/-- A refusal is retried after the first of the delays. -/
theorem retryDelays_refused (h : l.Bounded) {now : Int} {result : CallbackResult}
    (hread : l.frameRead i result = some frame) (hrefused : l.refused frame = true) {c : Callback}
    (hi : l.pending[i]? = some c) :
    ((l.without i).runCallback true now c result).retryDelays = [reconnectDelay 1] := by
  cases result with
  | failure => cases hread
  | success read =>
    unfold frameRead at hread
    rw [hi, Option.any_some] at hread
    obtain ⟨hcurrent, rfl⟩ := Option.ite_none_right_eq_some.mp hread
    obtain ⟨hkind, hgeneration⟩ := Bool.and_eq_true_iff.mp hcurrent
    obtain ⟨generation, kind⟩ := c
    cases kind with
    | receive socket =>
      have hconn := (rests_without l i).conn
      have hgeneration : generation = (l.without i).conn.generation := by
        rw [hconn]
        simpa using hgeneration
      have hrefused : (l.without i).refused frame = true := by
        rw [← hrefused]
        unfold refused
        rw [hconn]
      subst hgeneration
      exact retryDelays_onReceive h.without hrefused now
    | delegate | reqSent | reqRetry | ping | pong | pongDeadline | reconnect => cases hkind

/-- The delay stays the first one exactly up to the first attempt. -/
theorem reconnectDelay_eq_first (refusals : Nat) :
    reconnectDelay (refusals + 1) = reconnectDelay 1 ↔ refusals = 0 := by
  have hpow : refusals ≠ 0 → 2 ≤ 2 ^ refusals := fun h => Nat.le_self_pow h 2
  unfold reconnectDelay RelayConn.maxReconnectDelay RelayConn.baseReconnectDelay
  simp only [Nat.add_sub_cancel]
  by_cases hzero : refusals = 0
  · simp [hzero]
  · have hgrown := hpow hzero
    omega

end RelayLine

namespace NostrConnections

open Interleave RelayLine

variable (s : NostrConnections)

/-- The line whose socket the event reads, with the frame. -/
def readBy : Event → Option (Nat × RelayLine × RelayMessage)
  | .callback _ line i result =>
    (s.lines[line]?).bind fun l => (l.frameRead i result).map fun frame => (line, l, frame)
  | _ => none

/-- The line whose relay ends our subscription with the event, for a reason that retrying may
cure. -/
def refusedBy (e : Event) : Option Nat :=
  (s.readBy e).bind fun read => if s.started && read.2.1.refused read.2.2 then some read.1 else none

/-- The line whose relay serves our subscription with the event. -/
def servedBy (e : Event) : Option Nat :=
  (s.readBy e).bind fun read => if read.2.1.served read.2.2 then some read.1 else none

def generationOf (line : Nat) : Option Nat := (s.lines[line]?).map (·.conn.generation)

/-- How often in a row each relay has ended our subscription since it last served it: the count
starts again when a socket ends in another way. -/
def noteRefusals (refusals : Nat → Nat) (s : NostrConnections) (e : Event) (s' : NostrConnections) :
    Nat → Nat :=
  fun line =>
    if s.refusedBy e = some line then refusals line + 1
    else if s.servedBy e = some line ∨ s'.generationOf line ≠ s.generationOf line then 0
    else refusals line

/-- A refusal is retried after a delay that has doubled with each refusal before, up to the cap. -/
def BacksOff (t : Transition (NostrConnections × (Nat → Nat)) Event) : Prop :=
  ∀ line, t.pre.1.refusedBy t.event = some line → ∃ l, t.post.1.lines[line]? = some l ∧
    l.retryDelays =
      [min RelayConn.maxReconnectDelay (RelayConn.baseReconnectDelay * 2 ^ (t.post.2 line - 1))]

theorem retry_of_refused {s s' : NostrConnections} (h : s.Sound) {e : Event}
    (hstep : s.step e = some s') {line : Nat} (hrefused : s.refusedBy e = some line) :
    ∃ l, s'.lines[line]? = some l ∧ l.retryDelays = [reconnectDelay 1] := by
  obtain ⟨⟨read, l, frame⟩, hread, hguard⟩ := Option.bind_eq_some_iff.mp hrefused
  obtain ⟨hguard, heq⟩ := Option.ite_none_right_eq_some.mp hguard
  obtain ⟨hstarted, hframe⟩ := Bool.and_eq_true_iff.mp hguard
  cases e with
  | callback now line' i result =>
    obtain ⟨l', hline, hmap⟩ := Option.bind_eq_some_iff.mp hread
    obtain ⟨frame', hframe', htriple⟩ := Option.map_eq_some_iff.mp hmap
    obtain ⟨rfl, hpair⟩ := Prod.mk.inj htriple
    obtain ⟨rfl, rfl⟩ := Prod.mk.inj hpair
    obtain rfl := Option.some.inj heq
    obtain ⟨l'', hline'', hrest⟩ := Option.bind_eq_some_iff.mp hstep
    obtain rfl := Option.some.inj (hline.symm.trans hline'')
    obtain ⟨c, hi, rfl⟩ := Option.map_eq_some_iff.mp hrest
    refine ⟨_, List.getElem?_set_self (List.getElem?_eq_some_iff.mp hline).1, ?_⟩
    rw [hstarted]
    exact retryDelays_refused (h.bounded (List.mem_of_getElem? hline)) hframe' hframe hi
  | start | stop | refreshConnections | pathUpdate => cases hread

/-- The counter of attempts starts again with the frame that ends the subscription: exactly the
first refusal is retried after the delay that is due. -/
theorem refusals_backOff (relayURLs : List Text) (events : List Event) :
    (∀ t ∈ trace (recorded step noteRefusals) (launch relayURLs, fun _ => 0) events, BacksOff t) ↔
      ∀ t ∈ trace (recorded step noteRefusals) (launch relayURLs, fun _ => 0) events,
        ∀ line, t.pre.1.refusedBy t.event = some line → t.pre.2 line = 0 := by
  refine @forall_trace_iff_of_invariant _ _ _ _ _ (fun s => s.1.Sound) _ _
    (fun t hstep h => h.step (step_of_recorded hstep).1) (sound_launch relayURLs)
    (fun t hstep h => ?_)
  obtain ⟨hconns, hnote⟩ := step_of_recorded hstep
  refine forall₂_congr fun line hrefused => ?_
  obtain ⟨l, hline, hdelays⟩ := retry_of_refused h hconns hrefused
  have hcount : t.post.2 line = t.pre.2 line + 1 := by
    rw [hnote, noteRefusals, if_pos hrefused]
  rw [hcount, ← reconnectDelay_eq_first]
  constructor
  · rintro ⟨l', hline', hdelays'⟩
    obtain rfl := Option.some.inj (hline.symm.trans hline')
    exact (List.cons.inj (hdelays'.symm.trans hdelays)).1
  · intro hfirst
    exact ⟨l, hline, by rw [hdelays, ← hfirst]; rfl⟩

/-- A relay that limits rates ends the subscription of two sockets in a row. -/
def rateLimited : List Event :=
  [.start 0 (fun _ => ['a']), .callback 1 0 2 (.success (some (.closed ['a'] ['x']))),
    .callback 1001 0 3 .failure, .callback 1002 0 5 (.success (some (.closed ['a'] ['x'])))]

/-- The second retry waits a second, not two. -/
theorem refusals_stay :
    ¬ ∀ t ∈ trace (recorded step noteRefusals) (launch [['x']], fun _ => 0) rateLimited,
    BacksOff t := by
  intro h
  have hlast : (trace (recorded step noteRefusals) (launch [['x']], fun _ => 0) rateLimited)[3]? =
    some ⟨_, _, _⟩ := rfl
  obtain ⟨l, hline, hdelays⟩ := h _ (List.mem_of_getElem? hlast) 0 rfl
  obtain rfl := Option.some.inj hline
  exact absurd hdelays (by decide +kernel)

end NostrConnections

end AeroNyra
