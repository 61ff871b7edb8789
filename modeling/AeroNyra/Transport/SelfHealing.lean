import AeroNyra.Transport.RelayConns

/-! The connections of the internet transport over any run: each has one socket at most, with one
read and one ping chain, and while the transport is started each has a socket or is about to get
one. -/

namespace AeroNyra

def CallbackKind.isReconnect : CallbackKind → Bool
  | .reconnect _ => true
  | _ => false

namespace RelayLine

variable {started : Bool} {now : Int} {l : RelayLine} {socket reads pings : Nat}

/-- The reads of a socket that have still to complete. -/
def outstanding (l : RelayLine) (socket : Nat) : Nat :=
    l.pending.countP fun c => c.kind = .receive socket

/-- The pings that the current generation has scheduled. -/
def pingChains (l : RelayLine) : Nat := l.pending.count ⟨l.conn.generation, .ping⟩

/-- The reconnect timers of the current generation. -/
def reconnectTimers (l : RelayLine) : Nat :=
  l.pending.countP fun c => c.generation = l.conn.generation ∧ c.kind.isReconnect

/-! ### What a line can be like -/

/-- No callback is ahead of the connection, no read is of a socket to come, and the only live
socket is the connection's. -/
structure Bounded (l : RelayLine) : Prop where
  live : l.live = l.conn.task.toList
  past : ∀ c ∈ l.pending, c.generation ≤ l.conn.generation
  sockets : ∀ c ∈ l.pending, ∀ socket, c.kind = .receive socket → socket < l.opened

/-- No socket, and no callback of the current generation. -/
structure Quiet (l : RelayLine) : Prop where
  task : l.conn.task = none
  live : l.live = []
  older : ∀ c ∈ l.pending, c.generation < l.conn.generation
  sockets : ∀ c ∈ l.pending, ∀ socket, c.kind = .receive socket → socket < l.opened

/-- No socket, and one reconnect timer, which is all that there is of the current generation. -/
structure Waiting (l : RelayLine) : Prop where
  task : l.conn.task = none
  live : l.live = []
  timer : l.reconnectTimers = 1
  others : ∀ c ∈ l.pending, c.generation = l.conn.generation → c.kind.isReconnect
  past : ∀ c ∈ l.pending, c.generation ≤ l.conn.generation
  sockets : ∀ c ∈ l.pending, ∀ socket, c.kind = .receive socket → socket < l.opened

/-- One socket, and no reconnect timer of the current generation. -/
structure Connected (socket reads pings : Nat) (l : RelayLine) : Prop where
  task : l.conn.task = some socket
  live : l.live = [socket]
  reads : l.outstanding socket = reads
  reading : ∀ c ∈ l.pending, ∀ other, c.kind = .receive other →
    (c.generation = l.conn.generation ↔ other = socket)
  pings : l.pingChains = pings
  timers : ∀ c ∈ l.pending, c.kind.isReconnect → c.generation < l.conn.generation
  past : ∀ c ∈ l.pending, c.generation ≤ l.conn.generation
  sockets : ∀ c ∈ l.pending, ∀ socket, c.kind = .receive socket → socket < l.opened

theorem Quiet.bounded (h : l.Quiet) : l.Bounded :=
  ⟨by rw [h.live, h.task]; rfl, fun c hc => (h.older c hc).le, h.sockets⟩

theorem Waiting.bounded (h : l.Waiting) :
    l.Bounded := ⟨by rw [h.live, h.task]; rfl, h.past, h.sockets⟩

theorem Connected.bounded (h : l.Connected socket reads pings) : l.Bounded :=
  ⟨by rw [h.live, h.task]; rfl, h.past, h.sockets⟩

/-! ### Arming -/

theorem mem_arm {generation : Nat} {kind : CallbackKind} {c : Callback} :
    c ∈ (l.arm generation kind).pending ↔ c ∈ l.pending ∨ c = ⟨generation, kind⟩ := by
  simp [arm]

theorem Connected.arm (h : l.Connected socket reads pings) (kind : CallbackKind)
    (hreceive : ∀ other, kind = .receive other → other = socket ∧ other < l.opened)
    (htimer : kind.isReconnect = false) :
    (l.arm l.conn.generation kind).Connected socket
      (reads + if kind = .receive socket then 1 else 0)
      (pings + if kind = .ping then 1 else 0) := by
  refine ⟨h.task, h.live, ?_, fun c hc other hkind => ?_, ?_, fun c hc hkind => ?_, fun c hc => ?_,
    fun c hc other hkind => ?_⟩
  · rw [← h.reads]
    simp [outstanding, RelayLine.arm, List.countP_append, List.countP_cons]
  · rcases mem_arm.mp hc with hc | rfl
    · exact h.reading c hc other hkind
    · exact iff_of_true rfl (hreceive other hkind).1
  · rw [← h.pings]
    simp [pingChains, RelayLine.arm, List.count_append, List.count_cons]
  · rcases mem_arm.mp hc with hc | rfl
    · exact h.timers c hc hkind
    · exact absurd hkind (by simp [htimer])
  · rcases mem_arm.mp hc with hc | rfl
    · exact h.past c hc
    · exact Nat.le_refl _
  · rcases mem_arm.mp hc with hc | rfl
    · exact h.sockets c hc other hkind
    · exact (hreceive other hkind).2

/-- Arming a callback that is no read, no ping and no reconnect timer. -/
theorem Connected.arm_other (h : l.Connected socket reads pings) (kind : CallbackKind)
    (hreceive : ∀ other, kind ≠ .receive other) (hping : kind ≠ .ping)
    (htimer : kind.isReconnect = false) :
    (l.arm l.conn.generation kind).Connected socket reads pings := by
  have harm := h.arm kind (fun other hkind => absurd hkind (hreceive other)) htimer
  rwa [if_neg (hreceive socket), if_neg hping] at harm

theorem Connected.receiveNext (h : l.Connected socket reads pings) (hopen : socket < l.opened) :
    (l.receiveNext l.conn.generation).Connected socket (reads + 1) pings := by
  have harm := h.arm (.receive socket)
    (fun other hkind => by cases hkind; exact ⟨rfl, hopen⟩) rfl
  rw [RelayLine.receiveNext, h.task]
  simpa using harm

theorem Connected.schedulePing (h : l.Connected socket reads pings) :
    (l.schedulePing l.conn.generation).Connected socket reads (pings + 1) := by
  have harm := h.arm .ping (fun other hkind => nomatch hkind) rfl
  simpa [RelayLine.schedulePing] using harm

theorem Connected.sendSubscription (h : l.Connected socket reads pings) :
    l.sendSubscription.Connected socket reads pings := by
  rw [RelayLine.sendSubscription, h.task]
  exact h.arm_other _ (fun _ => nofun) nofun rfl

/-! ### Tearing down and connecting -/

theorem Bounded.tearDown (h : l.Bounded) : l.tearDown.Quiet := by
  refine ⟨rfl, ?_, fun c hc => Nat.lt_succ_of_le (h.past c hc), h.sockets⟩
  show l.live.filter _ = []
  rw [h.live]
  cases l.conn.task <;> simp

theorem Quiet.openSocket (h : l.Quiet) : (l.openSocket now).Connected l.opened 0 0 := by
  have hmem : ∀ c ∈ (l.openSocket now).pending, c ∈ l.pending ∨
      c = ⟨l.conn.generation, .delegate l.opened⟩ := fun c hc =>
        by simpa [RelayLine.openSocket] using hc
  have hnone : l.outstanding l.opened = 0 := by
    refine List.countP_eq_zero.mpr fun c hc hkind => ?_
    have hlt := h.sockets c hc l.opened (by simpa using hkind)
    omega
  have hquiet : l.pingChains = 0 := by
    refine List.count_eq_zero.mpr fun hc => ?_
    have hlt := h.older _ hc
    simp at hlt
  refine ⟨rfl, ?_, ?_, fun c hc other hkind => ?_, ?_, fun c hc hkind => ?_, fun c hc => ?_,
    fun c hc other hkind => ?_⟩
  · show l.live ++ [l.opened] = _
    rw [h.live, List.nil_append]
  · rw [← hnone]
    simp [outstanding, RelayLine.openSocket, List.countP_append]
  · rcases hmem c hc with hc | rfl
    · have hold := h.older c hc
      have hlt := h.sockets c hc other hkind
      exact iff_of_false hold.ne hlt.ne
    · cases hkind
  · rw [← hquiet]
    simp [pingChains, RelayLine.openSocket, List.count_append]
  · rcases hmem c hc with hc | rfl
    · exact h.older c hc
    · cases hkind
  · rcases hmem c hc with hc | rfl
    · exact (h.older c hc).le
    · exact Nat.le_refl _
  · rcases hmem c hc with hc | rfl
    · exact Nat.lt_succ_of_lt (h.sockets c hc other hkind)
    · cases hkind

/-- A connection without a socket gets one, with one read and one ping chain. -/
theorem Quiet.connect (h : l.Quiet) : (l.connect now).Connected l.opened 1 1 := by
  have hsent : (l.openSocket now).sendSubscription.Connected l.opened 0 0 :=
    h.openSocket.sendSubscription
  have hgeneration : (l.openSocket now).sendSubscription.conn.generation = l.conn.generation := rfl
  have hopened : (l.openSocket now).sendSubscription.opened = l.opened + 1 := rfl
  have hread := hsent.receiveNext (by omega)
  exact hread.schedulePing

/-- A connection that is torn down waits for its timer. -/
theorem Bounded.scheduleReconnect (h : l.Bounded) : (l.scheduleReconnect true).Waiting := by
  have hquiet := h.tearDown
  have hmem : ∀ c ∈ (l.scheduleReconnect true).pending, c ∈ l.tearDown.pending ∨
      c = ⟨l.tearDown.conn.generation,
        .reconnect (reconnectDelay (l.tearDown.conn.reconnectAttempts + 1))⟩ := fun c hc => by
    simpa [RelayLine.scheduleReconnect, arm] using hc
  have hnone : l.tearDown.reconnectTimers = 0 := by
    refine List.countP_eq_zero.mpr fun c hc hboth => ?_
    have hlt := hquiet.older c hc
    simp only [decide_eq_true_eq] at hboth
    omega
  refine ⟨hquiet.task, hquiet.live, ?_, fun c hc hgen => ?_, fun c hc => ?_,
    fun c hc socket hkind => ?_⟩
  · show List.countP _ (l.tearDown.pending ++ [_]) = 1
    rw [List.countP_append]
    show l.tearDown.reconnectTimers + _ = 1
    rw [hnone]
    simp [CallbackKind.isReconnect]
    rfl
  · rcases hmem c hc with hc | rfl
    · exact absurd hgen (hquiet.older c hc).ne
    · rfl
  · rcases hmem c hc with hc | rfl
    · exact (hquiet.older c hc).le
    · exact Nat.le_refl _
  · rcases hmem c hc with hc | rfl
    · exact hquiet.sockets c hc socket hkind
    · cases hkind

theorem Bounded.reconnectNow (h : l.Bounded) :
    (l.reconnectNow true now).Connected l.opened 1 1 := by
  have hquiet : Quiet { l.tearDown with
      conn := { l.tearDown.conn with reconnectAttempts := 0 } } :=
    ⟨h.tearDown.task, h.tearDown.live, h.tearDown.older, h.tearDown.sockets⟩
  exact hquiet.connect

/-! ### A callback runs -/

section Callback

variable {i : Nat} {c : Callback}

/-- What a run leaves of a line besides its pending callbacks. -/
structure Rests (l l' : RelayLine) : Prop where
  conn : l'.conn = l.conn
  held : l'.held = l.held
  opened : l'.opened = l.opened
  live : l'.live = l.live
  pending : ∀ c ∈ l'.pending, c ∈ l.pending

theorem rests_without (l : RelayLine) (i : Nat) : l.Rests (l.without i) := by
  unfold without
  split
  · exact ⟨rfl, rfl, rfl, rfl, fun _ hc => hc⟩
  · exact ⟨rfl, rfl, rfl, rfl, fun _ hc => List.mem_of_mem_eraseIdx hc⟩

/-- A callback that runs is counted no more, unless it is a delegate's. -/
theorem countP_without (hi : l.pending[i]? = some c) (p : Callback → Bool)
    (hdelegate : ∀ generation socket, p ⟨generation, .delegate socket⟩ = false) :
    (l.without i).pending.countP p + (if p c then 1 else 0) = l.pending.countP p := by
  obtain ⟨hlt, hget⟩ := List.getElem?_eq_some_iff.mp hi
  have hperm := List.getElem_cons_eraseIdx_perm hlt
  rw [hget] at hperm
  have herased : (l.pending.eraseIdx i).countP p + (if p c then 1 else 0) = l.pending.countP p := by
    rw [← hperm.countP_eq, List.countP_cons]
  unfold without
  rw [hi]
  split
  · rename_i generation socket heq
    rw [Option.some.inj heq, hdelegate]
    rfl
  · exact herased

theorem Bounded.without (h : l.Bounded) : (l.without i).Bounded := by
  have hrests := rests_without l i
  refine ⟨?_, fun c hc => ?_, fun c hc => ?_⟩
  · rw [hrests.live, hrests.conn]
    exact h.live
  · rw [hrests.conn]
    exact h.past c (hrests.pending c hc)
  · rw [hrests.opened]
    exact h.sockets c (hrests.pending c hc)

theorem Quiet.without (h : l.Quiet) : (l.without i).Quiet := by
  have hrests := rests_without l i
  refine ⟨?_, ?_, fun c hc => ?_, fun c hc => ?_⟩
  · rw [hrests.conn]
    exact h.task
  · rw [hrests.live]
    exact h.live
  · rw [hrests.conn]
    exact h.older c (hrests.pending c hc)
  · rw [hrests.opened]
    exact h.sockets c (hrests.pending c hc)

/-- The timer of a waiting connection fires. -/
theorem Waiting.fired (h : l.Waiting) (hi : l.pending[i]? = some c)
    (hcurrent : c.generation = l.conn.generation) : (l.without i).Quiet := by
  have hrests := rests_without l i
  have hkind := h.others c (List.mem_of_getElem? hi) hcurrent
  have hcount := countP_without hi
    (fun c => c.generation = l.conn.generation ∧ c.kind.isReconnect)
    (by simp [CallbackKind.isReconnect])
  have htimer : l.pending.countP (fun c => c.generation = l.conn.generation ∧ c.kind.isReconnect) =
    1 :=
    h.timer
  rw [htimer, if_pos (by simp [hcurrent, hkind])] at hcount
  have hnone : ∀ c' ∈ (l.without i).pending, c'.generation ≠ l.conn.generation := by
    intro c' hc' hgen
    have hzero := List.countP_eq_zero.mp (by omega : (l.without i).pending.countP
      (fun c => c.generation = l.conn.generation ∧ c.kind.isReconnect) = 0) c' hc'
    exact hzero (by simp [hgen, h.others c' (hrests.pending c' hc') hgen])
  refine ⟨?_, ?_, fun c' hc' => ?_, fun c' hc' => ?_⟩
  · rw [hrests.conn]
    exact h.task
  · rw [hrests.live]
    exact h.live
  · rw [hrests.conn]
    exact lt_of_le_of_ne (h.past c' (hrests.pending c' hc')) (hnone c' hc')
  · rw [hrests.opened]
    exact h.sockets c' (hrests.pending c' hc')

/-- Nothing of an older generation is missed by a waiting connection. -/
theorem Waiting.without (h : l.Waiting) (hi : l.pending[i]? = some c)
    (hstale : c.generation ≠ l.conn.generation) : (l.without i).Waiting := by
  have hrests := rests_without l i
  have hcount := countP_without hi
    (fun c => c.generation = l.conn.generation ∧ c.kind.isReconnect)
    (by simp [CallbackKind.isReconnect])
  have htimer : l.pending.countP (fun c => c.generation = l.conn.generation ∧ c.kind.isReconnect) =
    1 :=
    h.timer
  rw [htimer, if_neg (by simp [hstale])] at hcount
  refine ⟨?_, ?_, ?_, fun c' hc' => ?_, fun c' hc' => ?_, fun c' hc' => ?_⟩
  · rw [hrests.conn]
    exact h.task
  · rw [hrests.live]
    exact h.live
  · rw [reconnectTimers, hrests.conn]
    exact hcount
  · rw [hrests.conn]
    exact h.others c' (hrests.pending c' hc')
  · rw [hrests.conn]
    exact h.past c' (hrests.pending c' hc')
  · rw [hrests.opened]
    exact h.sockets c' (hrests.pending c' hc')

/-- A connection with a socket loses the read or the ping that runs. -/
theorem Connected.without (h : l.Connected socket reads pings) (hi : l.pending[i]? = some c) :
    ∃ reads' pings', reads' + (if c.kind = .receive socket then 1 else 0) = reads ∧
      pings' + (if c = ⟨l.conn.generation, .ping⟩ then 1 else 0) = pings ∧
      (l.without i).Connected socket reads' pings' := by
  have hrests := rests_without l i
  have hreads := countP_without hi (fun c => c.kind = .receive socket) (by simp)
  have hpings := countP_without hi (fun c => c == ⟨l.conn.generation, .ping⟩) (by simp)
  refine ⟨(l.without i).outstanding socket, (l.without i).pingChains, ?_, ?_, ?_, ?_, rfl,
    fun c' hc' => ?_, rfl, fun c' hc' => ?_, fun c' hc' => ?_, fun c' hc' => ?_⟩
  · rw [← h.reads]
    simpa [outstanding] using hreads
  · rw [← h.pings, pingChains, hrests.conn]
    simpa [pingChains, List.count] using hpings
  · rw [hrests.conn]
    exact h.task
  · rw [hrests.live]
    exact h.live
  · rw [hrests.conn]
    exact h.reading c' (hrests.pending c' hc')
  · rw [hrests.conn]
    exact h.timers c' (hrests.pending c' hc')
  · rw [hrests.conn]
    exact h.past c' (hrests.pending c' hc')
  · rw [hrests.opened]
    exact h.sockets c' (hrests.pending c' hc')

/-- A held connection of a started transport. -/
def Alive (l : RelayLine) : Prop := l.Waiting ∨ ∃ socket, l.Connected socket 1 1

theorem Alive.bounded (h : l.Alive) : l.Bounded := by
  rcases h with h | ⟨socket, h⟩
  · exact h.bounded
  · exact h.bounded

theorem handleFrame_cases (started : Bool) (l : RelayLine) (frame : RelayMessage) :
    l.handleFrame started frame = l ∨ l.handleFrame started frame =
      l.scheduleReconnect started := by
  cases frame with
  | closed subID message =>
    unfold handleFrame
    dsimp only
    split
    · exact .inl rfl
    · split
      · exact .inr rfl
      · exact .inl rfl
  | event | endOfStoredEvents | ok | notice | unknown => exact .inl rfl

/-- The read of a socket completes: the next one begins, or the socket is torn down. -/
theorem Connected.onReceive (h : l.Connected socket 0 1) (hopen : socket < l.opened)
    (result : CallbackResult) : (l.onReceive true now l.conn.generation result).Alive := by
  cases result with
  | failure =>
    rw [RelayLine.onReceive, if_pos ⟨rfl, rfl⟩]
    exact .inl h.bounded.scheduleReconnect
  | success frame =>
    let stamped := { l with conn := { l.conn with reconnectAttempts := 0, lastInboundAt := now } }
    have hstamped : stamped.Connected socket 0 1 :=
      ⟨h.task, h.live, h.reads, h.reading, h.pings, h.timers, h.past, h.sockets⟩
    have hnext : (if true = true ∧ stamped.conn.task.isSome then
        stamped.receiveNext l.conn.generation else stamped).Alive := by
      rw [if_pos ⟨rfl, by rw [hstamped.task]; rfl⟩]
      exact .inr ⟨socket, hstamped.receiveNext hopen⟩
    rw [RelayLine.onReceive, if_pos rfl]
    cases frame with
    | none => exact hnext
    | some frame =>
      rcases handleFrame_cases true stamped frame with hsame | htorn
      · show (if true = true ∧ (stamped.handleFrame true frame).conn.task.isSome then
          (stamped.handleFrame true frame).receiveNext l.conn.generation
          else stamped.handleFrame true frame).Alive
        rw [hsame]
        exact hnext
      · have hwaiting := hstamped.bounded.scheduleReconnect
        show (if true = true ∧ (stamped.handleFrame true frame).conn.task.isSome then
          (stamped.handleFrame true frame).receiveNext l.conn.generation
          else stamped.handleFrame true frame).Alive
        rw [htorn, if_neg (by rw [hwaiting.task]; simp)]
        exact .inl hwaiting

theorem Connected.onReqSent (h : l.Connected socket 1 1) (result : CallbackResult) :
    (l.onReqSent true l.conn.generation result).Connected socket 1 1 := by
  cases result with
  | success frame => exact h
  | failure =>
    rw [RelayLine.onReqSent, if_pos ⟨rfl, rfl⟩]
    split
    · let counted := { l with conn := { l.conn with reqRetries := l.conn.reqRetries + 1 } }
      have hcounted : counted.Connected socket 1 1 :=
        ⟨h.task, h.live, h.reads, h.reading, h.pings, h.timers, h.past, h.sockets⟩
      exact hcounted.arm_other _ (fun _ => nofun) nofun rfl
    · exact h

/-- A ping is sent, and the next one scheduled. -/
theorem Connected.sendPing (h : l.Connected socket 1 0) :
    (l.sendPing true now l.conn.generation).Connected socket 1 1 := by
  rw [RelayLine.sendPing, if_pos ⟨rfl, rfl⟩, h.task]
  let stamped := { l with conn := { l.conn with lastPingAt := now } }
  have hstamped : stamped.Connected socket 1 0 :=
    ⟨h.task, h.live, h.reads, h.reading, h.pings, h.timers, h.past, h.sockets⟩
  have hpong := hstamped.arm_other (.pong socket) (fun _ => nofun) nofun rfl
  have hdeadline := hpong.arm_other (.pongDeadline now) (fun _ => nofun) nofun rfl
  exact hdeadline.schedulePing

theorem Connected.onPong (h : l.Connected socket 1 1) (result : CallbackResult) :
    (l.onPong true now l.conn.generation result).Alive := by
  cases result with
  | success frame =>
    rw [RelayLine.onPong, if_pos rfl]
    exact .inr ⟨socket, h.task, h.live, h.reads, h.reading, h.pings, h.timers, h.past, h.sockets⟩
  | failure =>
    rw [RelayLine.onPong, if_pos rfl]
    exact .inr ⟨_, h.bounded.reconnectNow⟩

theorem Connected.onDelegate (h : l.Connected socket 1 1) (result : CallbackResult) :
    (l.onDelegate true l.conn.generation result).Alive := by
  cases result with
  | success frame => exact .inr ⟨socket, h⟩
  | failure =>
    rw [RelayLine.onDelegate, if_pos ⟨rfl, rfl⟩]
    exact .inl h.bounded.scheduleReconnect

/-- A callback of the current generation runs. -/
theorem Connected.runCallback (h : l.Connected socket 1 1) (hi : l.pending[i]? = some c)
    (hcurrent : c.generation = l.conn.generation) (result : CallbackResult) :
    ((l.without i).runCallback true now c result).Alive := by
  obtain ⟨reads', pings', hreads, hpings, hleft⟩ := h.without hi
  have hmem := List.mem_of_getElem? hi
  have hgeneration : c.generation = (l.without i).conn.generation := by
    rw [(rests_without l i).conn, hcurrent]
  obtain ⟨generation, kind⟩ := c
  dsimp only at hcurrent hgeneration hreads
  subst hgeneration
  have hopened := (rests_without l i).opened
  have hother : (∀ other, kind ≠ .receive other) → kind ≠ .ping →
      (l.without i).Connected socket 1 1 := by
    intro hreceive hping
    rw [if_neg (hreceive socket)] at hreads
    rw [if_neg (by simp [hping])] at hpings
    obtain rfl : reads' = 1 := hreads
    obtain rfl : pings' = 1 := hpings
    exact hleft
  cases kind with
  | delegate s => exact (hother (fun _ => nofun) nofun).onDelegate result
  | receive s =>
    have hsame : s = socket := (h.reading _ hmem s rfl).mp hcurrent
    subst hsame
    have hopen := h.sockets _ hmem s rfl
    rw [if_pos rfl] at hreads
    rw [if_neg (by simp)] at hpings
    obtain rfl : reads' = 0 := by omega
    obtain rfl : pings' = 1 := hpings
    exact hleft.onReceive (by omega) result
  | reqSent s => exact .inr ⟨socket, (hother (fun _ => nofun) nofun).onReqSent result⟩
  | reqRetry =>
    have hconnected := hother (fun _ => nofun) nofun
    rw [RelayLine.runCallback, if_pos ⟨rfl, rfl⟩]
    exact .inr ⟨socket, hconnected.sendSubscription⟩
  | ping =>
    rw [if_neg nofun] at hreads
    rw [if_pos (by simp [hcurrent])] at hpings
    obtain rfl : reads' = 1 := hreads
    obtain rfl : pings' = 0 := by omega
    exact .inr ⟨socket, hleft.sendPing⟩
  | pong s => exact (hother (fun _ => nofun) nofun).onPong result
  | pongDeadline pingAt =>
    have hconnected := hother (fun _ => nofun) nofun
    unfold RelayLine.runCallback
    dsimp only
    split
    · exact .inr ⟨_, hconnected.bounded.reconnectNow⟩
    · exact .inr ⟨socket, hconnected⟩
  | reconnect delay => exact absurd hcurrent (h.timers _ hmem rfl).ne

/-- A callback of another generation leaves the line as it is. -/
theorem runCallback_of_stale (started : Bool) (now : Int)
    (hstale : c.generation ≠ l.conn.generation)
    (result : CallbackResult) : l.runCallback started now c result = l := by
  have hne : ¬l.conn.generation = c.generation := fun h => hstale h.symm
  unfold RelayLine.runCallback
  cases c.kind with
  | delegate s => cases result <;> simp [RelayLine.onDelegate, hne]
  | receive s => cases result <;> simp [RelayLine.onReceive, hne]
  | reqSent s => cases result <;> simp [RelayLine.onReqSent, hne]
  | pong s => cases result <;> simp [RelayLine.onPong, hne]
  | ping => simp [RelayLine.sendPing, hne]
  | reqRetry | pongDeadline | reconnect => simp [hne]

theorem Alive.runCallback (h : l.Alive) (hi : l.pending[i]? = some c) (result : CallbackResult) :
    ((l.without i).runCallback true now c result).Alive := by
  have hconn := (rests_without l i).conn
  by_cases hcurrent : c.generation = l.conn.generation
  · rcases h with h | ⟨socket, h⟩
    · have hquiet := h.fired hi hcurrent
      have hkind := h.others c (List.mem_of_getElem? hi) hcurrent
      unfold RelayLine.runCallback
      cases hc : c.kind with
      | reconnect delay =>
        dsimp only
        rw [if_pos ⟨rfl, by rw [hconn, hcurrent]⟩]
        exact .inr ⟨_, hquiet.connect⟩
      | delegate | receive | reqSent | reqRetry | ping | pong | pongDeadline =>
        rw [hc] at hkind
        cases hkind
    · exact h.runCallback hi hcurrent result
  · rw [runCallback_of_stale true now (by rwa [hconn])]
    rcases h with h | ⟨socket, h⟩
    · exact .inl (h.without hi hcurrent)
    · obtain ⟨reads', pings', hreads, hpings, hleft⟩ := h.without hi
      have hread : c.kind ≠ .receive socket := fun hkind =>
        hcurrent ((h.reading c (List.mem_of_getElem? hi) socket hkind).mpr rfl)
      have hping : c ≠ ⟨l.conn.generation, .ping⟩ := fun heq =>
        hcurrent (congrArg Callback.generation heq)
      rw [if_neg hread] at hreads
      rw [if_neg hping] at hpings
      obtain rfl : reads' = 1 := hreads
      obtain rfl : pings' = 1 := hpings
      exact .inr ⟨socket, hleft⟩

theorem Quiet.runCallback (h : l.Quiet) (started : Bool) (now : Int) (hi : l.pending[i]? = some c)
    (result : CallbackResult) : ((l.without i).runCallback started now c result).Quiet := by
  have hold := h.older c (List.mem_of_getElem? hi)
  rw [runCallback_of_stale started now (by rw [(rests_without l i).conn]; exact hold.ne)]
  exact h.without

end Callback

/-! ### What no operation changes -/

structure Keeps (l l' : RelayLine) : Prop where
  held : l'.held = l.held
  url : l'.conn.url = l.conn.url

theorem Keeps.trans {l1 l2 l3 : RelayLine} (h1 : l1.Keeps l2) (h2 : l2.Keeps l3) : l1.Keeps l3 :=
  ⟨h2.held.trans h1.held, h2.url.trans h1.url⟩

theorem keeps_sendSubscription (l : RelayLine) : l.Keeps l.sendSubscription := by
  unfold sendSubscription
  split
  · exact ⟨rfl, rfl⟩
  · exact ⟨rfl, rfl⟩

theorem keeps_receiveNext (l : RelayLine) (generation : Nat) :
    l.Keeps (l.receiveNext generation) := by
  unfold receiveNext
  split
  · exact ⟨rfl, rfl⟩
  · exact ⟨rfl, rfl⟩

theorem keeps_connect (now : Int) (l : RelayLine) : l.Keeps (l.connect now) := by
  have hopened : l.Keeps (l.openSocket now) := ⟨rfl, rfl⟩
  have hread :=
    hopened.trans ((keeps_sendSubscription _).trans (keeps_receiveNext _ l.conn.generation))
  exact ⟨hread.held, hread.url⟩

theorem keeps_scheduleReconnect (started : Bool) (l : RelayLine) :
    l.Keeps (l.scheduleReconnect started) := by
  unfold scheduleReconnect
  dsimp only
  split
  · exact ⟨rfl, rfl⟩
  · exact ⟨rfl, rfl⟩

theorem keeps_reconnectNow (started : Bool) (now : Int) (l : RelayLine) :
    l.Keeps (l.reconnectNow started now) := by
  unfold reconnectNow
  split
  · have htorn : l.Keeps { l.tearDown with conn := { l.tearDown.conn with reconnectAttempts :=
      0 } } :=
      ⟨rfl, rfl⟩
    exact htorn.trans (keeps_connect now _)
  · exact ⟨rfl, rfl⟩

theorem keeps_handleFrame (started : Bool) (l : RelayLine) (frame : RelayMessage) :
    l.Keeps (l.handleFrame started frame) := by
  rcases handleFrame_cases started l frame with hsame | htorn
  · rw [hsame]
    exact ⟨rfl, rfl⟩
  · rw [htorn]
    exact keeps_scheduleReconnect started l

theorem keeps_onReceive (started : Bool) (now : Int) (l : RelayLine) (generation : Nat)
    (result : CallbackResult) : l.Keeps (l.onReceive started now generation result) := by
  cases result with
  | success frame =>
    unfold onReceive
    dsimp only
    split
    · let stamped := { l with conn := { l.conn with reconnectAttempts := 0, lastInboundAt := now } }
      have hstamped : l.Keeps stamped := ⟨rfl, rfl⟩
      have hframe : l.Keeps ((frame.map (stamped.handleFrame started)).getD stamped) := by
        cases frame with
        | none => exact hstamped
        | some frame => exact hstamped.trans (keeps_handleFrame started stamped frame)
      split
      · exact hframe.trans (keeps_receiveNext _ generation)
      · exact hframe
    · exact ⟨rfl, rfl⟩
  | failure =>
    unfold onReceive
    dsimp only
    split
    · exact keeps_scheduleReconnect started l
    · exact ⟨rfl, rfl⟩

theorem keeps_sendPing (started : Bool) (now : Int) (l : RelayLine) (generation : Nat) :
    l.Keeps (l.sendPing started now generation) := by
  unfold sendPing
  split
  · split
    · exact ⟨rfl, rfl⟩
    · exact ⟨rfl, rfl⟩
  · exact ⟨rfl, rfl⟩

theorem keeps_onReqSent (started : Bool) (l : RelayLine) (generation : Nat)
    (result : CallbackResult) :
    l.Keeps (l.onReqSent started generation result) := by
  cases result with
  | success frame => exact ⟨rfl, rfl⟩
  | failure =>
    unfold onReqSent
    dsimp only
    split
    · split
      · exact ⟨rfl, rfl⟩
      · exact ⟨rfl, rfl⟩
    · exact ⟨rfl, rfl⟩

theorem keeps_onPong (started : Bool) (now : Int) (l : RelayLine) (generation : Nat)
    (result : CallbackResult) : l.Keeps (l.onPong started now generation result) := by
  cases result with
  | success frame =>
    unfold onPong
    dsimp only
    split
    · exact ⟨rfl, rfl⟩
    · exact ⟨rfl, rfl⟩
  | failure =>
    unfold onPong
    dsimp only
    split
    · exact keeps_reconnectNow started now l
    · exact ⟨rfl, rfl⟩

theorem keeps_onDelegate (started : Bool) (l : RelayLine) (generation : Nat)
    (result : CallbackResult) :
    l.Keeps (l.onDelegate started generation result) := by
  cases result with
  | success frame => exact ⟨rfl, rfl⟩
  | failure =>
    unfold onDelegate
    dsimp only
    split
    · exact keeps_scheduleReconnect started l
    · exact ⟨rfl, rfl⟩

theorem keeps_runCallback (started : Bool) (now : Int) (l : RelayLine) (c : Callback)
    (result : CallbackResult) : l.Keeps (l.runCallback started now c result) := by
  obtain ⟨generation, kind⟩ := c
  unfold runCallback
  cases kind with
  | delegate s => exact keeps_onDelegate started l generation result
  | receive s => exact keeps_onReceive started now l generation result
  | reqSent s => exact keeps_onReqSent started l generation result
  | ping => exact keeps_sendPing started now l generation
  | pong s => exact keeps_onPong started now l generation result
  | reqRetry =>
    dsimp only
    split
    · exact keeps_sendSubscription l
    · exact ⟨rfl, rfl⟩
  | pongDeadline pingAt =>
    dsimp only
    split
    · exact keeps_reconnectNow started now l
    · exact ⟨rfl, rfl⟩
  | reconnect delay =>
    dsimp only
    split
    · exact keeps_connect now l
    · exact ⟨rfl, rfl⟩

/-- The line of a connection that is made. -/
theorem Quiet.new (url subID : Text) : Quiet ⟨.new url subID, true, 0, [], []⟩ :=
  ⟨rfl, rfl, nofun, nofun⟩

theorem keeps_without (l : RelayLine) (i : Nat) : l.Keeps (l.without i) :=
  ⟨(rests_without l i).held, by rw [(rests_without l i).conn]⟩

theorem keeps_refresh (started : Bool) (now : Int) (l : RelayLine) :
    l.Keeps (l.refresh started now) := by
  unfold refresh
  dsimp only
  split
  · exact keeps_reconnectNow started now l
  · exact ⟨rfl, rfl⟩

end RelayLine

namespace NostrConnections

open Interleave RelayLine

/-- Held lines are alive, and only of a started transport; the others are quiet.  The transport
holds one line for each relay as long as it is started. -/
structure Sound (s : NostrConnections) : Prop where
  held : ∀ l ∈ s.lines, l.held = true → s.started = true ∧ l.Alive
  released : ∀ l ∈ s.lines, l.held = false → l.Quiet
  conns : s.conns.map (·.conn.url) = if s.started then s.relayURLs else []

variable {s s' : NostrConnections}

/-! ### The relays of the lines -/

/-- The relays of the held ones among the lines. -/
def urls (lines : List RelayLine) : List Text := (lines.filter (·.held)).map (·.conn.url)

theorem urls_cons (l : RelayLine) (lines : List RelayLine) :
    urls (l :: lines) = if l.held then l.conn.url :: urls lines else urls lines := by
  unfold urls
  rw [List.filter_cons]
  split
  · rfl
  · rfl

theorem urls_append (lines lines' : List RelayLine) :
    urls (lines ++ lines') = urls lines ++ urls lines' := by
  rw [urls, List.filter_append, List.map_append]
  rfl

theorem urls_map {f : RelayLine → RelayLine} (h : ∀ l : RelayLine, l.Keeps (f l))
    (lines : List RelayLine) :
    urls (lines.map f) = urls lines := by
  induction lines with
  | nil => rfl
  | cons l lines ih => rw [List.map_cons, urls_cons, urls_cons, ih, (h l).held, (h l).url]

theorem urls_set {lines : List RelayLine} {k : Nat} {l l' : RelayLine} (hk : lines[k]? = some l)
    (h : l.Keeps l') : urls (lines.set k l') = urls lines := by
  induction lines generalizing k with
  | nil => rfl
  | cons first lines ih =>
    cases k with
    | zero =>
      obtain rfl : first = l := by simpa using hk
      rw [List.set_cons_zero, urls_cons, urls_cons, h.held, h.url]
    | succ k => rw [List.set_cons_succ, urls_cons, urls_cons, ih (by simpa using hk)]

theorem urls_forEach {f : RelayLine → RelayLine} (h : ∀ l : RelayLine, l.Keeps (f l)) :
    urls (s.forEach f) = urls s.lines := by
  refine urls_map (fun l => ?_) s.lines
  split
  · exact h l
  · exact ⟨rfl, rfl⟩

theorem urls_of_released {lines : List RelayLine} (h : ∀ l ∈ lines, l.held = false) :
    urls lines = [] := by
  rw [urls, List.filter_eq_nil_iff.mpr fun l hl => by simp [h l hl]]
  rfl

theorem mem_forEach {f : RelayLine → RelayLine} {l' : RelayLine} (h : l' ∈ s.forEach f) :
    ∃ l ∈ s.lines, l' = if l.held then f l else l := by
  obtain ⟨l, hl, rfl⟩ := List.mem_map.mp h
  exact ⟨l, hl, rfl⟩

/-! ### Every step -/

/-- What keeps all connections keeps the transport sound, if it keeps held ones alive. -/
theorem Sound.forEach (h : s.Sound) {f : RelayLine → RelayLine}
    (hkeeps : ∀ l : RelayLine, l.Keeps (f l))
    (halive : s.started = true → ∀ l : RelayLine, l.Alive → (f l).Alive) (signature : Option Text) :
    Sound ⟨s.relayURLs, s.started, signature, s.forEach f⟩ := by
  refine ⟨fun l' hl' hheld => ?_, fun l' hl' hheld => ?_, ?_⟩
  · obtain ⟨l, hl, rfl⟩ := mem_forEach hl'
    by_cases hl'' : l.held = true
    · obtain ⟨hstarted, hold⟩ := h.held l hl hl''
      rw [if_pos hl'']
      exact ⟨hstarted, halive hstarted l hold⟩
    · rw [if_neg hl''] at hheld
      exact absurd hheld hl''
  · obtain ⟨l, hl, rfl⟩ := mem_forEach hl'
    by_cases hl'' : l.held = true
    · rw [if_pos hl'', (hkeeps l).held, hl''] at hheld
      cases hheld
    · rw [if_neg hl''] at hheld ⊢
      exact h.released l hl hheld
  · exact (urls_forEach hkeeps).trans h.conns

theorem sound_launch (relayURLs : List Text) : (launch relayURLs).Sound := ⟨nofun, nofun, rfl⟩

theorem Sound.start (h : s.Sound) (now : Int) (subIDs : Nat → Text) :
    (s.start now subIDs).Sound := by
  unfold NostrConnections.start
  split
  · exact h
  · rename_i hstopped
    have hreleased : ∀ l ∈ s.lines, l.held = false := by
      intro l hl
      cases hheld : l.held with
      | false => rfl
      | true => exact absurd (h.held l hl hheld).1 hstopped
    have hold : s.forEach (fun l => { l with held := false }) = s.lines := by
      have hid : ∀ l ∈ s.lines, (if l.held then { l with held := false } else l) = l :=
        fun l hl => by
        rw [hreleased l hl]
        rfl
      rw [NostrConnections.forEach, List.map_congr_left hid]
      exact List.map_id _
    have hmade : ∀ l ∈ s.relayURLs.mapIdx (fun i url =>
        RelayLine.connect now ⟨.new url (subIDs i), true, 0, [], []⟩), l.held = true ∧ l.Alive := by
      intro l hl
      obtain ⟨i, hi, rfl⟩ := List.mem_mapIdx.mp hl
      exact ⟨(keeps_connect now _).held, .inr ⟨_, (Quiet.new _ _).connect⟩⟩
    dsimp only
    rw [hold]
    refine ⟨fun l hl hheld => ?_, fun l hl hheld => ?_, ?_⟩
    · rcases List.mem_append.mp hl with hl | hl
      · exact absurd (hreleased l hl) (by simp [hheld])
      · exact ⟨rfl, (hmade l hl).2⟩
    · rcases List.mem_append.mp hl with hl | hl
      · exact h.released l hl hheld
      · exact absurd (hmade l hl).1 (by simp [hheld])
    · show urls (s.lines ++ _) = s.relayURLs
      rw [urls_append, urls_of_released hreleased, List.nil_append, urls,
        List.filter_eq_self.mpr fun l hl => (hmade l hl).1]
      apply List.ext_getElem?
      intro i
      rw [List.getElem?_map, List.getElem?_mapIdx, Option.map_map]
      exact Option.map_id'

theorem Sound.stop (h : s.Sound) : s.stop.Sound := by
  have hall : ∀ l' ∈ s.stop.lines, l'.held = false ∧ l'.Quiet := by
    intro l' hl'
    obtain ⟨l, hl, rfl⟩ := mem_forEach hl'
    by_cases hheld : l.held = true
    · rw [if_pos hheld]
      have hquiet := (h.held l hl hheld).2.bounded.tearDown
      exact ⟨rfl, hquiet.task, hquiet.live, hquiet.older, hquiet.sockets⟩
    · rw [if_neg hheld]
      exact ⟨by simpa using hheld, h.released l hl (by simpa using hheld)⟩
  refine ⟨fun l hl hheld => ?_, fun l hl _ => (hall l hl).2, ?_⟩
  · rw [(hall l hl).1] at hheld
    cases hheld
  · exact urls_of_released fun l hl => (hall l hl).1

theorem Sound.refreshConnections (h : s.Sound) (now : Int) : (s.refreshConnections now).Sound := by
  unfold NostrConnections.refreshConnections
  split
  · rename_i hstarted
    refine h.forEach (keeps_refresh s.started now) (fun _ l hl => ?_) s.lastPathSignature
    rw [hstarted]
    unfold RelayLine.refresh
    dsimp only
    split
    · exact .inr ⟨_, hl.bounded.reconnectNow⟩
    · exact hl
  · exact h

theorem Sound.handlePathUpdate (h : s.Sound) (now : Int) (path : NWPath) :
    (s.handlePathUpdate now path).Sound := by
  unfold NostrConnections.handlePathUpdate
  dsimp only
  split
  · rename_i hchanged
    refine h.forEach (keeps_reconnectNow s.started now) (fun hstarted l hl => ?_) _
    rw [hstarted]
    exact .inr ⟨_, hl.bounded.reconnectNow⟩
  · exact ⟨h.held, h.released, h.conns⟩

theorem Sound.callback (h : s.Sound) {line i : Nat} {l : RelayLine} {c : Callback}
    (hline : s.lines[line]? = some l) (hi : l.pending[i]? = some c) (now : Int)
    (result : CallbackResult) :
    Sound { s with
      lines := s.lines.set line ((l.without i).runCallback s.started now c result) } := by
  have hkeeps := (keeps_without l i).trans (keeps_runCallback s.started now _ c result)
  have hmem := List.mem_of_getElem? hline
  refine ⟨fun l' hl' hheld => ?_, fun l' hl' hheld => ?_, ?_⟩
  · rcases List.mem_or_eq_of_mem_set hl' with hl' | rfl
    · exact h.held l' hl' hheld
    · obtain ⟨hstarted, halive⟩ := h.held l hmem (by rw [← hkeeps.held]; exact hheld)
      refine ⟨hstarted, ?_⟩
      rw [hstarted]
      exact halive.runCallback hi result
  · rcases List.mem_or_eq_of_mem_set hl' with hl' | rfl
    · exact h.released l' hl' hheld
    · exact (h.released l hmem (by rw [← hkeeps.held]; exact hheld)).runCallback _ now hi result
  · exact (urls_set hline hkeeps).trans h.conns

theorem Sound.step {e : Event} (h : s.Sound) (hstep : s.step e = some s') : s'.Sound := by
  cases e with
  | start now subIDs => exact Option.some.inj hstep ▸ h.start now subIDs
  | stop => exact Option.some.inj hstep ▸ h.stop
  | refreshConnections now => exact Option.some.inj hstep ▸ h.refreshConnections now
  | pathUpdate now path => exact Option.some.inj hstep ▸ h.handlePathUpdate now path
  | callback now line i result =>
    obtain ⟨l, hline, hrest⟩ := Option.bind_eq_some_iff.mp hstep
    obtain ⟨c, hi, rfl⟩ := Option.map_eq_some_iff.mp hrest
    exact h.callback hline hi now result

theorem relayURLs_step {e : Event} (hstep : s.step e = some s') : s'.relayURLs = s.relayURLs := by
  cases e with
  | start now subIDs =>
    rw [← Option.some.inj hstep, NostrConnections.start]
    split
    · rfl
    · rfl
  | stop => exact Option.some.inj hstep ▸ rfl
  | refreshConnections now =>
    rw [← Option.some.inj hstep, NostrConnections.refreshConnections]
    split
    · rfl
    · rfl
  | pathUpdate now path =>
    rw [← Option.some.inj hstep, NostrConnections.handlePathUpdate]
    dsimp only
    split
    · rfl
    · rfl
  | callback now line i result =>
    obtain ⟨l, _, hrest⟩ := Option.bind_eq_some_iff.mp hstep
    obtain ⟨c, _, rfl⟩ := Option.map_eq_some_iff.mp hrest
    rfl

theorem sound_run {relayURLs : List Text} {events : List Event}
    (hrun : run step (launch relayURLs) events = some s) : s.Sound ∧ s.relayURLs = relayURLs :=
  run_invariant (fun s => s.Sound ∧ s.relayURLs = relayURLs) (fun _ => True)
    (fun _ hstep _ h => ⟨h.1.step hstep, (relayURLs_step hstep).trans h.2⟩)
    ⟨sound_launch relayURLs, rfl⟩ (fun _ _ => trivial) hrun

theorem Sound.bounded (h : s.Sound) {l : RelayLine} (hl : l ∈ s.lines) : l.Bounded := by
  cases hheld : l.held with
  | true => exact (h.held l hl hheld).2.bounded
  | false => exact (h.released l hl hheld).bounded

/-- A live socket is the connection's only one, with one read and one ping chain. -/
theorem Sound.socket (h : s.Sound) {l : RelayLine} (hl : l ∈ s.lines) {socket : Nat}
    (hlive : socket ∈ l.live) :
    l.conn.task = some socket ∧ l.outstanding socket = 1 ∧ l.pingChains = 1 := by
  cases hheld : l.held with
  | true =>
    rcases (h.held l hl hheld).2 with hwaiting | ⟨own, hconnected⟩
    · rw [hwaiting.live] at hlive
      cases hlive
    · rw [hconnected.live, List.mem_singleton] at hlive
      subst hlive
      exact ⟨hconnected.task, hconnected.reads, hconnected.pings⟩
  | false =>
    rw [(h.released l hl hheld).live] at hlive
    cases hlive

/-- A held connection has a socket or a reconnect timer, and not both. -/
theorem Sound.heals (h : s.Sound) {l : RelayLine} (hl : l ∈ s.conns) :
    (∃ socket, l.live = [socket] ∧ l.reconnectTimers = 0) ∨
    (l.live = [] ∧ l.reconnectTimers = 1) := by
  obtain ⟨hmem, hheld⟩ := List.mem_filter.mp hl
  rcases (h.held l hmem hheld).2 with hwaiting | ⟨socket, hconnected⟩
  · exact .inr ⟨hwaiting.live, hwaiting.timer⟩
  · refine .inl ⟨socket, hconnected.live, List.countP_eq_zero.mpr fun c hc hboth => ?_⟩
    simp only [decide_eq_true_eq] at hboth
    have hlt := hconnected.timers c hc hboth.2
    omega

/-- After any run, each connection has at most one live socket, which is its own, with one read and
one ping chain; while the transport is started it holds a connection for each relay, and each of
them has a socket or one reconnect timer of its generation; and a callback of an older generation
only leaves the pending ones. -/
theorem single_and_healing (relayURLs : List Text) (events : List Event) (s : NostrConnections)
    (hrun : run step (launch relayURLs) events = some s) :
    (∀ l ∈ s.lines, l.live.length ≤ 1 ∧ ∀ socket ∈ l.live,
      l.conn.task = some socket ∧ l.outstanding socket = 1 ∧ l.pingChains = 1) ∧
    (s.started = true → s.conns.map (·.conn.url) = relayURLs ∧ ∀ l ∈ s.conns,
      (∃ socket, l.live = [socket] ∧ l.reconnectTimers = 0) ∨
        (l.live = [] ∧ l.reconnectTimers = 1)) ∧
    ∀ (line i : Nat) (l : RelayLine) (c : Callback), s.lines[line]? = some l →
    l.pending[i]? = some c →
      c.generation ≤ l.conn.generation ∧ ∀ (now : Int) (result : CallbackResult),
        c.generation < l.conn.generation →
        s.step (.callback now line i result) =
          some { s with lines := s.lines.set line (l.without i) } := by
  obtain ⟨hsound, hrelays⟩ := sound_run hrun
  refine ⟨fun l hl => ⟨?_, fun socket hlive => hsound.socket hl hlive⟩, fun hstarted =>
    ⟨?_, ?_⟩, ?_⟩
  · rw [(hsound.bounded hl).live]
    cases l.conn.task <;> simp
  · have hconns := hsound.conns
    rw [if_pos hstarted, hrelays] at hconns
    exact hconns
  · exact fun l hl => hsound.heals hl
  · intro line i l c hline hi
    have hmem := List.mem_of_getElem? hi
    refine ⟨(hsound.bounded (List.mem_of_getElem? hline)).past c hmem, fun now result hold => ?_⟩
    have hstale : c.generation ≠ (l.without i).conn.generation := by
      rw [(rests_without l i).conn]
      exact hold.ne
    rw [step, hline, Option.bind_some, hi, Option.map_some,
      runCallback_of_stale s.started now hstale]

/-- Two relays: the first one's read fails, the second one is torn down by a path change, and then a
delegate of its first socket reports that socket closed. -/
def lateClose : List Event :=
  [.start 0 (fun _ => ['a']), .pathUpdate 1 ⟨.satisfied, true, false, false⟩, .callback 2 0 2
    .failure, .pathUpdate 3 ⟨.satisfied, false, true, false⟩, .callback 4 1 0 .failure]

theorem single_and_healing_lateClose : ∃ s, run step (launch [['x'], ['y']]) lateClose = some s ∧
    ∀ l ∈ s.conns, (∃ socket, l.live = [socket] ∧ l.reconnectTimers = 0) ∨
      (l.live = [] ∧ l.reconnectTimers = 1) := by
  obtain ⟨s, hrun, hstarted⟩ :
      ∃ s, run step (launch [['x'], ['y']]) lateClose = some s ∧ s.started = true := ⟨_, rfl, rfl⟩
  exact ⟨s, hrun, ((single_and_healing _ _ s hrun).2.1 hstarted).2⟩

end NostrConnections

end AeroNyra
