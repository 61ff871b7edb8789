import AeroNyra.Session.TrialOpen

/-! `openInbound` of any bytes: a message that names its sender is opened with the handle of that
sender, which is made and kept before libsignal has looked at the message, and any other with the
handles that there are. -/

namespace AeroNyra.SignalSessionStore

inductive OpenError
  | unexpectedMessageType
  | signal
  | openFailed
  deriving DecidableEq

/-- What is called of libsignal: the types of messages, the raw identity key that a prekey message
names, and the decryption for an address, which works on the store whether or not it throws. -/
structure MessageCipher where
  preKey : UInt8
  whisper : UInt8
  identityKey : Data → Option Data
  decryptPreKey : ProtocolAddress → Data → PersistentBeaconStore →
    PersistentBeaconStore × Option Data
  decryptWhisper : ProtocolAddress → Data → PersistentBeaconStore →
    PersistentBeaconStore × Option Data

variable (c : MessageCipher) (s : SignalSessionStore)

/-- A decryption for the address of a handle. -/
def decrypted (decrypt : PersistentBeaconStore → PersistentBeaconStore × Option Data) :
    SignalSessionStore × Except OpenError Data :=
  let p := decrypt s.device.signal
  ({ s with device := { s.device with signal := p.1 } },
    match p.2 with
    | some plaintext => .ok plaintext
    | none => .error .signal)

/-- `SignalSession.open`. -/
def openPayload (session : SignalSession) : Data → SignalSessionStore × Except OpenError Data
  | [] => (s, .error .unexpectedMessageType)
  | type :: body =>
    if type = c.preKey then
      match c.identityKey body with
      | some _ => s.decrypted (c.decryptPreKey session.peerAddress body)
      | none => (s, .error .signal)
    else if type = c.whisper then s.decrypted (c.decryptWhisper session.peerAddress body)
    else (s, .error .unexpectedMessageType)

/-- The first handle that opens the payload names its sender. -/
def openWithAny (payload : Data) :
    SignalSessionStore → List SignalSession → SignalSessionStore × Except OpenError (Data × Data)
  | s, [] => (s, .error .openFailed)
  | s, session :: rest =>
    match s.openPayload c session payload with
    | (s, .ok plaintext) => (s, .ok (session.peer, plaintext))
    | (s, .error _) => openWithAny payload s rest

/-- The sender and the plaintext of a payload; `order` is the one in which the handles are gone
through. -/
def openInbound (order : List SignalSession) :
    Data → SignalSessionStore × Except OpenError (Data × Data)
  | [] => (s, .error .unexpectedMessageType)
  | type :: body =>
    if type = c.preKey then
      match c.identityKey body with
      | none => (s, .error .signal)
      | some peer =>
        let p := s.sessionWith peer
        let q := p.1.openPayload c p.2 (type :: body)
        (q.1, q.2.map fun plaintext => (peer, plaintext))
    else if type = c.whisper then openWithAny c (type :: body) s order
    else (s, .error .unexpectedMessageType)

/-- The identities in the cache are the same. -/
def SameIdentities (s s' : SignalSessionStore) : Prop :=
  ∀ key, (s'.sessions.lookup key).isSome ↔ (s.sessions.lookup key).isSome

/-- The payload is a prekey message of a sender who has no handle, and libsignal refuses it. -/
def RefusedStranger (payload : Data) : Prop :=
  ∃ body peer, payload = c.preKey :: body ∧ c.identityKey body = some peer ∧ ¬s.Cached peer ∧
    (c.decryptPreKey (handle peer).peerAddress body s.device.signal).2 = none

variable {c s}

theorem openPayload_sessions (session : SignalSession) (payload : Data) :
    (s.openPayload c session payload).1.sessions = s.sessions := by
  unfold openPayload
  repeat' split
  all_goals rfl

theorem openWithAny_sessions (payload : Data) (order : List SignalSession) :
    (openWithAny c payload s order).1.sessions = s.sessions := by
  induction order generalizing s with
  | nil => rfl
  | cons session rest ih =>
    have hfirst := @openPayload_sessions c s session payload
    unfold openWithAny
    split
    · rename_i heq
      rwa [heq] at hfirst
    · rename_i heq
      rw [heq] at hfirst
      exact ih.trans hfirst

theorem sessionWith_cached {peer : Data} (h : s.Cached peer) : (s.sessionWith peer).1 = s := by
  obtain ⟨existing, hexisting⟩ := Option.isSome_iff_exists.mp h
  simp [sessionWith, hexisting]

theorem sessionWith_new {peer : Data} (h : ¬s.Cached peer) : s.sessionWith peer =
    ({ s with sessions := AList.insert (userIDHex peer) (handle peer) s.sessions },
      handle peer) := by
  have hnone : s.sessions.lookup (userIDHex peer) = none := by simpa [Cached] using h
  simp [sessionWith, hnone, handle]

/-- A message that names its sender is opened with the handle of that sender. -/
theorem openInbound_preKey {order : List SignalSession} {body peer : Data}
    (h : c.identityKey body = some peer) :
    s.openInbound c order (c.preKey :: body) =
      (((s.sessionWith peer).1.decrypted
        (c.decryptPreKey (s.sessionWith peer).2.peerAddress body)).1,
        ((s.sessionWith peer).1.decrypted
          (c.decryptPreKey (s.sessionWith peer).2.peerAddress body)).2.map
          fun plaintext => (peer, plaintext)) := by
  simp [openInbound, openPayload, h]

/-- A failed open leaves the identities in the cache as they were exactly if the payload is not a
refused prekey message of a stranger. -/
theorem failed_open_leaves_cache (c : MessageCipher) (s : SignalSessionStore)
    (order : List SignalSession) (payload : Data) :
    (∀ e, (s.openInbound c order payload).2 = .error e →
      SameIdentities s (s.openInbound c order payload).1) ↔ ¬RefusedStranger c s payload := by
  constructor
  · rintro h ⟨body, peer, rfl, hpeer, hnew, hrefused⟩
    have hopen := @openInbound_preKey c s order body peer hpeer
    rw [sessionWith_new hnew] at hopen
    have hadded := (h .signal (by rw [hopen]; simp [decrypted, hrefused, Except.map])
      (userIDHex peer)).mp (by rw [hopen]; simp [decrypted])
    exact hnew hadded
  · intro hfree e herror key
    cases payload with
    | nil => exact Iff.rfl
    | cons type body =>
      by_cases htype : type = c.preKey
      · subst htype
        cases hpeer : c.identityKey body with
        | none => simp [openInbound, hpeer]
        | some peer =>
          rw [openInbound_preKey hpeer] at herror ⊢
          by_cases hcached : s.Cached peer
          · rw [sessionWith_cached hcached]
            exact Iff.rfl
          · rw [sessionWith_new hcached] at herror
            refine absurd ⟨body, peer, rfl, hpeer, hcached, ?_⟩ hfree
            by_contra hopened
            obtain ⟨plaintext, hplaintext⟩ := Option.ne_none_iff_exists'.mp hopened
            simp [decrypted, hplaintext, Except.map] at herror
      · by_cases hwhisper : type = c.whisper
        · simp only [openInbound, if_neg htype, if_pos hwhisper]
          rw [openWithAny_sessions]
        · simp only [openInbound, if_neg htype, if_neg hwhisper]

/-- A cipher that refuses every message; a prekey message is the identity key that it names. -/
def refusing : MessageCipher where
  preKey := 3
  whisper := 2
  identityKey body := some body
  decryptPreKey _ _ store := (store, none)
  decryptWhisper _ _ store := (store, none)

/-- Each refused message of another invented identity adds a handle. -/
theorem refused_strangers_stay :
    let first := (install [0] 7).openInbound refusing [] [3, 8]
    let second := first.1.openInbound refusing [] [3, 9]
    (first.2 = .error .signal ∧ ¬SameIdentities (install [0] 7) first.1) ∧
      second.2 = .error .signal ∧ ¬SameIdentities first.1 second.1 := by
  refine ⟨⟨rfl, fun h => ?_⟩, rfl, fun h => ?_⟩
  · exact absurd ((h (userIDHex [8])).mp rfl) (by decide)
  · exact absurd ((h (userIDHex [9])).mp rfl) (by decide)

end AeroNyra.SignalSessionStore
