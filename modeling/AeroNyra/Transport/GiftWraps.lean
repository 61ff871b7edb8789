import AeroNyra.Lib.Window
import AeroNyra.Coordinator.Receive
import Mathlib.Data.Finset.Basic

/-! The gift wraps that the relays bring to the internet transport, and when one of them is not
unwrapped.  An identifier enters the set of failed wraps before anything has tied it to its event,
so a forged copy that comes first stands in the way of the genuine event. -/

namespace AeroNyra

/-! ### Events -/

/-- A NIP-01 event. -/
structure NostrEvent where
  id : Text
  pubkey : Text
  createdAt : Int
  kind : Int
  tags : List (List Text)
  content : Text
  sig : Text
  deriving DecidableEq

/-- What the transport takes from the cryptographic and the JSON libraries. -/
structure NostrPrimitives where
  /-- SHA-256 of the UTF-8 bytes. -/
  sha256 : Text → Data
  /-- BIP-340 verification of a signature over a hash under an x-only public key. -/
  verify : Data → Data → Data → Bool
  /-- NIP-44 decryption of a payload, under the key agreed between our secret and a public key. -/
  decrypt : Data → Text → Option Text
  decodeEvent : Text → Option NostrEvent
  /-- The envelope whose wire bytes a text holds in base64. -/
  decodeEnvelope : Text → Option Envelope

namespace NostrEvent

def hexDecode (s : Text) : Option Data := Node.hexPairs s

/-- `%02x` of each byte. -/
def hexEncode (bytes : Data) : Text :=
  bytes.flatMap fun b => [Nat.digitChar (b.toNat / 16), Nat.digitChar (b.toNat % 16)]

def decimal (n : Int) : Text :=
  if n < 0 then '-' :: Nat.toDigits 10 n.natAbs else Nat.toDigits 10 n.natAbs

/-- NIP-01 escapes these seven characters and no other. -/
def escape (s : Text) : Text :=
  s.flatMap fun c =>
    if c.toNat = 0x22 then "\\\"".toList
    else if c.toNat = 0x5C then "\\\\".toList
    else if c.toNat = 0x0A then "\\n".toList
    else if c.toNat = 0x0D then "\\r".toList
    else if c.toNat = 0x09 then "\\t".toList
    else if c.toNat = 0x08 then "\\b".toList
    else if c.toNat = 0x0C then "\\f".toList
    else [c]

def serializeTags (tags : List (List Text)) : Text :=
  let element (e : Text) : Text := "\"".toList ++ escape e ++ "\"".toList
  let tag (t : List Text) : Text :=
    "[".toList ++ [','].intercalate (t.map element) ++ "]".toList
  "[".toList ++ [','].intercalate (tags.map tag) ++ "]".toList

/-- The canonical serialization that the identifier is a hash of. -/
def serializeForID (pubkey : Text) (createdAt kind : Int) (tags : List (List Text))
    (content : Text) : Text :=
  "[0,\"".toList ++ pubkey ++ "\",".toList ++ decimal createdAt ++ ",".toList ++ decimal kind ++
    ",".toList ++ serializeTags tags ++ ",\"".toList ++ escape content ++ "\"]".toList

variable (p : NostrPrimitives)

def computeID (pubkey : Text) (createdAt kind : Int) (tags : List (List Text)) (content : Text) :
    Text :=
  hexEncode (p.sha256 (serializeForID pubkey createdAt kind tags content))

/-- The identifier is the hash of the event, and the signature verifies over it. -/
def isValid (e : NostrEvent) : Bool :=
  let recomputed := computeID p e.pubkey e.createdAt e.kind e.tags e.content
  if recomputed ≠ e.id then false
  else match hexDecode e.id, hexDecode e.sig, hexDecode e.pubkey with
    | some idBytes, some sigBytes, some pubBytes =>
      if idBytes.length = 32 ∧ sigBytes.length = 64 ∧ pubBytes.length = 32 then
        p.verify sigBytes idBytes pubBytes
      else false
    | _, _, _ => false

end NostrEvent

/-! ### Gift wraps -/

namespace NostrGiftWrap

def rumorKind : Int := 20059

def sealKind : Int := 13

def wrapKind : Int := 1059

/-- The envelope in a gift wrap that is addressed to us, and the public key of its sender. -/
def unwrap (p : NostrPrimitives) (giftWrap : NostrEvent) : Option (Envelope × Data) := do
  guard (giftWrap.kind = wrapKind)
  guard (giftWrap.isValid p)
  let wrapPub ← NostrEvent.hexDecode giftWrap.pubkey
  guard (wrapPub.length = 32)
  let sealJSON ← p.decrypt wrapPub giftWrap.content
  let inner ← p.decodeEvent sealJSON
  guard (inner.kind = sealKind)
  guard (inner.isValid p)
  let sealPub ← NostrEvent.hexDecode inner.pubkey
  guard (sealPub.length = 32)
  let rumorJSON ← p.decrypt sealPub inner.content
  let rumor ← p.decodeEvent rumorJSON
  guard (rumor.kind = rumorKind)
  guard (rumor.pubkey = inner.pubkey)
  let envelope ← p.decodeEnvelope rumor.content
  return (envelope, sealPub)

end NostrGiftWrap

/-! ### The inbound side of the transport -/

/-- The outer identifiers of the gift wraps that were unwrapped last.  The lookup set of the source
is the set of the items in order. -/
abbrev ProcessedEventLedger := Window Text

def ProcessedEventLedger.defaultCapacity : Nat := 8192

/-- What the transport reads and writes when a relay brings an event. -/
structure NostrInbound where
  processedLedger : ProcessedEventLedger
  failedWrapsThisSession : Finset Text
  /-- The envelopes yielded so far, the oldest first, each with the identifier of its event. -/
  yielded : List (Text × Envelope)

namespace NostrInbound

def failedWrapsCap : Nat := 1024

/-- The transport as it starts, with the ledger of the sealed store. -/
def launch (initialLedger : ProcessedEventLedger) : NostrInbound := ⟨initialLedger, ∅, []⟩

variable (p : NostrPrimitives) (s : NostrInbound)

def noteFailedWrap (id : Text) : NostrInbound :=
  let failed := if failedWrapsCap ≤ s.failedWrapsThisSession.card then ∅
    else s.failedWrapsThisSession
  { s with failedWrapsThisSession := insert id failed }

def handleInboundEvent (event : NostrEvent) : NostrInbound :=
  if event.kind ≠ NostrGiftWrap.wrapKind then s
  else if s.processedLedger.contains event.id then s
  else if event.id ∈ s.failedWrapsThisSession then s
  else if !event.isValid p then s.noteFailedWrap event.id
  else match NostrGiftWrap.unwrap p event with
    | some (envelope, _) =>
      { s with
        processedLedger := (s.processedLedger.containsOrInsert event.id).2
        yielded := s.yielded ++ [(event.id, envelope)] }
    | none => s.noteFailedWrap event.id

/-- The transport after a list of events, from whichever relays. -/
def after (initialLedger : ProcessedEventLedger) (events : List NostrEvent) : NostrInbound :=
  events.foldl (handleInboundEvent p) (launch initialLedger)

/-- A gift wrap that is valid and unwraps for our key. -/
def Genuine (event : NostrEvent) : Prop :=
  event.kind = NostrGiftWrap.wrapKind ∧ event.isValid p ∧ (NostrGiftWrap.unwrap p event).isSome

instance (event : NostrEvent) : Decidable (Genuine p event) :=
  inferInstanceAs (Decidable (_ ∧ _ ∧ _))

/-- `event` arrives for the first time after `past`, is genuine, and is not in the ledger. -/
structure Due (initialLedger : ProcessedEventLedger) (past : List NostrEvent) (event : NostrEvent) :
    Prop where
  first : event ∉ past
  genuine : Genuine p event
  fresh : event.id ∉ (after p initialLedger past).processedLedger.order

/-- Each genuine event that is not in the ledger yields its envelope the first time it arrives. -/
def YieldsGenuine (initialLedger : ProcessedEventLedger) (events : List NostrEvent) : Prop :=
  ∀ past event rest, events = past ++ event :: rest → Due p initialLedger past event →
    ∃ envelope sender, NostrGiftWrap.unwrap p event = some (envelope, sender) ∧
      (after p initialLedger (past ++ [event])).yielded =
        (after p initialLedger past).yielded ++ [(event.id, envelope)]

/-- No identifier is processed twice within the window of the ledger: among the identifiers that
were processed before the launch and since, no stretch of the capacity and one more repeats one. -/
def YieldsOnce (initialLedger : ProcessedEventLedger) (events : List NostrEvent) : Prop :=
  ∀ stretch, stretch <:+: initialLedger.order ++ (after p initialLedger events).yielded.map (·.1) →
    stretch.length ≤ initialLedger.capacity + 1 → stretch.Nodup

/-- No genuine event that is not in the ledger finds its identifier among the failed ones when it
first arrives. -/
def FindsNoForgery (initialLedger : ProcessedEventLedger) (events : List NostrEvent) : Prop :=
  ∀ past event rest, events = past ++ event :: rest → Due p initialLedger past event →
    event.id ∉ (after p initialLedger past).failedWrapsThisSession

/-! ### What one event does -/

variable {p s} {event : NostrEvent} {initialLedger : ProcessedEventLedger}
  {events past : List NostrEvent} {id : Text}

theorem after_snoc : after p initialLedger (past ++ [event]) =
    handleInboundEvent p (after p initialLedger past) event := by
  simp [after]

/-- An event is passed over, is noted as failed, or yields the envelope in it. -/
theorem handleInboundEvent_cases (p : NostrPrimitives) (s : NostrInbound) (event : NostrEvent) :
    (s.handleInboundEvent p event = s ∧ (event.kind ≠ NostrGiftWrap.wrapKind ∨
      event.id ∈ s.processedLedger.order ∨ event.id ∈ s.failedWrapsThisSession)) ∨
    (s.handleInboundEvent p event = s.noteFailedWrap event.id ∧ ¬Genuine p event) ∨
    ∃ envelope sender, NostrGiftWrap.unwrap p event = some (envelope, sender) ∧
      event.id ∉ s.processedLedger.order ∧ s.handleInboundEvent p event =
        { s with
          processedLedger := (s.processedLedger.containsOrInsert event.id).2
          yielded := s.yielded ++ [(event.id, envelope)] } := by
  unfold handleInboundEvent
  by_cases hkind : event.kind ≠ NostrGiftWrap.wrapKind
  · exact .inl ⟨if_pos hkind, .inl hkind⟩
  · rw [if_neg hkind]
    by_cases hledger : event.id ∈ s.processedLedger.order
    · exact .inl ⟨if_pos (Window.contains_iff.mpr hledger), .inr (.inl hledger)⟩
    · rw [if_neg (by simpa using hledger)]
      by_cases hfailed : event.id ∈ s.failedWrapsThisSession
      · exact .inl ⟨if_pos hfailed, .inr (.inr hfailed)⟩
      · rw [if_neg hfailed]
        by_cases hvalid : event.isValid p
        · rw [if_neg (by simp [hvalid])]
          cases hunwrap : NostrGiftWrap.unwrap p event with
          | none => exact .inr (.inl ⟨rfl, fun hg => by simp [Genuine, hunwrap] at hg⟩)
          | some opened => exact .inr (.inr ⟨opened.1, opened.2, rfl, hledger, rfl⟩)
        · exact .inr (.inl ⟨if_pos (by simp [hvalid]), fun hg => hvalid hg.2.1⟩)

/-- A genuine event that is not in the ledger is unwrapped exactly if its identifier has not been
noted as failed. -/
theorem yields_iff (hgenuine : Genuine p event) (hfresh : event.id ∉ s.processedLedger.order) :
    (∃ envelope sender, NostrGiftWrap.unwrap p event = some (envelope, sender) ∧
      (s.handleInboundEvent p event).yielded = s.yielded ++ [(event.id, envelope)]) ↔
    event.id ∉ s.failedWrapsThisSession := by
  constructor
  · rintro ⟨envelope, sender, _, hyielded⟩ hfailed
    have hsame : s.handleInboundEvent p event = s := by
      unfold handleInboundEvent
      rw [if_neg (not_not_intro hgenuine.1), if_neg (by simpa using hfresh),
        if_pos hfailed]
    rw [hsame] at hyielded
    simp at hyielded
  · intro hfailed
    rcases handleInboundEvent_cases p s event with ⟨_, hkind | hledger | hnoted⟩ | ⟨_, hforged⟩ |
      ⟨envelope, sender, hunwrap, _, hyields⟩
    · exact absurd hgenuine.1 hkind
    · exact absurd hledger hfresh
    · exact absurd hnoted hfailed
    · exact absurd hgenuine hforged
    · exact ⟨envelope, sender, hunwrap, by rw [hyields]⟩

/-! ### Whole sessions -/

@[simp] theorem noteFailedWrap_processedLedger (id : Text) :
    (s.noteFailedWrap id).processedLedger = s.processedLedger := rfl

@[simp] theorem noteFailedWrap_yielded (id : Text) : (s.noteFailedWrap id).yielded = s.yielded :=
    rfl

/-- An identifier is among the failed ones because an event under it failed. -/
theorem failed_by (h : id ∈ (after p initialLedger past).failedWrapsThisSession) :
    ∃ forged ∈ past, forged.id = id ∧ ¬Genuine p forged := by
  induction past using List.reverseRecOn with
  | nil => simp [after, launch] at h
  | append_singleton past event ih =>
    have hold (h : id ∈ (after p initialLedger past).failedWrapsThisSession) :
        ∃ forged ∈ past ++ [event], forged.id = id ∧ ¬Genuine p forged := by
      obtain ⟨forged, hmem, hforged⟩ := ih h
      exact ⟨forged, List.mem_append_left _ hmem, hforged⟩
    rw [after_snoc] at h
    rcases handleInboundEvent_cases p (after p initialLedger past) event with ⟨hsame, _⟩ |
      ⟨hnoted, hforged⟩ | ⟨_, _, _, _, hyields⟩
    · exact hold (hsame ▸ h)
    · rw [hnoted, noteFailedWrap, Finset.mem_insert] at h
      rcases h with rfl | h
      · exact ⟨event, by simp, rfl, hforged⟩
      · split at h
        · simp at h
        · exact hold h
    · rw [hyields] at h
      exact hold h

/-- The ledger guards the identifiers that it was seeded with and those of the envelopes yielded. -/
theorem ledger_guards (p : NostrPrimitives) (initialLedger : ProcessedEventLedger)
    (events : List NostrEvent) :
    (after p initialLedger events).processedLedger.capacity = initialLedger.capacity ∧
    (after p initialLedger events).processedLedger.Guards
      (initialLedger.order ++ (after p initialLedger events).yielded.map (·.1)) := by
  induction events using List.reverseRecOn with
  | nil => exact ⟨rfl, by simpa [after, launch] using Window.guards_self initialLedger⟩
  | append_singleton past event ih =>
    obtain ⟨hcapacity, hguards⟩ := ih
    rw [after_snoc]
    rcases handleInboundEvent_cases p (after p initialLedger past) event with ⟨hsame, _⟩ |
      ⟨hnoted, _⟩ | ⟨_, _, _, hfresh, hyields⟩
    · rw [hsame]
      exact ⟨hcapacity, hguards⟩
    · rw [hnoted]
      exact ⟨hcapacity, hguards⟩
    · rw [hyields]
      refine ⟨by simpa using hcapacity, ?_⟩
      rw [List.map_append, ← List.append_assoc]
      exact hguards.insert hfresh

theorem yieldsOnce (p : NostrPrimitives) (initialLedger : ProcessedEventLedger)
    (events : List NostrEvent) : YieldsOnce p initialLedger events := by
  intro stretch hinfix hlength
  obtain ⟨hcapacity, hguards⟩ := ledger_guards p initialLedger events
  exact hguards.once stretch hinfix (by omega)

/-- In every session, each genuine event yields its envelope when it first arrives and no identifier
is processed twice within the window, if and only if no genuine event finds its identifier noted as
failed. -/
theorem yields_genuine_iff (p : NostrPrimitives) (initialLedger : ProcessedEventLedger)
    (events : List NostrEvent) :
    YieldsGenuine p initialLedger events ∧ YieldsOnce p initialLedger events ↔
      FindsNoForgery p initialLedger events := by
  constructor
  · rintro ⟨hyields, _⟩ past event rest hevents hdue
    have hyield := hyields past event rest hevents hdue
    rw [after_snoc] at hyield
    exact (yields_iff hdue.genuine hdue.fresh).mp hyield
  · intro hnone
    refine ⟨fun past event rest hevents hdue => ?_, yieldsOnce p initialLedger events⟩
    rw [after_snoc]
    exact (yields_iff hdue.genuine hdue.fresh).mpr (hnone past event rest hevents hdue)

/-! ### A forged copy -/

/-- Primitives under which every event hashes to zeros, a signature verifies if it starts with a
one, and every payload opens to the same seal and the same rumor. -/
def trivialPrimitives : NostrPrimitives where
  sha256 _ := .replicate 32 0
  verify signature _ _ := signature.head? == some 1
  decrypt _ payload := some payload
  decodeEvent
    | ['s'] => some ⟨.replicate 64 '0', .replicate 64 '2', 0, NostrGiftWrap.sealKind, [], ['r'],
        '0' :: '1' :: .replicate 126 '0'⟩
    | _ => some ⟨[], .replicate 64 '2', 0, NostrGiftWrap.rumorKind, [], [], []⟩
  decodeEnvelope _ := some (.new (.filled 1) [5])

def genuineWrap : NostrEvent :=
  ⟨.replicate 64 '0', .replicate 64 '3', 0, NostrGiftWrap.wrapKind, [], ['s'],
    '0' :: '1' :: .replicate 126 '0'⟩

/-- A copy of the genuine wrap whose signature does not verify. -/
def forgedWrap : NostrEvent := { genuineWrap with sig := .replicate 128 '0' }

/-- The forged copy comes first, and the genuine wrap is passed over: it never yields. -/
theorem forgery_suppresses :
    Genuine trivialPrimitives genuineWrap ∧
      (after trivialPrimitives (.new ProcessedEventLedger.defaultCapacity)
        [forgedWrap, genuineWrap]).yielded = [] ∧
      ¬YieldsGenuine trivialPrimitives (.new ProcessedEventLedger.defaultCapacity)
        [forgedWrap, genuineWrap] := by
  have hgenuine : Genuine trivialPrimitives genuineWrap := by decide
  have hsilent : (after trivialPrimitives (.new ProcessedEventLedger.defaultCapacity)
      [forgedWrap, genuineWrap]).yielded = [] := by decide
  refine ⟨hgenuine, hsilent, fun hyields => ?_⟩
  have hdue : Due trivialPrimitives (.new ProcessedEventLedger.defaultCapacity) [forgedWrap]
      genuineWrap := ⟨by decide, hgenuine, by decide⟩
  obtain ⟨envelope, _, _, hyielded⟩ := hyields [forgedWrap] genuineWrap [] rfl hdue
  rw [List.singleton_append, hsilent] at hyielded
  simp at hyielded

end NostrInbound

end AeroNyra
