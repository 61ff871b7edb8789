import AeroNyra.Lib.BitWindow
import AeroNyra.Lib.Interleave
import AeroNyra.Lib.Poly1305
import AeroNyra.Nostr.ChaCha20
import AeroNyra.PushToTalk.Capture

/-! Live audio from one sealer to one receive context, over a channel that may do anything to the
bytes: what is decoded is the sealer's, at most once, and at its first arrival within the replay
window. -/

namespace AeroNyra

/-! ### The receiver, with every trap -/

namespace PTTFrameOpener

/-- A difference of `UInt64`s, which traps below zero. -/
def minus? (a b : Nat) : Option Nat := if b ≤ a then some (a - b) else none

variable (crypto : PTTSessionCrypto) (o : PTTFrameOpener)

/-- Whether the counter is refused as a replay. -/
def checkReplay? (counter : Nat) : Option Bool :=
  if !o.seenAny then some false
  else if o.highest < counter then some false
  else (minus? o.highest counter).map fun diff => decide (windowSize ≤ diff) ||
    o.bitmap.getLsbD diff

def commit? (counter : Nat) : Option PTTFrameOpener :=
  if !o.seenAny then some { o with highest := counter, bitmap := 1, seenAny := true }
  else if o.highest < counter then
    (minus? counter o.highest).map fun shift =>
      { o with
        highest := counter
        bitmap := (if windowSize ≤ shift then 0 else o.bitmap <<< shift) ||| 1 }
  else (minus? o.highest counter).map fun diff => { o with bitmap := o.bitmap ||| (1 <<< diff) }

def openFrame? (counter : Nat) (ciphertext tag : Data) :
    Option (PTTFrameOpener × Except Failure Data) :=
  (o.checkReplay? counter).bind fun replays =>
    if replays then some (o, .error .replayed)
    else
      match crypto.openSealed o.key counter ciphertext tag with
      | none => some (o, .error .authenticationFailed)
      | some plaintext => (o.commit? counter).map fun o => (o, .ok plaintext)

theorem checkReplay?_eq (counter : Nat) : o.checkReplay? counter = some (o.replays counter) := by
  unfold checkReplay? replays minus?
  cases hseen : o.seenAny with
  | false => rfl
  | true =>
    by_cases hlt : o.highest < counter
    · have hle : ¬counter ≤ o.highest := by omega
      simp [hlt, hle]
    · have hle : counter ≤ o.highest := by omega
      simp [hlt, hle]

theorem commit?_eq (counter : Nat) : o.commit? counter = some (o.commit counter) := by
  unfold commit? commit minus?
  cases hseen : o.seenAny with
  | false => rfl
  | true =>
    by_cases hlt : o.highest < counter
    · have hle : o.highest ≤ counter := Nat.le_of_lt hlt
      simp [hlt, hle]
    · have hle : counter ≤ o.highest := by omega
      simp [hlt, hle]

theorem openFrame?_eq (counter : Nat) (ciphertext tag : Data) :
    o.openFrame? crypto counter ciphertext tag =
      some (o.openFrame crypto counter ciphertext tag) := by
  unfold openFrame? openFrame
  rw [checkReplay?_eq, Option.bind_some]
  split
  · rfl
  · cases crypto.openSealed o.key counter ciphertext tag with
    | none => rfl
    | some plaintext =>
      dsimp only
      rw [commit?_eq, Option.map_some]

end PTTFrameOpener

namespace PTTReceiver

variable (crypto : PTTSessionCrypto) (r : PTTReceiver)

/-- One sealed frame of a link; the decoder is in whatever state it has come to. -/
def receive? (link : UUID) (frame : Data) (decode : Data → Option Pcm) :
    Option (PTTReceiver × PTTReceiveOutcome) :=
  match PTTAudioWire.unpack frame with
  | none => some (r, .malformed)
  | some (seq, ciphertext, tag) =>
    match r.contexts.lookup link with
    | none => some (r, .noSession)
    | some opener =>
      (opener.openFrame? crypto seq ciphertext tag).map fun opened =>
        let r := { r with contexts := AList.insert link opened.1 r.contexts }
        match opened.2 with
        | .error .replayed => (r, .replayed)
        | .error .authenticationFailed => (r, .authFailed)
        | .ok opus =>
          match decode opus with
          | some pcm => (r, .decoded seq pcm)
          | none => (r, .decodeError)

/-- A frame of a link with a context. -/
theorem receive?_of_context {opener : PTTFrameOpener} {link : UUID} {frame ciphertext tag : Data}
    {seq : Nat}
    {decode : Data → Option Pcm} (hparts : PTTAudioWire.unpack frame = some (seq, ciphertext, tag))
    (hlookup : r.contexts.lookup link = some opener) :
    r.receive? crypto link frame decode =
      let put (o : PTTFrameOpener) : PTTReceiver :=
        { r with contexts := AList.insert link o r.contexts }
      if opener.replays seq then some (put opener, .replayed)
      else
        match crypto.openSealed opener.key seq ciphertext tag with
        | none => some (put opener, .authFailed)
        | some opus =>
          match decode opus with
          | some pcm => some (put (opener.commit seq), .decoded seq pcm)
          | none => some (put (opener.commit seq), .decodeError) := by
  rw [receive?, hparts]
  dsimp only
  rw [hlookup]
  dsimp only
  rw [PTTFrameOpener.openFrame?_eq, Option.map_some, PTTFrameOpener.openFrame]
  cases opener.replays seq with
  | true => rfl
  | false =>
    cases crypto.openSealed opener.key seq ciphertext tag with
    | none => rfl
    | some opus =>
      cases hdecode : decode opus <;> simp [hdecode]

/-- What a frame opens to. -/
def plaintext (link : UUID) (frame : Data) : Option Data :=
  (PTTAudioWire.unpack frame).bind fun p =>
    (r.contexts.lookup link).bind fun opener => crypto.openSealed opener.key p.1 p.2.1 p.2.2

/-- No frame traps. -/
theorem receive?_eq (link : UUID) (frame : Data) (decode : Data → Option Pcm) :
    r.receive? crypto link frame decode =
      some (r.receive crypto link frame ((r.plaintext crypto link frame).bind decode)) := by
  unfold receive? receive plaintext
  cases hunpack : PTTAudioWire.unpack frame with
  | none => rfl
  | some parts =>
    obtain ⟨seq, ciphertext, tag⟩ := parts
    cases hlookup : r.contexts.lookup link with
    | none => rfl
    | some opener =>
      simp only [PTTFrameOpener.openFrame?_eq, Option.map_some, Option.bind_some]
      unfold PTTFrameOpener.openFrame
      cases hreplays : opener.replays seq with
      | true => rfl
      | false =>
        cases hopen : crypto.openSealed opener.key seq ciphertext tag with
        | none => rfl
        | some opus => cases hdecode : decode opus <;> simp [hdecode]

end PTTReceiver

/-! ### What the opener has accepted -/

namespace PTTFrameOpener

/-- The window describes the counters accepted so far. -/
def Accepted (o : PTTFrameOpener) (seqs : Set Nat) : Prop :=
  (o.seenAny = false ∧ seqs = ∅) ∨ (o.seenAny = true ∧ BitWindow.Describes seqs o.highest o.bitmap)

/-- The counter was accepted before, or the window has left it behind. -/
def Stale (seqs : Set Nat) (counter : Nat) : Prop :=
  counter ∈ seqs ∨ ∃ n ∈ seqs, counter + windowSize ≤ n

variable {o : PTTFrameOpener} {seqs : Set Nat} {counter : Nat}

theorem Accepted.replays_iff (h : o.Accepted seqs) : o.replays counter = true ↔
    Stale seqs counter := by
  rcases h with ⟨hseen, rfl⟩ | ⟨hseen, hwindow⟩
  · simp [replays, Stale, hseen]
  · have htop := hwindow.top
    simp only [replays, hseen, Bool.true_and, Bool.and_eq_true, Bool.or_eq_true, decide_eq_true_eq]
    constructor
    · rintro ⟨hle, hold | hbit⟩
      · exact .inr ⟨o.highest, htop, by omega⟩
      · by_cases hin : o.highest - counter < 64
        · exact .inl ((hwindow.mem_iff hle hin).mpr hbit)
        · exact .inr ⟨o.highest, htop, by unfold windowSize; omega⟩
    · rintro (hmem | ⟨n, hn, hfar⟩)
      · have hle := hwindow.le _ hmem
        by_cases hin : o.highest - counter < 64
        · exact ⟨hle, .inr ((hwindow.mem_iff hle hin).mp hmem)⟩
        · exact ⟨hle, .inl (by unfold windowSize; omega)⟩
      · have hle := hwindow.le n hn
        unfold windowSize at hfar ⊢
        exact ⟨by omega, .inl (by omega)⟩

theorem natCast_one_shiftLeft (k : Nat) : ((1 <<< k : Nat) : BitVec 64) = 1#64 <<< k := by
  apply BitVec.eq_of_toNat_eq
  simp

theorem Accepted.commit (h : o.Accepted seqs) (counter : Nat) :
    (o.commit counter).Accepted (insert counter seqs) := by
  unfold PTTFrameOpener.commit
  rcases h with ⟨hseen, rfl⟩ | ⟨hseen, hwindow⟩
  · rw [hseen, insert_empty_eq]
    exact .inr ⟨rfl, BitWindow.describes_first counter⟩
  · rw [if_neg (by rw [hseen]; decide)]
    by_cases hlt : o.highest < counter
    · rw [if_pos hlt]
      exact .inr ⟨hseen, hwindow.advance hlt⟩
    · rw [if_neg hlt]
      refine .inr ⟨hseen, ?_⟩
      dsimp only
      rw [natCast_one_shiftLeft]
      exact hwindow.mark (Nat.le_of_not_lt hlt)

theorem key_commit : (o.commit counter).key = o.key := by
  unfold PTTFrameOpener.commit
  split
  · rfl
  · split <;> rfl

end PTTFrameOpener

/-! ### The channel -/

/-- Bytes that arrive on a link, and the Opus decoder as it is then. -/
structure AudioArrival where
  link : UUID
  bytes : Data
  decode : Data → Option Pcm

namespace PTTReceiver

def hear (crypto : PTTSessionCrypto) (r : PTTReceiver) (a : AudioArrival) : Option PTTReceiver :=
  (r.receive? crypto a.link a.bytes a.decode).map Prod.fst

def outcome (crypto : PTTSessionCrypto) (t : Interleave.Transition PTTReceiver AudioArrival) :
    Option PTTReceiveOutcome :=
  (t.pre.receive? crypto t.event.link t.event.bytes t.event.decode).map Prod.snd

/-- The sequence number of a decoded frame. -/
def decodedSeq : PTTReceiveOutcome → Option Nat
  | .decoded seq _ => some seq
  | _ => none

/-- The sequence numbers decoded so far. -/
def decodedSeqs (crypto : PTTSessionCrypto)
    (past : List (Interleave.Transition PTTReceiver AudioArrival)) : List Nat :=
  past.filterMap fun t => (outcome crypto t).bind decodedSeq

/-- A receiver with one open context. -/
def listening (link : UUID) (key : Data) : PTTReceiver :=
    (⟨∅⟩ : PTTReceiver).openSession link key true

section

variable (c : ChaChaPoly) (key : Data) (sent : List SentFrame)

/-- The cipher rejects forgeries: what opens under the key was sealed under it by the sealer, with
the nonce and the associated data that it is opened with. -/
def Unforged (bytes : Data) : Prop :=
  ∀ seq ciphertext tag plaintext, PTTAudioWire.unpack bytes = some (seq, ciphertext, tag) →
    c.openBox key (PTTSessionCrypto.nonce seq) ciphertext tag (PTTAudioWire.aad seq) =
      some plaintext →
    ∃ x ∈ sent, PTTSessionCrypto.nonce x.seq = PTTSessionCrypto.nonce seq ∧
      PTTAudioWire.aad x.seq = PTTAudioWire.aad seq ∧
      c.sealBox key (PTTSessionCrypto.nonce x.seq) x.opus (PTTAudioWire.aad x.seq) =
        (ciphertext, tag)

/-- The decoder accepts what the encoder made. -/
def Decodes (decode : Data → Option Pcm) : Prop := ∀ x ∈ sent, (decode x.opus).isSome

/-- What an arrival is taken for, after the sequence numbers `seqs`, and which are decoded then. -/
inductive Classified (link : UUID) (seqs : Set Nat) (a : AudioArrival) :
    PTTReceiveOutcome → Set Nat → Prop
  | malformed (hshort : a.bytes.length < PTTAudioWire.seqBytes + PTTAudioWire.tagBytes) :
    Classified link seqs a .malformed seqs
  | noSession (hlink : a.link ≠ link) : Classified link seqs a .noSession seqs
  | replayed (seq : Nat) (ciphertext tag : Data) (hlink : a.link = link)
    (hparts : PTTAudioWire.unpack a.bytes = some (seq, ciphertext, tag))
    (hstale : PTTFrameOpener.Stale seqs seq) : Classified link seqs a .replayed seqs
  | authFailed (hlink : a.link = link) (hforeign : ∀ x ∈ sent, a.bytes ≠ x.bytes) :
    Classified link seqs a .authFailed seqs
  | decoded (x : SentFrame) (pcm : Pcm) (hx : x ∈ sent) (hlink : a.link = link)
    (hbytes : a.bytes = x.bytes) (hfresh : ¬PTTFrameOpener.Stale seqs x.seq)
    (hpcm : a.decode x.opus = some pcm) :
    Classified link seqs a (.decoded x.seq pcm) (insert x.seq seqs)

end

/-- One context, which has accepted these sequence numbers. -/
structure Ready (link : UUID) (key : Data) (r : PTTReceiver) (seqs : Set Nat) : Prop where
  alone : ∀ j, j ≠ link → r.contexts.lookup j = none
  context : ∃ o, r.contexts.lookup link = some o ∧ o.key = key ∧ o.Accepted seqs

variable {c : ChaChaPoly} {sessionKey : Data → Data} {s : PTTFrameSealer} {frames : List Data}
    {link : UUID}
  {r : PTTReceiver} {seqs : Set Nat} {a : AudioArrival}

theorem ready_listening (link : UUID) (key : Data) : (listening link key).Ready link key ∅ := by
  constructor
  · intro j hj
    exact AList.lookup_insert_ne hj
  · exact ⟨{ key := key }, AList.lookup_insert _, rfl, .inl ⟨rfl, rfl⟩⟩

theorem Ready.insert (h : r.Ready link s.key seqs) {o : PTTFrameOpener} {seqs' : Set Nat}
    (hkey : o.key = s.key) (haccepted : o.Accepted seqs') :
    Ready link s.key { r with contexts := AList.insert link o r.contexts } seqs' := by
  constructor
  · intro j hj
    rw [AList.lookup_insert_ne hj]
    exact h.alone j hj
  · exact ⟨o, AList.lookup_insert _, hkey, haccepted⟩

open PTTCaptureEngine in
/-- Every arrival is classified, and none traps. -/
theorem Ready.receive? (h : r.Ready link s.key seqs) (sessionKey : Data → Data)
    (hstart : s.counter < 2 ^ 64)
    (hcorrect : ∀ key nonce plaintext aad, c.openBox key nonce (c.sealBox key nonce plaintext aad).1
      (c.sealBox key nonce plaintext aad).2 aad = some plaintext)
    (htag : ∀ key nonce plaintext aad,
      (c.sealBox key nonce plaintext aad).2.length = PTTAudioWire.tagBytes)
    (hunforged : Unforged c s.key (captureAll c s frames) a.bytes)
    (hdecodes : Decodes (captureAll c s frames) a.decode) :
    ∃ r' out seqs', r.receive? (c.session sessionKey) a.link a.bytes a.decode = some (r', out) ∧
      Classified (captureAll c s frames) link seqs a out seqs' ∧ r'.Ready link s.key seqs' := by
  cases hparts : PTTAudioWire.unpack a.bytes with
  | none =>
    refine ⟨r, .malformed, seqs, ?_, .malformed (PTTAudioWire.unpack_eq_none.mp hparts), h⟩
    rw [PTTReceiver.receive?, hparts]
  | some parts =>
    obtain ⟨seq, ciphertext, tag⟩ := parts
    by_cases hlink : a.link = link
    · obtain ⟨o, hlookup, hkey, haccepted⟩ := h.context
      rw [← hlink] at hlookup
      rw [receive?_of_context _ _ hparts hlookup]
      dsimp only
      by_cases hreplays : o.replays seq = true
      · rw [if_pos hreplays]
        have hstale := haccepted.replays_iff.mp hreplays
        refine ⟨_, _, seqs, rfl, .replayed seq ciphertext tag hlink hparts hstale, ?_⟩
        rw [hlink]
        exact h.insert hkey haccepted
      · rw [if_neg hreplays]
        cases hopen : (c.session sessionKey).openSealed o.key seq ciphertext tag with
        | none =>
          refine ⟨_, _, seqs, rfl, .authFailed hlink ?_, ?_⟩
          · intro x hx hbytes
            obtain ⟨_, hlt, hsealed, _⟩ := captureAll_spec hstart hx
            have hsame := hsealed.unpack (by omega) htag
            rw [← hbytes, hparts] at hsame
            obtain ⟨rfl, hbox⟩ := Prod.mk.inj (Option.some.inj hsame)
            have hback := hcorrect s.key (PTTSessionCrypto.nonce x.seq) x.opus
              (PTTAudioWire.aad x.seq)
            rw [← hbox, ← hkey] at hback
            exact absurd (hback.symm.trans hopen) (Option.some_ne_none _)
          · rw [hlink]
            exact h.insert hkey haccepted
        | some opus =>
          rw [hkey] at hopen
          obtain ⟨x, hx, hnonce, haad, hbox⟩ := hunforged seq ciphertext tag opus hparts hopen
          obtain ⟨_, hlt, hsealed, _⟩ := captureAll_spec hstart hx
          have hseq : x.seq = seq :=
            PTTSessionCrypto.nonce_inj (by omega) (PTTAudioWire.seq_lt_of_unpack hparts) hnonce
          subst hseq
          have hopus : x.opus = opus := by
            have hback := hcorrect s.key (PTTSessionCrypto.nonce x.seq) x.opus
              (PTTAudioWire.aad x.seq)
            rw [hbox] at hback
            exact Option.some.inj (hback.symm.trans hopen)
          subst hopus
          have hbytes : a.bytes = x.bytes := by
            rw [PTTAudioWire.eq_pack_of_unpack hparts, hsealed, hbox]
          obtain ⟨pcm, hpcm⟩ := Option.isSome_iff_exists.mp (hdecodes x hx)
          have hfresh : ¬PTTFrameOpener.Stale seqs x.seq := fun hstale =>
            hreplays (haccepted.replays_iff.mpr hstale)
          dsimp only
          rw [hpcm]
          refine ⟨_, _, _, rfl, .decoded x pcm hx hlink hbytes hfresh hpcm, ?_⟩
          rw [hlink]
          exact h.insert (PTTFrameOpener.key_commit.trans hkey) (haccepted.commit x.seq)
    · refine ⟨r, .noSession, seqs, ?_, .noSession hlink, h⟩
      rw [PTTReceiver.receive?, hparts]
      dsimp only
      rw [h.alone _ hlink]

/-! ### Whole runs -/

theorem decodedSeqs_append (crypto : PTTSessionCrypto)
    (past : List (Interleave.Transition PTTReceiver AudioArrival))
    {t : Interleave.Transition PTTReceiver AudioArrival}
    {out : PTTReceiveOutcome} (hout : outcome crypto t = some out) :
    decodedSeqs crypto (past ++ [t]) = decodedSeqs crypto past ++ (decodedSeq out).toList := by
  rw [decodedSeqs, List.filterMap_append, ← decodedSeqs]
  congr 1
  rw [List.filterMap_cons, hout, Option.bind_some, List.filterMap_nil]
  cases decodedSeq out <;> rfl

/-- The sequence numbers after an arrival are those before it and the one that it decoded. -/
theorem Classified.seqs_eq {sent : List SentFrame} {out : PTTReceiveOutcome} {seqs' : Set Nat}
    (h : Classified sent link seqs a out seqs') :
    seqs' = {n | n ∈ seqs ∨ n ∈ (decodedSeq out).toList} := by
  cases h with
  | malformed | noSession | replayed | authFailed =>
    ext n
    simp [decodedSeq]
  | decoded x pcm =>
    ext n
    simp [decodedSeq, or_comm]

/-- What a past of honest arrivals leaves: the context, and where each decoded number came from. -/
structure Heard (crypto : PTTSessionCrypto) (link : UUID) (key : Data) (sent : List SentFrame)
    (past : List (Interleave.Transition PTTReceiver AudioArrival)) (r : PTTReceiver) : Prop where
  ready : r.Ready link key {n | n ∈ decodedSeqs crypto past}
  once : (decodedSeqs crypto past).Nodup
  source : ∀ n ∈ decodedSeqs crypto past, ∃ t ∈ past, t.event.link = link ∧
    ∃ x ∈ sent, x.seq = n ∧ t.event.bytes = x.bytes

theorem Heard.receive {sent : List SentFrame} {crypto : PTTSessionCrypto} {key : Data}
    {past : List (Interleave.Transition PTTReceiver AudioArrival)}
    {t : Interleave.Transition PTTReceiver AudioArrival}
    (h : Heard crypto link key sent past t.pre) {out : PTTReceiveOutcome} {seqs' : Set Nat}
    (hout : outcome crypto t = some out)
    (hclass : Classified sent link {n | n ∈ decodedSeqs crypto past} t.event out seqs')
    (hready : t.post.Ready link key seqs') : Heard crypto link key sent (past ++ [t]) t.post := by
  have hseqs := decodedSeqs_append crypto past hout
  constructor
  · rw [hclass.seqs_eq] at hready
    simp only [hseqs, List.mem_append]
    exact hready
  · rw [hseqs]
    cases hclass with
    | malformed | noSession | replayed | authFailed =>
      simpa [decodedSeq] using h.once
    | decoded x pcm hx hlink hbytes hfresh =>
      have hnew : x.seq ∉ decodedSeqs crypto past := fun hmem => hfresh (.inl hmem)
      exact List.Nodup.append h.once (List.nodup_singleton _) (by simpa [decodedSeq] using hnew)
  · rw [hseqs]
    intro n hn
    rcases List.mem_append.mp hn with hold | hnew
    · obtain ⟨u, hu, hsource⟩ := h.source n hold
      exact ⟨u, List.mem_append_left _ hu, hsource⟩
    · cases hclass with
      | malformed | noSession | replayed | authFailed => cases hnew
      | decoded x pcm hx hlink hbytes =>
        obtain rfl := List.mem_singleton.mp hnew
        exact ⟨t, List.mem_append_right _ List.mem_cons_self, hlink, x, hx, rfl, hbytes⟩

section Run

variable {arrivals : List AudioArrival}

open PTTCaptureEngine in
/-- A step from where a past of honest arrivals led. -/
theorem Heard.step {past : List (Interleave.Transition PTTReceiver AudioArrival)}
    {t : Interleave.Transition PTTReceiver AudioArrival}
    (h : Heard (c.session sessionKey) link s.key (captureAll c s frames) past t.pre)
    (hstart : s.counter < 2 ^ 64)
    (hcorrect : ∀ key nonce plaintext aad, c.openBox key nonce (c.sealBox key nonce plaintext aad).1
      (c.sealBox key nonce plaintext aad).2 aad = some plaintext)
    (htag : ∀ key nonce plaintext aad,
      (c.sealBox key nonce plaintext aad).2.length = PTTAudioWire.tagBytes)
    (hunforged : Unforged c s.key (captureAll c s frames) t.event.bytes)
    (hdecodes : Decodes (captureAll c s frames) t.event.decode)
    (hstep : hear (c.session sessionKey) t.pre t.event = some t.post) :
    ∃ out seqs', outcome (c.session sessionKey) t = some out ∧
      Classified (captureAll c s frames) link {n | n ∈ decodedSeqs (c.session sessionKey) past}
        t.event out seqs' ∧ t.post.Ready link s.key seqs' := by
  obtain ⟨r', out, seqs', hreceive, hclass, hready⟩ :=
    h.ready.receive? sessionKey hstart hcorrect htag hunforged hdecodes
  have hpost : r' = t.post := by
    rw [hear, hreceive] at hstep
    exact Option.some.inj hstep
  refine ⟨out, seqs', ?_, hclass, hpost ▸ hready⟩
  rw [outcome, hreceive]
  rfl

/-- No arrival traps. -/
theorem run_hear (crypto : PTTSessionCrypto) (r : PTTReceiver) (arrivals : List AudioArrival) :
    ∃ r', Interleave.run (hear crypto) r arrivals = some r' := by
  induction arrivals generalizing r with
  | nil => exact ⟨r, rfl⟩
  | cons a rest ih =>
    have hstep : hear crypto r a = some (r.receive crypto a.link a.bytes
        ((r.plaintext crypto a.link a.bytes).bind a.decode)).1 := by
      rw [hear, receive?_eq, Option.map_some]
    obtain ⟨r', hrun⟩ := ih (r.receive crypto a.link a.bytes
      ((r.plaintext crypto a.link a.bytes).bind a.decode)).1
    exact ⟨r', Interleave.run_cons.mpr ⟨_, hstep, hrun⟩⟩

open PTTCaptureEngine in
/-- Audio over a channel that does what it will is authentic and is decoded at most once, at its
first arrival within the replay window; every arrival is classified, and none traps. -/
theorem audio_channel (hstart : s.counter < 2 ^ 64)
    (hcorrect : ∀ key nonce plaintext aad, c.openBox key nonce (c.sealBox key nonce plaintext aad).1
      (c.sealBox key nonce plaintext aad).2 aad = some plaintext)
    (htag : ∀ key nonce plaintext aad,
      (c.sealBox key nonce plaintext aad).2.length = PTTAudioWire.tagBytes)
    (hunforged : ∀ a ∈ arrivals, Unforged c s.key (captureAll c s frames) a.bytes)
    (hdecodes : ∀ a ∈ arrivals, Decodes (captureAll c s frames) a.decode) :
    (∃ r', Interleave.run (hear (c.session sessionKey)) (listening link s.key) arrivals = some r') ∧
    (decodedSeqs (c.session sessionKey)
      (Interleave.trace (hear (c.session sessionKey)) (listening link s.key) arrivals)).Nodup ∧
    ∀ before t after,
      Interleave.trace (hear (c.session sessionKey)) (listening link s.key) arrivals =
        before ++ t :: after →
      ∃ out seqs', outcome (c.session sessionKey) t = some out ∧
        Classified (captureAll c s frames) link {n | n ∈ decodedSeqs (c.session sessionKey) before}
          t.event out seqs' ∧
        (∀ seq pcm, out = .decoded seq pcm → t.event.link = link ∧ ∃ x ∈ captureAll c s frames,
          x.seq = seq ∧ t.event.bytes = x.bytes ∧ t.event.decode x.opus = some pcm) ∧
        ∀ x ∈ captureAll c s frames, t.event.link = link → t.event.bytes = x.bytes →
          (∀ u ∈ before, u.event.link = link → u.event.bytes ≠ x.bytes) →
          (∀ n ∈ decodedSeqs (c.session sessionKey) before, n < x.seq + PTTFrameOpener.windowSize) →
          ∃ pcm, out = .decoded x.seq pcm := by
  let crypto := c.session sessionKey
  let sent := captureAll c s frames
  let Inv (past : List (Interleave.Transition PTTReceiver AudioArrival)) (r : PTTReceiver) : Prop :=
    (∀ u ∈ past, u.event ∈ arrivals) → Heard crypto link s.key sent past r
  have hfirst : Inv [] (listening link s.key) := by
    intro _
    refine ⟨?_, List.nodup_nil, fun n hn => by cases hn⟩
    have hready := ready_listening link s.key
    simpa [decodedSeqs] using hready
  have hkeep : ∀ past (t : Interleave.Transition PTTReceiver AudioArrival),
      hear crypto t.pre t.event = some t.post → Inv past t.pre → Inv (past ++ [t]) t.post := by
    intro past t hstep hpast hmem
    have hheard := hpast fun u hu => hmem u (List.mem_append_left _ hu)
    have hevent := hmem t (List.mem_append_right _ List.mem_cons_self)
    obtain ⟨out, seqs', hout, hclass, hready⟩ :=
      hheard.step hstart hcorrect htag (hunforged _ hevent) (hdecodes _ hevent) hstep
    exact hheard.receive hout hclass hready
  obtain ⟨r', hrun⟩ := run_hear crypto (listening link s.key) arrivals
  refine ⟨⟨r', hrun⟩, ?_, ?_⟩
  · have hall := Interleave.run_history Inv hkeep hfirst hrun
    exact (hall fun u hu => Interleave.event_mem hu).once
  · intro before t after htrace
    have hsub : ∀ u ∈ before ++ [t], u.event ∈ arrivals := by
      intro u hu
      have hmem : u ∈ Interleave.trace (hear crypto) (listening link s.key) arrivals := by
        rw [htrace]
        simp only [List.mem_append, List.mem_cons, List.not_mem_nil, or_false] at hu ⊢
        exact hu.imp_right .inl
      exact Interleave.event_mem hmem
    have hheard := Interleave.trace_history Inv hkeep hfirst htrace
      fun u hu => hsub u (List.mem_append_left _ hu)
    have hevent := hsub t (List.mem_append_right _ List.mem_cons_self)
    have hmem : t ∈ Interleave.trace (hear crypto) (listening link s.key) arrivals := by
      rw [htrace]
      exact List.mem_append_right before List.mem_cons_self
    have hstep := Interleave.step_of_mem_trace hmem
    obtain ⟨out, seqs', hout, hclass, hready⟩ :=
      hheard.step hstart hcorrect htag (hunforged _ hevent) (hdecodes _ hevent) hstep
    refine ⟨out, seqs', hout, hclass, ?_, ?_⟩
    · rintro seq pcm rfl
      cases hclass with
      | decoded x pcm hx hlink hbytes hfresh hpcm => exact ⟨hlink, x, hx, rfl, hbytes, hpcm⟩
    · intro x hx hlink hbytes hnew hwindow
      obtain ⟨_, hlt, hsealed, _⟩ := captureAll_spec hstart hx
      have hparts := hsealed.unpack (by omega) htag
      have hfresh : ¬PTTFrameOpener.Stale {n | n ∈ decodedSeqs crypto before} x.seq := by
        rintro (hold | ⟨n, hn, hfar⟩)
        · obtain ⟨u, hu, hulink, y, hy, hyseq, hubytes⟩ := hheard.source _ hold
          obtain rfl := eq_of_seq_eq hstart hy hx hyseq
          exact hnew u hu hulink hubytes
        · exact Nat.not_le.mpr (hwindow n hn) hfar
      cases hclass with
      | malformed hshort =>
        rw [hbytes, ← PTTAudioWire.unpack_eq_none, hparts] at hshort
        cases hshort
      | noSession hother => exact absurd hlink hother
      | replayed seq ciphertext tag _ hunpack hstale =>
        rw [hbytes, hparts] at hunpack
        obtain ⟨rfl, _⟩ := Prod.mk.inj (Option.some.inj hunpack)
        exact absurd hstale hfresh
      | authFailed _ hforeign => exact absurd hbytes (hforeign x hx)
      | decoded y pcm hy _ hybytes =>
        obtain ⟨_, hylt, hysealed, _⟩ := captureAll_spec hstart hy
        have hyparts := hysealed.unpack (by omega) htag
        rw [← hybytes, hbytes, hparts] at hyparts
        obtain ⟨hseq, _⟩ := Prod.mk.inj (Option.some.inj hyparts)
        exact ⟨pcm, by rw [hseq]⟩

/-- The key of the code of a box, and the other form of its content, under ChaCha20; a key or a
nonce of another length changes nothing. -/
def tagKey (key nonce : Data) : Data :=
  ((ChaCha20.xor (List.replicate 32 0) key nonce 0).join).getD (List.replicate 32 0)

def enciphered (key nonce data : Data) : Data := ((ChaCha20.xor data key nonce 1).join).getD data

/-- ChaCha20 with the code of Poly1305. -/
def rfc8439 : ChaChaPoly where
  sealBox key nonce plaintext aad :=
    (enciphered key nonce plaintext,
      Poly1305.tag (tagKey key nonce) (Poly1305.authenticated aad (enciphered key nonce plaintext)))
  openBox key nonce ciphertext tag aad :=
    if tag = Poly1305.tag (tagKey key nonce) (Poly1305.authenticated aad ciphertext) then
      some (enciphered key nonce ciphertext)
    else none

theorem enciphered_enciphered (key nonce data : Data) :
    enciphered key nonce (enciphered key nonce data) = data := by
  unfold enciphered
  by_cases hsizes : key.length = 32 ∧ nonce.length = 12
  · obtain ⟨out, hxor, hback⟩ := ChaCha20.xor_xor hsizes.1 hsizes.2 1 data
    rw [hxor, Option.join_some, Option.getD_some, hback, Option.join_some, Option.getD_some]
  · have hnone (data : Data) : (ChaCha20.xor data key nonce 1).join = none := by
      rw [ChaCha20.xor, if_neg hsizes]
      rfl
    rw [hnone data, Option.getD_none, hnone data, Option.getD_none]

theorem opens_rfc8439 (key nonce plaintext aad : Data) :
    rfc8439.openBox key nonce (rfc8439.sealBox key nonce plaintext aad).1
      (rfc8439.sealBox key nonce plaintext aad).2 aad = some plaintext := by
  simp only [rfc8439, if_true, enciphered_enciphered]

/-- The code of a frame of two bytes under a key of fives. -/
def firstTag : Data := bigEndianBytes 16 0x20063e2ab4a4d884d3880543fffbd580

theorem sealBox_first : rfc8439.sealBox (List.replicate 32 5) (PTTSessionCrypto.nonce 0) [1, 2]
    (PTTAudioWire.aad 0) = ([208, 52], firstTag) := by
  decide +kernel

/-- The first of two frames arrives twice, and noise between. -/
theorem audio_channel_duplicated :
    (decodedSeqs (rfc8439.session id) (Interleave.trace (hear (rfc8439.session id))
      (listening 7 (List.replicate 32 5))
      [⟨7, PTTAudioWire.pack 0 [208, 52] firstTag, fun _ => some []⟩,
        ⟨7, List.replicate 30 4, fun _ => some []⟩,
        ⟨7, PTTAudioWire.pack 0 [208, 52] firstTag, fun _ => some []⟩])).Nodup := by
  let key : Data := List.replicate 32 5
  have hgenuine : Unforged rfc8439 key (PTTCaptureEngine.captureAll rfc8439 { key } [[1, 2], [3]])
      (PTTAudioWire.pack 0 [208, 52] firstTag) := by
    intro seq ciphertext tag plaintext hparts _
    have hunpack : PTTAudioWire.unpack (PTTAudioWire.pack 0 [208, 52] firstTag) =
        some (0, [208, 52], firstTag) := PTTAudioWire.unpack_pack (by decide) (by decide)
    rw [hunpack] at hparts
    cases hparts
    exact ⟨_, List.mem_cons_self, rfl, rfl, sealBox_first⟩
  have hnoise : Unforged rfc8439 key (PTTCaptureEngine.captureAll rfc8439 { key } [[1, 2], [3]])
      (List.replicate 30 4) := by
    intro seq ciphertext tag plaintext hparts hopen
    have hunpack : PTTAudioWire.unpack (List.replicate 30 4) =
        some (number (List.replicate 8 4), List.replicate 6 4, List.replicate 16 4) := by decide
    rw [hunpack] at hparts
    cases hparts
    have hclosed : rfc8439.openBox key (PTTSessionCrypto.nonce (number (List.replicate 8 4)))
        (List.replicate 6 4) (List.replicate 16 4)
        (PTTAudioWire.aad (number (List.replicate 8 4))) = none := by
      decide +kernel
    exact absurd (hclosed.symm.trans hopen) (Option.some_ne_none _).symm
  refine (@audio_channel rfc8439 id { key } [[1, 2], [3]] 7 _
    (by decide) opens_rfc8439 ?_ ?_ ?_).2.1
  · intro key nonce plaintext aad
    exact Poly1305.length_tag _ _
  · intro a ha
    simp only [List.mem_cons, List.not_mem_nil, or_false] at ha
    rcases ha with rfl | rfl | rfl
    · exact hgenuine
    · exact hnoise
    · exact hgenuine
  · intro a ha x _
    simp only [List.mem_cons, List.not_mem_nil, or_false] at ha
    rcases ha with rfl | rfl | rfl <;> rfl

end Run

end PTTReceiver

end AeroNyra
