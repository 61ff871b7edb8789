import AeroNyra.PushToTalk.Listener

/-! What a close evicts.  The receiver keeps no session identifier with a context, so a close drops
the contexts of all links of its sender; the history beside the machine records which open made each
context. -/

namespace AeroNyra.Listener

open Interleave

/-- The peer and the session of the open that made the context of a link. -/
abbrev Holders := Dict UUID (Data × Data)

namespace Holders

/-- An open holds every link of its sender that got a decoder; a close frees them all. -/
def note (holders : Holders) (l : Listener) (a : Action) (reply : Reply) (_ : Listener) : Holders :=
  match l.opens a, l.closes a, reply with
  | some (k, id, _), _, .decoders refused =>
    ((l.linksFor k).filter (· ∉ refused)).foldl (fun h link => AList.insert link (k, id) h) holders
  | none, some (k, _), _ => holders.filterEntries fun link _ => decide (link ∉ l.linksFor k)
  | _, _, _ => holders

variable {holders : Holders} {l l' : Listener} {a : Action} {reply : Reply} {k id secret : Data}
  {refused : List UUID} {link : UUID}

theorem note_open (h : l.opens a = some (k, id, secret)) :
    (note holders l a (.decoders refused) l').lookup link =
      if link ∈ l.linksFor k ∧ link ∉ refused then some (k, id) else holders.lookup link := by
  have hfold := Dict.foldl_at (fun (h : Holders) link => h.lookup link)
    (f := fun h link => AList.insert link (k, id) h) (p := fun _ => True) (v := some (k, id))
    (fun h j link => by simp) ((l.linksFor k).filter (· ∉ refused)) holders link
  simpa [note, h] using hfold

theorem note_close (hopens : l.opens a = none) (h : l.closes a = some (k, id)) :
    (note holders l a reply l').lookup link =
      if link ∈ l.linksFor k then none else holders.lookup link := by
  simp only [note, hopens, h, Dict.lookup_filterEntries]
  by_cases hlink : link ∈ l.linksFor k
  · simp [hlink]
  · cases holders.lookup link <;> simp [hlink]

theorem note_other (hopens : l.opens a = none) (hcloses : l.closes a = none) :
    note holders l a reply l' = holders := by
  simp [note, hopens, hcloses]

end Holders

/-- The links with a context are those that are held. -/
def Held (l : Listener) (holders : Holders) : Prop :=
  ∀ link, (holders.lookup link).isSome ↔ l.pttReceiver.HasContext link

variable {rawKeyOf : Data → Option Data} {hashHex : Data → String}
  {decodeManifest : Data → Option MediaManifest} {crypto : PTTSessionCrypto} {l l' : Listener}
  {a : Action} {reply : Reply} {holders : Holders}

theorem Held.effect (h : Held l holders) (heffect : Effect rawKeyOf crypto l a reply l') :
    Held l' (holders.note l a reply l') := by
  cases heffect with
  | open_ hopens =>
    intro link
    rw [Holders.note_open hopens, PTTReceiver.HasContext, pttOpen_contexts]
    split
    · rfl
    · exact h link
  | close hopens hcloses =>
    intro link
    rw [Holders.note_close hopens hcloses, PTTReceiver.HasContext, pttClose_contexts]
    split
    · rfl
    · exact h link
  | audio link frame decoded =>
    intro j
    rw [Holders.note_other rfl rfl, h j]
    exact (PTTReceiver.hasContext_receive crypto).symm
  | still _ hopens hcloses hstill =>
    intro link
    rw [Holders.note_other hopens hcloses, hstill.pttReceiver]
    exact h link
  | service | presence | tick | engineStopped | handle | interruption | burn => exact h

/-- The machine with the holders beside it. -/
def heldMachine (rawKeyOf : Data → Option Data) (hashHex : Data → String)
    (decodeManifest : Data → Option MediaManifest) (crypto : PTTSessionCrypto) :
    Machine (Listener × Holders) Action Call Reply :=
  (machine rawKeyOf hashHex decodeManifest crypto).observed Holders.note

abbrev HeldStep := Transition (Config (Listener × Holders) Action) (Event Call Reply)

/-- The app after its launch, with no holders. -/
def launchHeld (services : Pairing) : Config (Listener × Holders) Action :=
    ⟨(launch services, ∅), []⟩

/-- The links with a context are those that are held, in the shared state. -/
def AllHeld (c : Config (Listener × Holders) Action) : Prop := Held c.shared.1 c.shared.2

theorem allHeld_launch (services : Pairing) : AllHeld (launchHeld services) := by
  intro link
  simp [launchHeld, launch, PTTReceiver.HasContext]

theorem allHeld_step (t : HeldStep)
    (ht : (heldMachine rawKeyOf hashHex decodeManifest crypto).step t.pre t.event = some t.post)
    (h : AllHeld t.pre) : AllHeld t.post := by
  refine Machine.observed_step_invariant Held (C := fun _ _ _ => False) ?_ ht ?_ h
  · intro l holders a reply l' x hexec _ hheld
    exact hheld.effect (exec_effect hexec)
  · rintro ⟨_, _, _, hfalse⟩
    exact hfalse

/-- The step closes the session `id` of `k`. -/
def HeldStep.Closes (t : HeldStep) (k id : Data) : Prop :=
  Config.Ran t fun s a _ => s.1.closes a = some (k, id)

/-- A close leaves the context and the buffer of a link to every other holder. -/
def HeldStep.SparesOthers (t : HeldStep) : Prop :=
  ∀ k id, t.Closes k id → ∀ link holder, t.pre.shared.2.lookup link = some holder →
    holder ≠ (k, id) →
      t.post.shared.1.pttReceiver.contexts.lookup link =
        t.pre.shared.1.pttReceiver.contexts.lookup link ∧
      t.post.shared.1.pttPlayer.buffers.lookup link = t.pre.shared.1.pttPlayer.buffers.lookup link

/-- The session that a close names is the only one on the links of its sender. -/
def HeldStep.ClosesOwn (t : HeldStep) : Prop :=
  ∀ k id, t.Closes k id → ∀ link ∈ t.pre.shared.1.linksFor k, ∀ holder,
    t.pre.shared.2.lookup link = some holder → holder = (k, id)

theorem sparesOthers_iff (t : HeldStep)
    (ht : (heldMachine rawKeyOf hashHex decodeManifest crypto).step t.pre t.event = some t.post)
    (hheld : AllHeld t.pre) : t.SparesOthers ↔ t.ClosesOwn := by
  have hpost : ∀ k id, t.Closes k id → t.post.shared.1 = t.pre.shared.1.pttClose k id := by
    intro k id hcloses
    rcases Machine.step_shared ht with ⟨_, hquiet⟩ | ⟨a, reply, x, hexec, hran⟩
    · exact absurd hcloses (hquiet _)
    · exact exec_closes (Machine.observed_exec hexec).1 ((hran _).mp hcloses)
  constructor
  · intro hspares k id hcloses link hlink holder hholder
    by_contra hne
    have hsame := (hspares k id hcloses link holder hholder hne).1
    rw [hpost k id hcloses, pttClose_contexts, if_pos hlink] at hsame
    have hcontext := (hheld link).mp (by rw [hholder]; rfl)
    rw [PTTReceiver.HasContext, ← hsame] at hcontext
    cases hcontext
  · intro hown k id hcloses link holder hholder hne
    have hlink : link ∉ t.pre.shared.1.linksFor k := fun hlink =>
      hne (hown k id hcloses link hlink holder hholder)
    rw [hpost k id hcloses, pttClose_contexts, pttClose_buffers, if_neg hlink, if_neg hlink]
    exact ⟨rfl, rfl⟩

/-- In every run from a launch, no close touches a context that another open made, exactly when
every close names the only session on the links of its sender. -/
theorem stale_close_iff {services : Pairing} {es : List (Event Call Reply)} :
    (∀ t ∈ trace (heldMachine rawKeyOf hashHex decodeManifest crypto).step (launchHeld services) es,
      HeldStep.SparesOthers t) ↔
    ∀ t ∈ trace (heldMachine rawKeyOf hashHex decodeManifest crypto).step (launchHeld services) es,
      HeldStep.ClosesOwn t :=
  forall_trace_iff_of_invariant allHeld_step (allHeld_launch services) sparesOthers_iff

/-- The contact opens a session, supersedes it with a second one, and the close of the first arrives
after the second open. -/
def lateClose : List (Event Call Reply) :=
  linkUp ++ openMessage 2 1 ++ openMessage 3 2 ++ closeMessage 4 1

set_option maxRecDepth 8192 in
theorem stale_close_evicts :
    ∃ t ∈ trace (plainMachine.observed Holders.note).step ⟨(launchContact.shared, ∅), []⟩ lateClose,
      HeldStep.Closes t contact (List.replicate 16 1) ∧
      t.pre.shared.2.lookup 7 = some (contact, List.replicate 16 2) ∧
      t.pre.shared.1.pttReceiver.HasContext 7 ∧ ¬t.post.shared.1.pttReceiver.HasContext 7 ∧
      ¬HeldStep.SparesOthers t := by
  refine ⟨_, List.mem_of_getLast? rfl, ⟨_, _, rfl, rfl⟩, rfl, ?_, ?_, fun hspares => ?_⟩
  · decide
  · decide
  · have hsame := (hspares contact (List.replicate 16 1) ⟨_, _, rfl, rfl⟩ 7
      (contact, List.replicate 16 2) rfl (by decide)).1
    exact absurd (congrArg Option.isSome hsame) (by decide)

end AeroNyra.Listener
