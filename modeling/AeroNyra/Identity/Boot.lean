import AeroNyra.Identity.Store
import AeroNyra.Wipe.ContentView

/-! Booting with the identity of the Keychain, over launches, onboardings and erases.  Every step
of the app does to the Keychain what calls of the identity store do, so that the app shows one
identity until the user erases it, and onboards only where there is none. -/

namespace AeroNyra

open Keychain Interleave

namespace BootRouter

open ContentView (BootFailure)

variable (k : CryptoKit) (st : IdentityStore)

/-- The route of a boot, with the identity that it carries. -/
inductive BootRoute
  | onboarding
  | bootFailed (failure : BootFailure)
  | ready (identity : IdentityKeypair)

/-- The stack is built only with an identity that was loaded. -/
def route (load : Except IdentityError IdentityKeypair) (buildStack : IdentityKeypair → Bool) :
    BootRoute :=
  match load with
  | .error .notFound => .onboarding
  | .error _ => .bootFailed .identityUnreadable
  | .ok identity => if buildStack identity then .ready identity else .bootFailed .stackFailed

inductive Phase
  | launching
  | eula (route : BootRoute)
  | onboarding
  | bootFailed (failure : BootFailure)
  | ready (identity : IdentityKeypair)
  /-- The identity is deleted, or not yet. -/
  | wiping (deleted : Bool)

/-- The app as far as its identity goes, with the Keychain. -/
structure App where
  items : KeychainItems
  eulaAccepted : Bool
  phase : Phase

inductive Event
  /-- The process is started anew. -/
  | launch
  | bootstrap (reply : IdentityStore.Reply k) (builds : Bool)
  | acceptTerms
  /-- An identity is saved, and the app booted with it. -/
  | completeOnboarding (identity : IdentityKeypair) (saving reply : IdentityStore.Reply k)
      (builds : Bool)
  /-- The wiping surface is put up. -/
  | eraseEverything
  | deleteIdentity (deletes : Option Refusal)
  /-- The rest of the erase: the sweep, the key of the Enclave, and the check that all is gone. -/
  | finishErase (deletes : Option Refusal) (complete : Bool)
  /-- Another item of the Keychain is changed. -/
  | other (item : String × String) (value : Option Data)

variable (s : App)

def enter : BootRoute → App
  | .onboarding => { s with phase := .onboarding }
  | .bootFailed failure => { s with phase := .bootFailed failure }
  | .ready identity => { s with phase := .ready identity }

/-- The terms are to be accepted first, but for the door of a failed boot. -/
def follow (r : BootRoute) : App :=
  match r with
  | .bootFailed _ => enter s r
  | .onboarding | .ready _ => if s.eulaAccepted then enter s r else { s with phase := .eula r }

def bootstrap (reply : IdentityStore.Reply k) (builds : Bool) : App :=
  let loaded := st.load k s.items reply
  follow { s with items := loaded.1 } (route loaded.2 fun _ => builds)

/-- An identity that exists is not replaced; after any other error the user may try again. -/
def completeOnboarding (identity : IdentityKeypair) (saving reply : IdentityStore.Reply k)
    (builds : Bool) : App :=
  match st.save k s.items saving identity false with
  | (items, .ok ()) => bootstrap k st { s with items } reply builds
  | (items, .error .alreadyExists) => { s with items, phase := .bootFailed .identityUnreadable }
  | (items, .error _) => { s with items }

def deleteIdentity (deletes : Option Refusal) : App :=
  match st.delete s.items deletes with
  | (items, .ok ()) => { s with items, phase := .wiping true }
  | (items, .error _) => { s with items, phase := .bootFailed .identityUnreadable }

def finishErase (deletes : Option Refusal) (complete : Bool) : App :=
  { s with
    items := st.wrapper.elim s.items fun w => (w.deleteEnclaveKey s.items deletes).1
    phase := if complete then .onboarding else .bootFailed .identityUnreadable }

def step : Event k → Option App
  | .launch => some { s with phase := .launching }
  | .bootstrap reply builds =>
    match s.phase with
    | .launching | .bootFailed _ => some (bootstrap k st s reply builds)
    | _ => none
  | .acceptTerms =>
    match s.phase with
    | .eula route => some (enter { s with eulaAccepted := true } route)
    | _ => none
  | .completeOnboarding identity saving reply builds =>
    match s.phase with
    | .onboarding => some (completeOnboarding k st s identity saving reply builds)
    | _ => none
  | .eraseEverything =>
    match s.phase with
    | .ready _ | .bootFailed _ => some { s with phase := .wiping false }
    | _ => none
  | .deleteIdentity deletes =>
    match s.phase with
    | .wiping false => some (deleteIdentity st s deletes)
    | _ => none
  | .finishErase deletes complete =>
    match s.phase with
    | .wiping true => some (finishErase st s deletes complete)
    | _ => none
  | .other item value => some { s with items := st.step k s.items (.other item value) }

/-- What an event of the app does to the Keychain, as calls of the store. -/
def calls : Event k → List (IdentityStore.Event k)
  | .bootstrap reply _ => [.load reply]
  | .completeOnboarding identity saving reply _ =>
    .save identity false saving ::
      match (st.save k s.items saving identity false).2 with
      | .ok () => [.load reply]
      | .error _ => []
  | .deleteIdentity deletes => [.delete deletes]
  | .finishErase deletes _ =>
    st.wrapper.toList.map fun w => .other w.item ((w.deleteEnclaveKey s.items deletes).1 w.item)
  | .other item value => [.other item value]
  | .launch | .acceptTerms | .eraseEverything => []

/-- The app shows the identity, or will once the terms are accepted. -/
def Shows (identity : IdentityKeypair) : Prop := s.phase = .ready identity ∨
    s.phase = .eula (.ready identity)

/-- The user's erase deletes the identity. -/
def Erases (t : Transition App (Event k)) : Prop :=
  ∃ deletes, t.event = .deleteIdentity deletes ∧ (st.delete t.pre.items deletes).2 = .ok ()

variable {k st s} {s' : App} {w : SecureEnclaveWrapper} {identity : IdentityKeypair}

/-! ### The calls of the store -/

@[simp] theorem enter_items (r : BootRoute) : (enter s r).items = s.items := by
  cases r <;> rfl

@[simp] theorem follow_items (r : BootRoute) : (follow s r).items = s.items := by
  cases r <;> cases heula : s.eulaAccepted <;> simp [follow, heula]

@[simp] theorem bootstrap_items (reply : IdentityStore.Reply k) (builds : Bool) :
    (bootstrap k st s reply builds).items = (st.load k s.items reply).1 := follow_items _

/-- Every step of the app does to the Keychain what its calls of the store do. -/
theorem step_items {event : Event k} (h : step k st s event = some s') :
    s'.items = st.run k s.items (calls k st s event) := by
  cases event with
  | launch =>
    cases h
    rfl
  | bootstrap reply builds =>
    simp only [step] at h
    split at h <;> cases h <;> exact bootstrap_items reply builds
  | acceptTerms =>
    simp only [step] at h
    split at h <;> cases h
    exact enter_items _
  | completeOnboarding identity saving reply builds =>
    simp only [step] at h
    split at h <;> cases h
    simp only [calls, IdentityStore.run, List.foldl_cons, IdentityStore.step]
    unfold completeOnboarding
    rcases st.save k s.items saving identity false with ⟨after, error | _⟩
    · cases error <;> rfl
    · exact bootstrap_items reply builds
  | eraseEverything =>
    simp only [step] at h
    split at h <;> cases h <;> rfl
  | deleteIdentity deletes =>
    simp only [step] at h
    split at h <;> cases h
    simp only [calls, IdentityStore.run, List.foldl_cons, List.foldl_nil, IdentityStore.step]
    unfold deleteIdentity
    rcases st.delete s.items deletes with ⟨after, error | _⟩ <;> rfl
  | finishErase deletes complete =>
    simp only [step] at h
    split at h <;> cases h
    simp only [calls, finishErase, IdentityStore.run]
    cases st.wrapper with
    | none => rfl
    | some w =>
      simp only [Option.elim, Option.toList, List.map_cons, List.map_nil, List.foldl_cons,
        List.foldl_nil, IdentityStore.step, if_neg (IdentityStore.item_ne w)]
      simp only [SecureEnclaveWrapper.deleteEnclaveKey]
      rcases delete_cases s.items w.item deletes with ⟨_, hgone⟩ | ⟨_, _, hsame⟩
      · rw [hgone, Function.update_self]
      · rw [hsame, Function.update_eq_self]
  | other item value =>
    cases h
    rfl

/-- The identity stays as it is but for an erase. -/
theorem calls_kept {event : Event k} (hnot : ¬Erases k st ⟨s, event, s'⟩) :
    st.Kept k s.items (calls k st s event) := by
  cases event with
  | bootstrap reply builds => exact ⟨id, trivial⟩
  | completeOnboarding identity saving reply builds =>
    refine ⟨id, ?_⟩
    cases (st.save k s.items saving identity false).2 with
    | error error => trivial
    | ok => exact ⟨id, trivial⟩
  | deleteIdentity deletes => exact ⟨fun hdeleted => hnot ⟨deletes, rfl, hdeleted⟩, trivial⟩
  | finishErase deletes complete =>
    simp only [calls]
    cases st.wrapper with
    | none => trivial
    | some w => exact ⟨id, trivial⟩
  | other item value => exact ⟨id, trivial⟩
  | launch => trivial
  | acceptTerms => trivial
  | eraseEverything => trivial

theorem step_item {stored : Data} {t : Transition App (Event k)}
    (hstep : step k st t.pre t.event = some t.post)
    (hnot : ¬Erases k st t) (hitem : t.pre.items st.item = some stored) :
    t.post.items st.item = some stored := by
  rw [step_items hstep]
  exact IdentityStore.run_item hitem (calls_kept hnot)

theorem step_sound {event : Event k} (hstep : step k st s event = some s')
    (h : IdentityStore.Sound k st s.items) : IdentityStore.Sound k st s'.items := by
  rw [step_items hstep]
  exact IdentityStore.run_sound h _

/-! ### What a boot leads to -/

theorem follow_shows {r : BootRoute} : Shows (follow s r) identity ↔ r = .ready identity := by
  unfold Shows
  cases r <;> cases heula : s.eulaAccepted <;> simp [follow, enter, heula]

theorem bootstrap_shows {reply : IdentityStore.Reply k} {builds : Bool} :
    Shows (bootstrap k st s reply builds) identity ↔ (st.load k s.items reply).2 = .ok identity ∧
      builds := by
  refine follow_shows.trans ?_
  rcases (st.load k s.items reply).2 with error | loaded
  · cases error <;> simp [route]
  · cases builds <;> simp [route]

theorem bootstrap_of_ok {reply : IdentityStore.Reply k} (builds : Bool)
    (h : (st.load k s.items reply).2 = .ok identity) :
    Shows (bootstrap k st s reply builds) identity ∨
      (bootstrap k st s reply builds).phase = .bootFailed .stackFailed := by
  cases builds with
  | true => exact .inl (bootstrap_shows.mpr ⟨h, rfl⟩)
  | false =>
    right
    dsimp only [bootstrap]
    rw [h]
    rfl

/-- Whatever keeps an identity from being read, the app does not onboard. -/
theorem bootstrap_of_error {reply : IdentityStore.Reply k} (builds : Bool) {error : IdentityError}
    (h : (st.load k s.items reply).2 = .error error) (hfound : error ≠ .notFound) :
    (bootstrap k st s reply builds).phase = .bootFailed .identityUnreadable := by
  dsimp only [bootstrap]
  rw [h]
  cases error with
  | notFound => exact absurd rfl hfound
  | _ => rfl

theorem bootstrap_of_unused (h : k.Ideal) {reply : IdentityStore.Reply k} (builds : Bool)
    {key : k.EnclaveKey} {stored : Data} (hitem : s.items st.item = some stored)
    (hholds : st.Holds k identity (some key) stored)
    (hunused : ¬SecureEnclaveWrapper.KeyInUse k st.wrapper s.items reply.enclave (some key)) :
    (bootstrap k st s reply builds).phase = .bootFailed .identityUnreadable := by
  rcases IdentityStore.load_of_unused h hitem hholds hunused with hfailed | ⟨_, _, hfailed⟩ <;>
    exact bootstrap_of_error builds hfailed (by simp)

theorem eq_bootstrap {reply : IdentityStore.Reply k} {builds : Bool}
    (h : step k st s (.bootstrap reply builds) = some s') : s' = bootstrap k st s reply builds := by
  simp only [step] at h
  split at h
  · exact (Option.some.inj h).symm
  · exact (Option.some.inj h).symm
  · cases h

theorem deleteIdentity_phase (st : IdentityStore) (s : App) (deletes : Option Refusal) :
    ((st.delete s.items deletes).2 = .ok () ∧ (deleteIdentity st s deletes).phase = .wiping true) ∨
      (deleteIdentity st s deletes).phase = .bootFailed .identityUnreadable := by
  unfold deleteIdentity
  rcases st.delete s.items deletes with ⟨after, error | _⟩
  · exact .inr rfl
  · exact .inl ⟨rfl, rfl⟩

/-- What the app shows is what the Keychain holds. -/
structure Consistent (k : CryptoKit) (st : IdentityStore) (s : App) : Prop where
  sound : IdentityStore.Sound k st s.items
  shown : ∀ identity, Shows s identity →
    ∃ key stored, st.Holds k identity key stored ∧ s.items st.item = some stored

theorem bootstrap_shown (h : k.Ideal) (hsound : IdentityStore.Sound k st s.items)
    {reply : IdentityStore.Reply k}
    {builds : Bool} (hshows : Shows (bootstrap k st s reply builds) identity) :
    ∃ key stored, st.Holds k identity key stored ∧ (bootstrap k st s reply builds).items st.item =
    some stored := by
  rw [bootstrap_items]
  have hyields : st.Yields k s.items (.load reply) identity := (bootstrap_shows.mp hshows).1
  exact IdentityStore.stored_of_yields h hsound hyields

theorem step_consistent (h : k.Ideal) {event : Event k} (hstep : step k st s event = some s')
    (hcons : Consistent k st s) : Consistent k st s' := by
  refine ⟨step_sound hstep hcons.sound, fun identity hshows => ?_⟩
  cases event with
  | launch =>
    cases hstep
    rcases hshows with hphase | hphase <;> cases hphase
  | bootstrap reply builds =>
    simp only [step] at hstep
    split at hstep <;> cases hstep <;> exact bootstrap_shown h hcons.sound hshows
  | acceptTerms =>
    simp only [step] at hstep
    split at hstep <;> cases hstep
    rename_i r hphase
    rw [enter_items]
    refine hcons.shown identity (.inr ?_)
    cases r <;> simp [Shows, enter] at hshows
    rw [hphase, hshows]
  | completeOnboarding saved saving reply builds =>
    have hsaved := IdentityStore.step_sound hcons.sound (.save saved false saving)
    simp only [step] at hstep
    split at hstep <;> cases hstep
    rename_i hphase
    simp only [IdentityStore.step] at hsaved
    unfold completeOnboarding at hshows ⊢
    rcases hresult : st.save k s.items saving saved false with ⟨after, error | _⟩ <;>
      rw [hresult] at hsaved hshows
    · cases error <;> rcases hshows with hnow | hnow <;> simp [hphase] at hnow
    · exact bootstrap_shown h hsaved hshows
  | eraseEverything =>
    simp only [step] at hstep
    split at hstep <;> cases hstep <;> rcases hshows with hphase | hphase <;> cases hphase
  | deleteIdentity deletes =>
    simp only [step] at hstep
    split at hstep <;> cases hstep
    rcases deleteIdentity_phase st s deletes with ⟨_, hnow⟩ | hnow <;> simp [Shows, hnow] at hshows
  | finishErase deletes complete =>
    simp only [step] at hstep
    split at hstep <;> cases hstep
    cases complete <;> rcases hshows with hphase | hphase <;> cases hphase
  | other item value =>
    obtain ⟨key, stored, hholds, hitem⟩ := hcons.shown identity (by cases hstep; exact hshows)
    exact ⟨key, stored, hholds,
      step_item (t := ⟨s, .other item value, s'⟩) hstep
        (by rintro ⟨_, hevent, _⟩; cases hevent) hitem⟩

/-! ### Runs -/

/-- The app on a device without an identity. -/
def installed (items : KeychainItems) (eulaAccepted : Bool) : App :=
    ⟨items, eulaAccepted, .launching⟩

/-- From the first time that the app shows an identity, over launches, boots, accepted terms,
onboardings and erases that fail, whatever the Keychain and the Enclave answer, it shows no other
one, and no boot leads to onboarding, until the user's erase deletes the identity. -/
theorem identity_survives (h : k.Ideal) {items : KeychainItems} (hnone : items st.item = none)
    {eulaAccepted : Bool} {first later : List (Event k)}
    (hrun : run (step k st) (installed items eulaAccepted) first = some s)
    (hshows : Shows s identity) (hkept : ∀ t ∈ trace (step k st) s later, ¬Erases k st t) :
    ∀ t ∈ trace (step k st) s later, (∀ other, Shows t.post other → other = identity) ∧
      ∀ reply builds, t.event = .bootstrap reply builds →
        Shows t.post identity ∨ ∃ failure, t.post.phase = .bootFailed failure := by
  have hstart : Consistent k st (installed items eulaAccepted) := by
    refine ⟨fun stored hstored => ?_, fun identity hnow =>
      by rcases hnow with hphase | hphase <;> cases hphase⟩
    exact absurd (hnone.symm.trans hstored) (by simp)
  have hcons : Consistent k st s := run_invariant (Consistent k st) (fun _ => True)
    (fun t hstep _ hpre => step_consistent h hstep hpre) hstart (fun _ _ => trivial) hrun
  obtain ⟨key, stored, hholds, hitem⟩ := hcons.shown identity hshows
  intro t ht
  have hpre : Consistent k st t.pre ∧ t.pre.items st.item = some stored :=
    trace_invariant_of (fun s => Consistent k st s ∧ s.items st.item = some stored)
      (fun t => ¬Erases k st t)
      (fun t hstep hnot hpre => ⟨step_consistent h hstep hpre.1, step_item hstep hnot hpre.2⟩)
      ⟨hcons, hitem⟩ hkept ht
  have hstep := step_of_mem_trace ht
  have hpost := step_item hstep (hkept t ht) hpre.2
  refine ⟨fun other hother => ?_, fun reply builds hevent => ?_⟩
  · obtain ⟨key', stored', hholds', hitem'⟩ := (step_consistent h hstep hpre.1).shown other hother
    obtain rfl : stored' = stored := Option.some.inj (hitem'.symm.trans hpost)
    exact IdentityStore.holds_unique h hholds' hholds
  · rw [hevent] at hstep
    rw [eq_bootstrap hstep]
    rcases IdentityStore.load_of_holds h reply hpre.2 hholds with ⟨hloaded, _⟩ | ⟨hfailed, _⟩ |
      ⟨_, hfailed, _⟩
    · exact (bootstrap_of_ok builds hloaded).imp_right fun hphase => ⟨_, hphase⟩
    · exact .inr ⟨_, bootstrap_of_error builds hfailed (by simp)⟩
    · exact .inr ⟨_, bootstrap_of_error builds hfailed (by simp)⟩

set_option maxRecDepth 2000 in
/-- A first launch with the terms accepted, onboarding, and a second launch. -/
theorem identity_survives_relaunch :
    ∃ s, run (step .transparent IdentityStore.onDevice) (installed (fun _ => none) true)
        [.bootstrap (.granting [7] (.uniform 0)) true,
          .completeOnboarding (.uniform 1) (.granting [7] (.uniform 0))
            (.granting [8] (.uniform 0)) true] = some s ∧
      ∀ t ∈ trace (step .transparent IdentityStore.onDevice) s
      [.launch, .bootstrap (.granting [9] (.uniform 0)) true],
        (∀ other, Shows t.post other → other = .uniform 1) ∧
        ∀ reply builds, t.event = .bootstrap reply builds →
          Shows t.post (.uniform 1) ∨ ∃ failure, t.post.phase = .bootFailed failure := by
  have hready : (run (step .transparent IdentityStore.onDevice) (installed (fun _ => none) true)
      [.bootstrap (.granting [7] (.uniform 0)) true,
        .completeOnboarding (.uniform 1) (.granting [7] (.uniform 0))
          (.granting [8] (.uniform 0)) true]).map App.phase =
      some (.ready (.uniform 1)) := by rfl
  obtain ⟨s, hrun, hphase⟩ := Option.map_eq_some_iff.mp hready
  refine ⟨s, hrun, identity_survives CryptoKit.transparent_ideal rfl hrun (.inl hphase) fun t ht =>
    ?_⟩
  rintro ⟨deletes, hevent, _⟩
  have hmem := event_mem ht
  rw [hevent] at hmem
  simp at hmem

/-- The app is not at work with an identity, nor will it be before the user erases what is there. -/
def Barred (s : App) : Prop :=
  s.phase = .launching ∨ s.phase = .bootFailed .identityUnreadable ∨ s.phase = .wiping false

/-- The event brings a reference of the key of the Enclave back into the Keychain. -/
def BringsBack (k : CryptoKit) (st : IdentityStore) (w : SecureEnclaveWrapper) (key : k.EnclaveKey)
    (t : Transition App (Event k)) : Prop :=
  ∃ call ∈ calls k st t.pre t.event, IdentityStore.Restores w key call

theorem step_barred (h : k.Ideal) (hw : st.wrapper = some w) {key : k.EnclaveKey} {event : Event k}
    (hstep : step k st s event = some s') (hkept : ¬Erases k st ⟨s, event, s'⟩)
    (hnot : ¬BringsBack k st w key ⟨s, event, s'⟩) (hlost : IdentityStore.Lost k st w key s.items)
    (hbarred : Barred s) : IdentityStore.Lost k st w key s'.items ∧ Barred s' := by
  refine ⟨?_, ?_⟩
  · rw [step_items hstep]
    exact IdentityStore.run_lost h hw hlost (calls_kept hkept) fun call hcall hback =>
      hnot ⟨call, hcall, hback⟩
  · cases event with
    | launch =>
      cases hstep
      exact .inl rfl
    | bootstrap reply builds =>
      have hfresh : reply.enclave.generated ≠ some key :=
        fun hback => hnot ⟨_, List.mem_singleton_self _, hback⟩
      obtain ⟨⟨identity, stored, hitem, hholds⟩, hgone⟩ := hlost
      refine .inr (.inl ?_)
      rw [eq_bootstrap hstep]
      exact bootstrap_of_unused h builds hitem hholds fun hused =>
        (SecureEnclaveWrapper.keyInUse_cases (hw ▸ hused)).elim
        (fun hthere => hthere.1 hgone) hfresh
    | acceptTerms =>
      rcases hbarred with hphase | hphase | hphase <;> simp [step, hphase] at hstep
    | completeOnboarding saved saving reply builds =>
      rcases hbarred with hphase | hphase | hphase <;> simp [step, hphase] at hstep
    | eraseEverything =>
      simp only [step] at hstep
      split at hstep <;> cases hstep <;> exact .inr (.inr rfl)
    | deleteIdentity deletes =>
      simp only [step] at hstep
      split at hstep <;> cases hstep
      rcases deleteIdentity_phase st s deletes with ⟨hdeleted, _⟩ | hphase
      · exact absurd ⟨deletes, rfl, hdeleted⟩ hkept
      · exact .inr (.inl hphase)
    | finishErase deletes complete =>
      rcases hbarred with hphase | hphase | hphase <;> simp [step, hphase] at hstep
    | other item value =>
      cases hstep
      exact hbarred

/-- One boot during which the Enclave does not take the reference of its key, and the Keychain lets
the reference be deleted, costs the identity: that boot and every later one ends at the door of
what cannot be read, never in onboarding, until the user's erase deletes the identity. -/
theorem identity_lost_for_good (h : k.Ideal) (hw : st.wrapper = some w) {key : k.EnclaveKey}
    {stored : Data}
    (hitem : s.items st.item = some stored) (hholds : st.Holds k identity (some key) stored)
    {reply : IdentityStore.Reply k} {builds : Bool}
    (hboot : step k st s (.bootstrap reply builds) = some s')
    (hcopies : reply.copies = none) (hanswers : reply.enclave.copies = none)
    (hrefused : reply.enclave.restores = false) (hdeletes : reply.enclave.deletes = none)
    (hfresh : reply.enclave.generated ≠ some key) {later : List (Event k)}
    (hkept : ∀ t ∈ trace (step k st) s' later, ¬Erases k st t)
    (hnot : ∀ t ∈ trace (step k st) s' later, ¬BringsBack k st w key t) :
    s'.phase = .bootFailed .identityUnreadable ∧ ∀ t ∈ trace (step k st) s' later,
      Barred t.post := by
  have hlost : IdentityStore.Lost k st w key s'.items := by
    rw [step_items hboot]
    exact IdentityStore.lost_of_refused h hw hitem hholds hcopies hanswers hrefused hdeletes hfresh
  have hphase : s'.phase = .bootFailed .identityUnreadable := by
    rw [eq_bootstrap hboot]
    refine bootstrap_of_unused h builds hitem hholds fun hused => ?_
    rcases SecureEnclaveWrapper.keyInUse_cases (hw ▸ hused) with ⟨_, htaken⟩ | hmade
    · rw [hrefused] at htaken
      cases htaken
    · exact hfresh hmade
  refine ⟨hphase, fun t ht => ?_⟩
  have hpre := trace_invariant_of (fun s => IdentityStore.Lost k st w key s.items ∧ Barred s)
    (fun t => ¬Erases k st t ∧ ¬BringsBack k st w key t)
    (fun t hstep hmeets hpre => step_barred h hw hstep hmeets.1 hmeets.2 hpre.1 hpre.2)
    ⟨hlost, .inr (.inl hphase)⟩ (fun t ht => ⟨hkept t ht, hnot t ht⟩) ht
  exact (step_barred h hw (step_of_mem_trace ht) (hkept t ht) (hnot t ht) hpre.1 hpre.2).2

/-- An identity that is wrapped with the key [7], whose reference the Enclave does not take once. -/
theorem identity_lost_for_good_refused :
    let stored := (SecureEnclaveWrapper.wrapped .transparent [7] () (List.replicate 12 0)
      (IdentityKeypair.serializedPrivateBlob (.uniform 1)) IdentityStore.kdfContext).serialized
    let refused : IdentityStore.Reply .transparent :=
      { IdentityStore.Reply.granting [9] (.uniform 0) with
        enclave := { (IdentityStore.Reply.granting [9] (.uniform 0)).enclave with restores :=
          false } }
    let items : KeychainItems := fun item =>
      if item = IdentityStore.onDevice.item then some stored
      else if item = SecureEnclaveWrapper.item ⟨"e"⟩ then some [7] else none
    ∃ s', step .transparent IdentityStore.onDevice ⟨items, true, .launching⟩
    (.bootstrap refused true) = some s' ∧
      s'.phase = .bootFailed .identityUnreadable ∧
      ∀ t ∈ trace (step .transparent IdentityStore.onDevice) s'
        [.launch, .bootstrap (.granting [10] (.uniform 0)) true], Barred t.post := by
  intro stored refused items
  have hholds : IdentityStore.onDevice.Holds .transparent (.uniform 1) (some [7]) stored :=
    ⟨(), List.replicate 12 0, rfl, rfl⟩
  have hboot : step .transparent IdentityStore.onDevice ⟨items, true, .launching⟩
    (.bootstrap refused true) =
      some (bootstrap .transparent IdentityStore.onDevice ⟨items, true, .launching⟩ refused true) :=
        rfl
  have hfresh : (some [9] : Option Data) ≠ some [7] := by decide
  refine ⟨_, hboot, identity_lost_for_good
    (w := ⟨"e"⟩) CryptoKit.transparent_ideal rfl rfl hholds hboot
    rfl rfl rfl rfl hfresh (fun t ht => ?_) fun t ht => ?_⟩
  · rintro ⟨deletes, hevent, _⟩
    have hmem := event_mem ht
    rw [hevent] at hmem
    simp at hmem
  · rintro ⟨call, hcall, hback⟩
    have hmem := event_mem ht
    simp only [List.mem_cons, List.not_mem_nil, or_false] at hmem
    rcases hmem with hevent | hevent <;> rw [hevent] at hcall
    · cases hcall
    · obtain rfl := List.mem_singleton.mp hcall
      have hnew : (some [10] : Option Data) ≠ some [7] := by decide
      exact hnew hback

end BootRouter

end AeroNyra
