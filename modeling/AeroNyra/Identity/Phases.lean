import AeroNyra.Identity.Boot

/-! The two views of booting and erasing.  The app with its identity goes through the phases of the
composition root with its stacks: what both have is the same after every boot, onboarding, erase and
relaunch, and after whatever else the stacks of the composition root do. -/

namespace AeroNyra

open Keychain

namespace BootRouter

open ContentView (Build Load identityService)

variable {k : CryptoKit} {st : IdentityStore}

/-! ### What both views have -/

def BootRoute.shown : BootRoute → ContentView.BootRoute
  | .onboarding => .onboarding
  | .bootFailed failure => .bootFailed failure
  | .ready _ => .ready

/-- The phase without its identity. -/
def Phase.shown : Phase → ContentView.Phase
  | .launching => .launching
  | .eula route => .eula route.shown
  | .onboarding => .onboarding
  | .bootFailed failure => .bootFailed failure
  | .ready _ => .ready
  | .wiping _ => .wiping

/-- The terms are accepted, and an identity stored, in one as in the other. -/
structure Agrees (st : IdentityStore) (a : App) (v : ContentView) : Prop where
  eulaAccepted : v.eulaAccepted = a.eulaAccepted
  identity : v.identityExists = (a.items st.item).isSome

structure Views (st : IdentityStore) (a : App) (v : ContentView) : Prop extends Agrees st a v where
  phase : v.phase = a.phase.shown
  /-- The identity is deleted. -/
  wiped : a.phase = .wiping true → a.items st.item = none

/-- What a load comes to. -/
def loadOf : Except IdentityError IdentityKeypair → Load
  | .ok _ => .found
  | .error .notFound => .notFound
  | .error _ => .unreadable

/-- The stack is built in one as in the other. -/
inductive Builds : Bool → Build → Prop
  | threw : Builds false .threw
  | unassembled (ledger : Option ProcessedEventLedger) : Builds false (.unassembled ledger)
  | built (ledger : Option ProcessedEventLedger) : Builds true (.built ledger)

section Door

variable (k st) (applicationSupport : String) (a : App) (v : ContentView)

/-- The action of the composition root that an event of the app is, and its reply. -/
inductive Matches : Event k → ContentView.Action → ContentView.Reply → Prop
  | bootstrap {reply : IdentityStore.Reply k} {builds : Bool} {build : Build}
      (hbuild : Builds builds build) (hloads : v.Loads (loadOf (st.load k a.items reply).2)) :
    Matches (.bootstrap reply builds) .bootstrap
      (.booted (loadOf (st.load k a.items reply).2) build)
  | acceptTerms : Matches .acceptTerms .acceptEULA .done
  | saved {identity : IdentityKeypair} {saving reply : IdentityStore.Reply k} {builds : Bool}
      {build : Build}
      {items : KeychainItems} (hsaved : st.save k a.items saving identity false = (items, .ok ()))
      (hbuild : Builds builds build)
      (hloads : v.saveIdentity.Loads (loadOf (st.load k items reply).2)) :
    Matches (.completeOnboarding identity saving reply builds) .completeOnboarding
      (.saved (loadOf (st.load k items reply).2) build)
  | alreadyExists {identity : IdentityKeypair} {saving reply : IdentityStore.Reply k}
      {builds : Bool} {load : Load} {build : Build}
      (hsaved : (st.save k a.items saving identity false).2 = .error .alreadyExists) :
    Matches (.completeOnboarding identity saving reply builds) .completeOnboarding
      (.saved load build)
  | notSaved {identity : IdentityKeypair} {saving reply : IdentityStore.Reply k} {builds : Bool}
      {error : IdentityError} (hsaved : (st.save k a.items saving identity false).2 = .error error)
      (hother : error ≠ .alreadyExists) :
    Matches (.completeOnboarding identity saving reply builds) .completeOnboarding .done
  | eraseEverything : Matches .eraseEverything (.erase .tearDown) .done
  | deleteIdentity {deletes : Option Refusal} {f : Failures}
      (hdeletes : f.fails (.identity identityService) = false ↔
        (st.delete a.items deletes).2 = .ok ()) :
    Matches (.deleteIdentity deletes) (.erase .deleteIdentity) (.failures f)
  | finishErase {deletes : Option Refusal} {complete : Bool} {errors : List Item}
      (hcomplete : complete ↔ errors = [] ∧ v.storeGone applicationSupport) :
    Matches (.finishErase deletes complete) (.erase (.verify errors)) .done

end Door

/-- The action is none of those that the app has events for. -/
def elsewhere : ContentView.Action → Bool
  | .bootstrap | .acceptEULA | .completeOnboarding => false
  | .erase .tearDown | .erase .deleteIdentity | .erase (.verify _) => false
  | _ => true

/-- The action is a step of the sweep. -/
def sweeps : ContentView.Action → Bool
  | .erase (.sweep ..) => true
  | _ => false

variable {directory applicationSupport : String} {p : Nat → NostrPrimitives} {a a' : App}
  {v v' : ContentView}

/-! ### Booting -/

theorem views_enter (h : Agrees st a v) (r : BootRoute) : Views st (enter a r)
    (v.enter r.shown) := by
  cases r <;> exact ⟨⟨h.eulaAccepted, h.identity⟩, rfl, fun hwiping => by cases hwiping⟩

/-- The terms stand before the route in both views, or in neither. -/
theorem views_gated (h : Agrees st a v) (r : BootRoute) :
    Views st (if a.eulaAccepted then enter a r else { a with phase := .eula r })
      (if v.eulaAccepted then v.enter r.shown else { v with phase := .eula r.shown }) := by
  by_cases haccepted : a.eulaAccepted
  · rw [if_pos haccepted, if_pos (h.eulaAccepted.trans haccepted)]
    exact views_enter h r
  · rw [if_neg haccepted, if_neg fun hv => haccepted (h.eulaAccepted.symm.trans hv)]
    exact ⟨⟨h.eulaAccepted, h.identity⟩, rfl, by simp⟩

/-- A route is taken in both views, whatever the phase was. -/
theorem views_follow (h : Agrees st a v) (r : BootRoute) : Views st (follow a r)
    (v.route r.shown) := by
  cases r with
  | bootFailed failure => exact views_enter h (.bootFailed failure)
  | onboarding => exact views_gated h .onboarding
  | ready identity => exact views_gated h (.ready identity)

theorem views_bootstrap (h : Agrees st a v) (reply : IdentityStore.Reply k) {builds : Bool}
    {build : Build} (hbuild : Builds builds build) : Views st (bootstrap k st a reply builds)
      (v.bootstrap directory applicationSupport (loadOf (st.load k a.items reply).2) build) := by
  have hitem : (st.load k a.items reply).1 st.item = a.items st.item := IdentityStore.load_item
  unfold bootstrap
  rcases hload : st.load k a.items reply with ⟨items, error | identity⟩
  all_goals
    rw [hload] at hitem
    have hagrees : Agrees st { a with items } v :=
      ⟨h.eulaAccepted, h.identity.trans (congrArg _ hitem.symm)⟩
    dsimp only
  · cases error with
    | notFound => exact views_follow hagrees .onboarding
    | _ => exact views_follow hagrees (.bootFailed .identityUnreadable)
  · -- Installing the parts of a stack changes neither view.
    cases hbuild with
    | threw => exact views_follow hagrees (.bootFailed .stackFailed)
    | unassembled ledger =>
      have hinstalled : Agrees st { a with items }
        (v.install directory applicationSupport ledger false) :=
        ⟨hagrees.eulaAccepted, hagrees.identity⟩
      exact views_follow hinstalled (.bootFailed .stackFailed)
    | built ledger =>
      have hinstalled : Agrees st { a with items }
        (v.install directory applicationSupport ledger true) :=
        ⟨hagrees.eulaAccepted, hagrees.identity⟩
      exact views_follow hinstalled (.ready identity)

/-! ### Onboarding -/

/-- An identity that was saved was not there before. -/
theorem save_ok {items items' : KeychainItems} {reply : IdentityStore.Reply k}
    {identity : IdentityKeypair} (h : st.save k items reply identity false = (items', .ok ())) :
    items st.item = none ∧ (items' st.item).isSome := by
  have hcases := IdentityStore.save_cases st items reply identity false
  rw [h] at hcases
  rcases hcases with ⟨_, hnone, _, stored, _, hstored⟩ | ⟨hnot, _⟩
  · exact ⟨hnone.resolve_right Bool.false_ne_true, Option.isSome_iff_exists.mpr ⟨stored, hstored⟩⟩
  · exact absurd rfl hnot

/-- A failed save leaves the identity as it was. -/
theorem save_error {items : KeychainItems} {reply : IdentityStore.Reply k}
    {identity : IdentityKeypair}
    {error : IdentityError} (h : (st.save k items reply identity false).2 = .error error) :
    (st.save k items reply identity false).1 st.item = items st.item := by
  rcases IdentityStore.save_cases st items reply identity false with ⟨hok, _⟩ | ⟨_, hsame⟩
  · rw [h] at hok
    cases hok
  · exact hsame

/-- A save is refused as a duplicate only where an identity is. -/
theorem save_alreadyExists {items : KeychainItems} {reply : IdentityStore.Reply k}
    {identity : IdentityKeypair}
    (h : (st.save k items reply identity false).2 = .error .alreadyExists) :
    (items st.item).isSome := by
  have hitem : (st.payload k items reply identity).1 st.item = items st.item :=
    (IdentityStore.payload_reaches st items reply identity).other IdentityStore.account_ne
  have hpayload : (st.payload k items reply identity).2 ≠ .error .alreadyExists := by
    unfold IdentityStore.payload
    split <;> simp
  unfold IdentityStore.save at h
  rcases hresult : st.payload k items reply identity with ⟨after, error | payload⟩ <;>
    rw [hresult] at h hitem hpayload <;> dsimp only at h hitem
  · exact absurd (congrArg Except.error (Except.error.inj h)) hpayload
  · split at h
    · cases h
    · rcases add_cases after st.item payload reply.adds with ⟨hadded, _⟩ | ⟨hadded, _, hthere⟩
      · rw [if_pos hadded] at h
        cases h
      · rw [if_neg hadded] at h
        split at h
        · rename_i hduplicate
          rw [← hitem]
          exact hthere hduplicate
        · cases h

/-! ### One event -/

/-- The composition root takes the action, and comes to the view of the app. -/
def Takes (directory applicationSupport : String) (p : Nat → NostrPrimitives) (st : IdentityStore)
    (v : ContentView) (action : ContentView.Action) (reply : ContentView.Reply) (a' : App) : Prop :=
  ∃ v' x, v.exec directory applicationSupport p action reply = some (v', x) ∧ Views st a' v'

theorem takes_bootstrap (h : Views st a v) {reply : IdentityStore.Reply k} {builds : Bool}
    {build : Build}
    (hbuild : Builds builds build) (hloads : v.Loads (loadOf (st.load k a.items reply).2))
    (hstep : step k st a (.bootstrap reply builds) = some a') :
    Takes directory applicationSupport p st v .bootstrap
      (.booted (loadOf (st.load k a.items reply).2) build) a' := by
  have hphase := h.phase
  obtain rfl := eq_bootstrap hstep
  refine ⟨v.bootstrap directory applicationSupport _ _, .goOn [], ?_,
    views_bootstrap h.toAgrees reply hbuild⟩
  simp only [step] at hstep
  split at hstep
  · rename_i hnow
    rw [hnow] at hphase
    simp only [ContentView.exec, hphase, Phase.shown, if_pos hloads]
  · rename_i hnow
    rw [hnow] at hphase
    simp only [ContentView.exec, hphase, Phase.shown, if_pos hloads]
  · cases hstep

theorem takes_acceptTerms (h : Views st a v) (hstep : step k st a .acceptTerms = some a') :
    Takes directory applicationSupport p st v .acceptEULA .done a' := by
  have hphase := h.phase
  simp only [step] at hstep
  split at hstep <;> cases hstep
  rename_i route hnow
  rw [hnow] at hphase
  have haccepted : Agrees st { a with eulaAccepted := true } { v with eulaAccepted := true } :=
    ⟨rfl, h.identity⟩
  refine ⟨{ v with eulaAccepted := true }.enter route.shown, .goOn [], ?_,
    views_enter haccepted route⟩
  simp only [ContentView.exec, hphase, Phase.shown]

/-- The phase in which an identity is made, and what the event leads to. -/
theorem onboarding_of_step {identity : IdentityKeypair} {saving reply : IdentityStore.Reply k}
    {builds : Bool}
    (h : Views st a v)
      (hstep : step k st a (.completeOnboarding identity saving reply builds) = some a') :
    v.phase = .onboarding ∧ a' = completeOnboarding k st a identity saving reply builds := by
  have hphase := h.phase
  simp only [step] at hstep
  split at hstep
  · rename_i hnow
    rw [hnow] at hphase
    exact ⟨hphase, (Option.some.inj hstep).symm⟩
  · cases hstep

theorem takes_saved (h : Views st a v) (hphase : v.phase = .onboarding) {identity : IdentityKeypair}
    {saving reply : IdentityStore.Reply k} {builds : Bool} {build : Build} {items : KeychainItems}
    (hsaved : st.save k a.items saving identity false = (items, .ok ()))
    (hbuild : Builds builds build)
    (hloads : v.saveIdentity.Loads (loadOf (st.load k items reply).2)) :
    Takes directory applicationSupport p st v .completeOnboarding
      (.saved (loadOf (st.load k items reply).2) build)
      (completeOnboarding k st a identity saving reply builds) := by
  obtain ⟨hnone, hsome⟩ := save_ok hsaved
  have hnew : ¬v.identityExists = true := by
    rw [h.identity, hnone]
    exact Bool.false_ne_true
  have hagrees : Agrees st { a with items } v.saveIdentity := by
    refine ⟨h.eulaAccepted, ?_⟩
    rw [hsome]
    simp [ContentView.saveIdentity, ContentView.identityExists]
  have hviews : Views st (completeOnboarding k st a identity saving reply builds)
      (v.saveIdentity.bootstrap directory applicationSupport
        (loadOf (st.load k items reply).2) build) := by
    unfold completeOnboarding
    rw [hsaved]
    exact views_bootstrap hagrees reply hbuild
  refine ⟨_, .goOn [], ?_, hviews⟩
  simp only [ContentView.exec, if_pos hphase, if_neg hnew, if_pos hloads]

theorem takes_alreadyExists (h : Views st a v) (hphase : v.phase = .onboarding)
    {identity : IdentityKeypair}
    {saving reply : IdentityStore.Reply k} {builds : Bool} (load : Load) (build : Build)
    (hsaved : (st.save k a.items saving identity false).2 = .error .alreadyExists) :
    Takes directory applicationSupport p st v .completeOnboarding (.saved load build)
      (completeOnboarding k st a identity saving reply builds) := by
  have hthere : v.identityExists = true := h.identity.trans (save_alreadyExists hsaved)
  have hsame := save_error hsaved
  refine ⟨{ v with phase := .bootFailed .identityUnreadable }, .goOn [], ?_, ?_⟩
  · simp only [ContentView.exec, if_pos hphase, if_pos hthere]
  · unfold completeOnboarding
    rcases hresult : st.save k a.items saving identity false with ⟨items, error | _⟩ <;>
      rw [hresult] at hsaved hsame <;> cases hsaved
    exact ⟨⟨h.eulaAccepted, h.identity.trans (congrArg _ hsame.symm)⟩, rfl, by simp⟩

/-- The user may try again. -/
theorem takes_notSaved (h : Views st a v) {identity : IdentityKeypair}
    {saving reply : IdentityStore.Reply k} {builds : Bool} {error : IdentityError}
    (hsaved : (st.save k a.items saving identity false).2 = .error error)
    (hother : error ≠ .alreadyExists) :
    Takes directory applicationSupport p st v .completeOnboarding .done
      (completeOnboarding k st a identity saving reply builds) := by
  have hsame := save_error hsaved
  refine ⟨v, .goOn [], rfl, ?_⟩
  unfold completeOnboarding
  rcases hresult : st.save k a.items saving identity false with ⟨items, error | _⟩ <;>
    rw [hresult] at hsaved hsame <;> cases hsaved
  have hviews : Views st { a with items } v :=
    ⟨⟨h.eulaAccepted, h.identity.trans (congrArg _ hsame.symm)⟩, h.phase, fun hwiping =>
    hsame.trans (h.wiped hwiping)⟩
  cases error with
  | alreadyExists => exact absurd rfl hother
  | _ => exact hviews

theorem takes_eraseEverything (h : Views st a v) (hstep : step k st a .eraseEverything = some a') :
    Takes directory applicationSupport p st v (.erase .tearDown) .done a' := by
  have hphase := h.phase
  simp only [step] at hstep
  split at hstep <;> cases hstep
  all_goals
    rename_i hnow
    rw [hnow] at hphase
    refine ⟨{ v with phase := .wiping }, .goOn [.erase .deleteIdentity], ?_,
      ⟨h.eulaAccepted, h.identity⟩, rfl, by simp⟩
    simp only [ContentView.exec, ContentView.erase, hphase, Phase.shown]

theorem takes_deleteIdentity (h : Views st a v) {deletes : Option Refusal} {f : Failures}
    (hdeletes : f.fails (.identity identityService) = false ↔
      (st.delete a.items deletes).2 = .ok ())
    (hstep : step k st a (.deleteIdentity deletes) = some a') :
    Takes directory applicationSupport p st v (.erase .deleteIdentity) (.failures f) a' := by
  have hphase := h.phase
  simp only [step] at hstep
  split at hstep <;> cases hstep
  rename_i hnow
  rw [hnow] at hphase
  rcases delete_cases a.items st.item deletes with ⟨hdone, hgone⟩ | ⟨hnot, hfound, hsame⟩
  · have hdeleted : st.delete a.items deletes = (Function.update a.items st.item none, .ok ()) := by
      rw [IdentityStore.delete, hgone, if_pos hdone]
    have hfails := hdeletes.mpr (congrArg Prod.snd hdeleted)
    have herase : v.storage.erase f (.identity identityService) =
        (⟨fun j => v.storage.present j && j != .identity identityService,
          v.storage.attempted ++ [.identity identityService]⟩, none) := by
      simp [Storage.erase, hfails]
    have hnone : Function.update a.items st.item none st.item = none := Function.update_self _ _ _
    have hexec : v.exec directory applicationSupport p (.erase .deleteIdentity) (.failures f) =
        some ({ v with storage := ⟨fun j => v.storage.present j && j != .identity identityService,
          v.storage.attempted ++ [.identity identityService]⟩ },
          .goOn [.erase .performEmergencyWipe]) := by
      simp only [ContentView.exec, ContentView.erase, herase]
    refine ⟨_, _, hexec, ?_⟩
    unfold deleteIdentity
    rw [hdeleted]
    refine ⟨⟨h.eulaAccepted, ?_⟩, hphase, fun _ => hnone⟩
    dsimp only
    rw [hnone]
    simp [ContentView.identityExists]
  · have hneither : ¬((delete a.items st.item deletes).2 = errSecSuccess ∨
        (delete a.items st.item deletes).2 = errSecItemNotFound) := fun h => h.elim hnot hfound
    have hdeleted : st.delete a.items deletes =
        (a.items, .error (.keychain (delete a.items st.item deletes).2)) := by
      rw [IdentityStore.delete, if_neg hneither, hsame]
    have hfails : f.fails (.identity identityService) = true := by
      refine Bool.of_not_eq_false fun hfalse => ?_
      have hok := hdeletes.mp hfalse
      rw [hdeleted] at hok
      cases hok
    have herase : (v.storage.erase f (.identity identityService)).2 =
      some (.identity identityService) := by
      simp [Storage.erase, hfails]
    rcases hresult : v.storage.erase f (.identity identityService) with ⟨storage, error⟩
    rw [hresult] at herase
    obtain rfl : error = some _ := herase
    have hexec : v.exec directory applicationSupport p (.erase .deleteIdentity) (.failures f) =
        some ({ v with phase := .bootFailed .identityUnreadable }, .goOn []) := by
      simp only [ContentView.exec, ContentView.erase, hresult]
    refine ⟨_, _, hexec, ?_⟩
    unfold deleteIdentity
    rw [hdeleted]
    exact ⟨⟨h.eulaAccepted, h.identity⟩, rfl, by simp⟩

theorem takes_finishErase (h : Views st a v) {deletes : Option Refusal} {complete : Bool}
    {errors : List Item} (hcomplete : complete ↔ errors = [] ∧ v.storeGone applicationSupport)
    (hstep : step k st a (.finishErase deletes complete) = some a') :
    Takes directory applicationSupport p st v (.erase (.verify errors)) .done a' := by
  simp only [step] at hstep
  split at hstep <;> cases hstep
  have hitem : (finishErase st a deletes complete).items st.item = a.items st.item := by
    unfold finishErase
    cases st.wrapper with
    | none => rfl
    | some w =>
      exact (@other_untouched _ _ a.items w.item [] deletes _ _ (IdentityStore.item_ne w).symm).2.2
  have hexec : v.exec directory applicationSupport p (.erase (.verify errors)) .done =
      if errors = [] ∧ v.storeGone applicationSupport then some (v.onboardAgain, .goOn [])
      else some ({ v with phase := .bootFailed .identityUnreadable }, .goOn []) := rfl
  have hidentity : v.identityExists = ((finishErase st a deletes complete).items st.item).isSome :=
    h.identity.trans (congrArg _ hitem.symm)
  by_cases hdone : errors = [] ∧ v.storeGone applicationSupport
  · obtain rfl : complete = true := hcomplete.mpr hdone
    exact ⟨_, _, hexec.trans (if_pos hdone), ⟨h.eulaAccepted, hidentity⟩, rfl,
      fun hwiping => by cases hwiping⟩
  · obtain rfl : complete = false := Bool.eq_false_iff.mpr (mt hcomplete.mp hdone)
    exact ⟨_, _, hexec.trans (if_neg hdone), ⟨h.eulaAccepted, hidentity⟩, rfl,
      fun hwiping => by cases hwiping⟩

/-- An event of the app is taken by the composition root, and leads to the same view. -/
theorem takes_event (h : Views st a v) {event : Event k} {action : ContentView.Action}
    {reply : ContentView.Reply} (hmatch : Matches k st applicationSupport a v event action reply)
    (hstep : step k st a event = some a') :
    Takes directory applicationSupport p st v action reply a' := by
  cases hmatch with
  | bootstrap hbuild hloads => exact takes_bootstrap h hbuild hloads hstep
  | acceptTerms => exact takes_acceptTerms h hstep
  | saved hsaved hbuild hloads =>
    obtain ⟨hphase, rfl⟩ := onboarding_of_step h hstep
    exact takes_saved h hphase hsaved hbuild hloads
  | alreadyExists hsaved =>
    obtain ⟨hphase, rfl⟩ := onboarding_of_step h hstep
    exact takes_alreadyExists h hphase _ _ hsaved
  | notSaved hsaved hother =>
    obtain ⟨_, rfl⟩ := onboarding_of_step h hstep
    exact takes_notSaved h hsaved hother
  | eraseEverything => exact takes_eraseEverything h hstep
  | deleteIdentity hdeletes => exact takes_deleteIdentity h hdeletes hstep
  | finishErase hcomplete => exact takes_finishErase h hcomplete hstep

/-! ### What else happens -/

/-- The composition root starts anew, as the app does. -/
theorem views_launch (h : Views st a v) :
    Views st { a with phase := .launching } (ContentView.launch v.eulaAccepted v.storage.present) :=
  ⟨⟨h.eulaAccepted, h.identity⟩, rfl, by simp⟩

/-- Another item of the Keychain is none of the composition root's phases. -/
theorem views_item (h : Views st a v) {item : String × String} {value : Option Data}
    (hstep : step k st a (.other item value) = some a') : Views st a' v := by
  obtain rfl := Option.some.inj hstep
  have hitem : st.step k a.items (.other item value) st.item = a.items st.item := by
    unfold IdentityStore.step
    dsimp only
    split
    · rfl
    · rename_i hne
      exact Function.update_of_ne (Ne.symm hne) _ _
  refine ⟨⟨h.eulaAccepted, ?_⟩, h.phase, fun hwiping => hitem.trans (h.wiped hwiping)⟩
  dsimp only
  rw [hitem]
  exact h.identity

/-- What leaves the phases and the identity alone. -/
structure Leaves (v v' : ContentView) : Prop where
  phase : v'.phase = v.phase
  eulaAccepted : v'.eulaAccepted = v.eulaAccepted
  identity : v'.identityExists = v.identityExists

theorem Leaves.views (h : Leaves v v') (hviews : Views st a v) : Views st a v' :=
  ⟨⟨h.eulaAccepted.trans hviews.eulaAccepted, h.identity.trans hviews.identity⟩,
    h.phase.trans hviews.phase, hviews.wiped⟩

theorem write_leaves (v : ContentView) (file : FileURL) : Leaves v (v.write file) :=
  ⟨rfl, rfl, by simp [ContentView.identityExists, ContentView.write]⟩

variable {reply : ContentView.Reply} {x : Interleave.Exit ContentView.Action}

/-- A sweep behind the deletion finds no identity, and stores none. -/
theorem erase_leaves {e : ContentView.Erase} (he : elsewhere (.erase e))
    (hsweep : sweeps (.erase e) → v.identityExists = false)
    (h : v.erase applicationSupport e reply = some (v', x)) : Leaves v v' := by
  have hswept {d' : Storage} {items : List Item} {f : Failures}
      (hswept : EmergencyWipe.Swept f v.storage d' items) (hnone : v.identityExists = false) :
      d'.present (.identity identityService) = v.identityExists := by
    rw [hnone]
    refine Bool.eq_false_iff.mpr fun hthere => ?_
    exact Bool.eq_false_iff.mp hnone ((hswept.present _).mp hthere).1
  cases e with
  | tearDown => cases he
  | deleteIdentity => cases he
  | verify errors => cases he
  | performEmergencyWipe =>
    cases reply <;> cases h
    exact ⟨rfl, rfl, rfl⟩
  | sweep steps errors =>
    cases steps with
    | nil =>
      cases reply <;> cases h
      exact ⟨rfl, rfl, hswept (EmergencyWipe.swept_erase _) (hsweep rfl)⟩
    | cons first steps =>
      cases reply <;> cases h
      exact ⟨rfl, rfl, hswept (EmergencyWipe.step_swept first) (hsweep rfl)⟩

theorem exec_leaves {action : ContentView.Action} (haction : elsewhere action)
    (hsweep : sweeps action → v.identityExists = false)
    (h : v.exec directory applicationSupport p action reply = some (v', x)) : Leaves v v' := by
  have same : Leaves v v := ⟨rfl, rfl, rfl⟩
  unfold ContentView.exec at h
  split at h
  case h_1 | h_2 | h_3 | h_4 => cases haction
  case h_5 => exact erase_leaves haction hsweep h
  case h_7 | h_10 | h_20 =>
    obtain ⟨_, heq⟩ := Option.ite_none_right_eq_some.mp h
    cases heq
    exact ⟨rfl, rfl, rfl⟩
  case h_9 | h_21 | h_22 | h_23 | h_24 =>
    obtain ⟨_, _, heq⟩ := Option.map_eq_some_iff.mp h
    cases heq
    exact ⟨rfl, rfl, rfl⟩
  case h_13 file =>
    cases h
    exact write_leaves v file
  case h_14 | h_15 => split at h <;> cases h <;> exact ⟨rfl, rfl, rfl⟩
  case h_18 =>
    dsimp only at h
    split at h <;> cases h
    exact ⟨rfl, rfl, rfl⟩
  case h_25 saved =>
    cases h
    cases saved with
    | true => exact write_leaves v _
    | false => exact same
  case h_26 => cases h
  all_goals
    cases h
    exact ⟨rfl, rfl, rfl⟩

/-! ### Runs -/

/-- What happens to both: an event of the app, a relaunch, a change of another item of the
Keychain, or an action of the composition root that is none of the app's, of which those of a sweep
come when the identity is deleted. -/
inductive Goes (k : CryptoKit) (st : IdentityStore) (directory applicationSupport : String)
    (p : Nat → NostrPrimitives) : App × ContentView → App × ContentView → Prop
  | event {a a' : App} {v v' : ContentView} {event : Event k} {action : ContentView.Action}
      {reply : ContentView.Reply} {x : Interleave.Exit ContentView.Action}
      (hmatch : Matches k st applicationSupport a v event action reply)
      (hstep : step k st a event = some a')
      (hexec : v.exec directory applicationSupport p action reply = some (v', x)) :
    Goes k st directory applicationSupport p (a, v) (a', v')
  | launch (a : App) (v : ContentView) : Goes k st directory applicationSupport p (a, v)
      ({ a with phase := .launching }, ContentView.launch v.eulaAccepted v.storage.present)
  | item {a a' : App} (v : ContentView) {item : String × String} {value : Option Data}
      (hstep : step k st a (.other item value) = some a') :
    Goes k st directory applicationSupport p (a, v) (a', v)
  | elsewhere (a : App) {v v' : ContentView} {action : ContentView.Action}
      {reply : ContentView.Reply}
      {x : Interleave.Exit ContentView.Action} (haction : elsewhere action)
      (hsweep : sweeps action → a.phase = .wiping true)
      (hexec : v.exec directory applicationSupport p action reply = some (v', x)) :
    Goes k st directory applicationSupport p (a, v) (a, v')

theorem views_step {q q' : App × ContentView} (h : Views st q.1 q.2)
    (hgoes : Goes k st directory applicationSupport p q q') : Views st q'.1 q'.2 := by
  cases hgoes with
  | event hmatch hstep hexec =>
    obtain ⟨v', x, htaken, hviews⟩ := takes_event h hmatch hstep
    cases htaken.symm.trans hexec
    exact hviews
  | launch => exact views_launch h
  | item v hstep => exact views_item h hstep
  | elsewhere a haction hsweep hexec =>
    refine (exec_leaves haction (fun hsweeps => ?_) hexec).views h
    rw [h.identity, h.wiped (hsweep hsweeps)]
    rfl

/-- From the start of the process on, the composition root shows the phases of the app. -/
theorem views_run {a : App} {v : ContentView} (eulaAccepted : Bool) {present : Item → Bool}
    {items : KeychainItems} (hitems : present (.identity identityService) = (items st.item).isSome)
    (hgoes : Relation.ReflTransGen (Goes k st directory applicationSupport p)
      (⟨items, eulaAccepted, .launching⟩, ContentView.launch eulaAccepted present)
      (a, v)) : Views st a v := by
  generalize hq : (a, v) = q at hgoes
  have hviews : Views st q.1 q.2 := by
    clear hq
    induction hgoes with
    | refl => exact ⟨⟨rfl, hitems⟩, rfl, by simp⟩
    | tail _ hgoes ih => exact views_step ih hgoes
  subst hq
  exact hviews

end BootRouter

end AeroNyra
