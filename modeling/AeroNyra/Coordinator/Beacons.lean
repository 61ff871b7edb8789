import AeroNyra.Enrollment.Downgrade

/-! The beacons that let paired contacts recognise each other: what a device emits on a new link and
the recogniser's cache, both built from the enrolled identities.  `derive` is the discovery secret
of a contact, which the key agreement may refuse, and `token` the truncated HMAC over epoch and
label. -/

namespace AeroNyra

/-- The randomness of one emission set. -/
structure Rng where
  decoy : Nat → Data
  shuffle : List Data → List Data
  perm : ∀ set, (shuffle set).Perm set

namespace ReconnectBeacon

def emissionSetSize : Nat := 64

/-- The length of an identity key. -/
def labelLength : Nat := 32

/-- The tokens padded with decoys to `emissionSetSize`; none where the precondition traps. -/
def emissionSet (real : List Data) (rng : Rng) : Option (List Data) :=
  if real.length ≤ emissionSetSize then
    some (rng.shuffle (real ++ (List.range (emissionSetSize - real.length)).map rng.decoy))
  else none

theorem emissionSet_isSome {real : List Data} (rng : Rng) (h : real.length ≤ emissionSetSize) :
    ∃ set, emissionSet real rng = some set :=
  ⟨_, if_pos h⟩

theorem mem_emissionSet {real set : List Data} {rng : Rng} (h : emissionSet real rng = some set)
    {t : Data} (ht : t ∈ real) : t ∈ set := by
  unfold emissionSet at h
  split at h
  · rw [← Option.some.inj h, (rng.perm _).mem_iff]
    exact List.mem_append_left _ ht
  · cases h

end ReconnectBeacon

namespace BeaconRecognizer

structure Contact where
  identity : Data
  secret : Data
  deriving DecidableEq

end BeaconRecognizer

open BeaconRecognizer (Contact)

namespace ReconnectEpochBuilder

structure Plan where
  emissionSet : List Data
  recognizerContacts : List Contact

/-- Why there is no plan: the two preconditions, which trap, and the error of the derivation, which
is thrown. -/
inductive Failure
  | badLabel
  | underivable
  | tooManyTokens
  deriving DecidableEq

variable (derive : Data → Option Data) (token : Data → Nat → Data → Data)

def contact (identity : Data) : Option Contact := (derive identity).map (Contact.mk identity)

/-- The plan of one epoch: the secrets of all contacts come before the emission set. -/
def plan (ourIdentity : Data) (contacts : List Data) (epoch : Nat) (rng : Rng) :
    Except Failure Plan :=
  if ourIdentity.length = ReconnectBeacon.labelLength then
    match contacts.mapM (contact derive) with
    | none => .error .underivable
    | some recognizerContacts =>
      let realTokens := recognizerContacts.map fun c => token c.secret epoch ourIdentity
      match ReconnectBeacon.emissionSet realTokens rng with
      | none => .error .tooManyTokens
      | some set => .ok ⟨set, recognizerContacts⟩
  else .error .badLabel

/-! ### When there is a plan -/

/-- Every contact has a discovery secret. -/
def Derivable (contacts : List Data) : Prop := ∀ k ∈ contacts, (derive k).isSome

instance (contacts : List Data) : Decidable (Derivable derive contacts) :=
  inferInstanceAs (Decidable (∀ _ ∈ _, _))

/-- No more contacts than an emission set has room for, or one whose secret stops the builder
first. -/
def Capped (contacts : List Data) : Prop :=
  contacts.length ≤ ReconnectBeacon.emissionSetSize ∨ ¬Derivable derive contacts

instance (contacts : List Data) : Decidable (Capped derive contacts) :=
  inferInstanceAs (Decidable (_ ∨ _))

/-- Whatever the identity, the epoch and the randomness, the emission set is asked for no more
tokens than it has room for. -/
def EmissionBounded (contacts : List Data) : Prop :=
  ∀ ourIdentity epoch rng, plan derive token ourIdentity contacts epoch rng ≠ .error .tooManyTokens

variable {derive token} {contacts : List Data} {ourIdentity : Data} {epoch : Nat} {rng : Rng}

theorem mapM_contact_eq_none : contacts.mapM (contact derive) = none ↔
    ¬Derivable derive contacts := by
  induction contacts with
  | nil => simp [Derivable]
  | cons k ks ih =>
    cases hk : derive k <;> cases hks : ks.mapM (contact derive) <;>
      simp_all [Derivable, contact]

/-- The recogniser's contacts are the contacts in their order, each with its secret. -/
theorem mapM_contact {cs : List Contact} (h : contacts.mapM (contact derive) = some cs) :
    cs.map (·.identity) = contacts ∧ ∀ c ∈ cs, derive c.identity = some c.secret := by
  induction contacts generalizing cs with
  | nil =>
    obtain rfl : cs = [] := by simpa using h.symm
    simp
  | cons k ks ih =>
    simp only [List.mapM_cons, Option.bind_eq_bind, Option.bind_eq_some_iff] at h
    obtain ⟨c, hc, rest, hrest, h⟩ := h
    obtain rfl := Option.some.inj h
    obtain ⟨secret, hsecret, rfl⟩ := Option.map_eq_some_iff.mp hc
    obtain ⟨hids, hsecrets⟩ := ih hrest
    refine ⟨by simp [hids], fun c hc => ?_⟩
    rcases List.mem_cons.mp hc with rfl | hc
    · exact hsecret
    · exact hsecrets c hc

variable (derive token contacts epoch rng) in
/-- The outcomes of the builder for an identity key of the right length. -/
theorem plan_cases (hid : ourIdentity.length = 32) :
    (¬Derivable derive contacts ∧
      plan derive token ourIdentity contacts epoch rng = .error .underivable) ∨
    (Derivable derive contacts ∧ ReconnectBeacon.emissionSetSize < contacts.length ∧
      plan derive token ourIdentity contacts epoch rng = .error .tooManyTokens) ∨
    (Derivable derive contacts ∧ contacts.length ≤ ReconnectBeacon.emissionSetSize ∧
      ∃ p, plan derive token ourIdentity contacts epoch rng = .ok p ∧
        p.recognizerContacts.map (·.identity) = contacts ∧
        (∀ c ∈ p.recognizerContacts,
          derive c.identity = some c.secret ∧ token c.secret epoch ourIdentity ∈
            p.emissionSet)) := by
  cases hcs : contacts.mapM (contact derive) with
  | none =>
    refine .inl ⟨mapM_contact_eq_none.mp hcs, ?_⟩
    simp [plan, ReconnectBeacon.labelLength, hid, hcs]
  | some cs =>
    have hderivable : Derivable derive contacts := by
      by_contra hd
      simp [mapM_contact_eq_none.mpr hd] at hcs
    obtain ⟨hids, hsecrets⟩ := mapM_contact hcs
    have hlength : cs.length = contacts.length := by rw [← hids, List.length_map]
    let tokens := cs.map fun c => token c.secret epoch ourIdentity
    have htokens : tokens.length = contacts.length := by rw [List.length_map, hlength]
    refine .inr ?_
    by_cases hcap : contacts.length ≤ ReconnectBeacon.emissionSetSize
    · obtain ⟨set, hset⟩ := ReconnectBeacon.emissionSet_isSome rng (htokens ▸ hcap)
      refine .inr ⟨hderivable, hcap, ⟨set, cs⟩, ?_, hids, fun c hc => ⟨hsecrets c hc, ?_⟩⟩
      · simp only [plan, ReconnectBeacon.labelLength, hid, ↓reduceIte, hcs]
        rw [hset]
      · exact ReconnectBeacon.mem_emissionSet hset (List.mem_map_of_mem hc)
    · refine .inl ⟨hderivable, by omega, ?_⟩
      have hset : ReconnectBeacon.emissionSet tokens rng = none := if_neg (htokens ▸ hcap)
      simp only [plan, ReconnectBeacon.labelLength, hid, ↓reduceIte, hcs]
      rw [hset]

theorem plan_eq_ok {p : Plan} (h : plan derive token ourIdentity contacts epoch rng = .ok p) :
    Derivable derive contacts ∧ p.recognizerContacts.map (·.identity) = contacts ∧
      ∀ c ∈ p.recognizerContacts,
        derive c.identity = some c.secret ∧ token c.secret epoch ourIdentity ∈ p.emissionSet := by
  by_cases hid : ourIdentity.length = 32
  · rcases plan_cases derive token contacts epoch rng hid with ⟨_, heq⟩ | ⟨_, _, heq⟩ |
      ⟨hd, _, p', heq, hids, hcontacts⟩
    · cases heq.symm.trans h
    · cases heq.symm.trans h
    · cases heq.symm.trans h
      exact ⟨hd, hids, hcontacts⟩
  · simp [plan, ReconnectBeacon.labelLength, hid] at h

theorem plan_eq_underivable
    (h : plan derive token ourIdentity contacts epoch rng = .error .underivable) :
    ¬Derivable derive contacts := by
  by_cases hid : ourIdentity.length = 32
  · rcases plan_cases derive token contacts epoch rng hid with ⟨hd, _⟩ | ⟨_, _, heq⟩ |
      ⟨_, _, p, heq, _⟩
    · exact hd
    · cases heq.symm.trans h
    · cases heq.symm.trans h
  · simp [plan, ReconnectBeacon.labelLength, hid] at h

theorem emissionBounded_iff : EmissionBounded derive token contacts ↔ Capped derive contacts := by
  constructor
  · intro h
    have hkey : (List.replicate 32 0 : Data).length = 32 := List.length_replicate
    let rng : Rng := ⟨fun _ => [], id, fun _ => .refl _⟩
    rcases plan_cases derive token contacts 0 rng hkey with
      ⟨hd, _⟩ | ⟨_, _, hplan⟩ | ⟨_, hlength, _⟩
    · exact .inr hd
    · exact absurd hplan (h _ _ _)
    · exact .inl hlength
  · intro h ourIdentity epoch rng hplan
    by_cases hid : ourIdentity.length = 32
    · rcases plan_cases derive token contacts epoch rng hid with ⟨_, heq⟩ | ⟨hd, hlength, _⟩ |
        ⟨_, _, p, heq, _⟩
      · simp [heq] at hplan
      · rcases h with h | h
        · omega
        · exact h hd
      · simp [heq] at hplan
    · simp [plan, ReconnectBeacon.labelLength, hid] at hplan

end ReconnectEpochBuilder

/-- The coordinator with the recogniser's cache and the beacon sets it has sent, each with its
link. -/
structure Beacons where
  coordinator : FirstContactCoordinator
  reconnectRecognizerContacts : List Contact
  sent : List (UUID × List Data)

namespace Beacons

open ReconnectEpochBuilder Interleave

/-- The coordinator's entries that build a plan. -/
inductive Op
  | enableReconnect (allowlist : ContactAllowlist)
  | addReconnectContact (rawIdentity : Data)
  | removeReconnectContact (rawIdentity : Data)
  | sendReconnectBeacons (link : UUID)

/-- The current epoch, the randomness, and whether the transport carries a frame. -/
structure Reply where
  epoch : Nat
  rng : Rng
  carried : Bool

/-- The coordinator before `enableReconnect`. -/
def new (localIdentity : Data) : Beacons := ⟨.new localIdentity, [], []⟩

variable (derive : Data → Option Data) (token : Data → Nat → Data → Data) (b : Beacons)

/-- The identities that the coordinator admits. -/
def enrolled : List Data := b.coordinator.reconnectAllowlistIdentities

def planNow (reply : Reply) : Except Failure Plan :=
  plan derive token b.coordinator.localIdentity b.enrolled reply.epoch reply.rng

/-- None where a precondition traps; a derivation that throws leaves the cache as it is. -/
def refreshRecognizerCache (reply : Reply) : Option Beacons :=
  if b.coordinator.reconnectEnabled then
    match b.planNow derive token reply with
    | .ok plan => some { b with reconnectRecognizerContacts := plan.recognizerContacts }
    | .error .underivable => some b
    | .error _ => none
  else some { b with reconnectRecognizerContacts := [] }

def sendReconnectBeacons (link : UUID) (reply : Reply) : Option Beacons :=
  if b.coordinator.reconnectEnabled then
    match b.planNow derive token reply with
    | .ok plan =>
      some { b with
        reconnectRecognizerContacts := plan.recognizerContacts
        sent := if reply.carried then b.sent ++ [(link, plan.emissionSet)] else b.sent }
    | .error .underivable => some b
    | .error _ => none
  else some b

/-- What an entry does to the gates. -/
def Op.gates (c : FirstContactCoordinator) : Op → FirstContactCoordinator
  | .enableReconnect allowlist =>
    c.enableReconnect allowlist.identities allowlist.verifiedIdentities
  | .addReconnectContact k => c.addReconnectContact k
  | .removeReconnectContact k => c.removeReconnectContact k
  | .sendReconnectBeacons _ => c

/-- One entry; none where it traps. -/
def step : Beacons → Op × Reply → Option Beacons
  | b, (.enableReconnect allowlist, reply) =>
    refreshRecognizerCache derive token
      { b with coordinator := Op.gates b.coordinator (.enableReconnect allowlist) } reply
  | b, (.addReconnectContact k, reply) =>
    if b.coordinator.reconnectEnabled ∧ k.length = 32 ∧ k ∉ b.enrolled then
      refreshRecognizerCache derive token
        { b with coordinator := Op.gates b.coordinator (.addReconnectContact k) } reply
    else some b
  | b, (.removeReconnectContact k, reply) =>
    if k ∈ b.enrolled then
      refreshRecognizerCache derive token
        { b with coordinator := Op.gates b.coordinator (.removeReconnectContact k) } reply
    else some b
  | b, (.sendReconnectBeacons link, reply) => b.sendReconnectBeacons derive token link reply

/-! ### What the cache and the sets hold -/

/-- The cache has one entry for each enrolled identity whose secret derives, and no other. -/
structure Covers (b : Beacons) : Prop where
  nodup : (b.reconnectRecognizerContacts.map (·.identity)).Nodup
  mem_iff : ∀ c, c ∈ b.reconnectRecognizerContacts ↔
    c.identity ∈ b.enrolled ∧ derive c.identity = some c.secret

/-- The cache never has two entries for one identity or a wrong secret, and covers the enrolled
identities when all of their secrets derive. -/
structure Inv (b : Beacons) : Prop where
  enrolled : b.enrolled.Nodup
  /-- Nothing is enrolled before `enableReconnect`. -/
  off : b.coordinator.reconnectEnabled = false → b.enrolled = [] ∧
    b.reconnectRecognizerContacts = []
  nodup : (b.reconnectRecognizerContacts.map (·.identity)).Nodup
  secrets : ∀ c ∈ b.reconnectRecognizerContacts, derive c.identity = some c.secret
  covers : Derivable derive b.enrolled → b.Covers derive

/-- What an entry sends: the beacons of a link, when all secrets derive and the transport carries
them, and they hold a token of each enrolled identity. -/
def Sends (op : Op) (reply : Reply) (b' : Beacons) : Prop :=
  match op with
  | .sendReconnectBeacons link =>
    if b.coordinator.reconnectEnabled ∧ Derivable derive b.enrolled ∧ reply.carried then
      ∃ set, b'.sent = b.sent ++ [(link, set)] ∧ ∀ k ∈ b.enrolled, ∀ secret, derive k =
      some secret →
        token secret reply.epoch b.coordinator.localIdentity ∈ set
    else b'.sent = b.sent
  | _ => b'.sent = b.sent

variable {derive token} {b b' : Beacons} {reply : Reply}

/-- A plan that succeeds covers the enrolled identities. -/
theorem covers_of_plan {p : Plan} (hnodup : b.enrolled.Nodup)
    (h : b.planNow derive token reply = .ok p)
    (hcache : b'.reconnectRecognizerContacts = p.recognizerContacts)
    (henrolled : b'.enrolled = b.enrolled) : b'.Covers derive := by
  obtain ⟨_, hids, hcontacts⟩ := plan_eq_ok h
  have hids : p.recognizerContacts.map (·.identity) = b.enrolled := hids
  refine ⟨by rw [hcache, hids]; exact hnodup, fun c => ?_⟩
  rw [hcache, henrolled]
  constructor
  · intro hc
    exact ⟨hids ▸ List.mem_map_of_mem hc, (hcontacts c hc).1⟩
  · rintro ⟨hc, hsecret⟩
    rw [← hids] at hc
    obtain ⟨c', hc', hidentity⟩ := List.mem_map.mp hc
    have hsecret' := (hcontacts c' hc').1
    rw [hidentity, hsecret, Option.some.injEq] at hsecret'
    have heq : c = c' := by
      cases c
      cases c'
      simp_all
    exact heq ▸ hc'

theorem inv_of_covers (hon : b.coordinator.reconnectEnabled) (hnodup : b.enrolled.Nodup)
    (h : b.Covers derive) : b.Inv derive :=
  ⟨hnodup, fun hoff => by simp [hon] at hoff, h.nodup, fun c hc => ((h.mem_iff c).mp hc).2,
    fun _ => h⟩

/-- A refresh restores the invariant for the list that an entry leaves. -/
theorem refresh_inv {c : FirstContactCoordinator} (hinv : b.Inv derive) (hon : c.reconnectEnabled)
    (hnodup : c.reconnectAllowlistIdentities.Nodup)
    (h : refreshRecognizerCache derive token { b with coordinator := c } reply = some b') :
    b'.Inv derive := by
  unfold refreshRecognizerCache at h
  rw [if_pos hon] at h
  split at h
  · rename_i p hp
    obtain rfl := Option.some.inj h
    have hnodup : (enrolled { b with coordinator := c }).Nodup := hnodup
    exact inv_of_covers hon hnodup (covers_of_plan hnodup hp rfl rfl)
  · rename_i hp
    obtain rfl := Option.some.inj h
    refine ⟨hnodup, fun hoff => ?_, hinv.nodup, hinv.secrets, fun hd => ?_⟩
    · simp [hon] at hoff
    · exact absurd hd (plan_eq_underivable hp)
  · cases h

theorem send_inv {link : UUID} (hinv : b.Inv derive)
    (h : b.sendReconnectBeacons derive token link reply = some b') : b'.Inv derive := by
  unfold sendReconnectBeacons at h
  split at h
  · rename_i hon
    split at h
    · rename_i p hp
      obtain rfl := Option.some.inj h
      exact inv_of_covers hon hinv.enrolled (covers_of_plan hinv.enrolled hp rfl rfl)
    · obtain rfl := Option.some.inj h
      exact hinv
    · cases h
  · obtain rfl := Option.some.inj h
    exact hinv

theorem nodup_identities (allowlist : ContactAllowlist) : allowlist.identities.Nodup :=
  AList.keys_nodup allowlist.entries

/-- One entry keeps the invariant. -/
theorem step_inv {op : Op} (hinv : b.Inv derive) (h : step derive token b (op, reply) = some b') :
    b'.Inv derive := by
  cases op with
  | enableReconnect allowlist =>
    exact refresh_inv hinv rfl (nodup_identities allowlist) h
  | addReconnectContact k =>
    simp only [step] at h
    split at h
    · rename_i hnew
      obtain ⟨hon, hsize, hk⟩ := hnew
      refine refresh_inv hinv ?_ ?_ h
      · simpa [Op.gates] using hon
      · have hk : k ∉ b.coordinator.reconnectAllowlistIdentities := hk
        have hnodup : b.coordinator.reconnectAllowlistIdentities.Nodup := hinv.enrolled
        simp only [Op.gates, FirstContactCoordinator.addReconnectContact, hon, hsize, hk,
          beq_self_eq_true, Bool.and_self, ↓reduceIte]
        rw [← List.concat_eq_append, List.nodup_concat]
        exact ⟨hk, hnodup⟩
    · obtain rfl := Option.some.inj h
      exact hinv
  | removeReconnectContact k =>
    simp only [step] at h
    split at h
    · rename_i hk
      refine refresh_inv hinv ?_ ?_ h
      · rw [Op.gates, FirstContactCoordinator.removeReconnectContact_enabled]
        by_contra hoff
        simp [(hinv.off (by simpa using hoff)).1] at hk
      · have hk : k ∈ b.coordinator.reconnectAllowlistIdentities := hk
        simp only [Op.gates, FirstContactCoordinator.removeReconnectContact, hk, ↓reduceIte,
          FirstContactCoordinator.emitReachablePeers_enrolled]
        exact hinv.enrolled.filter _
    · obtain rfl := Option.some.inj h
      exact hinv
  | sendReconnectBeacons link => exact send_inv hinv h

theorem new_inv (localIdentity : Data) : (new localIdentity).Inv derive := by
  refine ⟨List.nodup_nil, fun _ => ⟨rfl, rfl⟩, List.nodup_nil, ?_, fun _ => ?_⟩
  · simp [new]
  · exact ⟨List.nodup_nil, by simp [new, enrolled, FirstContactCoordinator.new]⟩

/-! ### Entries within the cap -/

theorem gates_localIdentity (c : FirstContactCoordinator) (op : Op) :
    (op.gates c).localIdentity = c.localIdentity := by
  cases op with
  | enableReconnect | sendReconnectBeacons => rfl
  | addReconnectContact k =>
    simp only [Op.gates, FirstContactCoordinator.addReconnectContact]
    split
    · split <;> rfl
    · rfl
  | removeReconnectContact k =>
    simp only [Op.gates, FirstContactCoordinator.removeReconnectContact]
    split <;> rfl

theorem refresh_coordinator (h : b.refreshRecognizerCache derive token reply = some b') :
    b'.coordinator = b.coordinator := by
  unfold refreshRecognizerCache at h
  split at h
  · split at h
    · rw [← Option.some.inj h]
    · rw [← Option.some.inj h]
    · cases h
  · rw [← Option.some.inj h]

/-- Every entry does to the gates what it does without the beacons. -/
theorem step_coordinator {op : Op} (h : step derive token b (op, reply) = some b') :
    b'.coordinator = op.gates b.coordinator := by
  cases op with
  | enableReconnect allowlist => exact refresh_coordinator h
  | addReconnectContact k =>
    simp only [step] at h
    split at h
    · exact refresh_coordinator h
    · rename_i hnew
      rw [← Option.some.inj h]
      simp only [Op.gates, FirstContactCoordinator.addReconnectContact]
      split
      · split
        · rfl
        · rename_i hk
          exact absurd ⟨by simp_all, by simp_all, hk⟩ hnew
      · rfl
  | removeReconnectContact k =>
    simp only [step] at h
    split at h
    · exact refresh_coordinator h
    · rename_i hk
      rw [← Option.some.inj h, Op.gates, FirstContactCoordinator.removeReconnectContact]
      exact (if_neg hk).symm
  | sendReconnectBeacons link =>
    simp only [step, sendReconnectBeacons] at h
    split at h
    · split at h
      · rw [← Option.some.inj h]
        rfl
      · rw [← Option.some.inj h]
        rfl
      · cases h
    · rw [← Option.some.inj h]
      rfl

variable (derive token reply) in
theorem planNow_cases (hid : b.coordinator.localIdentity.length = 32)
    (hcap : Capped derive b.enrolled) :
    (Derivable derive b.enrolled ∧ ∃ p, b.planNow derive token reply = .ok p) ∨
      (¬Derivable derive b.enrolled ∧ b.planNow derive token reply = .error .underivable) := by
  rcases plan_cases derive token b.enrolled reply.epoch reply.rng hid with ⟨hd, h⟩ |
    ⟨hd, hlength, _⟩ | ⟨hd, _, p, h, _⟩
  · exact .inr ⟨hd, h⟩
  · rcases hcap with hcap | hcap
    · omega
    · exact absurd hd hcap
  · exact .inl ⟨hd, p, h⟩

theorem refresh_isSome (hid : b.coordinator.localIdentity.length = 32)
    (hcap : Capped derive b.enrolled) :
    ∃ b', b.refreshRecognizerCache derive token reply = some b' := by
  unfold refreshRecognizerCache
  split
  · rcases planNow_cases derive token reply hid hcap with
      ⟨_, p, h⟩ | ⟨_, h⟩
    · exact ⟨_, by rw [h]⟩
    · exact ⟨_, by rw [h]⟩
  · exact ⟨_, rfl⟩

theorem refresh_sent (h : b.refreshRecognizerCache derive token reply = some b') :
    b'.sent = b.sent := by
  unfold refreshRecognizerCache at h
  split at h
  · split at h
    · rw [← Option.some.inj h]
    · rw [← Option.some.inj h]
    · cases h
  · rw [← Option.some.inj h]

/-- A token of every enrolled identity is in the set that a plan emits. -/
theorem token_mem_of_plan {p : Plan} (h : b.planNow derive token reply = .ok p) {k secret : Data}
    (hk : k ∈ b.enrolled) (hsecret : derive k = some secret) :
    token secret reply.epoch b.coordinator.localIdentity ∈ p.emissionSet := by
  obtain ⟨_, hids, hcontacts⟩ := plan_eq_ok h
  have hk : k ∈ p.recognizerContacts.map (·.identity) := hids ▸ hk
  obtain ⟨c, hc, rfl⟩ := List.mem_map.mp hk
  obtain ⟨hderive, htoken⟩ := hcontacts c hc
  obtain rfl : c.secret = secret := Option.some.inj (hderive.symm.trans hsecret)
  exact htoken

variable (derive token reply) in
/-- An entry that leaves a capped list does not trap, and sends what it should. -/
theorem step_within_cap {op : Op} (hid : b.coordinator.localIdentity.length = 32)
    (hcap : Capped derive (op.gates b.coordinator).reconnectAllowlistIdentities) :
    ∃ b', step derive token b (op, reply) = some b' ∧ b.Sends derive token op reply b' := by
  have hrefresh : ∃ b', refreshRecognizerCache derive token
      { b with coordinator := op.gates b.coordinator } reply = some b' :=
    refresh_isSome (by rw [gates_localIdentity]; exact hid) hcap
  obtain ⟨b', hb'⟩ := hrefresh
  have hsent := refresh_sent hb'
  cases op with
  | enableReconnect allowlist => exact ⟨b', hb', hsent⟩
  | addReconnectContact k =>
    simp only [step]
    split
    · exact ⟨b', hb', hsent⟩
    · exact ⟨b, rfl, rfl⟩
  | removeReconnectContact k =>
    simp only [step]
    split
    · exact ⟨b', hb', hsent⟩
    · exact ⟨b, rfl, rfl⟩
  | sendReconnectBeacons link =>
    simp only [step, sendReconnectBeacons, Sends]
    by_cases hon : b.coordinator.reconnectEnabled
    · rcases planNow_cases derive token reply hid hcap with
        ⟨hd, p, hp⟩ | ⟨hd, hp⟩
      · simp only [hp, hon, hd, true_and, ↓reduceIte]
        refine ⟨_, rfl, ?_⟩
        by_cases hcarried : reply.carried
        · simp only [hcarried, ↓reduceIte]
          exact ⟨p.emissionSet, rfl, fun k hk secret hsecret => token_mem_of_plan hp hk hsecret⟩
        · simp [hcarried]
      · simp [hp, hon, hd]
    · simp [hon]

theorem run_inv {localIdentity : Data} {ops : List (Op × Reply)}
    (h : run (step derive token) (new localIdentity) ops = some b) :
    b.Inv derive ∧ b.coordinator.localIdentity = localIdentity :=
  run_invariant (fun b => b.Inv derive ∧ b.coordinator.localIdentity = localIdentity)
    (fun _ => True) (fun t ht _ hinv => ⟨step_inv hinv.1 ht,
      by rw [step_coordinator ht, gates_localIdentity, hinv.2]⟩)
    ⟨new_inv localIdentity, rfl⟩ (fun _ _ => trivial) h

variable (derive token reply) in
/-- After any entries, one more that leaves a capped list does not trap; the cache has no
identity twice and no wrong secret, and it covers the enrolled identities when all of their secrets
derive; and the sets that are sent hold a token of each of them. -/
theorem cache_covers {localIdentity : Data} {ops : List (Op × Reply)} (op : Op)
    (hid : localIdentity.length = 32)
    (hrun : run (step derive token) (new localIdentity) ops = some b)
    (hcap : Capped derive (op.gates b.coordinator).reconnectAllowlistIdentities) :
    ∃ b', step derive token b (op, reply) = some b' ∧
      (b'.reconnectRecognizerContacts.map (·.identity)).Nodup ∧
      (∀ c ∈ b'.reconnectRecognizerContacts, derive c.identity = some c.secret) ∧
      (Derivable derive b'.enrolled → b'.Covers derive) ∧ b.Sends derive token op reply b' := by
  obtain ⟨hinv, hlocal⟩ := run_inv hrun
  obtain ⟨b', hstep, hsends⟩ := step_within_cap derive token reply (hlocal ▸ hid) hcap
  have hinv' := step_inv hinv hstep
  exact ⟨b', hstep, hinv'.nodup, hinv'.secrets, hinv'.covers, hsends⟩

/-- A derivation that refuses the degenerate point. -/
def deriveUnlessZero (k : Data) : Option Data :=
  if k = List.replicate 32 0 then none else some k

/-- A token that shows its secret. -/
def plainToken (secret : Data) (_ : Nat) (_ : Data) : Data := secret.take 16

theorem shuffled_id (tokens : List Data) : (id tokens).Perm tokens := .refl tokens

/-- An epoch without shuffling, over a transport that carries the frame. -/
def plainReply : Reply := ⟨0, ⟨fun _ => List.replicate 16 0, id, shuffled_id⟩, true⟩

theorem cache_covers_first_contact :
    ∃ b', step deriveUnlessZero plainToken (new (List.replicate 32 9))
        (.enableReconnect (ContactAllowlist.empty.enroll (List.replicate 32 1) 0 true),
          plainReply) = some b' ∧ b'.Covers deriveUnlessZero := by
  have hnew : run (step deriveUnlessZero plainToken) (new (List.replicate 32 9)) [] =
      some (new (List.replicate 32 9)) := rfl
  obtain ⟨b', hstep, _, _, hcovers, _⟩ := cache_covers deriveUnlessZero plainToken plainReply
    (.enableReconnect (ContactAllowlist.empty.enroll (List.replicate 32 1) 0 true)) rfl hnew
    (by decide)
  have heq : b'.enrolled = [List.replicate 32 1] := by
    rw [enrolled, step_coordinator hstep]
    rfl
  exact ⟨b', hstep, hcovers (by rw [heq]; decide)⟩

/-- A contact with the degenerate point keeps a later one out of the cache. -/
theorem cache_misses_after_zero :
    ∃ b, run (step deriveUnlessZero plainToken) (new (List.replicate 32 9))
        [(.enableReconnect .empty, plainReply), (.addReconnectContact (List.replicate 32 0),
          plainReply), (.addReconnectContact (List.replicate 32 1), plainReply)] = some b ∧
      b.enrolled = [List.replicate 32 0, List.replicate 32 1] ∧
      (deriveUnlessZero (List.replicate 32 1)).isSome ∧ b.reconnectRecognizerContacts = [] ∧
      ¬b.Covers deriveUnlessZero := by
  refine ⟨_, rfl, rfl, by decide, rfl, fun h => ?_⟩
  have hmem := (h.mem_iff ⟨List.replicate 32 1, List.replicate 32 1⟩).mpr ⟨by decide, by decide⟩
  cases hmem

end Beacons

namespace Pairing

open ReconnectEpochBuilder Interleave

variable {derive : Data → Option Data} {token : Data → Nat → Data → Data}

/-- The identities that the coordinator admits. -/
def enrolled (s : Pairing) : List Data := s.coordinator.reconnectAllowlistIdentities

/-- The action leaves more enrolled identities than an emission set has room for, all of whose
secrets derive. -/
def Action.Overfills (derive : Data → Option Data) (s : Pairing) (a : Action) (_ : Reply) : Prop :=
  ∃ k,
    (a = .addReconnectContact k ∧ s.coordinator.reconnectEnabled ∧ k.length = 32 ∧ k ∉ s.enrolled ∧
      ¬Capped derive (s.enrolled ++ [k])) ∨
    (a = .removeReconnectContact k ∧ ¬Capped derive (s.enrolled.filter (· != k)))

theorem overfills_iff {s : Pairing} {a : Action} {reply : Reply} {p : Pairing × Exit Action}
    (hcapped : Capped derive s.enrolled) (h : s.exec a reply = some p) :
    a.Overfills derive s reply ↔ ¬Capped derive p.1.enrolled := by
  have heffect := exec_effect h
  obtain ⟨s', x⟩ := p
  have hsame (hlist : s'.enrolled = s.enrolled)
      (hother : ∀ k, a ≠ .addReconnectContact k ∧ a ≠ .removeReconnectContact k) :
      a.Overfills derive s reply ↔ ¬Capped derive s'.enrolled := by
    refine iff_of_false ?_ (by rw [hlist]; exact not_not_intro hcapped)
    rintro ⟨k, ⟨ha, _⟩ | ⟨ha, _⟩⟩
    · exact (hother k).1 ha
    · exact (hother k).2 ha
  cases heffect with
  | quiet gate _ _ gates =>
    refine hsame gates.enrolled fun k => ⟨?_, ?_⟩
    · rintro rfl
      cases gate
    · rintro rfl
      cases gate
  | enroll | verify => exact hsame rfl (by simp)
  | revoke k by_ =>
    refine hsame rfl fun k => ?_
    rcases by_ with rfl | rfl <;> simp
  | addVerified k => exact hsame (FirstContactCoordinator.addVerifiedContact_enrolled k) (by simp)
  | removeVerified k =>
    exact hsame (FirstContactCoordinator.removeVerifiedContact_enrolled k) (by simp)
  | addReconnect k =>
    have hlist : Pairing.enrolled { s with coordinator := s.coordinator.addReconnectContact k } =
        if s.coordinator.reconnectEnabled ∧ k.length = 32 ∧ k ∉ s.enrolled then s.enrolled ++ [k]
        else s.enrolled := FirstContactCoordinator.addReconnectContact_enrolled k
    rw [hlist]
    split
    · rename_i hnew
      simp [Action.Overfills, hnew]
    · rename_i hold
      refine iff_of_false ?_ (not_not_intro hcapped)
      rintro ⟨j, ⟨ha, hon, hsize, hj, _⟩ | ⟨ha, _⟩⟩
      · cases ha
        exact hold ⟨hon, hsize, hj⟩
      · cases ha
  | removeReconnect k =>
    have hlist : Pairing.enrolled { s with coordinator := s.coordinator.removeReconnectContact k } =
        s.enrolled.filter (· != k) := FirstContactCoordinator.removeReconnectContact_enrolled k
    simp [Action.Overfills, hlist]

/-- A launch, and the greetings and refreshes after it, ask for no more tokens than an emission set
has room for exactly when the loaded allowlist is capped and no step of the run overfills it. -/
theorem emissionBounded_run_iff {allowlist : ContactAllowlist} {ledger : PendingInvites}
    {denylist : List BlockedContact} {localIdentity : Data} {now : Int}
    {es : List (Event Call Reply)} :
    (EmissionBounded derive token (launch allowlist ledger denylist localIdentity now).enrolled ∧
      ∀ t ∈ trace machine.step ⟨launch allowlist ledger denylist localIdentity now, []⟩ es,
        EmissionBounded derive token t.post.shared.enrolled) ↔
    Capped derive allowlist.identities ∧
      ∀ t ∈ trace machine.step ⟨launch allowlist ledger denylist localIdentity now, []⟩ es,
        ¬Config.Ran t (Action.Overfills derive) := by
  simp only [emissionBounded_iff]
  have keep (t : Step) (ht : machine.step t.pre t.event = some t.post)
      (hcapped : Capped derive t.pre.shared.enrolled) :
      Capped derive t.post.shared.enrolled ↔ ¬Config.Ran t (Action.Overfills derive) := by
    rcases Machine.step_shared ht with ⟨hsame, hquiet⟩ | ⟨a, reply, x, hexec, hran⟩
    · rw [hsame]
      exact iff_of_true hcapped (hquiet _)
    · rw [hran, overfills_iff hcapped hexec, not_not]
  have hrun (c : Config Pairing Action) :
      (Capped derive c.shared.enrolled ∧
        ∀ t ∈ trace machine.step c es, Capped derive t.post.shared.enrolled) ↔
      Capped derive c.shared.enrolled ∧
        ∀ t ∈ trace machine.step c es, ¬Config.Ran t (Action.Overfills derive) :=
    forall_post_iff (fun c : Config Pairing Action => Capped derive c.shared.enrolled) keep
  exact hrun ⟨launch allowlist ledger denylist localIdentity now, []⟩

/-- Sixty-five contacts. -/
def crowd : ContactAllowlist :=
  (List.range 65).foldl (fun a i => a.enroll (UInt8.ofNat i :: List.replicate 31 1) 0 true) .empty

theorem launch_overfilled :
    crowd.identities.length = 65 ∧
      ¬EmissionBounded Beacons.deriveUnlessZero Beacons.plainToken
        (launch crowd .empty [] (List.replicate 32 9) 0).enrolled := by
  rw [emissionBounded_iff]
  decide +kernel

end Pairing

end AeroNyra
