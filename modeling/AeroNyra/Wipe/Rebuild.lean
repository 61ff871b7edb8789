import AeroNyra.Wipe.ContentView

/-! When a rebuilt stack is the only one that runs.  An erase deletes what a stack keeps on the
device, but stops nothing of it, so the envelopes of Bluetooth still go to the consumer that asked
first, and what is under way goes on under the keys of the erased identity. -/

namespace AeroNyra

open Interleave

namespace ContentView

/-! ### What the actions do -/

namespace Action

/-- The stack whose boot task the action comes from. -/
def task : Action → Option Nat
  | .startPTTAudioDrive stack | .startTransports stack | .consumeIncoming stack | .next stack _
  | .resumed stack _ | .handle stack _ | .receiveNext stack _ | .saveLedger stack
  | .persistLedger stack _ => some stack
  | _ => none

/-- The stack that the action is one of. -/
def stack : Action → Option Nat
  | .call stack | .work stack _ => some stack
  | a => a.task

end Action

inductive Deed
  | takes (stream : Stream)
  | works (w : Work)
  deriving DecidableEq

variable (directory applicationSupport : String) (p : Nat → NostrPrimitives) (s : ContentView)

/-- What an action does for a stack that is to do nothing once it is erased. -/
def deed : Action → Reply → Option (Nat × Deed)
  | .next stack stream, .done =>
    match ((s.streams stream).next stack).2 with
    | .element _ => some (stack, .takes stream)
    | .wait | .finished => none
  | .resumed stack stream, .done =>
    match ((s.streams stream).resume stack).2 with
    | .element _ => some (stack, .takes stream)
    | .wait | .finished => none
  | .receiveNext stack _, .event event =>
    if (s.nostr stack).any fun t => t.inbound.Opens (p stack) event
      then some (stack, .works .useKeys)
    else none
  | .persistLedger stack _, .persisted true => some (stack, .works (.save (ledgerFile directory)))
  | .work stack w, .done => some (stack, .works w)
  | _, _ => none

/-- The stack that an action gives an envelope of Bluetooth to. -/
def givesTo : Action → Option Nat
  | .yield (.envelope _) => (s.streams .bluetooth).receiver
  | .next stack .bluetooth => if (s.streams .bluetooth).buffer = [] then none else some stack
  | _ => none

/-- The erase reports success. -/
def ReportsSuccess : Action → Prop
  | .erase (.verify errors) => errors = [] ∧ s.storeGone applicationSupport
  | _ => False

instance (a : Action) : Decidable (s.ReportsSuccess applicationSupport a) := by
  unfold ReportsSuccess
  split <;> infer_instance

/-- The view comes to hold the parts of a new stack. -/
def Installs : Action → Reply → Prop
  | .bootstrap, .booted .found build => build.installs
  | .completeOnboarding, .saved .found build => s.identityExists = false ∧ build.installs
  | _, _ => False

instance (a : Action) (reply : Reply) : Decidable (s.Installs a reply) := by
  unfold Installs
  split <;> infer_instance

theorem Action.stack_of_task {a : Action} {n : Nat} (h : a.task = some n) : a.stack = some n := by
  cases a <;> first | exact h | cases h

/-! ### The stacks, the jobs and the streams -/

/-- Of each stack, whether it was launched and whether it was erased. -/
def marks : List (Bool × Bool) := s.sessionStacks.map fun stack => (stack.launched, stack.erased)

def Launched (n : Nat) : Prop := ∃ erased, s.marks[n]? = some (true, erased)

def Erased (n : Nat) : Prop := ∃ launched, s.marks[n]? = some (launched, true)

def Live (n : Nat) : Prop := ∃ launched, s.marks[n]? = some (launched, false)

/-- The action builds no stack and erases none, and creates jobs and consumers only for its own. -/
structure Stays (a : Action) (s' : ContentView) : Prop where
  marks : s'.marks = s.marks
  current : s'.current = s.current
  jobs : ∀ q ∈ s'.jobs, q ∈ s.jobs ∨ a.task = some q.1
  waiting : ∀ stream, ∀ n ∈ (s'.streams stream).waiting, n ∈ (s.streams stream).waiting ∨
    a.task = some n

/-- What an action makes of the process. -/
inductive Moves (a : Action) (reply : Reply) (s' : ContentView) : Prop
  | stays (h : s.Stays a s')
  | succeeds (by_ : s.ReportsSuccess applicationSupport a) (post : s' = s.onboardAgain)
  | installs (launched : Bool) (by_ : s.Installs a reply)
      (marks : s'.marks = s.marks ++ [(launched, false)])
      (current : s'.current = some s.marks.length)
      (jobs : ∀ q ∈ s'.jobs, q ∈ s.jobs ∨ (launched = true ∧ q.1 = s.marks.length))
      (streams : s'.streams = s.streams)

variable {directory applicationSupport p s} {s' : ContentView} {a b : Action} {reply : Reply}
  {x : Exit Action} {n : Nat}

theorem Stays.of_eq (marks : s'.marks = s.marks) (current : s'.current = s.current)
    (jobs : s'.jobs = s.jobs) (streams : s'.streams = s.streams) : s.Stays a s' where
  marks := marks
  current := current
  jobs _ hq := .inl (jobs ▸ hq)
  waiting _ _ hn := .inl (streams ▸ hn)

/-- A change of a field other than the marks, and jobs for the stack of the action. -/
theorem Stays.update {f : Stack → Stack} {jobs : List Job} (ha : a.task = some n)
    (hf : ∀ stack, (f stack).launched = stack.launched ∧ (f stack).erased = stack.erased) :
    s.Stays a (s.update n f jobs) where
  marks := by
    refine List.ext_getElem? fun i => ?_
    simp only [ContentView.marks, ContentView.update, List.getElem?_map, List.getElem?_modify]
    cases s.sessionStacks[i]? with
    | none => rfl
    | some stack => by_cases hi : n = i <;> simp [hi, hf]
  current := rfl
  jobs q hq := by
    rcases List.mem_append.mp hq with hq | hq
    · exact .inl hq
    · obtain ⟨job, _, rfl⟩ := List.mem_map.mp hq
      exact .inr ha
  waiting _ _ hn := .inl hn

/-- A change of one stream in which only the stack of the action may come to wait. -/
theorem Stays.setStream {stream : Stream} {q : AsyncStream Yielded Nat}
    (hq : ∀ n ∈ q.waiting, n ∈ (s.streams stream).waiting ∨ a.task = some n) :
    s.Stays a (s.setStream stream q) where
  marks := rfl
  current := rfl
  jobs _ hq := .inl hq
  waiting other n hn := by
    by_cases hother : other = stream
    · subst hother
      refine hq n ?_
      simpa [ContentView.setStream] using hn
    · refine .inl ?_
      simpa [ContentView.setStream, hother] using hn

theorem Stays.setNostr {t : NostrTransport} {jobs : List Job} (ha : a.task = some n) :
    s.Stays a (s.setNostr n t jobs) :=
  .update ha fun _ => ⟨rfl, rfl⟩

theorem Stays.trans {s'' : ContentView} (h : s.Stays a s') (h' : s'.Stays a s'') :
    s.Stays a s'' where
  marks := h'.marks.trans h.marks
  current := h'.current.trans h.current
  jobs q hq := (h'.jobs q hq).elim (h.jobs q) .inr
  waiting stream n hn := (h'.waiting stream n hn).elim (h.waiting stream n) .inr

theorem route_eq (r : BootRoute) : s.route r = { s with phase := (s.route r).phase } := by
  cases r with
  | bootFailed failure => rfl
  | onboarding | ready =>
    dsimp only [ContentView.route]
    by_cases heula : s.eulaAccepted
    · rw [if_pos heula]
      rfl
    · rw [if_neg heula]

theorem Stays.route {r : BootRoute} : s.Stays a (s.route r) := by
  rw [route_eq r]
  exact .of_eq rfl rfl rfl rfl

/-- An event of a relay yields to the stream of its own transport. -/
theorem Stays.handleInboundEvent {t : NostrTransport} {event : NostrEvent} (ha : a.task = some n) :
    s.Stays a (s.handleInboundEvent p n t event) := by
  refine .trans (.setStream ?_) (.setNostr ha)
  generalize (t.handleInboundEvent (p n) event).2.2 = envelopes
  generalize s.streams (.internet n) = q
  intro k hk
  induction envelopes generalizing q with
  | nil => exact .inl hk
  | cons envelope envelopes ih =>
    rcases ih _ hk with hwaits | hself
    · exact .inl (AsyncStream.mem_waiting_of_yield hwaits)
    · exact .inr hself

theorem install_moves {ledger : Option ProcessedEventLedger} {launched : Bool} {r : BootRoute}
    (h : s'.sessionStacks = s.sessionStacks) (hjobs : s'.jobs = s.jobs)
    (hstreams : s'.streams = s.streams) (by_ : s.Installs a reply) :
    s.Moves applicationSupport a reply
      ((s'.install directory applicationSupport ledger launched).route r) := by
  refine .installs launched by_ ?_ ?_ (fun q hq => ?_) ?_
  · rw [route_eq]
    simp [ContentView.marks, ContentView.install, h]
  · rw [route_eq]
    simp [ContentView.marks, ContentView.install, h]
  · rw [route_eq] at hq
    simp only [ContentView.install, List.mem_append, hjobs, h] at hq
    refine hq.imp_right fun hnew => ?_
    cases launched with
    | false => cases hnew
    | true =>
      obtain rfl := List.mem_singleton.mp hnew
      exact ⟨rfl, (List.length_map _).symm⟩
  · rw [route_eq]
    exact hstreams

theorem bootstrap_moves {load : Load} {build : Build} (h : s'.sessionStacks = s.sessionStacks)
    (hcurrent : s'.current = s.current) (hjobs : s'.jobs = s.jobs)
    (hstreams : s'.streams = s.streams)
    (by_ : load = .found → build.installs → s.Installs a reply) :
    s.Moves applicationSupport a reply (s'.bootstrap directory applicationSupport load build) := by
  have hsame : s.Stays a s' := .of_eq (by simp [ContentView.marks, h]) hcurrent hjobs hstreams
  cases load with
  | notFound | unreadable =>
    dsimp only [ContentView.bootstrap]
    exact .stays (hsame.trans .route)
  | found =>
    cases build with
    | threw =>
      dsimp only [ContentView.bootstrap]
      exact .stays (hsame.trans .route)
    | unassembled ledger | built ledger =>
      dsimp only [ContentView.bootstrap]
      exact install_moves h hjobs hstreams (by_ rfl rfl)

theorem erase_moves {e : Erase} (h : s.erase applicationSupport e reply = some (s', x)) :
    s.Moves applicationSupport (.erase e) reply s' := by
  unfold ContentView.erase at h
  split at h
  · split at h
    · cases h
      exact .stays (.of_eq rfl rfl rfl rfl)
    · cases h
      exact .stays (.of_eq rfl rfl rfl rfl)
    · cases h
      exact .stays (.of_eq rfl rfl rfl rfl)
    · cases h
    · cases h
    · cases h
  · split at h
    · cases h
      exact .stays (.of_eq rfl rfl rfl rfl)
    · cases h
      exact .stays (.of_eq rfl rfl rfl rfl)
  · cases h
    exact .stays (.of_eq rfl rfl rfl rfl)
  · cases h
    exact .stays (.of_eq rfl rfl rfl rfl)
  · cases h
    exact .stays (.of_eq rfl rfl rfl rfl)
  · split at h
    · rename_i hsuccess
      cases h
      exact .succeeds hsuccess rfl
    · cases h
      exact .stays (.of_eq rfl rfl rfl rfl)
  · cases h

/-- What an action can do to the stacks of the process. -/
theorem exec_moves (h : s.exec directory applicationSupport p a reply = some (s', x)) :
    s.Moves applicationSupport a reply s' := by
  have same (a : Action) : s.Stays a s := .of_eq rfl rfl rfl rfl
  unfold exec at h
  split at h
  case h_1 load build =>
    have hboot : s.Moves applicationSupport .bootstrap (.booted load build)
        (s.bootstrap directory applicationSupport load build) :=
      bootstrap_moves rfl rfl rfl rfl fun hfound hinstalls => by subst hfound; exact hinstalls
    split at h
    · obtain ⟨_, heq⟩ := Option.ite_none_right_eq_some.mp h
      cases heq
      exact hboot
    · obtain ⟨_, heq⟩ := Option.ite_none_right_eq_some.mp h
      cases heq
      exact hboot
    · cases h
  case h_2 =>
    split at h
    · rename_i route _
      cases h
      cases route <;> exact .stays (.of_eq rfl rfl rfl rfl)
    · cases h
  case h_3 load build =>
    obtain ⟨_, h⟩ := Option.ite_none_right_eq_some.mp h
    split at h
    · cases h
      exact .stays (.of_eq rfl rfl rfl rfl)
    · rename_i hexists
      obtain ⟨_, heq⟩ := Option.ite_none_right_eq_some.mp h
      cases heq
      refine bootstrap_moves rfl rfl rfl rfl fun hfound hinstalls => ?_
      subst hfound
      exact ⟨Bool.eq_false_iff.mpr hexists, hinstalls⟩
  case h_5 => exact erase_moves h
  case h_7 =>
    obtain ⟨_, heq⟩ := Option.ite_none_right_eq_some.mp h
    cases heq
    exact .stays (same _)
  case h_8 element =>
    cases h
    exact .stays (.setStream fun n hn => .inl (AsyncStream.mem_waiting_of_yield hn))
  case h_9 job =>
    obtain ⟨q, _, heq⟩ := Option.map_eq_some_iff.mp h
    cases heq
    exact .stays ⟨rfl, rfl, fun q hq => .inl (List.mem_of_mem_eraseIdx hq), fun _ _ hn => .inl hn⟩
  case h_10 =>
    obtain ⟨_, heq⟩ := Option.ite_none_right_eq_some.mp h
    cases heq
    exact .stays (.setStream fun n hn => .inl hn)
  case h_14 stack =>
    split at h
    · cases h
      exact .stays (same _)
    · cases h
      exact .stays (.update rfl fun _ => ⟨rfl, rfl⟩)
  case h_15 stack =>
    split at h
    · cases h
      exact .stays (.setNostr rfl)
    · cases h
      exact .stays (same _)
  case h_16 stack =>
    cases h
    exact .stays (.update rfl fun _ => ⟨rfl, rfl⟩)
  case h_17 stack stream =>
    cases h
    refine .stays (.setStream fun n hn => (AsyncStream.mem_waiting_of_next hn).imp_right ?_)
    rintro rfl
    rfl
  case h_18 stack stream =>
    dsimp only at h
    split at h
    · cases h
    · cases h
      exact .stays (.setStream fun n hn => .inl (AsyncStream.mem_waiting_of_resume hn))
  case h_20 =>
    obtain ⟨_, heq⟩ := Option.ite_none_right_eq_some.mp h
    cases heq
    exact .stays (same _)
  case h_21 stack url event =>
    obtain ⟨t, _, heq⟩ := Option.map_eq_some_iff.mp h
    cases heq
    exact .stays (.handleInboundEvent rfl)
  case h_22 | h_23 =>
    obtain ⟨t, _, heq⟩ := Option.map_eq_some_iff.mp h
    cases heq
    exact .stays (same _)
  case h_24 stack =>
    obtain ⟨t, _, heq⟩ := Option.map_eq_some_iff.mp h
    cases heq
    exact .stays (.setNostr rfl)
  case h_25 stack snapshot saved =>
    cases h
    cases saved <;> exact .stays (.of_eq rfl rfl rfl rfl)
  case h_26 => cases h
  all_goals
    cases h
    exact .stays (.of_eq rfl rfl rfl rfl)

/-! ### Where the actions of a stack come from -/

/-- The actions that an action brings in: more of its own stack, those of a job, or a call into the
stack whose parts the view holds. -/
inductive Adds (s : ContentView) (a b : Action) : Prop
  | own (stack : b.stack = a.stack) (task : b.task = a.task ∨ b.task = none)
  | begins (q : Nat × Job) (created : q ∈ s.jobs) (stack : b.stack = some q.1)
  | calls (n : Nat) (holds : s.current = some n) (call : b = .call n)

theorem stack_program {job : Job} (hb : b ∈ program n job) : b.stack = some n := by
  cases job with
  | boot =>
    simp only [program, List.mem_cons, List.not_mem_nil, or_false] at hb
    rcases hb with rfl | rfl | rfl | rfl | rfl | rfl <;> rfl
  | consume | relay | saveLedger | persistLedger =>
    obtain rfl := List.mem_singleton.mp hb
    rfl

theorem task_consumer {stream : Stream} {answer : AsyncStream.Answer Yielded}
    (hb : b ∈ consumer n stream answer) : b.task = some n := by
  cases answer with
  | element element =>
    simp only [consumer, List.mem_cons, List.not_mem_nil, or_false] at hb
    rcases hb with rfl | rfl <;> rfl
  | wait =>
    obtain rfl := List.mem_singleton.mp hb
    rfl
  | finished => cases hb

theorem adds_works {work : List Work} (ha : a.stack = some n) (hb : b ∈ work.map (.work n)) :
    s.Adds a b := by
  obtain ⟨w, _, rfl⟩ := List.mem_map.mp hb
  exact .own ha.symm (.inr rfl)

theorem adds_consumer {stream : Stream} {answer : AsyncStream.Answer Yielded} (ha : a.task = some n)
    (hb : b ∈ consumer n stream answer) : s.Adds a b := by
  have htask := task_consumer hb
  exact .own ((Action.stack_of_task htask).trans (Action.stack_of_task ha).symm)
    (.inl (htask.trans ha.symm))

theorem adds_calls (hb : b ∈ s.current.toList.map .call) : s.Adds a b := by
  obtain ⟨n, hn, rfl⟩ := List.mem_map.mp hb
  exact .calls n (Option.mem_toList.mp hn) rfl

theorem adds_readLoop {url : String} {t : NostrTransport}
    (hb : b ∈ (readLoop n url t).added) : s.Adds (.receiveNext n url) b := by
  unfold readLoop at hb
  split at hb
  · obtain rfl := List.mem_singleton.mp hb
    exact .own rfl (.inl rfl)
  · cases hb

theorem erase_adds {e : Erase} (h : s.erase applicationSupport e reply = some (s', x))
    (hb : b ∈ x.added) : s.Adds (.erase e) b := by
  have hnext (e' : Erase) (hb : b ∈ [Action.erase e']) : s.Adds (.erase e) b := by
    obtain rfl := List.mem_singleton.mp hb
    exact .own rfl (.inl rfl)
  unfold ContentView.erase at h
  split at h
  · split at h <;> first | cases h; exact hnext _ hb | cases h
  · split at h
    · cases h
      cases hb
    · cases h
      exact hnext _ hb
  · cases h
    exact hnext _ hb
  · cases h
    exact hnext _ hb
  · cases h
    exact hnext _ hb
  · split at h <;> (cases h; cases hb)
  · cases h

theorem exec_adds (h : s.exec directory applicationSupport p a reply = some (s', x))
    (hb : b ∈ x.added) : s.Adds a b := by
  unfold exec at h
  split at h
  case h_1 =>
    split at h
    · obtain ⟨_, heq⟩ := Option.ite_none_right_eq_some.mp h
      cases heq
      cases hb
    · obtain ⟨_, heq⟩ := Option.ite_none_right_eq_some.mp h
      cases heq
      cases hb
    · cases h
  case h_2 =>
    split at h
    · cases h
      cases hb
    · cases h
  case h_3 =>
    obtain ⟨_, h⟩ := Option.ite_none_right_eq_some.mp h
    split at h
    · cases h
      cases hb
    · obtain ⟨_, heq⟩ := Option.ite_none_right_eq_some.mp h
      cases heq
      cases hb
  case h_5 => exact erase_adds h hb
  case h_6 =>
    cases h
    exact adds_calls hb
  case h_7 =>
    obtain ⟨_, heq⟩ := Option.ite_none_right_eq_some.mp h
    cases heq
    exact adds_calls hb
  case h_9 job =>
    obtain ⟨q, hq, heq⟩ := Option.map_eq_some_iff.mp h
    cases heq
    exact .begins q (List.mem_of_getElem? hq) (stack_program hb)
  case h_10 =>
    obtain ⟨_, heq⟩ := Option.ite_none_right_eq_some.mp h
    cases heq
    cases hb
  case h_11 | h_19 =>
    cases h
    exact adds_works rfl hb
  case h_14 =>
    split at h <;> (cases h; cases hb)
  case h_15 =>
    split at h <;> (cases h; cases hb)
  case h_17 =>
    cases h
    exact adds_consumer rfl hb
  case h_18 =>
    dsimp only at h
    split at h
    · cases h
    · cases h
      exact adds_consumer rfl hb
  case h_20 =>
    obtain ⟨_, heq⟩ := Option.ite_none_right_eq_some.mp h
    cases heq
    cases hb
  case h_21 | h_22 | h_23 =>
    obtain ⟨t, _, heq⟩ := Option.map_eq_some_iff.mp h
    cases heq
    exact adds_readLoop hb
  case h_24 =>
    obtain ⟨t, _, heq⟩ := Option.map_eq_some_iff.mp h
    cases heq
    cases hb
  case h_26 => cases h
  all_goals
    cases h
    cases hb

/-! ### What is left of a stack -/

section Runs

variable (directory applicationSupport p) (t : Step)

/-- Nothing of the stack is left: no action of it is to run, no job of it is to begin, and the view
does not hold its parts. -/
def Rests (c : Config ContentView Action) (n : Nat) : Prop :=
  (¬∃ a, c.ToRun a ∧ a.stack = some n) ∧ (∀ q ∈ c.shared.jobs, q.1 ≠ n) ∧ c.shared.current ≠ some n

instance (c : Config ContentView Action) (n : Nat) : Decidable (Rests c n) :=
  inferInstanceAs (Decidable (_ ∧ _ ∧ _))

/-- The newest stack is the only one that runs: an envelope of Bluetooth that is given away goes to
it, and nothing is done for a stack that an erase has reported gone. -/
structure Alone : Prop where
  newest : ∀ n, Config.Ran t (fun s a _ => s.givesTo a = some n) →
    n + 1 = t.pre.shared.sessionStacks.length
  silent : ∀ n d, Config.Ran t (fun s a reply => s.deed directory p a reply = some (n, d)) →
    ¬t.pre.shared.Erased n

/-- What was there is gone before what comes next: nothing of any stack is left when an erase
reports success, and no stack was launched when the view comes to hold the parts of a new one. -/
structure Retires : Prop where
  erase : Config.Ran t (fun s a _ => s.ReportsSuccess applicationSupport a) →
    ∀ n < t.pre.shared.sessionStacks.length, Rests t.pre n
  build : Config.Ran t (fun s a reply => s.Installs a reply) →
    ∀ stack ∈ t.pre.shared.sessionStacks, stack.launched = false

instance (t : Step) : Decidable (Retires applicationSupport t) :=
  decidable_of_iff
    ((Config.Ran t (fun s a _ => s.ReportsSuccess applicationSupport a) →
        ∀ n < t.pre.shared.sessionStacks.length, Rests t.pre n) ∧
      (Config.Ran t (fun s a reply => s.Installs a reply) →
        ∀ stack ∈ t.pre.shared.sessionStacks, stack.launched = false))
    ⟨fun h => ⟨h.1, h.2⟩, fun h => ⟨h.erase, h.build⟩⟩

/-- What comes from a boot task is of a stack that was launched. -/
structure Owned (c : Config ContentView Action) : Prop where
  tasks : ∀ b n, c.ToRun b → b.task = some n → c.shared.Launched n
  created : ∀ q ∈ c.shared.jobs, c.shared.Launched q.1
  waiting : ∀ stream, ∀ n ∈ (c.shared.streams stream).waiting, c.shared.Launched n

/-- Whatever is left of a stack is of one that was not erased, and only the newest was launched. -/
structure Sole (c : Config ContentView Action) : Prop where
  actions : ∀ b n, c.ToRun b → b.stack = some n → c.shared.Live n
  created : ∀ q ∈ c.shared.jobs, c.shared.Live q.1
  holds : ∀ n, c.shared.current = some n → c.shared.Live n
  newest : ∀ n, c.shared.Launched n → n + 1 = c.shared.marks.length

variable {directory applicationSupport p t}

theorem marks_onboardAgain : s.onboardAgain.marks = s.marks.map fun m => (m.1, true) := by
  simp [marks, onboardAgain]

theorem Moves.launched (h : s.Moves applicationSupport a reply s') (hn : s.Launched n) :
    s'.Launched n := by
  obtain ⟨erased, hmark⟩ := hn
  cases h with
  | stays h => exact ⟨erased, h.marks ▸ hmark⟩
  | succeeds _ post =>
    subst post
    exact ⟨true, by rw [marks_onboardAgain, List.getElem?_map, hmark]; rfl⟩
  | installs launched _ marks =>
    have hlt : n < s.marks.length := (List.getElem?_eq_some_iff.mp hmark).1
    exact ⟨erased, by rw [marks, List.getElem?_append_left hlt, hmark]⟩

theorem start_stack (call : Call) :
    ∀ b ∈ ((machine directory applicationSupport p).thread call).todo ++
      ((machine directory applicationSupport p).thread call).onThrow, b.stack = none := by
  intro b hb
  cases call <;> (obtain rfl := List.mem_singleton.mp hb; rfl)

theorem owned_step (ht : (machine directory applicationSupport p).step t.pre t.event = some t.post)
    (h : Owned t.pre) : Owned t.post := by
  have keep : ∀ n, t.pre.shared.Launched n → t.post.shared.Launched n := by
    intro n hn
    rcases Machine.step_shared ht with ⟨hsame, _⟩ | ⟨a, reply, x, hexec, _⟩
    · rw [hsame]
      exact hn
    · exact (exec_moves hexec).launched hn
  have htasks : ∀ b n, t.post.ToRun b → b.task = some n → t.post.shared.Launched n := by
    refine Machine.subject_step ht h.tasks (fun _ n _ _ => keep n) (fun call b hb => ?_) ?_
    · cases htask : b.task with
      | none => rfl
      | some n => cases (start_stack call b hb).symm.trans (Action.stack_of_task htask)
    · intro a reply x b n _ hexec hadded hb
      cases exec_adds hexec hadded with
      | own _ task => exact .inl (task.elim (fun h => h ▸ hb) fun h => by cases h.symm.trans hb)
      | begins q created stack =>
        obtain rfl := Option.some.inj (stack.symm.trans (Action.stack_of_task hb))
        exact .inr (keep _ (h.created q created))
      | calls n _ call =>
        subst call
        cases hb
  rcases Machine.step_shared ht with ⟨hsame, _⟩ | ⟨a, reply, x, hexec, hran⟩
  · refine ⟨htasks, ?_, ?_⟩
    · rw [hsame]
      exact h.created
    · rw [hsame]
      exact h.waiting
  · obtain ⟨_, _, ha, rfl⟩ := Config.toRun_of_ran ((hran fun _ b _ => a = b).mpr rfl)
    have htask : ∀ n, a.task = some n → t.post.shared.Launched n :=
      fun n hn => keep n (h.tasks a n ha hn)
    cases exec_moves hexec with
    | stays hstays =>
      refine ⟨htasks, fun q hq => ?_, fun stream n hn => ?_⟩
      · exact (hstays.jobs q hq).elim (fun hold => keep _ (h.created q hold)) (htask _)
      · exact (hstays.waiting stream n hn).elim (fun hold => keep _ (h.waiting stream n hold))
          (htask _)
    | succeeds _ post =>
      refine ⟨htasks, fun q hq => keep _ (h.created q ?_), fun stream n hn =>
        keep _ (h.waiting stream n ?_)⟩
      · rw [post] at hq
        exact hq
      · rw [post] at hn
        exact hn
    | installs launched _ marks _ jobs streams =>
      refine ⟨htasks, fun q hq => ?_, fun stream n hn => keep _ (h.waiting stream n ?_)⟩
      · rcases jobs q hq with hold | ⟨rfl, hnew⟩
        · exact keep _ (h.created q hold)
        · exact ⟨false, by rw [marks, hnew, List.getElem?_concat_length]⟩
      · rw [streams] at hn
        exact hn

/-- Whatever is left of a stack before a step that retires what was there is of a stack that is not
erased after it. -/
theorem live_step (ht : (machine directory applicationSupport p).step t.pre t.event = some t.post)
    (hretires : Retires applicationSupport t) (hlive : t.pre.shared.Live n)
    (hleft : ¬Rests t.pre n) :
    t.post.shared.Live n := by
  obtain ⟨launched, hmark⟩ := hlive
  have hlt : n < t.pre.shared.marks.length := (List.getElem?_eq_some_iff.mp hmark).1
  rcases Machine.step_shared ht with ⟨hsame, _⟩ | ⟨a, reply, x, hexec, hran⟩
  · rw [hsame]
    exact ⟨launched, hmark⟩
  · cases exec_moves hexec with
    | stays hstays => exact ⟨launched, hstays.marks ▸ hmark⟩
    | succeeds by_ _ =>
      refine absurd (hretires.erase ((hran _).mpr by_) n ?_) hleft
      simpa [marks] using hlt
    | installs _ _ marks => exact ⟨launched, by rw [marks, List.getElem?_append_left hlt, hmark]⟩

theorem sole_step (ht : (machine directory applicationSupport p).step t.pre t.event = some t.post)
    (hretires : Retires applicationSupport t) (h : Sole t.pre) : Sole t.post := by
  have keep : ∀ n, t.pre.shared.Live n → ¬Rests t.pre n → t.post.shared.Live n := fun n =>
    live_step ht hretires
  have hcreated : ∀ q ∈ t.pre.shared.jobs, t.post.shared.Live q.1 := fun q hq =>
    keep _ (h.created q hq) fun hrests => hrests.2.1 q hq rfl
  have hholds : ∀ n, t.pre.shared.current = some n → t.post.shared.Live n := fun n hn =>
    keep _ (h.holds n hn) fun hrests => hrests.2.2 hn
  have hold : ∀ b n, t.pre.ToRun b → b.stack = some n → t.post.shared.Live n := fun b n hb hstack =>
    keep _ (h.actions b n hb hstack) fun hrests => hrests.1 ⟨b, hb, hstack⟩
  have hactions : ∀ b n, t.post.ToRun b → b.stack = some n → t.post.shared.Live n := by
    refine Machine.subject_step ht h.actions (fun b n hb hn _ => hold b n hb hn) start_stack ?_
    intro a reply x b n _ hexec hadded hb
    cases exec_adds hexec hadded with
    | own stack _ => exact .inl (stack ▸ hb)
    | begins q created stack =>
      obtain rfl := Option.some.inj (stack.symm.trans hb)
      exact .inr (hcreated q created)
    | calls k holds call =>
      subst call
      obtain rfl := Option.some.inj hb
      exact .inr (hholds k holds)
  rcases Machine.step_shared ht with ⟨hsame, _⟩ | ⟨a, reply, x, hexec, hran⟩
  · refine ⟨hactions, ?_, ?_, ?_⟩
    · rw [hsame]
      exact h.created
    · rw [hsame]
      exact h.holds
    · rw [hsame]
      exact h.newest
  · obtain ⟨_, _, ha, rfl⟩ := Config.toRun_of_ran ((hran fun _ b _ => a = b).mpr rfl)
    cases exec_moves hexec with
    | stays hstays =>
      refine ⟨hactions, fun q hq => ?_, fun n hn => hholds n (hstays.current ▸ hn), ?_⟩
      · rcases hstays.jobs q hq with hq | htask
        · exact hcreated q hq
        · exact hold a _ ha (Action.stack_of_task htask)
      · unfold Launched
        rw [hstays.marks]
        exact h.newest
    | succeeds _ post =>
      refine ⟨hactions, fun q hq => hcreated q ?_, fun n hn => hholds n ?_, ?_⟩
      · rw [post] at hq
        exact hq
      · rw [post] at hn
        exact hn
      · rintro n ⟨erased, hmark⟩
        rw [post, marks_onboardAgain, List.getElem?_map] at hmark
        obtain ⟨⟨launched, before⟩, hbefore, heq⟩ := Option.map_eq_some_iff.mp hmark
        cases heq
        rw [post, marks_onboardAgain, List.length_map]
        exact h.newest n ⟨before, hbefore⟩
    | installs launched by_ marks current jobs streams =>
      have hnew : t.post.shared.Live t.pre.shared.marks.length :=
        ⟨launched, by rw [marks, List.getElem?_concat_length]⟩
      refine ⟨hactions, fun q hq => ?_, fun n hn => ?_, ?_⟩
      · rcases jobs q hq with hq | ⟨_, hq⟩
        · exact hcreated q hq
        · exact hq ▸ hnew
      · obtain rfl := Option.some.inj (current.symm.trans hn)
        exact hnew
      · rintro n ⟨erased, hmark⟩
        rw [marks] at hmark ⊢
        rcases Nat.lt_or_ge n t.pre.shared.marks.length with hlt | hge
        · -- An earlier stack that was launched is there before the step.
          rw [List.getElem?_append_left hlt] at hmark
          obtain ⟨stack, hstack, heq⟩ := List.mem_map.mp (List.mem_of_getElem? hmark)
          have hnot := hretires.build ((hran _).mpr by_) stack hstack
          cases (congrArg Prod.fst heq).symm.trans hnot
        · have hlength := (List.getElem?_eq_some_iff.mp hmark).1
          rw [List.length_append, List.length_singleton] at hlength ⊢
          omega

/-- What an action does for a stack is one of its own. -/
theorem stack_of_deed {d : Deed} (h : s.deed directory p a reply = some (n, d)) :
    a.stack = some n := by
  unfold deed at h
  split at h
  · split at h
    · cases h
      rfl
    · cases h
    · cases h
  · split at h
    · cases h
      rfl
    · cases h
    · cases h
  · obtain ⟨_, heq⟩ := Option.ite_none_right_eq_some.mp h
    cases heq
    rfl
  · cases h
    rfl
  · cases h
    rfl
  · cases h

theorem alone_of_sole (howned : Owned t.pre) (hsole : Sole t.pre) : Alone directory p t where
  newest n hgives := by
    obtain ⟨a, _, ha, hgives⟩ := Config.toRun_of_ran hgives
    have hlaunched : t.pre.shared.Launched n := by
      unfold givesTo at hgives
      split at hgives
      · exact howned.waiting _ n (AsyncStream.mem_waiting_of_receiver hgives)
      · obtain ⟨_, heq⟩ := Option.ite_none_left_eq_some.mp hgives
        exact howned.tasks _ n ha heq
      · cases hgives
    simpa [marks] using hsole.newest n hlaunched
  silent n d hdeed := by
    obtain ⟨a, reply, ha, hdeed⟩ := Config.toRun_of_ran hdeed
    obtain ⟨launched, hlive⟩ := hsole.actions a n ha (stack_of_deed hdeed)
    rintro ⟨launched', herased⟩
    cases hlive.symm.trans herased

theorem owned_launch (eulaAccepted : Bool) (present : Item → Bool) :
    Owned ⟨launch eulaAccepted present, []⟩ where
  tasks _ _ hb := by
    obtain ⟨u, hu, _⟩ := hb
    cases hu
  created _ hq := by cases hq
  waiting _ _ hn := by cases hn

theorem sole_launch (eulaAccepted : Bool) (present : Item → Bool) :
    Sole ⟨launch eulaAccepted present, []⟩ where
  actions _ _ hb := by
    obtain ⟨u, hu, _⟩ := hb
    cases hu
  created _ hq := by cases hq
  holds _ hn := by cases hn
  newest _ hn := by
    obtain ⟨_, hmark⟩ := hn
    cases hmark

/-- In every process in which nothing of a stack is left when an erase reports success, and in
which no stack was launched when the next one is built, the newest stack is the only one that
runs. -/
theorem rebuilt_alone (directory applicationSupport : String) (p : Nat → NostrPrimitives)
    (eulaAccepted : Bool) (present : Item → Bool) (es : List (Event Call Reply))
    (hretires : ∀ t ∈ trace (machine directory applicationSupport p).step
      ⟨launch eulaAccepted present, []⟩ es, Retires applicationSupport t) :
    ∀ t ∈ trace (machine directory applicationSupport p).step ⟨launch eulaAccepted present, []⟩ es,
      Alone directory p t := by
  intro t ht
  have howned : Owned t.pre :=
    trace_invariant (fun t hstep => owned_step hstep) (owned_launch eulaAccepted present) ht
  have hsole : Sole t.pre :=
    trace_invariant_of Sole (Retires applicationSupport) (fun t hstep hc h => sole_step hstep hc h)
      (sole_launch eulaAccepted present) hretires ht
  exact alone_of_sole howned hsole

/-! ### The view lets go of no stack -/

/-- The view holds the newest stack, if there is one. -/
def HoldsNewest (s : ContentView) : Prop :=
  (s.current = none ∧ s.marks = []) ∨ ∃ n, s.current = some n ∧ n + 1 = s.marks.length

theorem Moves.holdsNewest (h : s.Moves applicationSupport a reply s') (hs : HoldsNewest s) :
    HoldsNewest s' := by
  cases h with
  | stays h =>
    unfold HoldsNewest
    rw [h.current, h.marks]
    exact hs
  | succeeds _ post =>
    unfold HoldsNewest
    rw [post, marks_onboardAgain, List.length_map, List.map_eq_nil_iff]
    exact hs
  | installs _ _ marks current => exact .inr ⟨_, current, by rw [marks]; simp⟩

/-- In every process the stacks are all at rest exactly as long as there is none: the view lets go
of the newest stack only for the next. -/
theorem rests_iff (eulaAccepted : Bool) (present : Item → Bool) (es : List (Event Call Reply))
    {c : Config ContentView Action}
    (h : run (machine directory applicationSupport p).step ⟨launch eulaAccepted present, []⟩ es =
      some c) :
    (∀ n < c.shared.sessionStacks.length, Rests c n) ↔ c.shared.sessionStacks = [] := by
  have hnewest : HoldsNewest c.shared := by
    refine run_invariant (fun c => HoldsNewest c.shared) (fun _ => True) (fun t ht _ hs => ?_)
      (.inl ⟨rfl, rfl⟩) (fun _ _ => trivial) h
    rcases Machine.step_shared ht with ⟨hsame, _⟩ | ⟨a, reply, x, hexec, _⟩
    · rw [hsame]
      exact hs
    · exact (exec_moves hexec).holdsNewest hs
  constructor
  · intro hrests
    rcases hnewest with ⟨_, hnone⟩ | ⟨n, hcurrent, hlength⟩
    · exact List.map_eq_nil_iff.mp hnone
    · refine absurd hcurrent (hrests n ?_).2.2
      rw [marks, List.length_map] at hlength
      omega
  · intro hnone n hn
    rw [hnone] at hn
    cases hn

/-! ### An erase and the stack after it -/

/-- No primitive operation of a wipe fails. -/
def noFailures : Failures := ⟨fun _ => false, fun _ _ => rfl⟩

def plainMachine : Machine ContentView Action Call Reply :=
  machine "store" "support" fun _ => NostrInbound.trivialPrimitives

/-- Everything that a wipe erases is on the device, and the terms were accepted. -/
def inUse : Config ContentView Action := ⟨launch true fun _ => true, []⟩

def newLedger : ProcessedEventLedger := .new ProcessedEventLedger.defaultCapacity

/-- Call `i` begins the boot task that is the job `job`, and runs it to its end. -/
def bootStack (i job : Nat) : List (Event Call Reply) :=
  [.start (.begin job), .step i .done, .step i (.work []), .step i .done, .step i (.work []),
    .step i .done, .step i .done, .step i (.work [])]

/-- Call `i` begins a consume task, which asks for its first element. -/
def listen (i job : Nat) : List (Event Call Reply) :=
  [.start (.begin job), .step i .done, .step i .done]

/-- Call `i` erases everything, with `steps` steps to sweep. -/
def eraseAll (i steps : Nat) : List (Event Call Reply) :=
  ([.start .eraseEverything, .step i .done, .step i (.failures noFailures), .step i .done] :
    List (Event Call Reply)) ++
    (List.replicate (steps + 1) (.step i (.failures noFailures)) : List (Event Call Reply)) ++
    ([.step i .done] : List (Event Call Reply))

def onboard (i : Nat) : List (Event Call Reply) :=
  [.start .completeOnboarding, .step i (.saved .found (.built (some newLedger)))]

def receiveEnvelope (i : Nat) : List (Event Call Reply) :=
  [.start (.yield (.envelope (.new (.filled 1) [5]))), .step i .done]

/-- The identity cannot be read, the user starts over, and an envelope comes in once the stack is
there. -/
def startedOver : List (Event Call Reply) :=
  [.start .bootstrap, .step 0 (.booted .unreadable .threw)] ++ eraseAll 1 3 ++ onboard 2 ++
    bootStack 3 0 ++ listen 4 4 ++ receiveEnvelope 5

set_option maxRecDepth 8192 in
theorem startedOver_alone :
    (∃ t ∈ trace plainMachine.step inUse startedOver,
      Config.Ran t fun s a _ => s.ReportsSuccess "support" a) ∧
    (∃ t ∈ trace plainMachine.step inUse startedOver, Config.Ran t fun s a _ =>
      s.givesTo a = some 0) ∧
    ∀ t ∈ trace plainMachine.step inUse startedOver,
      Alone "store" (fun _ => NostrInbound.trivialPrimitives) t :=
  ⟨by decide, by decide,
    rebuilt_alone "store" "support" (fun _ => NostrInbound.trivialPrimitives) true (fun _ => true)
      startedOver (by decide)⟩

/-- A stack runs, everything is erased without an error, the user onboards again, and an envelope
comes in once the second stack runs. -/
def onboardedAgain : List (Event Call Reply) :=
  ([.start .bootstrap, .step 0 (.booted .found (.built (some newLedger)))] :
    List (Event Call Reply)) ++ bootStack 1 0 ++ listen 2 4 ++ eraseAll 3 14 ++ onboard 4 ++
      bootStack 5 5 ++ listen 6 9 ++ receiveEnvelope 7

set_option maxRecDepth 8192 in
/-- The consumer of the erased stack asked first, so the envelope goes to it and not to the router
of the new stack. -/
theorem envelope_to_erased :
    ∃ c', run plainMachine.step inUse onboardedAgain = some c' ∧
    c'.shared.sessionStacks.length = 2 ∧
      ¬∀ t ∈ trace plainMachine.step inUse onboardedAgain,
        Alone "store" (fun _ => NostrInbound.trivialPrimitives) t := by
  refine ⟨_, rfl, by decide, fun hall => ?_⟩
  have hlast := hall _ (List.mem_of_getLast? rfl)
  exact absurd (hlast.newest 0 ⟨_, _, rfl, rfl⟩) (by decide)

end Runs

end ContentView

end AeroNyra
