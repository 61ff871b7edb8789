import AeroNyra.Lib.Interleave
import AeroNyra.Lib.Stream
import AeroNyra.Transport.GiftWraps
import AeroNyra.Wipe.EmergencyWipe
import Mathlib.Logic.Function.Basic

/-! The composition root over a whole process: it builds session stacks, erases them and builds
others. What a stack has set going is a job or a call of the process with the number of the stack:
the consume tasks of its router, the sockets of its relays, a scheduled save, a call that is under
way.  Nothing calls `stop`, neither that of the router nor that of a transport. -/

namespace AeroNyra

open Interleave

/-- The streams of the transports: those of the one Bluetooth transport, which the view holds, and
that of the internet transport of each stack. -/
inductive Stream
  | bluetooth
  | audioFrames
  | internet (stack : Nat)
  deriving DecidableEq

inductive Yielded
  | envelope (envelope : Envelope)
  | audioFrame (bytes : Data)

/-- What is created and begins later: a task, the read loop of a socket, a block that a queue
runs. -/
inductive Job
  /-- The task at the end of `makeSessionStack`. -/
  | boot
  | consume (stream : Stream)
  | relay (url : String)
  | saveLedger
  | persistLedger (snapshot : ProcessedEventLedger)

namespace NostrInbound

/-- The event gets as far as `unwrap`, which our secret key opens. -/
def Opens (p : NostrPrimitives) (s : NostrInbound) (event : NostrEvent) : Prop :=
  event.kind = NostrGiftWrap.wrapKind ∧ ¬s.processedLedger.contains event.id ∧
    event.id ∉ s.failedWrapsThisSession ∧ event.isValid p

instance (p : NostrPrimitives) (s : NostrInbound) (event : NostrEvent) :
    Decidable (s.Opens p event) :=
  inferInstanceAs (Decidable (_ ∧ _ ∧ _ ∧ _))

end NostrInbound

/-- The internet transport of a stack, with its hook that saves the ledger. -/
structure NostrTransport where
  relayURLs : List String
  inbound : NostrInbound
  started : Bool
  ledgerDirty : Bool
  ledgerSaveScheduled : Bool

namespace NostrTransport

variable (t : NostrTransport)

def start : NostrTransport × List Job :=
  if t.started then (t, []) else ({ t with started := true }, t.relayURLs.map .relay)

def scheduleLedgerSave : NostrTransport × List Job :=
  if t.ledgerSaveScheduled then ({ t with ledgerDirty := true }, [])
  else ({ t with ledgerDirty := true, ledgerSaveScheduled := true }, [.saveLedger])

/-- The block that `scheduleLedgerSave` schedules. -/
def saveLedger : NostrTransport × List Job :=
  if t.ledgerDirty then
    ({ t with ledgerSaveScheduled := false, ledgerDirty := false },
      [.persistLedger t.inbound.processedLedger])
  else ({ t with ledgerSaveScheduled := false }, [])

/-- The envelopes are those that the event yields. -/
def handleInboundEvent (p : NostrPrimitives) (event : NostrEvent) :
    NostrTransport × List Job × List Envelope :=
  let inbound := t.inbound.handleInboundEvent p event
  match inbound.yielded.drop t.inbound.yielded.length with
  | [] => ({ t with inbound }, [], [])
  | yielded =>
    let q := { t with inbound }.scheduleLedgerSave
    (q.1, q.2, yielded.map (·.2))

end NostrTransport

namespace ContentView

inductive BootFailure
  | identityUnreadable
  | stackFailed
  deriving DecidableEq

inductive BootRoute
  | onboarding
  | bootFailed (failure : BootFailure)
  | ready
  deriving DecidableEq

inductive Phase
  | launching
  /-- The terms of use are to be accepted before the route is taken. -/
  | eula (route : BootRoute)
  | onboarding
  | bootFailed (failure : BootFailure)
  | ready
  | wiping
  deriving DecidableEq

/-- A session stack, from the moment that the view holds its parts. -/
structure Stack where
  /-- Its boot task was created. -/
  launched : Bool
  /-- Its coordinator drives the live audio. -/
  audioDrive : Bool
  nostrTransport : Option NostrTransport
  /-- An erase has reported success since. -/
  erased : Bool

end ContentView

open ContentView in
/-- The composition root. -/
structure ContentView where
  phase : Phase
  eulaAccepted : Bool
  storage : Storage
  streams : Stream → AsyncStream Yielded Nat
  /-- Every stack of the process that the view came to hold, the newest last. -/
  sessionStacks : List Stack
  /-- The stack whose parts the view holds. -/
  current : Option Nat
  emergencyWipe : Option EmergencyWipe
  jobs : List (Nat × Job)

namespace ContentView

def identityService : String := "com.aeronyra.identity.v1"

def enclaveService : String := "com.aeronyra.enclave.v1"

def sessionKeyService : String := "com.aeronyra.sessionkey.v1"

def nostrIdentityService : String := "com.aeronyra.nostr.v1"

def nostrRelayURLs : List String :=
  ["wss://relay.primal.net", "wss://nos.lol", "wss://relay.damus.io"]

variable (directory applicationSupport : String) (p : Nat → NostrPrimitives) (s : ContentView)

/-! ### Calls -/

/-- What a call into a stack does that can outlive the stack. -/
inductive Work
  /-- It seals, opens or signs under the keys of the identity. -/
  | useKeys
  | save (file : FileURL)
  deriving DecidableEq

/-- The rest of `eraseEverything`. -/
inductive Erase
  /-- The wiping surface is put up, and has appeared. -/
  | tearDown
  | deleteIdentity
  | performEmergencyWipe
  | sweep (steps : List EmergencyWipe.Step) (errors : List Item)
  | verify (errors : List Item)

inductive Action
  | bootstrap
  | acceptEULA
  | completeOnboarding
  | erase (a : Erase)
  /-- A loop of the view calls the coordinator that the view holds. -/
  | callCoordinator
  /-- The ready view calls a part of the stack. -/
  | callStack
  | yield (element : Yielded)
  | begin (job : Nat)
  /-- The coordinator of a stack is released. -/
  | release (stack : Nat)
  | call (stack : Nat)
  | work (stack : Nat) (w : Work)
  | startPTTAudioDrive (stack : Nat)
  /-- `MessageRouter.start` up to its consume tasks. -/
  | startTransports (stack : Nat)
  | consumeIncoming (stack : Nat)
  | next (stack : Nat) (stream : Stream)
  | resumed (stack : Nat) (stream : Stream)
  /-- A consumer hands what it was given to its router or its coordinator, which it holds weakly. -/
  | handle (stack : Nat) (element : Yielded)
  | receiveNext (stack : Nat) (url : String)
  | saveLedger (stack : Nat)
  | persistLedger (stack : Nat) (snapshot : ProcessedEventLedger)

inductive Call
  | bootstrap
  | acceptEULA
  | completeOnboarding
  | eraseEverything
  | callCoordinator
  | callStack
  | yield (element : Yielded)
  | begin (job : Nat)
  | release (stack : Nat)

inductive Load
  | found
  | notFound
  | unreadable
  deriving DecidableEq

/-- What building the container and the stack comes to: the view keeps no part of it, or all of it
but the emergency wipe, or all of it.  There is an internet transport if our Nostr identity exists,
with the ledger that was read. -/
inductive Build
  | threw
  | unassembled (ledger : Option ProcessedEventLedger)
  | built (ledger : Option ProcessedEventLedger)

/-- The view keeps the parts of the stack. -/
def Build.installs : Build → Bool
  | .threw => false
  | .unassembled _ | .built _ => true

inductive Reply
  | done
  | booted (load : Load) (build : Build)
  /-- Saving the identity, and the boot that follows. -/
  | saved (load : Load) (build : Build)
  | failures (f : Failures)
  | work (work : List Work)
  /-- The part of the stack that is held weakly is gone. -/
  | gone
  | event (event : NostrEvent)
  /-- Any other frame of a relay. -/
  | frame
  /-- The socket failed, or the relay closed the subscription for now. -/
  | disconnected
  | persisted (saved : Bool)

/-! ### The stacks -/

def nostr (stack : Nat) : Option NostrTransport := s.sessionStacks[stack]?.bind (·.nostrTransport)

/-- The stack with a field changed, and jobs of it created. -/
def update (stack : Nat) (f : Stack → Stack) (jobs : List Job) : ContentView :=
  { s with sessionStacks := s.sessionStacks.modify stack f, jobs := s.jobs ++ jobs.map fun job =>
    (stack, job) }

def setNostr (stack : Nat) (t : NostrTransport) (jobs : List Job) : ContentView :=
  s.update stack (fun stack => { stack with nostrTransport := some t }) jobs

def setStream (stream : Stream) (q : AsyncStream Yielded Nat) : ContentView :=
  { s with streams := Function.update s.streams stream q }

/-- `makeSessionStack` from the moment that the view holds its parts.  If the wipe cannot be
assembled, it throws before its boot task is created. -/
def install (ledger : Option ProcessedEventLedger) (assembled : Bool) : ContentView :=
  let nostrTransport := ledger.map fun ledger =>
    (⟨nostrRelayURLs, .launch ledger, false, false, false⟩ : NostrTransport)
  { s with
    sessionStacks := s.sessionStacks ++ [⟨assembled, false, nostrTransport, false⟩]
    current := some s.sessionStacks.length
    emergencyWipe :=
      if assembled then some (EmergencyWipe.assembled directory applicationSupport)
        else s.emergencyWipe
    jobs := s.jobs ++ if assembled then [(s.sessionStacks.length, .boot)] else [] }

/-! ### Booting -/

def enter : BootRoute → ContentView
  | .onboarding => { s with phase := .onboarding }
  | .bootFailed failure => { s with phase := .bootFailed failure }
  | .ready => { s with phase := .ready }

/-- The terms are to be accepted first, but for the door of a failed boot. -/
def route (r : BootRoute) : ContentView :=
  match r with
  | .bootFailed _ => s.enter r
  | .onboarding | .ready => if s.eulaAccepted then s.enter r else { s with phase := .eula r }

def identityExists : Bool := s.storage.present (.identity identityService)

/-- An identity is found, or cannot be read, only where there is one. -/
def Loads (load : Load) : Prop := load = .notFound ↔ s.identityExists = false

instance (load : Load) : Decidable (s.Loads load) := inferInstanceAs (Decidable (_ ↔ _))

def bootstrap : Load → Build → ContentView
  | .notFound, _ => s.route .onboarding
  | .unreadable, _ => s.route (.bootFailed .identityUnreadable)
  | .found, .threw => s.route (.bootFailed .stackFailed)
  | .found, .unassembled ledger =>
    (s.install directory applicationSupport ledger false).route (.bootFailed .stackFailed)
  | .found, .built ledger => (s.install directory applicationSupport ledger true).route .ready

def saveIdentity : ContentView :=
  { s with storage := { s.storage with
      present := fun i => s.storage.present i || i == .identity identityService } }

/-! ### Erasing -/

/-- The sweep of the door, after the steps of the assembled wipe. -/
def doorSweep : List EmergencyWipe.Step :=
  [.additional (.swiftDataStore applicationSupport), .additional (.sessionKey sessionKeyService),
    .additional (.nostrIdentity nostrIdentityService)]

def storeGone : Bool :=
  SwiftDataStoreWipe.storeFileNames.all fun name =>
    !s.storage.present (.file ⟨applicationSupport, name⟩)

/-- The erase reports success. -/
def onboardAgain : ContentView :=
  { s with phase := .onboarding, sessionStacks := s.sessionStacks.map fun stack =>
    { stack with erased := true } }

def erase : Erase → Reply → Option (ContentView × Exit Action)
  | .tearDown, .done =>
    match s.phase with
    | .ready | .bootFailed _ | .wiping =>
      some ({ s with phase := .wiping }, .goOn [.erase .deleteIdentity])
    | .launching | .eula _ | .onboarding => none
  | .deleteIdentity, .failures f =>
    match s.storage.erase f (.identity identityService) with
    | (_, some _) => some ({ s with phase := .bootFailed .identityUnreadable }, .goOn [])
    | (storage, none) => some ({ s with storage }, .goOn [.erase .performEmergencyWipe])
  | .performEmergencyWipe, .done =>
    let steps := (s.emergencyWipe.map EmergencyWipe.steps).getD []
    some (s, .goOn [.erase (.sweep (steps ++ doorSweep applicationSupport) [])])
  | .sweep (step :: steps) errors, .failures f =>
    let q := step.run f s.storage
    some ({ s with storage := q.1 }, .goOn [.erase (.sweep steps (errors ++ q.2.toList))])
  | .sweep [] errors, .failures f =>
    some ({ s with storage := (s.storage.erase f (.enclaveKey enclaveService)).1 },
      .goOn [.erase (.verify errors)])
  | .verify errors, .done =>
    if errors = [] ∧ s.storeGone applicationSupport then some (s.onboardAgain, .goOn [])
    else some ({ s with phase := .bootFailed .identityUnreadable }, .goOn [])
  | _, _ => none

/-! ### Jobs and calls of a stack -/

/-- What a job does.  The calls of the boot task around the four that stand for themselves wire the
parts of the stack together, warm its sessions and report who is in reach. -/
def program (stack : Nat) : Job → List Action
  | .boot =>
    [.call stack, .startPTTAudioDrive stack, .call stack, .startTransports stack,
      .consumeIncoming stack, .call stack]
  | .consume stream => [.next stack stream]
  | .relay url => [.receiveNext stack url]
  | .saveLedger => [.saveLedger stack]
  | .persistLedger snapshot => [.persistLedger stack snapshot]

/-- A consumer that has asked for an element. -/
def consumer (stack : Nat) (stream : Stream) : AsyncStream.Answer Yielded → List Action
  | .element element => [.handle stack element, .next stack stream]
  | .wait => [.resumed stack stream]
  | .finished => []

def ledgerFile : FileURL :=
  (ProcessedEventLedgerStore directory ProcessedEventLedgerStore.defaultKeychainService).fileURL

def write (file : FileURL) : ContentView :=
  { s with storage :=
      { s.storage with present := fun i => s.storage.present i || i == .file file } }

/-- The stream of Bluetooth that yields the element. -/
def yieldedOn : Yielded → Stream
  | .envelope _ => .bluetooth
  | .audioFrame _ => .audioFrames

/-- What the read loop of a socket does with an event. -/
def handleInboundEvent (stack : Nat) (t : NostrTransport) (event : NostrEvent) : ContentView :=
  let q := t.handleInboundEvent (p stack) event
  let stream := q.2.2.foldl (fun stream envelope => stream.yield (.envelope envelope))
    (s.streams (.internet stack))
  (s.setStream (.internet stack) stream).setNostr stack q.1 q.2.1

/-- The loop goes on as long as the transport is started; a socket that was lost is built again. -/
def readLoop (stack : Nat) (url : String) (t : NostrTransport) : Exit Action :=
  .goOn (if t.started then [.receiveNext stack url] else [])

def exec : Action → Reply → Option (ContentView × Exit Action)
  | .bootstrap, .booted load build =>
    match s.phase with
    | .launching | .bootFailed _ =>
      if s.Loads load then some (s.bootstrap directory applicationSupport load build, .goOn [])
        else none
    | _ => none
  | .acceptEULA, .done =>
    match s.phase with
    | .eula route => some ({ s with eulaAccepted := true }.enter route, .goOn [])
    | _ => none
  | .completeOnboarding, .saved load build =>
    if s.phase = .onboarding then
      if s.identityExists then some ({ s with phase := .bootFailed .identityUnreadable }, .goOn [])
      else if s.saveIdentity.Loads load then
        some (s.saveIdentity.bootstrap directory applicationSupport load build, .goOn [])
      else none
    else none
  | .completeOnboarding, .done => some (s, .goOn [])
  | .erase a, reply => s.erase applicationSupport a reply
  | .callCoordinator, .done => some (s, .goOn (s.current.toList.map .call))
  | .callStack, .done =>
    if s.phase = .ready then some (s, .goOn (s.current.toList.map .call)) else none
  | .yield element, .done =>
    some (s.setStream (yieldedOn element) ((s.streams (yieldedOn element)).yield element), .goOn [])
  | .begin job, .done => s.jobs[job]?.map fun q =>
    ({ s with jobs := s.jobs.eraseIdx job }, .goOn (program q.1 q.2))
  | .release stack, .done =>
    if s.current ≠ some stack ∧ s.sessionStacks[stack]?.any (·.audioDrive) then
      some (s.setStream .audioFrames (s.streams .audioFrames).finish, .goOn [])
    else none
  | .call stack, .work work => some (s, .goOn (work.map (.work stack)))
  | .work _ .useKeys, .done => some (s, .goOn [])
  | .work _ (.save file), .done => some (s.write file, .goOn [])
  | .startPTTAudioDrive stack, .done =>
    if s.sessionStacks[stack]?.any (·.audioDrive) then some (s, .goOn [])
    else some (s.update stack (fun stack => { stack with audioDrive := true })
      [.consume .audioFrames], .goOn [])
  | .startTransports stack, .done =>
    match s.nostr stack with
    | some t => some (s.setNostr stack t.start.1 t.start.2, .goOn [])
    | none => some (s, .goOn [])
  | .consumeIncoming stack, .done =>
    let internet := if (s.nostr stack).isSome then [.consume (.internet stack)] else []
    some (s.update stack id (.consume .bluetooth :: internet), .goOn [])
  | .next stack stream, .done =>
    let q := (s.streams stream).next stack
    some (s.setStream stream q.1, .goOn (consumer stack stream q.2))
  | .resumed stack stream, .done =>
    let q := (s.streams stream).resume stack
    match q.2 with
    | .wait => none
    | answer => some (s.setStream stream q.1, .goOn (consumer stack stream answer))
  | .handle stack _, .work work => some (s, .goOn (work.map (.work stack)))
  | .handle stack _, .gone => if s.current ≠ some stack then some (s, .goOn []) else none
  | .receiveNext stack url, .event event => (s.nostr stack).map fun t =>
    (s.handleInboundEvent p stack t event, readLoop stack url t)
  | .receiveNext stack url, .frame => (s.nostr stack).map fun t => (s, readLoop stack url t)
  | .receiveNext stack url, .disconnected => (s.nostr stack).map fun t => (s, readLoop stack url t)
  | .saveLedger stack, .done => (s.nostr stack).map fun t =>
    (s.setNostr stack t.saveLedger.1 t.saveLedger.2, .goOn [])
  | .persistLedger _ _, .persisted saved =>
    some (if saved then s.write (ledgerFile directory) else s, .goOn [])
  | _, _ => none

def machine : Machine ContentView Action Call Reply where
  thread
    | .bootstrap => ⟨[.bootstrap], []⟩
    | .acceptEULA => ⟨[.acceptEULA], []⟩
    | .completeOnboarding => ⟨[.completeOnboarding], []⟩
    | .eraseEverything => ⟨[.erase .tearDown], []⟩
    | .callCoordinator => ⟨[.callCoordinator], []⟩
    | .callStack => ⟨[.callStack], []⟩
    | .yield element => ⟨[.yield element], []⟩
    | .begin job => ⟨[.begin job], []⟩
    | .release stack => ⟨[.release stack], []⟩
  exec := exec directory applicationSupport p

abbrev Step := Transition (Config ContentView Action) (Event Call Reply)

/-- The process as it starts. -/
def launch (eulaAccepted : Bool) (present : Item → Bool) : ContentView where
  phase := .launching
  eulaAccepted := eulaAccepted
  storage := ⟨present, []⟩
  streams _ := .empty
  sessionStacks := []
  current := none
  emergencyWipe := none
  jobs := []

end ContentView

end AeroNyra
