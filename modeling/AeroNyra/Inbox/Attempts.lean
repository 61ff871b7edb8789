import AeroNyra.Coordinator.Tracking
import AeroNyra.Inbox.Delivery

/-! The calls that deliver rows, by the attempt each of them makes.  A call in progress has one of a
few shapes, and its next action says what it is about: which attempt it makes, whether it is about
to read the router back, and whether the router is in the middle of a tracked send for it. -/

namespace AeroNyra

namespace MessageRouter

/-- The tracked send that a segment resumes. -/
def Segment.resumes : Segment → Option MessageID
  | .bleReplied envelope true _ | .nostrReplied envelope _ true => some envelope.id
  | _ => none

def Outcome.resumes : Outcome → Option MessageID
  | .suspend next => next.resumes
  | .returned _ | .rerouted _ | .finished => none

/-- A segment that begins to track no other message than `id`. -/
def Segment.For (id : Option MessageID) : Segment → Prop
  | .call (.send envelope tracked _ _) => tracked = true → id = some envelope.id
  | .call (.beginTracking j) => id = some j
  | .call (.resend _) => False
  | .bleReplied envelope tracked _ | .nostrReplied envelope _ tracked =>
    tracked = true → id = some envelope.id
  | _ => True

variable {r : MessageRouter} {a : Segment} {reply : Reply} {id : Option MessageID} {j : MessageID}
  {p : MessageRouter × Outcome}

theorem for_of_resumes (h : a.For id) (hj : a.resumes = some j) : id = some j := by
  unfold Segment.resumes at hj
  split at hj
  · rw [← hj]
    exact h rfl
  · rw [← hj]
    exact h rfl
  · cases hj

theorem for_of_sends {envelope : Envelope} (h : a.For id) (hsend : a.sends r = some envelope) :
    id = some envelope.id := by
  unfold Segment.sends at hsend
  split at hsend
  · rw [← Option.some.inj hsend]
    exact h rfl
  · exact h.elim
  · cases hsend

/-- A segment opens the entry of its own message only. -/
theorem opens_of_for (h : a.For id) (hj : id ≠ some j) : a.opens r j = r.stateOf j := by
  unfold Segment.opens
  split
  · rename_i envelope hsend
    have hne : j ≠ envelope.id := fun e => hj (e ▸ for_of_sends h hsend)
    exact if_neg hne
  · split
    · have hne : j ≠ _ := fun e => hj (e ▸ h)
      exact if_neg hne
    · rfl

/-- A segment that suspends is resumed by one for the same message. -/
theorem for_of_resumption {next : Segment} (h : Resumes r a next) (hfor : a.For id) :
    next.For id := by
  cases h with
  | send | fallBack => exact hfor
  | resend => exact hfor.elim
  | publish | reroute | timer => trivial

theorem resumes_of_exec (h : r.exec a reply = some p) (hfor : a.For id)
    (hj : p.2.resumes = some j) : a.resumes = some j ∨ Segment.StartsSend j r a reply := by
  cases hout : p.2 with
  | returned state => cases (congrArg Outcome.resumes hout).symm.trans hj
  | rerouted count => cases (congrArg Outcome.resumes hout).symm.trans hj
  | finished => cases (congrArg Outcome.resumes hout).symm.trans hj
  | suspend next =>
    have hnext : next.resumes = some j := (congrArg Outcome.resumes hout).symm.trans hj
    cases exec_resumes h hout with
    | send envelope tracked peerKey nostrRecipient =>
      cases tracked with
      | true => exact .inr ⟨envelope, rfl, Option.some.inj hnext⟩
      | false => cases hnext
    | resend => exact hfor.elim
    | fallBack envelope tracked recipient =>
      cases tracked with
      | true => exact .inl hnext
      | false => cases hnext
    | publish | reroute | timer => cases hnext

/-- A tracked send records a state or suspends once more. -/
theorem records_of_resumes (h : r.exec a reply = some p) (hj : a.resumes = some j) :
    p.2.resumes = some j ∨ ∃ u, a.records r reply = some ⟨j, u⟩ := by
  unfold Segment.resumes at hj
  split at hj
  · rename_i envelope nostrRecipient
    obtain rfl := Option.some.inj hj
    cases reply with
    | ok => exact .inr ⟨_, rfl⟩
    | failed => exact .inr ⟨_, rfl⟩
    | order ids => cases h
    | noReachablePeers =>
      cases hpublish : r.canPublish nostrRecipient with
      | false => exact .inr ⟨.waitingForRange, by simp [Segment.records, Segment.sends, hpublish]⟩
      | true =>
        cases h
        cases nostrRecipient with
        | none => cases hpublish
        | some recipient =>
          have haddressed : r.hasAddressedTransport = true := hpublish
          exact .inl (by simp [fallBackToNostr, haddressed, Outcome.resumes, Segment.resumes])
  · obtain rfl := Option.some.inj hj
    obtain ⟨resulting, hresult, _⟩ := Option.map_eq_some_iff.mp h
    exact .inr ⟨resulting, by simp [Segment.records, Segment.sends, hresult]⟩
  · cases hj

theorem records_of_startsSend (h : r.exec a reply = some p) (hfor : a.For id)
    (hj : Segment.StartsSend j r a reply) :
    p.2.resumes = some j ∨ a.records r reply = some ⟨j, .notDelivered⟩ := by
  obtain ⟨envelope, hsend, rfl⟩ := hj
  cases hble : r.hasTransport .ble with
  | false => exact .inr (by simp [Segment.records_of_sends reply hsend, hble])
  | true =>
    unfold Segment.sends at hsend
    split at hsend
    · cases hsend
      cases h
      have hsuspend (r' : MessageRouter) (nostrRecipient : Option Data)
          (hr' : r'.hasTransport .ble = true) :
          (if r'.hasTransport .ble then (r', .suspend (.bleReplied envelope true nostrRecipient))
            else r'.finishSend envelope.id true .notDelivered).2.resumes = some envelope.id := by
        rw [if_pos hr']
        rfl
      exact .inl (hsuspend _ _ hble)
    · exact hfor.elim
    · cases hsend

end MessageRouter

namespace Outbound

open Interleave

/-- An action for no other message than `id`. -/
def Action.For (id : MessageID) : Action → Prop
  | .commit m => m.id = id
  | .router a => a.For none
  | .carry _ a => a.For (some id)
  | .beginTracking j => j = id
  | .lookup | .seal _ | .strand _ | .finish _ _ => True

/-- The tracked send that an action resumes. -/
def Action.resumes : Action → Option MessageID
  | .carry _ a => a.resumes
  | _ => none

variable {r r' : MessageRouter} {a : Action} {reply : Reply} {x : Exit Action} {id : MessageID}

end Outbound

namespace MessageInbox

open Interleave

/-! ### The shapes of a call -/

/-- The attempt that an action belongs to. -/
def Action.attempt? : Action → Option Attempt
  | .outbound attempt _ | .stamp attempt | .query attempt | .settle attempt _ | .fail attempt =>
    some attempt
  | .begin _ | .apply | .router _ => none

/-- The attempt that a call makes. -/
def attemptOf (t : Thread Action) : Option Attempt := t.todo.head?.bind (·.attempt?)

/-- The attempt that a call is about to read the router back for. -/
def readingOf (t : Thread Action) : Option Attempt :=
  t.todo.head?.bind fun
    | .query attempt | .settle attempt _ => some attempt
    | _ => none

/-- The tracked send that a call is in the middle of. -/
def openingOf (t : Thread Action) : Option MessageID :=
  t.todo.head?.bind fun
    | .outbound _ a => a.resumes
    | _ => none

/-- What a call in progress looks like. -/
inductive Shape : Thread Action → Prop
  | done : Shape ⟨[], []⟩
  | begin (op : Operation) : Shape ⟨[.begin op], []⟩
  | apply : Shape ⟨[.apply], []⟩
  | router (a : MessageRouter.Segment) (h : a.For none) : Shape ⟨[.router a], []⟩
  | flying (attempt : Attempt) (a : Outbound.Action) (rest : List Outbound.Action)
    (ha : a.For attempt.id) (hrest : ∀ b ∈ rest, b.For attempt.id ∧ b.resumes = none) :
    Shape ⟨.outbound attempt a ::
      ((rest.map (.outbound attempt) : List Action) ++ ([.stamp attempt] : List Action)), []⟩
  | stamp (attempt : Attempt) : Shape ⟨[.stamp attempt], []⟩
  | query (attempt : Attempt) : Shape ⟨[.query attempt], []⟩
  | settle (attempt : Attempt) (committed : Option MessageDeliveryState) :
    Shape ⟨[.settle attempt committed], []⟩
  /-- A transfer that failed is reported to the router before the row is. -/
  | failing (attempt : Attempt) (a : MessageRouter.Segment) (h : a.For none) :
    Shape ⟨[.outbound attempt (.router a), .fail attempt], []⟩
  | fail (attempt : Attempt) : Shape ⟨[.fail attempt], []⟩

/-- A call goes on with its attempt. -/
structure GoesOn (attempt : Attempt) (opening : Option MessageID) (t : Thread Action) : Prop where
  shape : Shape t
  attemptOf : attemptOf t = some attempt
  readingOf : readingOf t = none
  openingOf : openingOf t = opening

variable {attempt : Attempt}

end MessageInbox

end AeroNyra
