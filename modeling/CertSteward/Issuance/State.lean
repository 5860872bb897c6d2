/-!
# The states of an issuance

An issuance passes through eight states in a fixed order, each reached by one event; it can fail
from every state but the last.

## Main definitions

* `IssuanceState`, `IssuanceEvent`, `IssuanceState.next?` — the states and how events move them
* `IssuanceMachine` — the current state and all states visited
-/

namespace CertSteward

/-- Where an issuance stands. -/
inductive IssuanceState
  | start
  | accountReady
  | orderCreated
  | authorizationsPending
  | challengesProvisioned
  | challengesValidating
  | finalizing
  | certificateReady
  | failed
deriving DecidableEq, Repr, Inhabited

/-- What moves an issuance. -/
inductive IssuanceEvent
  | accountEnsured
  | orderPlaced
  | authorizationsFetched
  | challengesProvisioned
  | challengesSubmitted
  | authorizationsValid
  | certificateDownloaded
  | fail
deriving DecidableEq, Repr, Inhabited

namespace IssuanceState

/-- All of them. -/
def all : List IssuanceState :=
  [start, accountReady, orderCreated, authorizationsPending, challengesProvisioned,
    challengesValidating, finalizing, certificateReady, failed]

/-- The written form. -/
def text : IssuanceState → String
  | start => "START"
  | accountReady => "ACCOUNT_READY"
  | orderCreated => "ORDER_CREATED"
  | authorizationsPending => "AUTHORIZATIONS_PENDING"
  | challengesProvisioned => "CHALLENGES_PROVISIONED"
  | challengesValidating => "CHALLENGES_VALIDATING"
  | finalizing => "FINALIZING"
  | certificateReady => "CERTIFICATE_READY"
  | failed => "FAILED"

/-- Reads the written form. -/
def ofText? (s : String) : Option IssuanceState := all.find? (·.text == s)

/-- Whether nothing moves the issuance any more. -/
def isTerminal : IssuanceState → Bool
  | certificateReady | failed => true
  | _ => false

end IssuanceState

namespace IssuanceEvent

/-- All of them. -/
def all : List IssuanceEvent :=
  [accountEnsured, orderPlaced, authorizationsFetched, challengesProvisioned, challengesSubmitted,
    authorizationsValid, certificateDownloaded, fail]

/-- The written form. -/
def text : IssuanceEvent → String
  | accountEnsured => "AccountEnsured"
  | orderPlaced => "OrderPlaced"
  | authorizationsFetched => "AuthorizationsFetched"
  | challengesProvisioned => "ChallengesProvisioned"
  | challengesSubmitted => "ChallengesSubmitted"
  | authorizationsValid => "AuthorizationsValid"
  | certificateDownloaded => "CertificateDownloaded"
  | fail => "Fail"

/-- Reads the written form. -/
def ofText? (s : String) : Option IssuanceEvent := all.find? (·.text == s)

end IssuanceEvent

/-- The state that an event leads to, if it is one for this state. -/
def IssuanceState.next? : IssuanceState → IssuanceEvent → Option IssuanceState
  | .start, .accountEnsured => some .accountReady
  | .accountReady, .orderPlaced => some .orderCreated
  | .orderCreated, .authorizationsFetched => some .authorizationsPending
  | .authorizationsPending, .challengesProvisioned => some .challengesProvisioned
  | .challengesProvisioned, .challengesSubmitted => some .challengesValidating
  | .challengesValidating, .authorizationsValid => some .finalizing
  | .finalizing, .certificateDownloaded => some .certificateReady
  | s, .fail => if s.isTerminal then none else some .failed
  | _, _ => none

/-- An event that came in a state it does not belong to. -/
structure Misplaced where
  /-- The state. -/
  state : IssuanceState
  /-- The event. -/
  event : IssuanceEvent
deriving DecidableEq, Repr

/-- The wording of the fault. -/
def Misplaced.message (m : Misplaced) : String :=
  "event " ++ m.event.text ++ " is not valid in state " ++ m.state.text

/-- The current state and, oldest first, the states visited before it. -/
structure IssuanceMachine where
  /-- The current state. -/
  state : IssuanceState := .start
  /-- The states before it. -/
  earlier : List IssuanceState := []
deriving DecidableEq, Repr

namespace IssuanceMachine

/-- All states visited, the current one last. -/
def visited (m : IssuanceMachine) : List IssuanceState := m.earlier ++ [m.state]

/-- Whether a state was visited. -/
def reached (m : IssuanceMachine) (s : IssuanceState) : Bool := m.visited.contains s

/-- Enters a state. -/
def enter (m : IssuanceMachine) (s : IssuanceState) : IssuanceMachine :=
  { state := s, earlier := m.visited }

/-- Takes an event. -/
def apply (m : IssuanceMachine) (e : IssuanceEvent) : Except Misplaced IssuanceMachine :=
  match m.state.next? e with
  | some s => .ok (m.enter s)
  | none => .error { state := m.state, event := e }

/-- Fails, unless it is over already. -/
def fail (m : IssuanceMachine) : IssuanceMachine :=
  if m.state.isTerminal then m else m.enter .failed

end IssuanceMachine

end CertSteward
