import CertSteward.Authority.Development
import CertSteward.Authority.Order
import CertSteward.Authority.Remote

/-!
# Authorities

An authority issues certificates for tests, answers by a script, or is asked over the network. For
each kind of request a script holds a queue of answers. Each answer is given once and the last again
and again; without answers a request simply succeeds.

## Main definitions

* `ScriptAnswer`, `AuthorityScript`, `AuthorityScript.answer`
* `Authority`
* `Authority.answer` — what an authority answers, and the time it takes
-/

namespace CertSteward

/-! ### Scripts -/

/-- An answer in a script. What it does not hold is taken as a success. -/
structure ScriptAnswer where
  /-- The time that passes before it is given. -/
  delay : Duration := 0
  error : Option IssuanceError := none
  authorizations : Option (List Authorization) := none
  state : OrderState := { status := .valid, error := none }
  certificate : Option String := none

/-- An authority that answers by a script: the queues by the names of the requests. -/
structure AuthorityScript where
  queues : List (String × List ScriptAnswer) := []
  /-- The requests so far, in short. -/
  calls : List String := []

namespace AuthorityScript

/-- What is logged of a request. -/
def summary : AuthorityRequest → String
  | .newOrder identifiers => "new_order " ++ Text.join "," identifiers
  | .challengeReady _ url => "challenge_ready " ++ url
  | .revoke der reason => "revoke " ++ toString der.length ++ " bytes " ++ reason.text
  | r => r.operation

/-- A queue without its next answer, which stays if it is the last. -/
def next : List ScriptAnswer → ScriptAnswer × List ScriptAnswer
  | [] => ({}, [])
  | [a] => (a, [a])
  | a :: b :: rest => (a, b :: rest)

/-- What an answer means for a request. -/
def value (a : ScriptAnswer) : (r : AuthorityRequest) → r.Value
  | .newOrder identifiers => { id := "order", identifiers }
  | .authorizations o => a.authorizations.getD (o.identifiers.map fun identifier =>
      { identifier, status := .valid, challenge := none, error := none })
  | .orderState _ => a.state
  | .certificate _ => a.certificate
  | .ensureAccount | .challengeReady .. | .finalize .. | .revoke .. | .release _ => ()

/-- The next answer to a request, and the time it takes. -/
def answer (s : AuthorityScript) (r : AuthorityRequest) :
    (r.Reply × Duration) × AuthorityScript :=
  let s := { s with calls := s.calls ++ [summary r] }
  let (a, rest) := next ((s.queues.lookup r.operation).getD [])
  let queues := s.queues.map fun (name, q) => if name = r.operation then (name, rest) else (name, q)
  ((match a.error with
    | some e => .error e
    | none => .ok (value a r), a.delay), { s with queues })

end AuthorityScript

/-! ### Authorities -/

/-- Whoever issues certificates. -/
inductive Authority
  | development (a : DevelopmentAuthority)
  | script (s : AuthorityScript)
  | remote (a : RemoteAuthority)

namespace Authority

/-- What the authority is called. -/
def name : Authority → String
  | development _ => "development"
  | script _ => "script"
  | remote _ => "acme"

/-- What an authority answers at that time, and the time it takes. -/
def answer (client : AuthorityClient) (now : Instant) (r : AuthorityRequest) (store : RecordStore) :
    Authority → (r.Reply × Duration) × Authority × RecordStore
  | development a =>
    let (reply, a) := a.answer now r
    ((reply, 0), development a, store)
  | script s =>
    let (reply, s) := s.answer r
    (reply, script s, store)
  | remote a =>
    let (reply, a, store) := a.answer client store r
    ((reply, 0), remote a, store)

end Authority

end CertSteward
