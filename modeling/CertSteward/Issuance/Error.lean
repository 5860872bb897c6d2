import CertSteward.Dns.Error
import CertSteward.Issuance.State
import CertSteward.Material.Error
import CertSteward.Record.Record
import CertSteward.Time.Instant

/-!
# Faults of an issuance

Faults are sorted twice. A fault is *retryable* if the same call may succeed in a moment. It is
*permanent* if the authority or the input rules the certificate out, and *transient* if a later
issuance may succeed; an issuance that was cancelled or never begun is neither.

## Main definitions

* `IssuanceError` — the causes and their wording
* `IssuanceError.chain` — the wordings from a fault down to its cause
* `IssuanceError.root` — the cause behind nested failures
* `isPermanent`, `isTransient`, `isRetryable` — the sorts
-/

namespace CertSteward

/-- Why an issuance or one of its steps failed. -/
inductive IssuanceError
  | invalidInput (detail : String)
  | transient (operation : String) (detail : String)
  | timeout (operation : String) (elapsed : Duration)
  | authorizationRejected (domain : String) (reason : String)
  | rejected (operation : String) (detail : String)
  | noDnsChallenge (domain : String)
  | unknownOrder (id : String)
  | alreadyInFlight (domain : String)
  | cancelled
  | failed (domain : String) (stage : IssuanceState) (cause : IssuanceError)
  | material (e : MaterialError)
  | dns (e : DnsError)
  | record (e : RecordError)
  | accountStorage (detail : String)
  | misplaced (m : Misplaced)
deriving DecidableEq, Repr, Inhabited

namespace IssuanceError

/-- The wording. -/
def message : IssuanceError → String
  | invalidInput detail => "Invalid input: " ++ detail
  | transient operation detail => "Transient error during " ++ operation ++ ": " ++ detail
  | timeout operation elapsed => operation ++ " timed out after " ++ elapsed.text
  | authorizationRejected domain reason =>
    "Authorization rejected for '" ++ domain ++ "': " ++ reason
  | rejected operation detail => "Authority rejected " ++ operation ++ ": " ++ detail
  | noDnsChallenge domain => "No DNS-01 challenge available for '" ++ domain ++ "'"
  | unknownOrder id => "Unknown order '" ++ id ++ "'"
  | alreadyInFlight domain => "Issuance already in flight for '" ++ domain ++ "'"
  | cancelled => "Issuance cancelled"
  | failed domain stage cause =>
    "Issuance failed for '" ++ domain ++ "' at " ++ stage.text ++ ": " ++ cause.message
  | material e => "Crypto error: " ++ e.message
  | dns e => "DNS provider error: " ++ e.message
  | record e => "Record error: " ++ e.message
  | accountStorage detail => "Account storage error: " ++ detail
  | misplaced m => m.message

/-- The cause behind nested failures. -/
def root : IssuanceError → IssuanceError
  | failed _ _ cause => cause.root
  | e => e

/-- The wordings of a fault and of what is behind it. -/
def chain : IssuanceError → List String
  | failed domain stage cause => (failed domain stage cause).message :: cause.chain
  | material e => [(material e).message, e.message]
  | dns e => [(dns e).message, e.message]
  | record e => [(record e).message, e.message]
  | e => [e.message]

/-- Whether the certificate is ruled out. -/
def isPermanent : IssuanceError → Bool
  | invalidInput _ | authorizationRejected _ _ | rejected _ _ | noDnsChallenge _ => true
  | failed _ _ cause => cause.isPermanent
  | _ => false

/-- Whether a later issuance may succeed. -/
def isTransient : IssuanceError → Bool
  | cancelled | alreadyInFlight _ => false
  | failed _ _ cause => cause.isTransient
  | e => !e.isPermanent

/-- Whether the same call may succeed in a moment. -/
def isRetryable : IssuanceError → Bool
  | transient _ _ | timeout _ _ => true
  | dns e => e.isRetryable
  | _ => false

/-- The name under which a fault is counted. -/
def kindHere : IssuanceError → String
  | invalidInput _ => "invalid_input"
  | transient _ _ => "transient"
  | timeout _ _ => "timeout"
  | authorizationRejected _ _ => "authorization_rejected"
  | rejected _ _ => "rejected"
  | noDnsChallenge _ => "no_dns01_challenge"
  | unknownOrder _ => "unknown_order"
  | alreadyInFlight _ => "already_in_flight"
  | cancelled => "cancelled"
  | failed _ _ _ => "issuance_failed"
  | material _ => "crypto"
  | dns _ => "dns"
  | record _ => "record"
  | accountStorage _ => "account_storage"
  | misplaced _ => "state_machine"

/-- The name under which the root cause is counted. -/
def kind (e : IssuanceError) : String := e.root.kindHere

end IssuanceError

end CertSteward
