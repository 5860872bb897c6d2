import CertSteward.Issuance.Error
import CertSteward.Record.Status

/-!
# Orders at an authority

## Main definitions

* `OrderHandle`, `OrderStatus`, `OrderState` — an order and where it stands
* `Authorization`, `AuthorizationStatus`, `DnsChallenge` — what has to be shown for a name
* `AuthorityRequest`, `AuthorityRequest.Reply` — what an authority can be asked
-/

namespace CertSteward

/-- An order as its owner knows it. -/
structure OrderHandle where
  id : String
  /-- The names that were ordered. -/
  identifiers : List String
deriving DecidableEq, Repr

/-- Where an order stands. -/
inductive OrderStatus
  | pending
  | ready
  | processing
  | valid
  | invalid
deriving DecidableEq, Repr

/-- What an authority says of an order. -/
structure OrderState where
  status : OrderStatus
  error : Option String
deriving DecidableEq, Repr

/-- Where an authorization stands. -/
inductive AuthorizationStatus
  | pending
  | valid
  | invalid
  | revoked
  | expired
deriving DecidableEq, Repr

namespace AuthorizationStatus

/-- The name of the status. -/
def text : AuthorizationStatus → String
  | pending => "Pending"
  | valid => "Valid"
  | invalid => "Invalid"
  | revoked => "Revoked"
  | expired => "Expired"

/-- Whether it cannot become valid any more. -/
def isFailed : AuthorizationStatus → Bool
  | invalid | revoked | expired => true
  | pending | valid => false

end AuthorizationStatus

/-- The name of the status. -/
def OrderStatus.text : OrderStatus → String
  | pending => "Pending"
  | ready => "Ready"
  | processing => "Processing"
  | valid => "Valid"
  | invalid => "Invalid"

/-- A challenge that a TXT record answers. -/
structure DnsChallenge where
  url : String
  token : String
  keyAuthorization : String
deriving DecidableEq, Repr

/-- What an authority says of one name of an order. -/
structure Authorization where
  identifier : String
  status : AuthorizationStatus
  challenge : Option DnsChallenge
  error : Option String
deriving DecidableEq, Repr

namespace Authorization

/-- Why it failed. -/
def reason (a : Authorization) : String :=
  a.error.getD ("authorization is " ++ a.status.text)

end Authorization

/-- What an authority is asked. -/
inductive AuthorityRequest
  | ensureAccount
  | newOrder (identifiers : List String)
  | authorizations (order : OrderHandle)
  | challengeReady (order : OrderHandle) (url : String)
  | orderState (order : OrderHandle)
  | finalize (order : OrderHandle) (request : List UInt8)
  | certificate (order : OrderHandle)
  | revoke (certificate : List UInt8) (reason : Revocation)
  /-- The order is not needed any more. -/
  | release (order : OrderHandle)
deriving DecidableEq, Repr

namespace AuthorityRequest

/-- What a good answer holds. -/
@[reducible] def Value : AuthorityRequest → Type
  | newOrder _ => OrderHandle
  | authorizations _ => List Authorization
  | orderState _ => OrderState
  | certificate _ => Option String
  | ensureAccount | challengeReady .. | finalize .. | revoke .. | release _ => Unit

/-- An answer. -/
abbrev Reply (r : AuthorityRequest) : Type := Except IssuanceError r.Value

/-- What the request is called in errors. -/
def operation : AuthorityRequest → String
  | ensureAccount => "ensure_account"
  | newOrder _ => "new_order"
  | authorizations _ => "authorizations"
  | challengeReady .. => "challenge_ready"
  | orderState _ => "order_state"
  | finalize .. => "finalize"
  | certificate _ => "certificate"
  | revoke .. => "revoke"
  | release _ => "release"

/-- Whether it can fail: only giving an order up cannot. -/
def isCall : AuthorityRequest → Bool
  | release _ => false
  | _ => true

end AuthorityRequest

end CertSteward
