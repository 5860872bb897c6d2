import CertSteward.Domain.Name
import CertSteward.Material.Key
import CertSteward.Record.Status
import CertSteward.Time.Instant
import CertSteward.Time.Rfc3339

/-!
# Certificate records

A record keeps the names of a certificate, its material and dates, and where it stands. It begins
as pending; issuing it fills in the material, a failure erases it, and a revoked record stays
revoked.

Every operation that changes a record takes the reading of the clock. The time of the last change
never moves backwards, whatever the clock does.

A certificate is due for renewal once its expiry lies within the window that starts now. A window
may reach past the end of the calendar; the question then has no answer.

## Main definitions

* `RecordError` — the faults of a record and their wording
* `RenewalWindow`, `needsRenewal?` — a number of days, and whether an expiry lies within them
* `CertificateRecord`, `CertificateRecord.make`
* `markIssued`, `markFailed`, `markRevoked`, `markExpiredIfDue`, `setAutoRenew`, `attachKey` —
  changes
* `needsRenewal?`, `daysUntilExpiry`, `names?`, `invariantFault?` — questions
-/

namespace CertSteward

/-! ### Faults -/

/-- Why a record cannot be made or changed. -/
inductive RecordError
  | invalidDomain (domain : String) (reason : String)
  | invalidTransition (old new : Status)
  | invalidValidity (issuedAt expiresAt : Instant)
  | missingMaterial
deriving DecidableEq, Repr

/-- The wording. -/
def RecordError.message : RecordError → String
  | invalidDomain domain reason => "Invalid domain '" ++ domain ++ "': " ++ reason
  | invalidTransition old new => "Invalid transition from " ++ old.text ++ " to " ++ new.text
  | invalidValidity issuedAt expiresAt =>
    "Certificate expires at " ++ expiresAt.toText ++ " which is not after issued_at " ++
      issuedAt.toText
  | missingMaterial => "Certificate material is empty"

/-! ### The window -/

/-- The time before expiry within which a certificate is renewed. -/
structure RenewalWindow where
  /-- Its length in days. -/
  days : Nat := 30
deriving DecidableEq, Repr, Inhabited

namespace RenewalWindow

/-- Its length in seconds. -/
def seconds (w : RenewalWindow) : Nat := w.days * 86400

/-- The end of the window that starts now, unless the calendar ends before. -/
def close? (w : RenewalWindow) (now : Instant) : Option Instant := now.addSeconds? w.seconds

/-- Whether a certificate with this expiry is to be renewed. -/
def needsRenewal? (w : RenewalWindow) (expiresAt now : Instant) : Option Bool :=
  (w.close? now).map fun close => expiresAt ≤ close

end RenewalWindow

/-- Whole days from `now` to `expiresAt`, rounded down; parts of a second are dropped before. -/
def daysUntil (expiresAt now : Instant) : Int :=
  (expiresAt.sub now).tdiv 1000000000 / 86400

/-! ### Records -/

/-- What the authority handed out, with the key it is for. -/
structure IssuedMaterial where
  /-- The certificate. -/
  certificate : String
  /-- The certificates above it. -/
  chain : String
  /-- The private key. -/
  key : PrivateKey
  /-- The start of its validity. -/
  issuedAt : Instant
  /-- The end of its validity. -/
  expiresAt : Instant
deriving DecidableEq

/-- A certificate and where it stands. -/
structure CertificateRecord where
  /-- What the record is called by. -/
  id : String
  /-- What the owner of the domain is called by. -/
  domainId : String := ""
  /-- The domain that the certificate is for. -/
  primaryDomain : String
  /-- Further domains. -/
  sanDomains : List String := []
  /-- Whether it is for all names below the primary domain too. -/
  wildcard : Bool := false
  /-- The certificate, blank if there is none. -/
  certificate : String := ""
  /-- The private key, blank if there is none. -/
  key : PrivateKey := .none
  /-- The certificates above it. -/
  chain : String := ""
  /-- The start of its validity. -/
  issuedAt : Option Instant := none
  /-- The end of its validity. -/
  expiresAt : Option Instant := none
  /-- Whether it is renewed without being asked. -/
  autoRenew : Bool
  /-- Where it stands. -/
  status : Status := .pending
  /-- Why the last issuance failed. -/
  lastError : Option String := none
  /-- Why it was revoked. -/
  revocation : Option Revocation := none
  /-- When the record was made. -/
  createdAt : Instant
  /-- When it was last changed. -/
  updatedAt : Instant
deriving DecidableEq

namespace CertificateRecord

/-! ### Making a record -/

/-- A domain as records hold it. -/
def domain (name : String) (allowWildcard : Bool) : Except RecordError String :=
  (Domain.normalize name allowWildcard).mapError fun fault => .invalidDomain name fault.message

/-- Takes one more domain in: the wildcard of the primary domain becomes a flag, and what is there
already is left out. -/
def addDomain (primary : String) (acc : List String × Bool) (name : String) :
    List String × Bool :=
  if name = Domain.wildcardOf primary then (acc.1, true)
  else if name = primary ∨ name ∈ acc.1 then acc
  else (acc.1 ++ [name], acc.2)

/-- A pending record under a fresh name. -/
def make (id domainId primary : String) (others : List String) (wildcard autoRenew : Bool)
    (now : Instant) : Except RecordError CertificateRecord := do
  let primary ← domain primary false
  let others ← others.mapM fun name => domain name true
  let (sans, wildcard) := others.foldl (addDomain primary) ([], wildcard)
  return { id, domainId, primaryDomain := primary, sanDomains := sans, wildcard, autoRenew
           createdAt := now, updatedAt := now }

/-! ### Changes -/

/-- Notes that the record changed. -/
def touch (r : CertificateRecord) (now : Instant) : CertificateRecord :=
  { r with updatedAt := r.updatedAt.max now }

/-- Switches unasked renewal. -/
def setAutoRenew (r : CertificateRecord) (on : Bool) (now : Instant) : CertificateRecord :=
  { r with autoRenew := on }.touch now

/-- Puts a private key in. -/
def attachKey (r : CertificateRecord) (key : PrivateKey) : CertificateRecord := { r with key }

/-- Takes issued material in. -/
def markIssued (r : CertificateRecord) (m : IssuedMaterial) (now : Instant) :
    Except RecordError CertificateRecord :=
  if r.status = .revoked then .error (.invalidTransition r.status .issued)
  else if m.expiresAt ≤ m.issuedAt then .error (.invalidValidity m.issuedAt m.expiresAt)
  else if Text.isBlank m.certificate ∨ m.key.isBlank then .error .missingMaterial
  else
    .ok ({ r with
      certificate := m.certificate
      chain := m.chain
      key := m.key
      issuedAt := some m.issuedAt
      expiresAt := some m.expiresAt
      lastError := none
      revocation := none
      status := .issued }.touch now)

/-- Erases all material and notes why. -/
def markFailed (r : CertificateRecord) (reason : String) (now : Instant) :
    Except RecordError CertificateRecord :=
  if r.status = .revoked then .error (.invalidTransition r.status .failed)
  else
    .ok ({ r with
      certificate := ""
      chain := ""
      key := .none
      issuedAt := none
      expiresAt := none
      lastError := some reason
      status := .failed }.touch now)

/-- Notes that the certificate is revoked, if there is one to revoke. -/
def markRevoked (r : CertificateRecord) (reason : Revocation) (now : Instant) :
    Except RecordError CertificateRecord :=
  if r.status = .issued ∨ r.status = .expired then
    .ok ({ r with revocation := some reason, status := .revoked }.touch now)
  else .error (.invalidTransition r.status .revoked)

/-- Whether an issued certificate has run out at `now`. -/
def isOver (r : CertificateRecord) (now : Instant) : Bool :=
  r.status == .issued && r.expiresAt.any fun e => decide (e ≤ now)

/-- Notes that the certificate has run out at `now`, if it has; `clock` is the time of the note. -/
def markExpiredIfDue (r : CertificateRecord) (now clock : Instant) : CertificateRecord :=
  if r.isOver now then { r with status := .expired }.touch clock else r

/-! ### Questions -/

/-- Whether there is a certificate. -/
def hasMaterial (r : CertificateRecord) : Bool := !Text.isBlank r.certificate

/-- Whether the expiry lies in the window, unless the window ends after the calendar. -/
def needsRenewal? (r : CertificateRecord) (w : RenewalWindow) (now : Instant) : Option Bool :=
  match r.expiresAt with
  | some e => w.needsRenewal? e now
  | none => some false

/-- Whole days until the certificate runs out. -/
def daysUntilExpiry (r : CertificateRecord) (now : Instant) : Option Int :=
  r.expiresAt.map fun e => daysUntil e now

/-- The names of the certificate. -/
def names? (r : CertificateRecord) : Option (List String) :=
  nameList? r.primaryDomain r.sanDomains r.wildcard

/-- What is wrong inside a record. -/
inductive InvariantFault
  | expiry (status : Status) (expiresAt : Option Instant)
  | validity
  | changedBeforeMade
deriving DecidableEq, Repr

/-- The first thing that is wrong inside a record. -/
def invariantFault? (r : CertificateRecord) : Option InvariantFault :=
  if r.status.hasExpiry ≠ r.expiresAt.isSome then some (.expiry r.status r.expiresAt)
  else if r.status = .issued ∧
      ¬ (r.issuedAt.any fun i => r.expiresAt.any fun e => decide (i < e)) then some .validity
  else if r.updatedAt < r.createdAt then some .changedBeforeMade
  else none

end CertificateRecord

end CertSteward
