import CertSteward.Issuance.Settings
import CertSteward.Issuance.Error
import CertSteward.Json.Value
import CertSteward.Record.Record
import CertSteward.Time.Instant

/-!
# Results of issuances and renewals

## Main definitions

* `IssuanceRequest`, `IssuanceReport`, `IssuedCertificate` — a run and what came of it
* `RecordFailure` — a run that failed, with the record it was for
* `RenewOptions`, `Renewal` — a renewal and what came of it
* `RenewalTask`, `RenewalOutcome`, `SweepReport` — the renewals of a sweep
-/

namespace CertSteward

/-- The names that a certificate is asked for. -/
structure IssuanceRequest where
  /-- The primary domain. -/
  primary : String
  /-- Further domains. -/
  others : List String := []
  /-- Whether it is for all names below the primary domain too. -/
  wildcard : Bool := false
deriving DecidableEq, Repr

/-- The names of a record. -/
def IssuanceRequest.ofRecord (r : CertificateRecord) : IssuanceRequest :=
  { primary := r.primaryDomain, others := r.sanDomains, wildcard := r.wildcard }

/-- How a run went. -/
structure IssuanceReport where
  /-- The states it passed through. -/
  visited : List IssuanceState
  /-- How many challenge records it made. -/
  recordsMade : Nat
  /-- How many of them it could not remove. -/
  cleanupFailures : Nat
  /-- The time it took. -/
  duration : Duration
deriving DecidableEq, Repr

/-- A certificate that was issued. -/
structure IssuedCertificate where
  /-- The certificate with its key. -/
  material : IssuedMaterial
  /-- The names it was asked for. -/
  names : List String
  /-- How the run went. -/
  report : IssuanceReport
deriving DecidableEq

/-- Why a record has no new certificate. -/
structure RecordFailure where
  /-- The record as it is now, if there is one. -/
  record : Option CertificateRecord
  /-- What went wrong. -/
  error : IssuanceError
deriving DecidableEq

/-- How to renew. -/
structure RenewOptions where
  /-- Whether to renew a certificate that is not due. -/
  force : Bool := false
  /-- What to do while another issuance holds the domain. -/
  lock : LockMode := .wait
deriving DecidableEq, Repr

/-- What came of a renewal. -/
inductive Renewal
  | renewed (r : CertificateRecord)
  | notDue (r : CertificateRecord)
deriving DecidableEq

namespace Renewal

/-- The record as it is now. -/
def record : Renewal → CertificateRecord
  | renewed r | notDue r => r

/-- Whether there is a new certificate. -/
def isRenewed : Renewal → Bool
  | renewed _ => true
  | notDue _ => false

end Renewal

/-- One renewal of a sweep. -/
structure RenewalTask where
  /-- The record that is due. -/
  record : CertificateRecord
  /-- Which attempt it is since the renewal was last not put off. -/
  attempt : Nat
deriving DecidableEq

/-- What came of one renewal of a sweep. -/
inductive RenewalOutcome
  | renewed
  | failed
  | transient
  | skipped
  | cancelled
deriving DecidableEq, Repr

namespace RenewalOutcome

/-- The name under which it is counted. -/
def text : RenewalOutcome → String
  | renewed => "renewed"
  | failed => "failed"
  | transient => "transient"
  | skipped => "skipped"
  | cancelled => "cancelled"

/-- What a renewal that failed comes to: what is ruled out has failed, and what may succeed later
is transient. -/
def ofError (e : IssuanceError) : RenewalOutcome :=
  match e.root with
  | .alreadyInFlight _ => skipped
  | .cancelled => cancelled
  | e => if e.isPermanent then failed else transient

end RenewalOutcome

/-- What came of a sweep. -/
structure SweepReport where
  /-- How many records there were. -/
  scanned : Nat
  /-- How many were due. -/
  selected : Nat
  /-- What came of each of them. -/
  outcomes : List RenewalOutcome
  /-- How many were marked as expired. -/
  expired : Nat
  /-- The time it took. -/
  duration : Duration
deriving DecidableEq, Repr

namespace SweepReport

/-- How many renewals came to an outcome. -/
def count (s : SweepReport) (o : RenewalOutcome) : Nat := s.outcomes.count o

/-- The written form. -/
def toJson (s : SweepReport) : Json :=
  .object [("scanned", .nat s.scanned), ("selected", .nat s.selected),
    ("renewed", .nat (s.count .renewed)), ("failed", .nat (s.count .failed)),
    ("transient", .nat (s.count .transient)), ("skipped", .nat (s.count .skipped)),
    ("cancelled", .nat (s.count .cancelled)), ("expired", .nat s.expired),
    ("duration", .object [("secs", .nat s.duration.seconds), ("nanos", .nat s.duration.subsecond)])]

end SweepReport

end CertSteward
