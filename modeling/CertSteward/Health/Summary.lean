import CertSteward.Json.Value
import CertSteward.Record.Record
import CertSteward.Time.Rfc3339

/-!
# How the certificates are doing

## Main definitions

* `HealthSummary`, `HealthSummary.of?` — how many certificates are valid, expiring, expired or
  failed, and each of them in its order
-/

namespace CertSteward

/-- How one certificate is doing. -/
structure CertificateHealth where
  /-- The record. -/
  id : String
  /-- Its primary domain. -/
  domain : String
  /-- Where it stands. -/
  status : Status
  /-- When it runs out. -/
  expiresAt : Option Instant
  /-- Whole days until then. -/
  daysUntilExpiry : Option Int
  /-- Whether that lies in the window. -/
  needsRenewal : Bool
deriving DecidableEq, Repr

namespace CertificateHealth

/-- How a certificate is doing, unless the window ends after the calendar. -/
def of? (r : CertificateRecord) (w : RenewalWindow) (now : Instant) : Option CertificateHealth :=
  (r.needsRenewal? w now).map fun needsRenewal =>
    { id := r.id, domain := r.primaryDomain, status := r.status, expiresAt := r.expiresAt
      daysUntilExpiry := r.daysUntilExpiry now, needsRenewal }

/-- Whether it has run out. -/
def isExpired (h : CertificateHealth) (now : Instant) : Bool :=
  h.expiresAt.any fun e => decide (e ≤ now)

/-- Whether it has not run out and its expiry lies in the window. -/
def isExpiring (h : CertificateHealth) (now : Instant) : Bool :=
  h.expiresAt.isSome && !h.isExpired now && h.needsRenewal

/-- Whether its expiry lies behind the window. -/
def isValid (h : CertificateHealth) (now : Instant) : Bool :=
  h.expiresAt.isSome && !h.isExpired now && !h.needsRenewal

/-- The stored form. -/
def toJson (h : CertificateHealth) : Json :=
  .object [("id", .string h.id), ("domain", .string h.domain), ("status", .string h.status.text),
    ("expires_at", .optional (h.expiresAt.map Instant.toRfc3339)),
    ("days_until_expiry", h.daysUntilExpiry.elim .null .int),
    ("needs_renewal", .bool h.needsRenewal)]

end CertificateHealth

/-- How the certificates are doing. -/
structure HealthSummary where
  /-- How many there are. -/
  total : Nat := 0
  /-- How many expire after the window. -/
  valid : Nat := 0
  /-- How many expire in the window. -/
  expiring : Nat := 0
  /-- How many have run out. -/
  expired : Nat := 0
  /-- How many could not be issued. -/
  failed : Nat := 0
  /-- Each of them. -/
  certificates : List CertificateHealth := []
deriving DecidableEq, Repr

namespace HealthSummary

/-- How certificates are doing, unless the window ends after the calendar. -/
def of? (rs : List CertificateRecord) (w : RenewalWindow) (now : Instant) :
    Option HealthSummary :=
  (rs.mapM fun r => CertificateHealth.of? r w now).map fun hs =>
    { total := rs.length
      valid := hs.countP (·.isValid now)
      expiring := hs.countP (·.isExpiring now)
      expired := hs.countP (·.isExpired now)
      failed := hs.countP (·.status == .failed)
      certificates := hs }

/-- Whether none has run out or failed. -/
def isHealthy (s : HealthSummary) : Bool := s.expired == 0 && s.failed == 0

/-- The stored form. -/
def toJson (s : HealthSummary) : Json :=
  .object [("total", .nat s.total), ("valid", .nat s.valid), ("expiring_soon", .nat s.expiring),
    ("expired", .nat s.expired), ("failed", .nat s.failed),
    ("certificates", .array (s.certificates.map CertificateHealth.toJson))]

end HealthSummary

end CertSteward
