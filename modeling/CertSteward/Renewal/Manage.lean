import CertSteward.Issuance.Run
import CertSteward.Material.Pem

/-!
# Issuing, renewing and revoking certificates of records

## Main definitions

* `issueRecord` — a new record with a certificate
* `renewRecord` — a new certificate for a record
* `revokeRecord` — the end of a certificate
* `checkHealth` — how certificates are doing
-/

namespace CertSteward

/-- Takes the material of an issuance in. -/
def CertificateRecord.takeIssued (r : CertificateRecord) (now : Instant) :
    Except IssuanceError IssuedCertificate → Except IssuanceError CertificateRecord
  | .ok c => (r.markIssued c.material now).mapError .record
  | .error e => .error e

/-- The name under which what came of an issuance is counted. -/
def issuanceOutcome {α : Type} : Except IssuanceError α → String
  | .ok _ => "success"
  | .error e => e.kind

/-- Issues a certificate for a record and counts the issuance as an `operation`. -/
def issueFor (p : IssuancePractice) (operation : String) (r : CertificateRecord) (mode : LockMode) :
    Steward (Except IssuanceError CertificateRecord) := do
  let started ← perform .now
  let issued ← issueCertificate p (.ofRecord r) mode
  let result := r.takeIssued (← perform .wallClock) issued
  perform (.note (.issuance operation (issuanceOutcome result) ((← perform .now) - started)))
  return result

/-- The record with the reason why it has no new certificate, if it is one that can fail. -/
def CertificateRecord.failedWith (r : CertificateRecord) (e : IssuanceError) (now : Instant) :
    CertificateRecord :=
  (r.markFailed e.message now).toOption.getD r

/-- Makes a record and issues its certificate. -/
def issueRecord (p : IssuancePractice) (domainId primary : String) (others : List String)
    (wildcard autoRenew : Bool) : Steward (Except RecordFailure CertificateRecord) := do
  let id ← perform .freshName
  match CertificateRecord.make id domainId primary others wildcard autoRenew
      (← perform .wallClock) with
  | .error e => return .error { record := none, error := .invalidInput e.message }
  | .ok r =>
    match ← issueFor p "issue" r .wait with
    | .ok r => return .ok r
    | .error error =>
      return .error { record := some (r.failedWith error (← perform .wallClock)), error }

/-- Whether a renewal goes on: by force, without an expiry, or with one in the window. -/
def renewsNow (window : RenewalWindow) (r : CertificateRecord) (o : RenewOptions) (now : Instant) :
    Steward Bool :=
  if o.force ∨ r.expiresAt = none then pure true else dated (r.needsRenewal? window now)

/-- Renews the certificate of a record. A certificate that is not due is renewed only by force, and
a revoked one never. A failure that rules the certificate out is noted in the record. -/
def renewRecord (p : IssuancePractice) (window : RenewalWindow) (r : CertificateRecord)
    (o : RenewOptions) : Steward (Except RecordFailure Renewal) := do
  if r.status = .revoked then
    let detail := "certificate '" ++ r.id ++ "' is revoked and cannot be renewed"
    return .error { record := some r, error := .invalidInput detail }
  if !(← renewsNow window r o (← perform .wallClock)) then return .ok (.notDue r)
  match ← issueFor p "renew" r o.lock with
  | .ok r => return .ok (.renewed r)
  | .error error =>
    let now ← perform .wallClock
    let record := some (if error.isPermanent then r.failedWith error now else r)
    return .error { record, error }

/-- Asks the authority to revoke a certificate. -/
def revokeCertificate (s : IssuanceSettings) (der : List UInt8) (reason : Revocation) :
    Watched (Except IssuanceError Unit) := do
  match ← callAuthority s s.callRetries .ensureAccount with
  | .error e => return .error e
  | .ok () => callAuthority s s.callRetries (.revoke der reason)

/-- Revokes the certificate of a record, and says whether that was done. -/
def revokeRecord (p : IssuancePractice) (r : CertificateRecord) (reason : Revocation) :
    Steward (Bool × CertificateRecord) := do
  if r.status ≠ .issued ∧ r.status ≠ .expired then return (false, r)
  match Pem.certificates r.certificate with
  | .error _ | .ok [] => return (false, r)
  | .ok (der :: _) =>
    match ← (revokeCertificate p.settings der reason).run with
    | some (.ok ()) =>
      match r.markRevoked reason (← perform .wallClock) with
      | .ok r => return (true, r)
      | .error _ => return (false, r)
    | _ => return (false, r)

/-- How the certificates of records are doing, which is noted. -/
def checkHealth (window : RenewalWindow) (rs : List CertificateRecord) : Steward HealthSummary := do
  let summary ← dated (HealthSummary.of? rs window (← perform .wallClock))
  perform (.note (.health summary))
  return summary

end CertSteward
