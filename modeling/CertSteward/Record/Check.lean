import CertSteward.Material.Details
import CertSteward.Record.Record

/-!
# Checking the certificate of a record

A certificate passes if it can be read, has not run out, names the primary domain of its record,
and the verifier of chains has nothing against it.

## Main definitions

* `CheckFault`, `ChainVerifier`
* `CertificateRecord.check`, `CertificateRecord.isSound`
-/

namespace CertSteward

/-- Why a certificate does not pass. -/
inductive CheckFault
  | missingMaterial
  | unparseable (e : MaterialError)
  | expired (notAfter : Instant)
  | identityMismatch (expected found : String)
  | chain (detail : String)
deriving DecidableEq, Repr

/-- The wording. -/
def CheckFault.message : CheckFault → String
  | missingMaterial => "Certificate material is missing"
  | unparseable e => "Certificate could not be parsed: " ++ e.message
  | expired notAfter => "Certificate expired at " ++ notAfter.toText
  | identityMismatch expected found =>
    "Certificate identity '" ++ found ++ "' does not match '" ++ expected ++ "'"
  | chain detail => "Chain verification failed: " ++ detail

/-- What is wrong with a certificate under the certificates above it, if anything is. -/
abbrev ChainVerifier := List UInt8 → List (List UInt8) → Option String

/-- Has nothing against any chain. -/
def ChainVerifier.lenient : ChainVerifier := fun _ _ => none

namespace CertificateRecord

/-- The certificates above the record's own, none if the chain is blank. -/
def chainDers (r : CertificateRecord) : Except MaterialError (List (List UInt8)) :=
  if Text.isBlank r.chain then .ok [] else Pem.certificates r.chain

/-- What the certificate says, if it passes at `now`. -/
def check (r : CertificateRecord) (verify : ChainVerifier) (now : Instant) :
    Except CheckFault CertificateDetails := do
  if ¬ r.hasMaterial then throw .missingMaterial
  let leaf := ((← (Pem.certificates r.certificate).mapError .unparseable)).headD []
  let certificate ← (Certificate.read leaf).mapError .unparseable
  let details ← (CertificateDetails.ofCertificate certificate).mapError .unparseable
  if details.notAfter ≤ now then throw (.expired details.notAfter)
  if ¬ details.covers r.primaryDomain then
    throw (.identityMismatch r.primaryDomain (details.primaryIdentity?.getD ""))
  match verify leaf (← r.chainDers.mapError .unparseable) with
  | some detail => throw (.chain detail)
  | none => return details

/-- Whether the certificate passes at `now`. -/
def isSound (r : CertificateRecord) (verify : ChainVerifier) (now : Instant) : Bool :=
  (r.check verify now).toBool

end CertificateRecord

end CertSteward
