import CertSteward.Json.Value
import CertSteward.Material.Certificate
import CertSteward.Material.Pem
import CertSteward.Time.Rfc3339

/-!
# Looking into a certificate

## Main definitions

* `CertificateDetails`, `CertificateDetails.inspect` — what the first certificate of a text says
* `CertificateDetails.covers` — whether a certificate names a domain
* `certificateValidity` — the dates of the first certificate of a text
-/

namespace CertSteward

/-- What a certificate says. -/
structure CertificateDetails where
  /-- Whom it is for. -/
  subject : String
  /-- Who issued it. -/
  issuer : String
  /-- The common name of the subject. -/
  commonName : Option String
  /-- The serial number in hexadecimal. -/
  serial : String
  /-- The start of its validity. -/
  notBefore : Instant
  /-- The end of its validity. -/
  notAfter : Instant
  /-- The algorithm of the signature. -/
  signatureAlgorithm : String
  /-- The DNS names. -/
  names : List String
deriving DecidableEq, Repr

/-- Reads a certificate. -/
def Certificate.read (der : List UInt8) : Except MaterialError Certificate :=
  match Certificate.ofBytes? der with
  | some c => .ok c
  | none => .error (.certificate "malformed certificate")

/-- The first certificate of a text. -/
def Certificate.ofPem (text : String) : Except MaterialError Certificate := do
  Certificate.read ((← Pem.certificates text).headD [])

/-- The dates of the first certificate of a text. -/
def certificateValidity (text : String) : Except MaterialError (Instant × Instant) :=
  (Certificate.ofPem text).map fun c => (c.notBefore, c.notAfter)

namespace CertificateDetails

/-- What a certificate says. -/
def ofCertificate (c : Certificate) : Except MaterialError CertificateDetails :=
  match c.dnsNames? with
  | some names =>
    .ok { subject := c.subject.text, issuer := c.issuer.text, commonName := c.subject.commonName?
          serial := c.serialText, notBefore := c.notBefore, notAfter := c.notAfter
          signatureAlgorithm := c.signatureText, names }
  | none => .error (.certificate "malformed further names")

/-- What the first certificate of a text says. -/
def inspect (text : String) : Except MaterialError CertificateDetails := do
  ofCertificate (← Certificate.ofPem text)

/-- The common name, or else the first DNS name. -/
def primaryIdentity? (d : CertificateDetails) : Option String := d.commonName.or d.names.head?

/-- Whether a domain is the common name or one of the DNS names, ignoring case. -/
def covers (d : CertificateDetails) (domain : String) : Bool :=
  (d.commonName.toList ++ d.names).any (Text.sameIgnoringCase · domain)

/-- The stored form. -/
def toJson (d : CertificateDetails) : Json :=
  .object [("subject", .string d.subject), ("issuer", .string d.issuer),
    ("common_name", .optional d.commonName), ("serial", .string d.serial),
    ("not_before", .string d.notBefore.toRfc3339), ("not_after", .string d.notAfter.toRfc3339),
    ("signature_algorithm", .string d.signatureAlgorithm), ("san", .strings d.names)]

end CertificateDetails

end CertSteward
