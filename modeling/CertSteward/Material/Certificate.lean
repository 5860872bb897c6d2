import CertSteward.Asn1.Time
import CertSteward.Material.DistinguishedName

/-!
# Certificates

The parts of a certificate that are looked at: serial number, names, dates, signature algorithm
and extensions. The signature itself is not checked.

## Main definitions

* `Certificate`, `Certificate.ofBytes?`, `Certificate.toDer`
* `Certificate.dnsNames?` — the DNS names among the further names
* `GeneralNames` — reading and writing lists of further names
-/

namespace CertSteward

/-- A further name of a subject: its tag and its bytes. -/
abbrev GeneralName := Der

namespace GeneralName

/-- A DNS name. -/
def dns (name : String) : GeneralName :=
  { tag := Der.plainContextTag 2, contents := Utf8.encode name }

/-- An internet address. -/
def address (bytes : List UInt8) : GeneralName :=
  { tag := Der.plainContextTag 7, contents := bytes }

/-- The text of a DNS name. -/
def dnsText? (n : GeneralName) : Option String :=
  if n.tag = Der.plainContextTag 2 then Utf8.decode? n.contents else none

/-- The bytes of an internet address. -/
def addressBytes? (n : GeneralName) : Option (List UInt8) :=
  if n.tag = Der.plainContextTag 7 then some n.contents else none

/-- Reads a list of names. -/
def listOfBytes? (bs : List UInt8) : Option (List GeneralName) := do
  let (names, _) ← Der.readTag? Der.sequenceTag bs
  Der.readAll? names

/-- Writes a list of names. -/
def listToBytes (names : List GeneralName) : List UInt8 := (Der.sequence names).write

end GeneralName

/-- An extension of a certificate. -/
structure Extension where
  /-- Which extension. -/
  kind : ObjectId
  /-- Whether it has to be understood. -/
  critical : Bool := false
  /-- Its value. -/
  value : List UInt8
deriving DecidableEq, Repr

namespace Extension

/-- Reads an extension. -/
def ofDer? (v : Der) : Option Extension := do
  if v.tag ≠ Der.sequenceTag then none
  let (kind, s) ← Der.readTag? Der.objectTag v.contents
  let kind ← ObjectId.ofBytes? kind
  let (critical, s) ← match Der.readTag? Der.booleanTag s with
    | some ([b], s) => some (b != 0, s)
    | some _ => none
    | none => some (false, s)
  let (value, _) ← Der.readTag? Der.bytesTag s
  return { kind, critical, value }

/-- An extension as a value. -/
def toDer (e : Extension) : Der :=
  .sequence ([e.kind.toDer] ++ (if e.critical then [Der.boolean true] else []) ++
    [Der.bytes e.value])

/-- The extension that holds further names. -/
def subjectNames (names : List GeneralName) : Extension :=
  { kind := .subjectNames, value := GeneralName.listToBytes names }

end Extension

/-- A certificate. -/
structure Certificate where
  /-- The bytes of the serial number. -/
  serial : List UInt8
  /-- The algorithm of the signature. -/
  signature : ObjectId
  /-- Who issued it. -/
  issuer : DistinguishedName
  /-- The start of its validity. -/
  notBefore : Instant
  /-- The end of its validity. -/
  notAfter : Instant
  /-- Whom it is for. -/
  subject : DistinguishedName
  /-- The subject's public key. -/
  publicKey : Der
  /-- The extensions. -/
  extensions : List Extension
deriving DecidableEq, Repr

namespace Certificate

/-- Reads the object identifier at the start of an algorithm. -/
def algorithm? (s : List UInt8) : Option (ObjectId × List UInt8) := do
  let (a, s) ← Der.readTag? Der.sequenceTag s
  let (kind, _) ← Der.readTag? Der.objectTag a
  return (← ObjectId.ofBytes? kind, s)

/-- Skips a value of that tag if there is one. -/
def skipTag (tag : UInt8) (s : List UInt8) : List UInt8 :=
  match Der.readTag? tag s with
  | some (_, s) => s
  | none => s

/-- Reads the extensions that end a certificate; there may be none. -/
def extensions? (s : List UInt8) : Option (List Extension) := do
  if s = [] then return []
  let (s, rest) ← Der.readTag? (Der.contextTag 3) s
  let (s, tail) ← Der.readTag? Der.sequenceTag s
  if rest ≠ [] ∨ tail ≠ [] then none
  (← Der.readAll? s).mapM Extension.ofDer?

/-- Reads two times. -/
def validity? (s : List UInt8) : Option (Instant × Instant) := do
  let (notBefore, s) ← Der.read? s
  let (notAfter, _) ← Der.read? s
  return (← Asn1Time.read? notBefore, ← Asn1Time.read? notAfter)

/-- Skips the version if it is there; it is a number of at most 32 bits. -/
def skipVersion? (s : List UInt8) : Option (List UInt8) :=
  match Der.readTag? (Der.contextTag 0) s with
  | some (v, s) => do
    let (version, _) ← Der.readTag? Der.integerTag v
    if (← Der.nat? version) < 4294967296 then some s else none
  | none => some s

/-- Reads a certificate at the start of bytes. -/
def ofBytes? (bs : List UInt8) : Option Certificate := do
  let (outer, _) ← Der.readTag? Der.sequenceTag bs
  let (s, afterBody) ← Der.readTag? Der.sequenceTag outer
  let s ← skipVersion? s
  let (serial, s) ← Der.readTag? Der.integerTag s
  let (_, s) ← algorithm? s
  let (issuer, s) ← Der.readTag? Der.sequenceTag s
  let (validity, s) ← Der.readTag? Der.sequenceTag s
  let (notBefore, notAfter) ← validity? validity
  let (subject, s) ← Der.readTag? Der.sequenceTag s
  let (publicKey, s) ← Der.readTag? Der.sequenceTag s
  let (_, keyBits) ← algorithm? publicKey
  let _ ← Der.readBits? keyBits
  let s := skipTag (Der.plainContextTag 2) (skipTag (Der.plainContextTag 1) s)
  let extensions ← extensions? s
  let (signature, afterAlgorithm) ← algorithm? afterBody
  let _ ← Der.readBits? afterAlgorithm
  return { serial, signature, notBefore, notAfter, extensions
           issuer := .ofBytes issuer
           subject := .ofBytes subject
           publicKey := { tag := Der.sequenceTag, contents := publicKey } }

/-- A certificate as a value, with the bits of a signature. -/
def toDer (c : Certificate) (signatureBits : List UInt8) : Der :=
  let algorithm := Der.sequence [c.signature.toDer]
  let extensions := Der.sequence (c.extensions.map Extension.toDer)
  .sequence
    [.sequence
      ([{ tag := Der.contextTag 0, contents := (Der.integer 2).write },
        { tag := Der.integerTag, contents := c.serial }, algorithm, c.issuer.toDer,
        .sequence [Asn1Time.write c.notBefore, Asn1Time.write c.notAfter],
        c.subject.toDer, c.publicKey] ++
        (if c.extensions = [] then []
          else [{ tag := Der.contextTag 3, contents := extensions.write }])),
      algorithm, .bits signatureBits]

/-- The DNS names among the further names; `none` if they cannot be read or stand there twice. -/
def dnsNames? (c : Certificate) : Option (List String) :=
  match c.extensions.filter fun e => e.kind == .subjectNames with
  | [] => some []
  | [e] => (GeneralName.listOfBytes? e.value).map (List.filterMap GeneralName.dnsText?)
  | _ => none

/-- The serial number in hexadecimal. -/
def serialText (c : Certificate) : String := Hex.withColons c.serial

/-- The name of the signature algorithm, its number where it has none. -/
def signatureText (c : Certificate) : String :=
  match c.signature.path with
  | [1, 2, 840, 113549, 1, 1, 11] => "sha256WithRSAEncryption"
  | [1, 2, 840, 113549, 1, 1, 12] => "sha384WithRSAEncryption"
  | [1, 2, 840, 113549, 1, 1, 13] => "sha512WithRSAEncryption"
  | [1, 2, 840, 10045, 4, 3, 2] => "ecdsa-with-SHA256"
  | [1, 2, 840, 10045, 4, 3, 3] => "ecdsa-with-SHA384"
  | [1, 3, 101, 112] => "ed25519"
  | _ => c.signature.text

end Certificate

end CertSteward
