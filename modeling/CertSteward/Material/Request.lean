import CertSteward.Domain.Name
import CertSteward.Material.Certificate
import CertSteward.Material.Key
import CertSteward.Net.Address

/-!
# Certificate requests

A request names the domains that a certificate is to hold. The first one is also the common name.
A name that reads as an internet address is asked for as an address, every other as a DNS name,
which has to be ASCII.

## Main definitions

* `CertificateRequest`, `CertificateRequest.ofBytes?`, `CertificateRequest.toDer`
* `CertificateRequest.build` — the request for a list of names
-/

namespace CertSteward

/-- A request without its signature. -/
structure CertificateRequest where
  /-- Whom the certificate is for. -/
  subject : DistinguishedName
  /-- The names it is to hold. -/
  names : List GeneralName
  /-- The public key it is to hold. -/
  publicKey : Der
  /-- The algorithm of the signature. -/
  signature : ObjectId
deriving DecidableEq, Repr

namespace CertificateRequest

/-- A name as it is asked for. -/
def generalName? (name : String) : Option GeneralName :=
  match Address.bytes? name with
  | some bytes => some (.address bytes)
  | none => if name.toList.all fun c => c.toNat < 128 then some (.dns name) else none

/-- The request for a list of names. -/
def ofNames (names : List String) (key : KeyPair) : Except MaterialError CertificateRequest :=
  match names.mapM generalName? with
  | some general =>
    .ok { subject := .ofTexts [(.commonName, names.headD "")], names := general
          publicKey := key.publicKey, signature := key.signatureKind }
  | none => .error (.request "a name is not ASCII")

/-- The request for a primary domain, further domains and possibly a wildcard, with the list of
their names. -/
def build (primary : String) (others : List String) (wildcard : Bool) (key : KeyPair) :
    Except MaterialError (List String × CertificateRequest) :=
  match nameList? primary others wildcard with
  | none => .error .noNames
  | some names => (ofNames names key).map fun r => (names, r)

/-- The part of a request that is signed. -/
def body (r : CertificateRequest) : Der :=
  let extensions := Der.sequence [(Extension.subjectNames r.names).toDer]
  let asked := Der.sequence [ObjectId.extensionRequest.toDer, .set [extensions]]
  .sequence [.integer 0, r.subject.toDer, r.publicKey,
    { tag := Der.contextTag 0, contents := asked.write }]

/-- A request with its signature. -/
def toDer (r : CertificateRequest) (key : KeyPair) : Der :=
  .sequence [r.body, .sequence [r.signature.toDer], .bits (key.sign r.body.write)]

/-- Reads the attribute that asks for extensions. -/
def requested? (v : Der) : Option (List Extension) := do
  let (kind, s) ← Der.readTag? Der.objectTag v.contents
  if ← (ObjectId.ofBytes? kind).map (· == .extensionRequest) then
    let (s, _) ← Der.readTag? Der.setTag s
    let (s, _) ← Der.readTag? Der.sequenceTag s
    (← Der.readAll? s).mapM Extension.ofDer?
  else some []

/-- Reads a request. -/
def ofBytes? (bs : List UInt8) : Option CertificateRequest := do
  let (outer, _) ← Der.readTag? Der.sequenceTag bs
  let (s, afterBody) ← Der.readTag? Der.sequenceTag outer
  let (_, s) ← Der.readTag? Der.integerTag s
  let (subject, s) ← Der.readTag? Der.sequenceTag s
  let (publicKey, s) ← Der.readTag? Der.sequenceTag s
  let (attributes, _) ← Der.readTag? (Der.contextTag 0) s
  let extensions ← (← Der.readAll? attributes).mapM requested?
  let names ← match extensions.flatten.find? fun e => e.kind == .subjectNames with
    | some e => GeneralName.listOfBytes? e.value
    | none => some []
  let (signature, afterAlgorithm) ← Certificate.algorithm? afterBody
  let _ ← Der.readTag? Der.bitsTag afterAlgorithm
  return { subject := .ofBytes subject, names, signature
           publicKey := { tag := Der.sequenceTag, contents := publicKey } }

/-- The written form of a name that is asked for. -/
def nameText (n : GeneralName) : String :=
  match n.dnsText?, n.addressBytes? with
  | some name, _ => "DNS:" ++ name
  | none, some bytes => "IP:" ++ Hex.encode bytes
  | none, none => Hex.encode n.write

/-- A request as PEM text. -/
def toPem (der : List UInt8) : String := Pem.encode [{ tag := Pem.requestTag, contents := der }]

end CertificateRequest

end CertSteward
