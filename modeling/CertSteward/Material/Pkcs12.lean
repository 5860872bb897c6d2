import CertSteward.Bytes.Sha256
import CertSteward.Material.Key

/-!
# PKCS#12 files

A file holds a certificate, its key and at most one certificate of the chain under a passphrase.

In bytes it is a row of bags, one for each certificate and one for the key. A keyed digest over the
bags tells who knows the passphrase that nobody changed them; the bags themselves are not encrypted.

## Main definitions

* `Pkcs12`, `Pkcs12.build` — what a file holds
* `Pkcs12.digestKey` — the key of the digest, from passphrase and salt
* `Pkcs12.toBytes` — the file
-/

namespace CertSteward

/-- What a file holds. -/
structure Pkcs12 where
  /-- The certificate. -/
  leaf : List UInt8
  /-- The certificate of its issuer. -/
  issuer : Option (List UInt8)
  /-- The private key. -/
  key : List UInt8
  /-- The name under which certificate and key are shown. -/
  name : String
  /-- The passphrase. -/
  passphrase : String
deriving DecidableEq, Repr

namespace Pkcs12

/-- Puts the first certificate of a text, the first private key of another and the first
certificate of a chain, which may be blank, into a file. -/
def build (certificate : String) (key : PrivateKey) (chain : String) (passphrase : Option String)
    (name : String) : Except MaterialError Pkcs12 := do
  let leaf := (← Pem.certificates certificate).headD []
  let keyDer ← Pem.privateKey key.text
  let issuer ← if Text.isBlank chain then pure Option.none
    else (Pem.certificates chain).map List.head?
  return { leaf, issuer, key := keyDer, name, passphrase := passphrase.getD "" }

/-- The certificates, that of the chain last. -/
def certificates (p : Pkcs12) : List (List UInt8) := p.leaf :: p.issuer.toList

/-- The shown name of each item: the certificates, then the key. -/
def itemNames (p : Pkcs12) : List (Option String) :=
  some p.name :: p.issuer.toList.map (fun _ => none) ++ [some p.name]

/-- Whether a passphrase opens the file. -/
def opensWith (p : Pkcs12) (passphrase : String) : Bool := passphrase == p.passphrase

/-! ### The bytes -/

/-- A text in two bytes a character, high byte first, as these files hold it. -/
def wideText (s : String) : List UInt8 :=
  s.toList.flatMap fun c =>
    let n := c.toNat
    let units := if n < 0x10000 then [n]
      else [0xD800 + (n - 0x10000) / 0x400, 0xDC00 + (n - 0x10000) % 0x400]
    units.flatMap fun u => [UInt8.ofNat (u / 256), UInt8.ofNat (u % 256)]

/-- A name to show beside what is in a bag. -/
def shownName (name : String) : Der :=
  .sequence [ObjectId.friendlyName.toDer, .set [{ tag := 0x1E, contents := wideText name }]]

/-- A value under a context tag. -/
def tagged (v : Der) : Der := { tag := Der.contextTag 0, contents := v.write }

/-- A bag with its name, if it has one. -/
def bag (kind : ObjectId) (content : Der) (name : Option String) : Der :=
  .sequence ([kind.toDer, tagged content] ++ name.toList.map fun n => .set [shownName n])

/-- A bag with a certificate. -/
def certificateBag (der : List UInt8) (name : Option String) : Der :=
  bag .certificateBag (.sequence [ObjectId.x509Certificate.toDer, tagged (.bytes der)]) name

/-- The bag with the key. It is a written value already. -/
def keyBag (p : Pkcs12) : Der :=
  .sequence [ObjectId.keyBag.toDer, { tag := Der.contextTag 0, contents := p.key },
    .set [shownName p.name]]

/-- Bytes as the content of a container. -/
def contained (bs : List UInt8) : Der :=
  .sequence [ObjectId.plainData.toDer, tagged (.bytes bs)]

/-- All bags. -/
def bags (p : Pkcs12) : Der :=
  .sequence (certificateBag p.leaf (some p.name) ::
    p.issuer.toList.map (fun der => certificateBag der none) ++ [p.keyBag])

/-- `bs` again and again up to a whole number of blocks. -/
def fillBlocks (bs : List UInt8) : List UInt8 :=
  let size := (bs.length + hmacBlock - 1) / hmacBlock * hmacBlock
  (List.replicate size bs).flatten.take size

/-- How often the digest that makes the key is repeated. -/
def rounds : Nat := 256

/-- The key of the digest over the bags. -/
def digestKey (passphrase : String) (salt : List UInt8) : List UInt8 :=
  (List.range rounds).foldl (fun bs _ => sha256 bs)
    (List.replicate hmacBlock 3 ++ fillBlocks salt ++ fillBlocks (wideText passphrase ++ [0, 0]))

/-- The salt, which depends on what the file holds. -/
def salt (p : Pkcs12) : List UInt8 := (sha256 (p.leaf ++ p.key)).take 8

/-- The file. -/
def toBytes (p : Pkcs12) : List UInt8 :=
  let content := (Der.sequence [contained p.bags.write]).write
  let digest := hmacSha256 (digestKey p.passphrase p.salt) content
  let algorithm := Der.sequence [ObjectId.digestSha256.toDer, { tag := 5, contents := [] }]
  (Der.sequence [.integer 3, contained content,
    .sequence [.sequence [algorithm, .bytes digest], .bytes p.salt, .integer rounds]]).write

end Pkcs12

end CertSteward
