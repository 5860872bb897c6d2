import CertSteward.Asn1.ObjectId
import CertSteward.Bytes.Sha256
import CertSteward.Config.Choices
import CertSteward.Material.Pem

/-!
# Keys

A key pair is known here by the secret it was made from. Its two halves carry the structure that
other programs expect; the numbers inside are digests of the secret, and a signature is a digest
of secret and message. Nothing in this library computes with them or checks them.

## Main definitions

* `KeySpec` — which kind of key to make
* `KeyPair`, `KeyPair.make` — a key pair from fresh bytes
* `PrivateKey` — the text of a private key, which is never shown
-/

namespace CertSteward

/-- Which kind of key to make. -/
inductive KeySpec
  | rsa (bits : Nat)
  | ecdsaP256
deriving DecidableEq, Repr

instance : Inhabited KeySpec := ⟨.rsa 2048⟩

namespace KeySpec

/-- Whether RSA keys of that size are made. -/
def isSize (bits : Nat) : Bool := bits == 2048 || bits == 3072 || bits == 4096

/-- An RSA key of a size that is made. -/
def rsaOf (bits : Nat) : Except MaterialError KeySpec :=
  if isSize bits then .ok (.rsa bits) else .error (.invalidKeySize bits)

/-- The kind of key that a configuration names. -/
def ofKeyType : KeyType → KeySpec
  | .rsa2048 => rsa 2048
  | .rsa3072 => rsa 3072
  | .rsa4096 => rsa 4096
  | .ecdsaP256 => ecdsaP256

end KeySpec

/-- The text of a private key, which may be blank. -/
structure PrivateKey where
  /-- The text. -/
  text : String
deriving DecidableEq, Inhabited

namespace PrivateKey

/-- No key. -/
def none : PrivateKey := { text := "" }

/-- Whether there is no key. -/
def isBlank (k : PrivateKey) : Bool := Text.isBlank k.text

/-- What is shown in place of a key. -/
def shown : String := "<redacted>"

/-- What is shown of a key inside a larger value: only whether there is one. -/
def described (k : PrivateKey) : String :=
  "PrivateKeyPem(" ++ (if k.isBlank then "<empty>" else shown) ++ ")"

end PrivateKey

/-- A key pair. -/
structure KeyPair where
  /-- Its kind. -/
  spec : KeySpec
  /-- The bytes it was made from. -/
  secret : List UInt8
deriving DecidableEq, Repr, Inhabited

namespace KeyPair

/-- Makes a key pair from fresh bytes. -/
def make (spec : KeySpec) (fresh : List UInt8) : Except MaterialError KeyPair :=
  match spec with
  | .rsa bits =>
    if KeySpec.isSize bits then .ok { spec, secret := fresh } else .error (.invalidKeySize bits)
  | .ecdsaP256 => .ok { spec, secret := fresh }

/-- `n` bytes that depend on the secret and on `label`. -/
def derive (k : KeyPair) (label : String) (n : Nat) : List UInt8 :=
  ((List.range ((n + 31) / 32)).flatMap fun i =>
    sha256 (k.secret ++ Utf8.encode (label ++ toString i))).take n

/-- The algorithm of the key, as it stands in front of both halves. -/
def algorithm (k : KeyPair) : Der :=
  match k.spec with
  | .rsa _ => .sequence [ObjectId.rsaKey.toDer, { tag := 5, contents := [] }]
  | .ecdsaP256 => .sequence [ObjectId.ellipticKey.toDer, ObjectId.curveP256.toDer]

/-- The bits of the public half. -/
def publicBits (k : KeyPair) : List UInt8 :=
  match k.spec with
  | .rsa bits =>
    (Der.sequence [.integerOfBytes (0x80 :: k.derive "modulus" (bits / 8 - 1)),
      .integer 65537]).write
  | .ecdsaP256 => 4 :: k.derive "point" 64

/-- The public half. -/
def publicKey (k : KeyPair) : Der := .sequence [k.algorithm, .bits k.publicBits]

/-- The private half. -/
def privateDer (k : KeyPair) : List UInt8 :=
  let inner := Der.sequence [.integer 1, .bytes (k.derive "private" 32), .bits k.publicBits]
  (Der.sequence [.integer 0, k.algorithm, .bytes inner.write]).write

/-- The private half as text. -/
def privateKey (k : KeyPair) : PrivateKey :=
  { text := Pem.encode [{ tag := Pem.privateKeyTag, contents := k.privateDer }] }

/-- The algorithm of signatures by the key. -/
def signatureKind (k : KeyPair) : ObjectId :=
  match k.spec with
  | .rsa _ => .rsaSha256
  | .ecdsaP256 => .ecdsaSha256

/-- A signature. -/
def sign (k : KeyPair) (message : List UInt8) : List UInt8 :=
  (Der.sequence [.integerOfBytes (sha256 (k.secret ++ message)),
    .integerOfBytes (sha256 (message ++ k.secret))]).write

end KeyPair

end CertSteward
