import CertSteward.Asn1.Der
import CertSteward.Text.Chars

/-!
# Object identifiers

An identifier is a path of numbers. The first two are packed into the first byte, as forty times the
one plus the other; each further number is written in groups of seven bits, all but the last group
marked by the high bit.

## Main definitions

* `ObjectId`, `ObjectId.ofBytes?`, `ObjectId.toDer`, `ObjectId.text`
-/

namespace CertSteward

/-- A path of numbers. -/
structure ObjectId where
  /-- The numbers. -/
  path : List Nat
deriving DecidableEq, Repr

namespace ObjectId

/-- The numbers written in `s`, after a part of one that is `n` so far. A number that is broken off
counts with what there is of it. -/
def groups (n : Option Nat) : List UInt8 → List Nat
  | [] => n.toList
  | b :: s =>
    let b := b.toNat
    let n := 128 * n.getD 0 + b % 128
    if b < 128 then n :: groups none s else groups (some n) s

/-- Reads the contents of an identifier. A zero byte alone is the path of one zero. -/
def ofBytes? (bs : List UInt8) : Option ObjectId :=
  match bs with
  | [] => none
  | [0] => some { path := [0] }
  | b :: s => some { path := b.toNat / 40 :: b.toNat % 40 :: groups none s }

/-- The groups of a number before its last one. -/
def highGroups (n : Nat) : List UInt8 :=
  if n = 0 then [] else highGroups (n / 128) ++ [UInt8.ofNat (128 + n % 128)]
termination_by n
decreasing_by omega

/-- The groups of a number. -/
def numberBytes (n : Nat) : List UInt8 := highGroups (n / 128) ++ [UInt8.ofNat (n % 128)]

/-- The contents of an identifier. -/
def toBytes (o : ObjectId) : List UInt8 :=
  match o.path with
  | a :: b :: rest => UInt8.ofNat (40 * a + b) :: rest.flatMap numberBytes
  | ns => ns.flatMap numberBytes

/-- An identifier as a value. -/
def toDer (o : ObjectId) : Der := { tag := Der.objectTag, contents := o.toBytes }

/-- The numbers with dots between them. -/
def text (o : ObjectId) : String := Text.join "." (o.path.map toString)

/-! ### Names of attributes -/

/-- Common name. -/
def commonName : ObjectId := ⟨[2, 5, 4, 3]⟩
/-- Organization. -/
def organization : ObjectId := ⟨[2, 5, 4, 10]⟩

/-! ### Extensions -/

/-- Further names of a certificate. -/
def subjectNames : ObjectId := ⟨[2, 5, 29, 17]⟩
/-- Extensions asked for in a request. -/
def extensionRequest : ObjectId := ⟨[1, 2, 840, 113549, 1, 9, 14]⟩

/-! ### Keys and signatures -/

/-- ECDSA with SHA-256. -/
def ecdsaSha256 : ObjectId := ⟨[1, 2, 840, 10045, 4, 3, 2]⟩
/-- RSA with SHA-256. -/
def rsaSha256 : ObjectId := ⟨[1, 2, 840, 113549, 1, 1, 11]⟩
/-- Elliptic-curve key. -/
def ellipticKey : ObjectId := ⟨[1, 2, 840, 10045, 2, 1]⟩
/-- RSA key. -/
def rsaKey : ObjectId := ⟨[1, 2, 840, 113549, 1, 1, 1]⟩
/-- The curve P-256. -/
def curveP256 : ObjectId := ⟨[1, 2, 840, 10045, 3, 1, 7]⟩
/-- The digest SHA-256. -/
def digestSha256 : ObjectId := ⟨[2, 16, 840, 1, 101, 3, 4, 2, 1]⟩

/-! ### Containers -/

/-- Plain bytes. -/
def plainData : ObjectId := ⟨[1, 2, 840, 113549, 1, 7, 1]⟩
/-- A name to show. -/
def friendlyName : ObjectId := ⟨[1, 2, 840, 113549, 1, 9, 20]⟩
/-- A certificate. -/
def x509Certificate : ObjectId := ⟨[1, 2, 840, 113549, 1, 9, 22, 1]⟩
/-- A bag with a key. -/
def keyBag : ObjectId := ⟨[1, 2, 840, 113549, 1, 12, 10, 1, 1]⟩
/-- A bag with a certificate. -/
def certificateBag : ObjectId := ⟨[1, 2, 840, 113549, 1, 12, 10, 1, 3]⟩

end ObjectId

end CertSteward
