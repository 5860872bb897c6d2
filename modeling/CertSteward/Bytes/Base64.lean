/-!
# Base64

Three bytes are written as four characters of six bits each. Two alphabets are in use: the
standard one, which fills the last group with `=`, and the one for URLs and file names, which does
not. Reading is strict: filling has to be there where it is due, and the bits that do not belong to
a byte have to be zero.

## Main definitions

* `Base64.encode`, `Base64.decode?` — the standard alphabet
* `Base64.encodeUrl`, `Base64.decodeUrl?` — the alphabet for URLs, not filled
-/

namespace CertSteward

namespace Base64

/-- The last two characters of an alphabet; the others are the letters and digits. -/
structure Alphabet where
  /-- The character for 62. -/
  c62 : Char
  /-- The character for 63. -/
  c63 : Char
  /-- Whether groups are filled with `=`. -/
  filled : Bool

/-- The standard alphabet. -/
def standard : Alphabet := { c62 := '+', c63 := '/', filled := true }

/-- The alphabet for URLs. -/
def url : Alphabet := { c62 := '-', c63 := '_', filled := false }

/-- The character of a number below 64. -/
def Alphabet.char (a : Alphabet) (n : Nat) : Char :=
  if n < 26 then Char.ofNat (65 + n)
  else if n < 52 then Char.ofNat (71 + n)
  else if n < 62 then Char.ofNat (n - 4)
  else if n = 62 then a.c62
  else a.c63

/-- The number of a character. -/
def Alphabet.value? (a : Alphabet) (c : Char) : Option Nat :=
  if 'A' ≤ c ∧ c ≤ 'Z' then some (c.toNat - 65)
  else if 'a' ≤ c ∧ c ≤ 'z' then some (c.toNat - 71)
  else if '0' ≤ c ∧ c ≤ '9' then some (c.toNat + 4)
  else if c = a.c62 then some 62
  else if c = a.c63 then some 63
  else none

/-- The filling of a group. -/
def Alphabet.fill (a : Alphabet) (n : Nat) : List Char :=
  if a.filled then List.replicate n '=' else []

/-- Writes bytes, three at a time. -/
def encodeWith (a : Alphabet) : List UInt8 → List Char
  | [] => []
  | [x] =>
    let x := x.toNat
    a.char (x / 4) :: a.char (x % 4 * 16) :: a.fill 2
  | [x, y] =>
    let x := x.toNat
    let y := y.toNat
    a.char (x / 4) :: a.char (x % 4 * 16 + y / 16) :: a.char (y % 16 * 4) :: a.fill 1
  | x :: y :: z :: rest =>
    let w := z.toNat
    let v := y.toNat
    let u := x.toNat
    a.char (u / 4) :: a.char (u % 4 * 16 + v / 16) :: a.char (v % 16 * 4 + w / 64) ::
      a.char (w % 64) :: encodeWith a rest

/-- Reads a last group of two characters: one byte. -/
def decodeTwo? (a : Alphabet) (c d : Char) : Option (List UInt8) := do
  let p ← a.value? c
  let q ← a.value? d
  if q % 16 = 0 then some [UInt8.ofNat (p * 4 + q / 16)] else none

/-- Reads a last group of three characters: two bytes. -/
def decodeThree? (a : Alphabet) (c d e : Char) : Option (List UInt8) := do
  let p ← a.value? c
  let q ← a.value? d
  let r ← a.value? e
  if r % 4 = 0 then some [UInt8.ofNat (p * 4 + q / 16), UInt8.ofNat (q % 16 * 16 + r / 4)] else none

/-- Reads characters, four at a time. -/
def decodeWith? (a : Alphabet) : List Char → Option (List UInt8)
  | [] => some []
  | [_] => none
  | [c, d] => if a.filled then none else decodeTwo? a c d
  | [c, d, e] => if a.filled then none else decodeThree? a c d e
  | c :: d :: e :: f :: rest =>
    if f = '=' then
      if a.filled ∧ rest = [] then (if e = '=' then decodeTwo? a c d else decodeThree? a c d e)
      else none
    else do
      let p ← a.value? c
      let q ← a.value? d
      let r ← a.value? e
      let s ← a.value? f
      let more ← decodeWith? a rest
      return UInt8.ofNat (p * 4 + q / 16) :: UInt8.ofNat (q % 16 * 16 + r / 4) ::
        UInt8.ofNat (r % 4 * 64 + s) :: more

/-- Writes bytes in the standard alphabet. -/
def encode (bs : List UInt8) : String := String.ofList (encodeWith standard bs)

/-- Reads the standard alphabet. -/
def decode? (s : String) : Option (List UInt8) := decodeWith? standard s.toList

/-- Writes bytes in the alphabet for URLs. -/
def encodeUrl (bs : List UInt8) : String := String.ofList (encodeWith url bs)

/-- Reads the alphabet for URLs. -/
def decodeUrl? (s : String) : Option (List UInt8) := decodeWith? url s.toList

end Base64

end CertSteward
