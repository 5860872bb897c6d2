import CertSteward.Text.Chars

/-!
# Bytes in hexadecimal

## Main definitions

* `Hex.encode`, `Hex.decode?` — two lower-case digits a byte
* `Hex.encodeUpper` — two upper-case digits a byte
* `Hex.withColons` — the same with colons between the bytes
-/

namespace CertSteward

namespace Hex

/-- A digit in lower case. -/
def digit (n : Nat) : Char := if n < 10 then Char.ofNat (48 + n) else Char.ofNat (87 + n)

/-- The two digits of a byte. -/
def byte (b : UInt8) : List Char := [digit (b.toNat / 16), digit (b.toNat % 16)]

/-- All bytes, two digits each. -/
def encode (bs : List UInt8) : String := String.ofList (bs.flatMap byte)

/-- All bytes, two upper-case digits each. -/
def encodeUpper (bs : List UInt8) : String :=
  String.ofList ((bs.flatMap byte).map Char.toUpper)

/-- All bytes with colons between them. -/
def withColons (bs : List UInt8) : String :=
  Text.join ":" (bs.map fun b => String.ofList (byte b))

/-- Reads pairs of digits. -/
def decodeChars? : List Char → Option (List UInt8)
  | [] => some []
  | [_] => none
  | a :: b :: s => do
    let a ← Chars.hexDigit? a
    let b ← Chars.hexDigit? b
    let rest ← decodeChars? s
    return UInt8.ofNat (16 * a + b) :: rest

/-- Reads bytes. -/
def decode? (s : String) : Option (List UInt8) := decodeChars? s.toList

end Hex

end CertSteward
