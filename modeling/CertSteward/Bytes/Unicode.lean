/-!
# Texts as bytes

Texts are written in units of one, two or four bytes, the most significant byte of a unit first.

## Main definitions

* `Utf8.encode` — the bytes of a text
* `Utf8.decode?`, `Utf16.decode?`, `Utf32.decode?` — the text of bytes, if they are one
-/

namespace CertSteward

namespace Utf8

/-- The bytes of a text. -/
def encode (s : String) : List UInt8 := s.toUTF8.toList

/-- The text of bytes, if they are one. -/
def decode? (bs : List UInt8) : Option String := String.fromUTF8? ⟨bs.toArray⟩

end Utf8

namespace Utf16

/-- The units of two bytes each. -/
def units? : List UInt8 → Option (List Nat)
  | [] => some []
  | [_] => none
  | a :: b :: s => (units? s).map fun us => (256 * a.toNat + b.toNat) :: us

/-- The characters of units; surrogates come in pairs. -/
def chars? : List Nat → Option (List Char)
  | [] => some []
  | u :: us =>
    if u < 0xD800 ∨ 0xDFFF < u then (chars? us).map (Char.ofNat u :: ·)
    else
      match us with
      | v :: vs =>
        if u < 0xDC00 ∧ 0xDC00 ≤ v ∧ v ≤ 0xDFFF then
          (chars? vs).map (Char.ofNat (0x10000 + (u - 0xD800) * 0x400 + (v - 0xDC00)) :: ·)
        else none
      | [] => none

/-- The text of bytes, if they are one. -/
def decode? (bs : List UInt8) : Option String := do
  return String.ofList (← chars? (← units? bs))

end Utf16

namespace Utf32

/-- The characters of bytes, four to each. -/
def chars? : List UInt8 → Option (List Char)
  | [] => some []
  | a :: b :: c :: d :: s =>
    let n := ((a.toNat * 256 + b.toNat) * 256 + c.toNat) * 256 + d.toNat
    if n.isValidChar then (chars? s).map (Char.ofNat n :: ·) else none
  | _ => none

/-- The text of bytes, if they are one. -/
def decode? (bs : List UInt8) : Option String := (chars? bs).map String.ofList

end Utf32

end CertSteward
