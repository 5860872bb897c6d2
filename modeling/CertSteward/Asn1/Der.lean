/-!
# Values in the distinguished encoding

Every value is a tag byte, a length and contents. Lengths below 128 are one byte; longer ones are
a byte that tells how many bytes of length follow. Lengths that are left open, and tags of more
than one byte, do not occur.

## Main definitions

* `Der`, `Der.read?`, `Der.write` — one value
* `Der.readAll?` — a row of values
* `Der.sequence`, `Der.integer`, … — values of the usual kinds
-/

namespace CertSteward

/-- A value with nothing read inside it. -/
structure Der where
  /-- Kind and class. -/
  tag : UInt8
  /-- The bytes inside. -/
  contents : List UInt8
deriving DecidableEq, Repr

namespace Der

/-! ### Tags -/

/-- Truth value. -/
def booleanTag : UInt8 := 0x01
/-- Whole number. -/
def integerTag : UInt8 := 0x02
/-- Row of bits. -/
def bitsTag : UInt8 := 0x03
/-- Row of bytes. -/
def bytesTag : UInt8 := 0x04
/-- Object identifier. -/
def objectTag : UInt8 := 0x06
/-- Text in UTF-8. -/
def textTag : UInt8 := 0x0C
/-- Time with a year of two digits. -/
def shortTimeTag : UInt8 := 0x17
/-- Time with a year of four digits. -/
def longTimeTag : UInt8 := 0x18
/-- Sequence of values. -/
def sequenceTag : UInt8 := 0x30
/-- Set of values. -/
def setTag : UInt8 := 0x31

/-- A constructed value of number `n` whose meaning its place gives. -/
def contextTag (n : UInt8) : UInt8 := 0xA0 + n

/-- A plain value of number `n` whose meaning its place gives. -/
def plainContextTag (n : UInt8) : UInt8 := 0x80 + n

/-! ### Reading -/

/-- A number written in bytes, most significant first. -/
def natOfBytes (bs : List UInt8) : Nat := bs.foldl (fun n b => 256 * n + b.toNat) 0

/-- The length at the start and what follows it. -/
def length? : List UInt8 → Option (Nat × List UInt8)
  | [] => none
  | b :: s =>
    let n := b.toNat
    if n < 128 then some (n, s)
    else
      let k := n - 128
      if k = 0 ∨ k = 127 ∨ s.length < k then none else some (natOfBytes (s.take k), s.drop k)

/-- The first value and what follows it. -/
def read? : List UInt8 → Option (Der × List UInt8)
  | [] => none
  | tag :: s =>
    if tag.toNat % 32 = 31 then none
    else
      match length? s with
      | some (n, s) =>
        if s.length < n then none else some ({ tag, contents := s.take n }, s.drop n)
      | none => none

/-- The first value, if it has that tag, as its contents. -/
def readTag? (tag : UInt8) (s : List UInt8) : Option (List UInt8 × List UInt8) :=
  match read? s with
  | some (v, s) => if v.tag = tag then some (v.contents, s) else none
  | none => none

/-- The number that is not negative, written in the fewest bytes. -/
def nat? : List UInt8 → Option Nat
  | [] => none
  | [b] => if b.toNat < 128 then some b.toNat else none
  | b :: c :: s =>
    if b.toNat < 128 ∧ (b ≠ 0 ∨ 128 ≤ c.toNat) then some (natOfBytes (b :: c :: s)) else none

/-- A row of bits, as its bytes. The first byte tells how many bits of the last one do not count;
these are zero. -/
def bitsOf? : List UInt8 → Option (List UInt8)
  | [] => none
  | free :: bs =>
    let last := bs.getLast?.getD 0
    if free.toNat < 8 ∧ last.toNat % Nat.pow 2 free.toNat = 0 then some bs else none

/-- The first value, if it is a row of bits. -/
def readBits? (s : List UInt8) : Option (List UInt8 × List UInt8) := do
  let (contents, s) ← readTag? bitsTag s
  return (← bitsOf? contents, s)

/-- At most `fuel` values; what follows them is given back. -/
def readMany : Nat → List UInt8 → List Der × List UInt8
  | 0, s => ([], s)
  | fuel + 1, s =>
    match read? s with
    | some (v, s) =>
      let (vs, s) := readMany fuel s
      (v :: vs, s)
    | none => ([], s)

/-- The values of which `s` consists. -/
def readAll? (s : List UInt8) : Option (List Der) :=
  match readMany s.length s with
  | (vs, []) => some vs
  | _ => none

/-! ### Writing -/

/-- The bytes of a number, most significant first, none for zero. -/
def bytesOfNat (n : Nat) : List UInt8 :=
  if n = 0 then [] else bytesOfNat (n / 256) ++ [UInt8.ofNat (n % 256)]
termination_by n
decreasing_by omega

/-- A length. -/
def lengthBytes (n : Nat) : List UInt8 :=
  if n < 128 then [UInt8.ofNat n]
  else
    let bs := bytesOfNat n
    UInt8.ofNat (128 + bs.length) :: bs

/-- The bytes of a value. -/
def write (v : Der) : List UInt8 := v.tag :: lengthBytes v.contents.length ++ v.contents

/-- The bytes of a row of values. -/
def writeAll (vs : List Der) : List UInt8 := vs.flatMap write

/-! ### Usual kinds -/

/-- A sequence. -/
def sequence (vs : List Der) : Der := { tag := sequenceTag, contents := writeAll vs }

/-- A set. -/
def set (vs : List Der) : Der := { tag := setTag, contents := writeAll vs }

/-- A number that is not negative, from its bytes; a zero in front keeps the sign. -/
def integerOfBytes (bs : List UInt8) : Der :=
  let bs := bs.dropWhile (· == 0)
  { tag := integerTag
    contents := match bs with
      | [] => [0]
      | b :: _ => if b.toNat < 128 then bs else 0 :: bs }

/-- A number. -/
def integer (n : Nat) : Der := integerOfBytes (bytesOfNat n)

/-- A row of bits that fills its bytes. -/
def bits (bs : List UInt8) : Der := { tag := bitsTag, contents := 0 :: bs }

/-- A row of bytes. -/
def bytes (bs : List UInt8) : Der := { tag := bytesTag, contents := bs }

/-- A truth value. -/
def boolean (b : Bool) : Der := { tag := booleanTag, contents := [if b then 0xFF else 0] }

/-- A text. -/
def text (s : String) : Der := { tag := textTag, contents := s.toUTF8.toList }

end Der

end CertSteward
