import CertSteward.Asn1.Der
import CertSteward.Text.Chars
import CertSteward.Time.Calendar
import CertSteward.Time.Instant

/-!
# Times of a certificate

Two forms are in use: one with a year of two digits, which covers 1950 to 2049, and one with four.
Writing takes the short form for the years it covers. Fractions of a second are read and dropped.

## Main definitions

* `Asn1Time.read?`, `Asn1Time.write`
-/

namespace CertSteward

namespace Asn1Time

/-- Reads two decimal digits. -/
def two? : List Char → Option (Nat × List Char)
  | a :: b :: s => do
    let a ← Chars.digit? a
    let b ← Chars.digit? b
    return (10 * a + b, s)
  | _ => none

/-- Reads the seconds, which may be missing if only the zone follows. -/
def seconds? (s : List Char) : Option (Nat × List Char) :=
  match s with
  | [] => none
  | [c] => some (0, [c])
  | s => two? s

/-- Drops a fraction of up to three digits. -/
def skipFraction? : List Char → Option (List Char)
  | '.' :: s =>
    let ds := s.takeWhile Char.isDigit
    if ds.length ≤ 3 then some (s.drop ds.length) else none
  | s => some s

/-- Reads the zone, as seconds ahead of UTC. The sign is that of the hours: where they are zero, the
minutes count as ahead. -/
def zone? : List Char → Option Int
  | ['Z'] => some 0
  | sign :: s => do
    let (h, s) ← two? s
    let (m, s) ← two? s
    let offset : Int := (h * 3600 + m * 60 : Nat)
    if s ≠ [] ∨ h > 25 ∨ m > 59 then none
    else if sign = '+' then some offset
    else if sign = '-' then some (if h = 0 then offset else -offset)
    else none
  | [] => none

/-- Month, day and time of day. -/
def rest? (year : Int) (hasFraction : Bool) (s : List Char) : Option Instant := do
  let (month, s) ← two? s
  let (day, s) ← two? s
  let (hour, s) ← two? s
  let (minute, s) ← two? s
  let (second, s) ← seconds? s
  let s ← if hasFraction then skipFraction? s else some s
  let offset ← zone? s
  let date : Civil := { year, month, day }
  if date.IsValid ∧ hour ≤ 23 ∧ minute ≤ 59 ∧ second ≤ 59 then
    some ⟨date.toDays * Instant.daySeconds + (hour * 3600 + minute * 60 + second : Nat) - offset, 0⟩
  else none

/-- The characters of contents that are plain ASCII. -/
def chars? (bs : List UInt8) : Option (List Char) :=
  if bs.all fun b => 0x20 ≤ b.toNat && b.toNat ≤ 0x7F then
    some (bs.map fun b => Char.ofNat b.toNat)
  else none

/-- Reads a time of either form. The long form has to end in `Z`. -/
def read? (v : Der) : Option Instant := do
  let s ← chars? v.contents
  let (high, t) ← two? s
  if v.tag = Der.shortTimeTag then
    rest? (if high ≥ 50 then 1900 + high else 2000 + high) false t
  else if v.tag = Der.longTimeTag ∧ s.getLast? = some 'Z' then
    let (low, t) ← two? t
    rest? (100 * high + low : Nat) true t
  else none

/-- Writes a time to the second. -/
def write (a : Instant) : Der :=
  let date := Civil.ofDays (a.seconds / Instant.daySeconds)
  let s := a.secondOfDay.toNat
  let rest := [date.month, date.day, s / 3600, s / 60 % 60, s % 60].flatMap (Chars.padNat 2)
  let bytes (cs : List Char) := cs.map fun c => UInt8.ofNat c.toNat
  if 1950 ≤ date.year ∧ date.year ≤ 2049 then
    { tag := Der.shortTimeTag
      contents := bytes (Chars.padNat 2 (date.year % 100).toNat ++ rest ++ ['Z']) }
  else
    { tag := Der.longTimeTag, contents := bytes (Chars.padNat 4 date.year.toNat ++ rest ++ ['Z']) }

end Asn1Time

end CertSteward
