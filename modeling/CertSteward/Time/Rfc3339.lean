import CertSteward.Text.Chars
import CertSteward.Time.Calendar
import CertSteward.Time.Instant

/-!
# Written times

Times are written in UTC with 0, 3, 6 or 9 digits of fraction, the fewest that lose nothing, and
read in a relaxed form of RFC 3339: blanks may stand between the parts, fields may drop leading
zeros, the date and the time of day may be separated by a blank, and a year with a sign may have
any number of digits.

## Main definitions

* `Instant.toRfc3339` — `2024-03-01T12:00:00.500Z`
* `Instant.toText` — `2024-03-01 12:00:00.500 UTC`, the form used inside messages
* `Instant.ofRfc3339?` — reading
-/

namespace CertSteward

namespace Instant

/-! ### Writing -/

/-- A year, with a sign outside 0 to 9999. -/
def yearText (y : Int) : List Char :=
  if 0 ≤ y ∧ y ≤ 9999 then Chars.padNat 4 y.toNat
  else (if y < 0 then '-' else '+') :: Chars.padNat 4 y.natAbs

/-- The date part. -/
def dateText (a : Instant) : List Char :=
  let c := Civil.ofDays (a.seconds / daySeconds)
  yearText c.year ++ '-' :: Chars.padNat 2 c.month ++ '-' :: Chars.padNat 2 c.day

/-- The fraction of a second with 0, 3, 6 or 9 digits, the fewest that lose nothing. -/
def fractionText (nanos : Nat) : List Char :=
  if nanos = 0 then []
  else if nanos % 1000000 = 0 then '.' :: Chars.padNat 3 (nanos / 1000000)
  else if nanos % 1000 = 0 then '.' :: Chars.padNat 6 (nanos / 1000)
  else '.' :: Chars.padNat 9 nanos

/-- The time of day; a leap second is second 60. -/
def timeText (a : Instant) : List Char :=
  let s := a.secondOfDay.toNat
  let second := s % 60 + a.nanos / 1000000000
  Chars.padNat 2 (s / 3600) ++ ':' :: Chars.padNat 2 (s / 60 % 60) ++
    ':' :: Chars.padNat 2 second ++
    fractionText (a.nanos % 1000000000)

/-- The written form with `Z`. -/
def toRfc3339 (a : Instant) : String :=
  String.ofList (dateText a ++ 'T' :: timeText a ++ ['Z'])

/-- The form used in messages. -/
def toText (a : Instant) : String :=
  String.ofList (dateText a ++ ' ' :: timeText a) ++ " UTC"

/-! ### Reading -/

/-- Reads 1 to `width` decimal digits. -/
def number? (width : Nat) (s : List Char) : Option (Nat × List Char) :=
  let ds := (s.take width).takeWhile Char.isDigit
  if ds = [] then none else some (Chars.natOfDigits ds, s.drop ds.length)

/-- Reads a field of at most two digits that is at most `max`. -/
def field? (max : Nat) (s : List Char) : Option (Nat × List Char) :=
  match number? 2 (Chars.trimStart s) with
  | some (n, s) => if n ≤ max then some (n, s) else none
  | none => none

/-- Reads a year: with a sign any number of digits, else at most four. -/
def year? (s : List Char) : Option (Int × List Char) :=
  match Chars.trimStart s with
  | '-' :: s => (number? s.length s).map fun (n, s) => (-n, s)
  | '+' :: s => (number? s.length s).map fun (n, s) => (n, s)
  | s => (number? 4 s).map fun (n, s) => (n, s)

/-- Skips blanks and then the character `c`. -/
def literal? (c : Char) (s : List Char) : Option (List Char) :=
  match Chars.trimStart s with
  | d :: s => if d = c then some s else none
  | [] => none

/-- Reads an optional fraction, of which nine digits count. -/
def fraction? (s : List Char) : Option (Nat × List Char) :=
  match s with
  | '.' :: s =>
    match number? 9 s with
    | some (n, rest) =>
      some (n * Nat.pow 10 (9 - (s.length - rest.length)), rest.dropWhile Char.isDigit)
    | none => none
  | s => some (0, s)

/-- Reads the offset from UTC in seconds: `UTC`, `Z`, or a sign with hours and minutes. -/
def offset? (s : List Char) : Option (Int × List Char) :=
  match s with
  | a :: b :: c :: rest =>
    if Chars.lower [a, b, c] = ['u', 't', 'c'] then some (0, rest) else numeric s
  | _ => numeric s
where
  /-- `Z`, or a sign, two digits of hours and two of minutes. -/
  numeric (s : List Char) : Option (Int × List Char) :=
    match s with
    | [] => none
    | sign :: s =>
      if sign = 'Z' ∨ sign = 'z' then some (0, s)
      else if sign = '+' ∨ sign = '-' ∨ sign = '−' then
        match s with
        | a :: b :: s =>
          let minutes := s.dropWhile fun c => c == ':' || Chars.isBlank c
          match Chars.digit? a, Chars.digit? b, minutes with
          | some h₁, some h₂, c :: d :: rest =>
            match Chars.digit? c, Chars.digit? d with
            | some m₁, some m₂ =>
              if m₁ ≤ 5 then
                let t : Int := ((10 * h₁ + h₂) * 3600 + (10 * m₁ + m₂) * 60 : Nat)
                some (if sign = '+' then t else -t, rest)
              else none
            | _, _ => none
          | _, _, _ => none
        | _ => none
      else none

/-- Reads a time. -/
def ofRfc3339? (text : String) : Option Instant := do
  let (year, s) ← year? text.toList
  let s ← literal? '-' s
  let (month, s) ← field? 12 s
  let s ← literal? '-' s
  let (day, s) ← field? 31 s
  let s ← match s with
    | c :: s => if c = 'T' ∨ c = 't' ∨ c = ' ' then some s else none
    | [] => none
  let (hour, s) ← field? 23 s
  let s ← literal? ':' s
  let (minute, s) ← field? 59 s
  let s ← literal? ':' s
  let (second, s) ← field? 60 s
  let (nanos, s) ← fraction? s
  let (offset, s) ← offset? (Chars.trimStart s)
  if Chars.trimStart s ≠ [] then none
  let date : Civil := { year, month, day }
  if ¬ date.IsValid ∨ offset.natAbs ≥ 86400 then none
  let leap := if second = 60 then 1 else 0
  let local' := date.toDays * daySeconds + (hour * 3600 + minute * 60 + (second - leap) : Nat)
  let a : Instant := { seconds := local' - offset, nanos := nanos + leap * 1000000000 }
  if local' < minSeconds ∨ maxSeconds < local' ∨ ¬ a.InCalendar then none
  return a

end Instant

end CertSteward
