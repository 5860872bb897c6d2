import CertSteward.Text.Chars

/-!
# Instants and durations

An instant is a count of whole seconds since 1970-01-01T00:00:00Z together with nanoseconds. The
nanoseconds may reach `2 * 10 ^ 9 - 1`: values from `10 ^ 9` up are readings inside a leap second,
which is written as second 60 of its minute. Instants are ordered by seconds first and nanoseconds
second, so a leap second lies before the following midnight.

Durations are natural numbers of nanoseconds. A duration is written in the largest of the units
seconds, milliseconds, microseconds and nanoseconds that is not above it, with as many decimals as
it takes.

## Main definitions

* `Instant`, `Instant.lt`, `Instant.sub` — instants, their order, the signed time between two
* `Instant.addSeconds?` — a later instant, if the calendar reaches that far
* `Duration` — a length of time
* `Duration.text` — `1.5s`, `30ms`, `0ns`
-/

namespace CertSteward

/-- A length of time in nanoseconds. -/
abbrev Duration := Nat

namespace Duration

/-- Nanoseconds in a second. -/
def second : Duration := 1000000000

/-- `n` seconds. -/
def ofSeconds (n : Nat) : Duration := n * second

/-- `n` milliseconds. -/
def ofMillis (n : Nat) : Duration := n * 1000000

/-- Whole seconds. -/
def seconds (d : Duration) : Nat := d / second

/-- Nanoseconds beyond the last whole second. -/
def subsecond (d : Duration) : Nat := d % second

/-- Whole milliseconds. -/
def millis (d : Duration) : Nat := d / 1000000

/-- Rounded up to whole milliseconds. -/
def ceilMillis (d : Duration) : Duration := (d + 999999) / 1000000 * 1000000

/-- A number of seconds. -/
def toFloat (d : Duration) : Float :=
  Float.ofNat d.seconds + Float.ofNat d.subsecond / 1000000000.0

end Duration

/-- A point in time. -/
structure Instant where
  /-- Whole seconds since the start of 1970, UTC. -/
  seconds : Int
  /-- Nanoseconds within the second; from `10 ^ 9` up inside a leap second. -/
  nanos : Nat := 0
deriving DecidableEq, Repr, Inhabited

namespace Instant

/-- Earlier than: seconds first, nanoseconds second. -/
instance : LT Instant where
  lt a b := a.seconds < b.seconds ∨ (a.seconds = b.seconds ∧ a.nanos < b.nanos)

/-- Earlier than or equal to. -/
instance : LE Instant where
  le a b := a.seconds < b.seconds ∨ (a.seconds = b.seconds ∧ a.nanos ≤ b.nanos)

instance (a b : Instant) : Decidable (a < b) :=
  inferInstanceAs (Decidable (a.seconds < b.seconds ∨ (a.seconds = b.seconds ∧ a.nanos < b.nanos)))

instance (a b : Instant) : Decidable (a ≤ b) :=
  inferInstanceAs (Decidable (a.seconds < b.seconds ∨ (a.seconds = b.seconds ∧ a.nanos ≤ b.nanos)))

/-- Seconds in a day. -/
def daySeconds : Int := 86400

/-- The later of two instants. -/
def max (a b : Instant) : Instant := if a < b then b else a

/-- The second of the day, from 0 to 86399. -/
def secondOfDay (a : Instant) : Int := a.seconds % daySeconds

/-- The time from `b` to `a` in nanoseconds.

A leap second counts as a second of its own when the two readings straddle it within one day. -/
def sub (a b : Instant) : Int :=
  let leap : Int :=
    if a.secondOfDay > b.secondOfDay then (if b.nanos ≥ 1000000000 then 1 else 0)
    else if a.secondOfDay < b.secondOfDay then (if a.nanos ≥ 1000000000 then -1 else 0)
    else 0
  (a.seconds - b.seconds + leap) * 1000000000 + ((a.nanos : Int) - b.nanos)

/-- The first second of the calendar, at the start of the year -262143. -/
def minSeconds : Int := -8334601228800

/-- The last second of the calendar, at the end of the year 262142. -/
def maxSeconds : Int := 8210266876799

/-- Whether the calendar reaches this instant. -/
def InCalendar (a : Instant) : Prop := minSeconds ≤ a.seconds ∧ a.seconds ≤ maxSeconds

instance (a : Instant) : Decidable a.InCalendar :=
  inferInstanceAs (Decidable (minSeconds ≤ a.seconds ∧ a.seconds ≤ maxSeconds))

/-- The instant `n` seconds later, or `none` past the end of the calendar. The leap second that
`a` may lie in has passed by then. -/
def addSeconds? (a : Instant) (n : Nat) : Option Instant :=
  let later : Instant :=
    if n = 0 ∨ a.nanos < 1000000000 then { a with seconds := a.seconds + n }
    else { seconds := a.seconds + n, nanos := a.nanos - 1000000000 }
  if later.InCalendar then some later else none

end Instant

namespace Duration

/-- `whole` and a fraction of `digits` decimal digits, zeros at the end dropped. -/
def decimalText (whole fraction digits : Nat) : String :=
  let ds := Chars.dropEndWhile (· == '0') (Chars.padNat digits fraction)
  toString whole ++ (if fraction = 0 then "" else "." ++ String.ofList ds)

/-- The written form. -/
def text (d : Duration) : String :=
  if d ≥ 1000000000 then decimalText (d / 1000000000) (d % 1000000000) 9 ++ "s"
  else if d ≥ 1000000 then decimalText (d / 1000000) (d % 1000000) 6 ++ "ms"
  else if d ≥ 1000 then decimalText (d / 1000) (d % 1000) 3 ++ "µs"
  else toString d ++ "ns"

end Duration

end CertSteward
