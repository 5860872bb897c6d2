import CertSteward.Time.Instant

/-!
# Growing delays

A policy starts with an initial delay and multiplies it after every use, up to a largest delay. It
may have a budget: delays are then cut so that they end within it, and once it is spent there are
no more.

The growth is computed in doubles and rounded to whole nanoseconds. It enters the rule only through
`Backoff.stepWith`, which takes any growth.

## Main definitions

* `BackoffPolicy` — first delay, largest delay, budget, factor
* `Backoff`, `Backoff.next?` — the delays handed out so far, and the next one
-/

namespace CertSteward

/-- How delays grow. -/
structure BackoffPolicy where
  /-- The first delay. -/
  initial : Duration
  /-- The largest delay. -/
  largest : Duration
  /-- The time within which all delays end. -/
  budget : Option Duration := none
  /-- The factor from one delay to the next; below one it counts as one. -/
  multiplier : Float := 2.0

namespace BackoffPolicy

/-- The policy for polling: 1 second doubling up to 10, for 2 minutes. -/
def polling : BackoffPolicy :=
  { initial := .ofSeconds 1, largest := .ofSeconds 10, budget := some (.ofSeconds 120) }

/-- A number of seconds rounded to whole nanoseconds, a tie to the even neighbour. -/
def ofFloat (x : Float) : Duration :=
  let bits := x.toBits.toNat
  let exponent := bits / Nat.pow 2 52 % Nat.pow 2 11
  let fraction := bits % Nat.pow 2 52
  let m := if exponent = 0 then fraction else fraction + Nat.pow 2 52
  let q : Int := (if exponent = 0 then 1 else exponent : Nat) - 1075
  let num := m * 1000000000 * Nat.pow 2 q.toNat
  let den := Nat.pow 2 (-q).toNat
  let down := num / den
  let rest := 2 * (num % den)
  if rest > den ∨ (rest = den ∧ down % 2 = 1) then down + 1 else down

/-- The delay that follows `current`. -/
def grow (p : BackoffPolicy) (current : Duration) : Duration :=
  let factor := if p.multiplier > 1.0 then p.multiplier else 1.0
  let grown := current.toFloat * factor
  let cap := p.largest.toFloat
  ofFloat (if grown < cap then grown else cap)

end BackoffPolicy

/-- A sequence of delays under way. -/
structure Backoff where
  /-- The policy it follows. -/
  policy : BackoffPolicy
  /-- The delay that comes next, before it is cut. -/
  current : Duration
  /-- The number of delays handed out. -/
  attempts : Nat := 0

namespace Backoff

/-- The start of a sequence. -/
def start (p : BackoffPolicy) : Backoff := { policy := p, current := p.initial }

/-- Whether the budget is spent when `elapsed` has passed since the start. -/
def isExhausted (b : Backoff) (elapsed : Duration) : Bool :=
  match b.policy.budget with
  | some budget => budget ≤ elapsed
  | none => false

/-- The delay that is due, cut to the largest one and to what is left of the budget. -/
def delay (b : Backoff) (elapsed : Duration) : Duration :=
  let d := min b.current b.policy.largest
  match b.policy.budget with
  | some budget => min d (budget - elapsed)
  | none => d

/-- Hands out the next delay, unless the budget is spent, and lets the delay grow. -/
def stepWith (grow : Duration → Duration) (b : Backoff) (elapsed : Duration) :
    Option (Duration × Backoff) :=
  if b.isExhausted elapsed then none
  else some (b.delay elapsed, { b with current := grow b.current, attempts := b.attempts + 1 })

/-- Hands out the next delay with the policy's own growth. -/
def next? (b : Backoff) (elapsed : Duration) : Option (Duration × Backoff) :=
  b.stepWith b.policy.grow elapsed

/-- Back to the first delay; attempts and budget stay as they are. -/
def reset (b : Backoff) : Backoff := { b with current := b.policy.initial }

end Backoff

end CertSteward
