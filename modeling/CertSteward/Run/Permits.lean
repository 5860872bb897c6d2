/-!
# Permits

A number of permits that fibers take and give back. A fiber that finds none waits in line.

## Main definitions

* `Permits`, `Permits.take`, `Permits.giveBack`, `Permits.withdraw`
-/

namespace CertSteward

/-- The permits that are left, and who waits for one. -/
structure Permits where
  /-- How many are left. -/
  free : Nat
  /-- The fibers that wait for one, the first in line first. -/
  waiting : List Nat := []
deriving DecidableEq, Repr

namespace Permits

/-- Takes a permit or gets in line for one, and says which. -/
def take (p : Permits) (fiber : Nat) : Bool × Permits :=
  if p.free = 0 then (false, { p with waiting := p.waiting ++ [fiber] })
  else (true, { p with free := p.free - 1 })

/-- Gives a permit back. It passes to the first in line, who is told. -/
def giveBack (p : Permits) : Option Nat × Permits :=
  match p.waiting with
  | fiber :: rest => (some fiber, { p with waiting := rest })
  | [] => (none, { p with free := p.free + 1 })

/-- Gets a fiber out of the line. -/
def withdraw (p : Permits) (fiber : Nat) : Permits :=
  { p with waiting := p.waiting.filter (· ≠ fiber) }

end Permits

end CertSteward
