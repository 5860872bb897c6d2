import CertSteward.Text.Chars

/-!
# The shortest decimal that reads back

A finite double is `m * 2 ^ q` for whole numbers `m` and `q`. The decimals that read back as it are
those of an interval around it, whose ends count when `m` is even. Of the grids with 1, 2, … 17
significant digits the first one with a point in the interval is used, and of its points the one
nearest to the value.

## Main definitions

* `Decimal` — digits and the place of the point
* `Decimal.shortest` — the shortest decimal of `m * 2 ^ q`
* `Decimal.positional` — digits written without an exponent
* `floatText` — a double as text
-/

namespace CertSteward

/-- The number `0.d₁d₂… * 10 ^ point` with the decimal digits of `digits`. -/
structure Decimal where
  /-- The significant digits as one number. -/
  digits : Nat
  /-- The power of ten that the fraction `0.d₁d₂…` is multiplied with. -/
  point : Int
deriving DecidableEq, Repr

namespace Decimal

/-- `a * 2 ^ x` against `b * 10 ^ y`, both cleared of negative exponents. -/
def scaled (a : Nat) (x : Int) (b : Nat) (y : Int) : Nat × Nat :=
  (a * Nat.pow 2 x.toNat * Nat.pow 10 (-y).toNat, b * Nat.pow 10 y.toNat * Nat.pow 2 (-x).toNat)

/-- The number of decimal digits of the whole part, or minus the number of zeros that follow the
point: the value lies in `[10 ^ (p - 1), 10 ^ p)`. -/
def magnitude (m : Nat) (q : Int) : Int :=
  let big := m * Nat.pow 2 q.toNat / Nat.pow 2 (-q).toNat
  if big > 0 then (Nat.toDigits 10 big).length
  else
    -- a value below one: as many zeros as its reciprocal, rounded up, has digits to spare
    let reciprocal := (Nat.pow 2 (-q).toNat + m - 1) / m
    1 - (Nat.toDigits 10 (reciprocal - 1)).length

/-- The point of the grid of `n` digits that is nearest to `m * 2 ^ q` among those that read back,
if there is one. -/
def onGrid (m : Nat) (q : Int) (lowestOfBinade : Bool) (p : Int) (n : Nat) : Option Nat :=
  let unit := p - n
  let (v, w) := scaled m q 1 unit
  let below := v / w
  let closed := m % 2 == 0
  let reads (c : Nat) : Bool :=
    let (lo, c₁) := scaled (4 * m - (if lowestOfBinade then 1 else 2)) (q - 2) c unit
    let (hi, c₂) := scaled (4 * m + 2) (q - 2) c unit
    if closed then lo ≤ c₁ && c₂ ≤ hi else lo < c₁ && c₂ < hi
  let nearBelow : Bool := 2 * (v % w) ≤ w
  match reads below && below > 0, reads (below + 1) with
  | true, true => some (if nearBelow then below else below + 1)
  | true, false => some below
  | false, true => some (below + 1)
  | false, false => none

/-- The shortest decimal that reads back as `m * 2 ^ q`, for `m > 0`. -/
def shortest (m : Nat) (q : Int) (lowestOfBinade : Bool) : Decimal :=
  let p := magnitude m q
  let rec search : Nat → Nat → Decimal
    | n, 0 => { digits := (onGrid m q lowestOfBinade p n).getD m, point := p }
    | n, k + 1 =>
      match onGrid m q lowestOfBinade p n with
      | some d =>
        if d = Nat.pow 10 n then { digits := 1, point := p + 1 } else { digits := d, point := p }
      | none => search (n + 1) k
  search 1 16

/-- Zeros at the end of the digits dropped. -/
def stripZeros (ds : List Char) : List Char := Chars.dropEndWhile (· == '0') ds

/-- Written with a point and no exponent; whole numbers have no point. -/
def positional (d : Decimal) : List Char :=
  let ds := stripZeros (Nat.toDigits 10 d.digits)
  if d.point ≤ 0 then '0' :: '.' :: (List.replicate (-d.point).toNat '0' ++ ds)
  else
    let k := d.point.toNat
    if ds.length ≤ k then ds ++ List.replicate (k - ds.length) '0'
    else ds.take k ++ '.' :: ds.drop k

end Decimal

/-- A double as text: the shortest digits that read back, without an exponent. -/
def floatText (x : Float) : String :=
  let bits := x.toBits.toNat
  let exponent := bits / Nat.pow 2 52 % Nat.pow 2 11
  let fraction := bits % Nat.pow 2 52
  let sign := if bits ≥ Nat.pow 2 63 then "-" else ""
  if exponent = 2047 then (if fraction = 0 then sign ++ "inf" else "NaN")
  else if exponent = 0 ∧ fraction = 0 then sign ++ "0"
  else
    let m := if exponent = 0 then fraction else fraction + Nat.pow 2 52
    let q : Int := (if exponent = 0 then 1 else exponent : Nat) - 1075
    sign ++ String.ofList (Decimal.shortest m q (fraction == 0 && exponent > 1)).positional

end CertSteward
