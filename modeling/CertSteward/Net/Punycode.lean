import CertSteward.Text.Chars

/-!
# Names outside ASCII

A label with characters outside ASCII is written in ASCII as `xn--` and the Punycode of its
lower-case form: the ASCII characters, a hyphen, and for each other character, in the order of
their codes, how far it is from the one before.

Letters of the Latin, Greek and Cyrillic blocks are folded to lower case and full-width forms to
plain ones; other characters stay as they are.

## Main definitions

* `Punycode.encode` — the Punycode of a label
* `Punycode.toAscii` — a name in ASCII
-/

namespace CertSteward

namespace Punycode

/-- How far the next differences are scaled. -/
def adapt (delta count : Nat) (first : Bool) : Nat :=
  let delta := if first then delta / 700 else delta / 2
  scale 40 0 (delta + delta / count)
where
  /-- Divides until the difference is small, at most `fuel` times. -/
  scale : Nat → Nat → Nat → Nat
    | 0, k, _ => k
    | fuel + 1, k, delta =>
      if delta > 455 then scale fuel (k + 36) (delta / 35) else k + 36 * delta / (delta + 38)

/-- The digit of a number below 36. -/
def digit (n : Nat) : Char := if n < 26 then Char.ofNat (97 + n) else Char.ofNat (22 + n)

/-- A number in digits of varying base, at most `fuel` of them. -/
def digits (bias : Nat) : Nat → Nat → Nat → List Char
  | 0, _, q => [digit q]
  | fuel + 1, k, q =>
    let t := if k ≤ bias then 1 else if k ≥ bias + 26 then 26 else k - bias
    if q < t then [digit q]
    else digit (t + (q - t) % (36 - t)) :: digits bias fuel (k + 36) ((q - t) / (36 - t))

/-- The state of an encoding. -/
structure State where
  /-- The code reached. -/
  code : Nat := 128
  /-- The difference so far. -/
  delta : Nat := 0
  /-- The scale. -/
  bias : Nat := 72
  /-- How many characters are written. -/
  count : Nat
  /-- The digits written, the last one first. -/
  out : List Char

/-- Passes over one character while the characters of code `m` are written. -/
def passChar (m basic : Nat) (st : State) (c : Char) : State :=
  if c.toNat < m then { st with delta := st.delta + 1 }
  else if c.toNat = m then
    { st with
      delta := 0
      bias := adapt st.delta (st.count + 1) (st.count == basic)
      count := st.count + 1
      out := (digits st.bias 64 36 st.delta).reverse ++ st.out }
  else st

/-- Writes the characters of code `m`. -/
def writeCode (label : List Char) (basic : Nat) (st : State) (m : Nat) : State :=
  let st := { st with delta := st.delta + (m - st.code) * (st.count + 1), code := m }
  let st := label.foldl (passChar m basic) st
  { st with delta := st.delta + 1, code := m + 1 }

/-- The Punycode of a label. -/
def encode (label : List Char) : List Char :=
  let basic := label.filter fun c => c.toNat < 128
  let codes := ((label.map Char.toNat).filter (128 ≤ ·)).eraseDups.mergeSort
  let st := codes.foldl (writeCode label basic.length) { count := basic.length, out := [] }
  basic ++ (if basic = [] then [] else ['-']) ++ st.out.reverse

/-- A character in lower case and plain form. -/
def foldChar (c : Char) : Char :=
  let n := c.toNat
  let even := n % 2 = 0
  let add (k : Nat) := Char.ofNat (n + k)
  if n < 128 then c.toLower
  else if 0xC0 ≤ n ∧ n ≤ 0xDE ∧ n ≠ 0xD7 then add 32
  else if (0x100 ≤ n ∧ n ≤ 0x137 ∨ 0x14A ≤ n ∧ n ≤ 0x177 ∨ 0x460 ≤ n ∧ n ≤ 0x481) ∧ even then add 1
  else if (0x139 ≤ n ∧ n ≤ 0x148 ∨ 0x179 ≤ n ∧ n ≤ 0x17E) ∧ ¬ even then add 1
  else if (0x391 ≤ n ∧ n ≤ 0x3A9 ∨ 0x410 ≤ n ∧ n ≤ 0x42F) then add 32
  else if 0x400 ≤ n ∧ n ≤ 0x40F then add 80
  else if n = 0x3002 ∨ n = 0xFF61 then '.'
  else if 0xFF01 ≤ n ∧ n ≤ 0xFF5E then (Char.ofNat (n - 0xFEE0)).toLower
  else c

/-- A label in ASCII. -/
def labelToAscii (label : List Char) : List Char :=
  if label.all fun c => c.toNat < 128 then label else "xn--".toList ++ encode label

/-- A name in ASCII. -/
def toAscii (name : List Char) : List Char :=
  (List.intersperse ['.'] ((Chars.splitOn '.' (name.map foldChar)).map labelToAscii)).flatten

end Punycode

end CertSteward
