import CertSteward.Json.Value
import CertSteward.Text.Chars

/-!
# Reading JSON

The grammar is that of RFC 8259: no leading zeros, no control characters inside texts, surrogates
only in pairs, and at most 127 levels of arrays and objects inside each other. Members of one name
are all kept.

Each reader takes the rest of the text and gives back what it leaves. The readers of values carry
the number of levels that are still allowed and a bound on the number of steps, for which the
length of the text is enough.

## Main definitions

* `Json.parse?` — reads a whole text
-/

namespace CertSteward

namespace Json

/-- Blanks between the parts of a JSON text. -/
def isGap (c : Char) : Bool := c == ' ' || c == '\t' || c == '\n' || c == '\r'

/-- Blanks at the start dropped. -/
def skipGap (s : List Char) : List Char := s.dropWhile isGap

/-- Reads four hexadecimal digits. -/
def hex4? : List Char → Option (Nat × List Char)
  | a :: b :: c :: d :: s => do
    let a ← Chars.hexDigit? a
    let b ← Chars.hexDigit? b
    let c ← Chars.hexDigit? c
    let d ← Chars.hexDigit? d
    return (((a * 16 + b) * 16 + c) * 16 + d, s)
  | _ => none

/-- The character that a backslash and `c` stand for. -/
def simpleEscape? (c : Char) : Option Char :=
  if c = '"' ∨ c = '\\' ∨ c = '/' then some c
  else if c = 'b' then some (Char.ofNat 8)
  else if c = 'f' then some (Char.ofNat 12)
  else if c = 'n' then some '\n'
  else if c = 'r' then some '\r'
  else if c = 't' then some '\t'
  else none

/-- Reads what follows `\u`: one code point, written as one unit or as a surrogate pair. -/
def unicodeEscape? (s : List Char) : Option (Char × List Char) :=
  match hex4? s with
  | none => none
  | some (hi, s) =>
    if hi < 0xD800 ∨ 0xDFFF < hi then some (Char.ofNat hi, s)
    else if 0xDC00 ≤ hi then none
    else
      match s with
      | '\\' :: 'u' :: s =>
        match hex4? s with
        | some (lo, s) =>
          if 0xDC00 ≤ lo ∧ lo ≤ 0xDFFF then
            some (Char.ofNat (0x10000 + (hi - 0xD800) * 0x400 + (lo - 0xDC00)), s)
          else none
        | none => none
      | _ => none

/-- Reads the inside of a quoted text up to and including the closing mark. -/
def quoted? : Nat → List Char → List Char → Option (String × List Char)
  | 0, _, _ => none
  | _, _, [] => none
  | fuel + 1, done, c :: s =>
    if c = '"' then some (String.ofList done.reverse, s)
    else if c.toNat < 0x20 then none
    else if c = '\\' then
      match s with
      | 'u' :: s =>
        match unicodeEscape? s with
        | some (u, s) => quoted? fuel (u :: done) s
        | none => none
      | e :: s =>
        match simpleEscape? e with
        | some u => quoted? fuel (u :: done) s
        | none => none
      | [] => none
    else quoted? fuel (c :: done) s

/-- Reads an optional exponent. -/
def exponent? (s : List Char) : Option (Option Int × List Char) :=
  match s with
  | [] => some (none, s)
  | e :: t =>
    if e = 'e' ∨ e = 'E' then
      let (negative, t) :=
        match t with
        | '-' :: t => (true, t)
        | '+' :: t => (false, t)
        | t => (false, t)
      let ds := t.takeWhile Char.isDigit
      if ds = [] then none
      else
        let n : Int := Chars.natOfDigits ds
        some (some (if negative then -n else n), t.drop ds.length)
    else some (none, s)

/-- The double `digits * 10 ^ exponent`, or `none` if it is too large. -/
def floatOf? (negative : Bool) (digits : Nat) (exponent : Int) : Option Float :=
  let magnitude : Int := (Nat.toDigits 10 digits).length + exponent
  let x : Float :=
    if digits = 0 ∨ magnitude < -400 then 0
    else if magnitude > 400 then 1 / 0
    else if exponent < 0 then Float.ofScientific digits true exponent.natAbs
    else Float.ofScientific digits false exponent.toNat
  if x.isInf then none else some (if negative then -x else x)

/-- Reads a number. -/
def number? (s : List Char) : Option (Number × List Char) := do
  let (negative, s) := match s with
    | '-' :: s => (true, s)
    | s => (false, s)
  let whole := s.takeWhile Char.isDigit
  if whole = [] ∨ (whole.head? = some '0' ∧ whole.length > 1) then none
  let s := s.drop whole.length
  let (fraction, s) ← match s with
    | '.' :: s =>
      let ds := s.takeWhile Char.isDigit
      if ds = [] then none else some (some ds, s.drop ds.length)
    | s => some (none, s)
  let (exponent, s) ← exponent? s
  let n := Chars.natOfDigits whole
  match fraction, exponent with
  | none, none =>
    if negative then
      if 0 < n ∧ n ≤ Nat.pow 2 63 then return (.whole (-n), s)
    else if n < Nat.pow 2 64 then return (.whole n, s)
  | _, _ => pure ()
  let ds := whole ++ fraction.getD []
  let x ← floatOf? negative (Chars.natOfDigits ds)
    (exponent.getD 0 - ((fraction.getD []).length : Int))
  return (.float x, s)

/-- Reads one of the three words. -/
def word? (s : List Char) : Option (Json × List Char) :=
  match Chars.stripStart? "null".toList s with
  | some s => some (null, s)
  | none =>
    match Chars.stripStart? "true".toList s with
    | some s => some (bool true, s)
    | none => (Chars.stripStart? "false".toList s).map fun s => (bool false, s)

mutual

/-- Reads a value that may stand after blanks. -/
def value? (fuel levels : Nat) (s : List Char) : Option (Json × List Char) :=
  match fuel with
  | 0 => none
  | fuel + 1 =>
    match skipGap s with
    | [] => none
    | '"' :: s => (quoted? (s.length + 1) [] s).map fun (t, s) => (string t, s)
    | '[' :: s =>
      if levels ≤ 1 then none
      else
        match skipGap s with
        | ']' :: s => some (array [], s)
        | s => (elements? fuel (levels - 1) s).map fun (xs, s) => (array xs, s)
    | '\x7b' :: s =>
      if levels ≤ 1 then none
      else
        match skipGap s with
        | '\x7d' :: s => some (object [], s)
        | s => (members? fuel (levels - 1) s).map fun (ms, s) => (object ms, s)
    | c :: s =>
      if c = '-' ∨ c.isDigit then (number? (c :: s)).map fun (n, s) => (number n, s)
      else word? (c :: s)

/-- Reads one element or more, up to and including the closing bracket. -/
def elements? (fuel levels : Nat) (s : List Char) : Option (List Json × List Char) :=
  match fuel with
  | 0 => none
  | fuel + 1 =>
    match value? fuel levels s with
    | none => none
    | some (x, s) =>
      match skipGap s with
      | ',' :: s => (elements? fuel levels s).map fun (xs, s) => (x :: xs, s)
      | ']' :: s => some ([x], s)
      | _ => none

/-- Reads one member or more, up to and including the closing brace. -/
def members? (fuel levels : Nat) (s : List Char) : Option (List (String × Json) × List Char) :=
  match fuel with
  | 0 => none
  | fuel + 1 =>
    match skipGap s with
    | '"' :: s =>
      match quoted? (s.length + 1) [] s with
      | none => none
      | some (k, s) =>
        match skipGap s with
        | ':' :: s =>
          match value? fuel levels s with
          | none => none
          | some (v, s) =>
            match skipGap s with
            | ',' :: s => (members? fuel levels s).map fun (ms, s) => ((k, v) :: ms, s)
            | '\x7d' :: s => some ([(k, v)], s)
            | _ => none
        | _ => none
    | _ => none

end

/-- The number of arrays and objects that may stand inside each other, plus one. -/
def maxLevels : Nat := 128

/-- Reads a text that holds one value and blanks around it. -/
def parse? (text : String) : Option Json :=
  let s := text.toList
  match value? (2 * s.length + 2) maxLevels s with
  | some (j, rest) => if skipGap rest = [] then some j else none
  | none => none

end Json

end CertSteward
