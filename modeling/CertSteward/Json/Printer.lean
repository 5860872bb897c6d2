import CertSteward.Decimal.Shortest
import CertSteward.Json.Value

/-!
# Writing JSON

Two forms: without any blanks, and with one member or element a line, indented by two blanks.
Texts escape the quotation mark, the backslash and the control characters below U+0020, and
nothing else.

## Main definitions

* `Json.compact` — the form without blanks
* `Json.pretty` — the indented form
-/

namespace CertSteward

namespace Json

/-- A hexadecimal digit in lower case. -/
def hexDigit (n : Nat) : Char := if n < 10 then Char.ofNat (48 + n) else Char.ofNat (87 + n)

/-- A character inside a quoted text. -/
def escapeChar (c : Char) : List Char :=
  if c = '"' then ['\\', '"']
  else if c = '\\' then ['\\', '\\']
  else if c = '\n' then ['\\', 'n']
  else if c = '\r' then ['\\', 'r']
  else if c = '\t' then ['\\', 't']
  else if c.toNat = 8 then ['\\', 'b']
  else if c.toNat = 12 then ['\\', 'f']
  else if c.toNat < 0x20 then
    ['\\', 'u', '0', '0', hexDigit (c.toNat / 16), hexDigit (c.toNat % 16)]
  else [c]

/-- A quoted text. -/
def quote (s : String) : String :=
  String.ofList ('"' :: s.toList.flatMap escapeChar ++ ['"'])

/-- A number. Whole doubles keep a zero behind the point; infinities and NaN become `null`. -/
def Number.text : Number → String
  | .whole n => toString n
  | .float x =>
    if x.isNaN || x.isInf then "null"
    else
      let t := floatText x
      if t.toList.contains '.' then t else t ++ ".0"

mutual

/-- Without blanks. -/
def compact : Json → String
  | null => "null"
  | bool true => "true"
  | bool false => "false"
  | number n => n.text
  | string s => quote s
  | array xs => "[" ++ compactElements xs ++ "]"
  | object ms => "\x7b" ++ compactMembers ms ++ "\x7d"

/-- Elements separated by commas. -/
def compactElements : List Json → String
  | [] => ""
  | [x] => compact x
  | x :: y :: xs => compact x ++ "," ++ compactElements (y :: xs)

/-- Members separated by commas. -/
def compactMembers : List (String × Json) → String
  | [] => ""
  | [(k, v)] => quote k ++ ":" ++ compact v
  | (k, v) :: m :: ms => quote k ++ ":" ++ compact v ++ "," ++ compactMembers (m :: ms)

end

/-- A line break followed by `depth` levels of indentation. -/
def lineBreak (depth : Nat) : String := String.ofList ('\n' :: List.replicate (2 * depth) ' ')

mutual

/-- Indented, the value itself standing at `depth`. -/
def prettyAt (depth : Nat) : Json → String
  | null => "null"
  | bool true => "true"
  | bool false => "false"
  | number n => n.text
  | string s => quote s
  | array [] => "[]"
  | array (x :: xs) => "[" ++ prettyElements (depth + 1) (x :: xs) ++ lineBreak depth ++ "]"
  | object [] => "\x7b\x7d"
  | object (m :: ms) => "\x7b" ++ prettyMembers (depth + 1) (m :: ms) ++ lineBreak depth ++ "\x7d"

/-- Elements, each on a line of its own. -/
def prettyElements (depth : Nat) : List Json → String
  | [] => ""
  | [x] => lineBreak depth ++ prettyAt depth x
  | x :: y :: xs => lineBreak depth ++ prettyAt depth x ++ "," ++ prettyElements depth (y :: xs)

/-- Members, each on a line of its own. -/
def prettyMembers (depth : Nat) : List (String × Json) → String
  | [] => ""
  | [(k, v)] => lineBreak depth ++ quote k ++ ": " ++ prettyAt depth v
  | (k, v) :: m :: ms =>
    lineBreak depth ++ quote k ++ ": " ++ prettyAt depth v ++ "," ++ prettyMembers depth (m :: ms)

end

/-- Indented. -/
def pretty (j : Json) : String := prettyAt 0 j

end Json

end CertSteward
