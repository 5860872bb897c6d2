/-!
# Character classes and cuts

Texts are handled as lists of characters: every operation here is a structural recursion or one of
the list library's own, so that what it does can be read off. The functions on `String` at the end
only convert on the way in and out.

## Main definitions

* `isBlank` — the characters with the Unicode property White_Space
* `trim`, `trimStart`, `trimEnd` — blanks removed at the ends
* `lower`, `sameIgnoringCase` — ASCII letters folded, every other character kept
* `splitOn`, `splitOnce` — cutting at a separator, all pieces kept
-/

namespace CertSteward

namespace Chars

/-! ### Classes -/

/-- The 25 characters that Unicode gives the property White_Space. -/
def isBlank (c : Char) : Bool :=
  let n := c.toNat
  (9 ≤ n && n ≤ 13) || n == 0x20 || n == 0x85 || n == 0xA0 || n == 0x1680 ||
    (0x2000 ≤ n && n ≤ 0x200A) || n == 0x2028 || n == 0x2029 || n == 0x202F || n == 0x205F ||
    n == 0x3000

/-- ASCII letters and digits. -/
def isAlnum (c : Char) : Bool := c.isAlpha || c.isDigit

/-- The value of a hexadecimal digit of either case. -/
def hexDigit? (c : Char) : Option Nat :=
  if '0' ≤ c ∧ c ≤ '9' then some (c.toNat - 48)
  else if 'a' ≤ c ∧ c ≤ 'f' then some (c.toNat - 87)
  else if 'A' ≤ c ∧ c ≤ 'F' then some (c.toNat - 55)
  else none

/-- The value of a decimal digit. -/
def digit? (c : Char) : Option Nat :=
  if c.isDigit then some (c.toNat - 48) else none

/-! ### Ends -/

/-- Drops the longest run of characters satisfying `p` at the end. -/
def dropEndWhile (p : Char → Bool) (s : List Char) : List Char :=
  (s.reverse.dropWhile p).reverse

/-- Blanks at the start removed. -/
def trimStart (s : List Char) : List Char := s.dropWhile isBlank

/-- Blanks at the end removed. -/
def trimEnd (s : List Char) : List Char := dropEndWhile isBlank s

/-- Blanks at both ends removed. -/
def trim (s : List Char) : List Char := trimEnd (trimStart s)

/-- What follows `p`, if `s` starts with it. -/
def stripStart? (p : List Char) (s : List Char) : Option (List Char) :=
  match p, s with
  | [], s => some s
  | _ :: _, [] => none
  | a :: p, b :: s => if a = b then stripStart? p s else none

/-! ### Case -/

/-- ASCII letters in lower case, all other characters as they are. -/
def lower (s : List Char) : List Char := s.map Char.toLower

/-- Equality up to the case of ASCII letters. -/
def sameIgnoringCase (s t : List Char) : Bool := lower s == lower t

/-! ### Cuts -/

/-- The pieces between the occurrences of `sep`; there is always at least one piece. -/
def splitOn (sep : Char) : List Char → List (List Char)
  | [] => [[]]
  | c :: s =>
    if c = sep then [] :: splitOn sep s
    else
      match splitOn sep s with
      | [] => [[c]]
      | piece :: rest => (c :: piece) :: rest

/-- The parts before and after the first occurrence of `sep`. -/
def splitOnce (sep : Char) (s : List Char) : Option (List Char × List Char) :=
  match s with
  | [] => none
  | c :: s => if c = sep then some ([], s) else (splitOnce sep s).map fun (a, b) => (c :: a, b)

/-- The parts before and after the first occurrence of the text `sep`. -/
def splitAtText (sep : List Char) (s : List Char) : Option (List Char × List Char) :=
  match stripStart? sep s with
  | some rest => some ([], rest)
  | none =>
    match s with
    | [] => none
    | c :: s => (splitAtText sep s).map fun (a, b) => (c :: a, b)

/-- Whether the text `p` occurs somewhere in `s`. -/
def containsText (p s : List Char) : Bool := (splitAtText p s).isSome

/-- The lines of a text: cut after each line feed, a carriage return before it dropped, and no
empty last line. -/
def lines (s : List Char) : List (List Char) :=
  let pieces := splitOn '\n' s
  let kept := if pieces.getLast? = some [] then pieces.dropLast else pieces
  let last := kept.length
  let closed := pieces.length - 1
  kept.zipIdx.map fun (line, i) =>
    if i < closed ∧ i < last ∧ line.getLast? = some '\r' then line.dropLast else line

/-! ### Numbers -/

/-- The value of a run of decimal digits, most significant first. -/
def natOfDigits (s : List Char) : Nat := s.foldl (fun n c => 10 * n + (c.toNat - 48)) 0

/-- Reads a decimal numeral: at least one digit and nothing else. -/
def nat? (s : List Char) : Option Nat :=
  if s ≠ [] ∧ s.all Char.isDigit then some (natOfDigits s) else none

/-- `n` in decimal, filled with zeros on the left to at least `width` digits. -/
def padNat (width n : Nat) : List Char :=
  let ds := Nat.toDigits 10 n
  List.replicate (width - ds.length) '0' ++ ds

end Chars

namespace Text

/-- Blanks at both ends removed. -/
def trim (s : String) : String := String.ofList (Chars.trim s.toList)

/-- A text of blanks only. -/
def isBlank (s : String) : Bool := s.toList.all Chars.isBlank

/-- ASCII letters in lower case. -/
def lower (s : String) : String := String.ofList (Chars.lower s.toList)

/-- Equality up to the case of ASCII letters. -/
def sameIgnoringCase (s t : String) : Bool := Chars.sameIgnoringCase s.toList t.toList

/-- The texts joined by `sep`. -/
def join (sep : String) : List String → String
  | [] => ""
  | [s] => s
  | s :: rest => s ++ sep ++ join sep rest

/-- `s` filled with blanks on the right to at least `width` characters. -/
def padRight (width : Nat) (s : String) : String :=
  s ++ String.ofList (List.replicate (width - s.length) ' ')

/-- `s` filled with blanks on the left to at least `width` characters. -/
def padLeft (width : Nat) (s : String) : String :=
  String.ofList (List.replicate (width - s.length) ' ') ++ s

end Text

end CertSteward
