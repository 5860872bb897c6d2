import CertSteward.Text.Chars

/-!
# The texts of a KDL document

Blanks, comments, names and quoted texts.

Every reader takes the rest of the document and gives back what it leaves. A bound on the number
of steps comes first where the text is not simply walked through; its length is enough.

## Main definitions

* `Kdl.skipSpace?`, `Kdl.skipLines?` — blanks inside a line, and across lines
* `Kdl.string?` — a name or a quoted text
-/

namespace CertSteward

namespace Kdl

/-! ### Characters -/

/-- Characters that end a line. -/
def isNewline (c : Char) : Bool :=
  let n := c.toNat
  (0x0A ≤ n && n ≤ 0x0D) || n == 0x85 || n == 0x2028 || n == 0x2029

/-- Blanks inside a line. -/
def isSpace (c : Char) : Bool := Chars.isBlank c && !isNewline c

/-- Characters that may not stand in a document. -/
def isDisallowed (c : Char) : Bool :=
  let n := c.toNat
  n ≤ 8 || (0x0E ≤ n && n ≤ 0x1F) || n == 0x7F || n == 0x200E || n == 0x200F ||
    (0x202A ≤ n && n ≤ 0x202E) || (0x2066 ≤ n && n ≤ 0x2069) || n == 0xFEFF

/-- Characters of a name without quotes. -/
def isNameChar (c : Char) : Bool :=
  !Chars.isBlank c && !isDisallowed c && !"\\/(){};[]\"#=".toList.contains c

/-- What follows one end of line. -/
def newline? : List Char → Option (List Char)
  | '\r' :: '\n' :: s => some s
  | c :: s => if isNewline c then some s else none
  | [] => none

/-! ### Blanks and comments -/

/-- What follows a comment of which `depth` beginnings are open. -/
def skipComment? : Nat → List Char → Option (List Char)
  | 0, s => some s
  | depth + 1, s =>
    match s with
    | '*' :: '/' :: s => skipComment? depth s
    | '/' :: '*' :: s => skipComment? (depth + 2) s
    | _ :: s => skipComment? (depth + 1) s
    | [] => none
termination_by _ s => s.length

/-- Drops the rest of a line. -/
def skipLine (s : List Char) : List Char := s.dropWhile fun c => !isNewline c

/-- Skips blanks and comments inside a line. -/
def skipBlank? : Nat → List Char → Option (List Char)
  | 0, s => some s
  | fuel + 1, s =>
    match s with
    | '/' :: '*' :: s => (skipComment? 1 s).bind (skipBlank? fuel)
    | c :: t => if isSpace c then skipBlank? fuel t else some (c :: t)
    | [] => some []

/-- What follows a backslash that continues the line. -/
def skipContinuation? (s : List Char) : Option (List Char) := do
  let s ← skipBlank? s.length s
  match s with
  | [] => some []
  | '/' :: '/' :: s => some ((newline? (skipLine s)).getD [])
  | s => newline? s

/-- Skips blanks, comments and continuations of the line. -/
def skipSpaceWithin? : Nat → List Char → Option (List Char)
  | 0, s => some s
  | fuel + 1, s => do
    let s ← skipBlank? s.length s
    match s with
    | '\\' :: s => skipSpaceWithin? fuel (← skipContinuation? s)
    | s => some s

/-- Skips blanks, comments and continuations of the line. -/
def skipSpace? (s : List Char) : Option (List Char) := skipSpaceWithin? (s.length + 1) s

/-- Skips blanks, comments and ends of lines. -/
def skipLinesWithin? : Nat → List Char → Option (List Char)
  | 0, s => some s
  | fuel + 1, s => do
    let s ← skipSpace? s
    match s with
    | '/' :: '/' :: s => skipLinesWithin? fuel (skipLine s)
    | s =>
      match newline? s with
      | some s => skipLinesWithin? fuel s
      | none => some s

/-- Skips blanks, comments and ends of lines. -/
def skipLines? (s : List Char) : Option (List Char) := skipLinesWithin? (2 * s.length + 1) s

/-! ### Names -/

/-- The words that are no names. -/
def reserved : List (List Char) := ["true", "false", "null", "inf", "-inf", "nan"].map String.toList

/-- Whether a row of name characters does not begin like a number. -/
def isName (s : List Char) : Bool :=
  let digitAt (s : List Char) := s.head?.any Char.isDigit
  let afterSign := match s with
    | c :: t => if c = '+' ∨ c = '-' then t else s
    | [] => s
  !digitAt afterSign && !(afterSign.head? == some '.' && digitAt (afterSign.drop 1)) &&
    !reserved.contains s

/-- A name without quotes. -/
def bareName? (s : List Char) : Option (String × List Char) :=
  let name := s.takeWhile isNameChar
  if name ≠ [] ∧ isName name then some (String.ofList name, s.drop name.length) else none

/-! ### Quoted texts -/

/-- The character of a code written in braces after a backslash and a `u`. -/
def unicode? (s : List Char) : Option (Char × List Char) :=
  match s with
  | '\x7b' :: s =>
    let ds := s.takeWhile fun c => (Chars.hexDigit? c).isSome
    let n := ds.foldl (fun n c => 16 * n + (Chars.hexDigit? c).getD 0) 0
    match s.drop ds.length with
    | '\x7d' :: s =>
      if 1 ≤ ds.length ∧ ds.length ≤ 6 ∧ n.isValidChar then some (Char.ofNat n, s) else none
    | _ => none
  | _ => none

/-- The character that a backslash and `c` stand for. -/
def escape? (c : Char) : Option Char :=
  match c with
  | 'n' => some '\n'
  | 'r' => some '\r'
  | 't' => some '\t'
  | '\\' => some '\\'
  | '"' => some '"'
  | 'b' => some (Char.ofNat 8)
  | 'f' => some (Char.ofNat 12)
  | 's' => some ' '
  | _ => none

/-- Drops each backslash that stands before blanks, with the blanks. -/
def dropJoins : Nat → List Char → List Char
  | 0, s => s
  | fuel + 1, s =>
    match s with
    | '\\' :: c :: s =>
      if Chars.isBlank c then dropJoins fuel (s.dropWhile Chars.isBlank)
      else '\\' :: c :: dropJoins fuel s
    | c :: s => c :: dropJoins fuel s
    | [] => []

/-- Replaces all that backslashes stand for. -/
def unescape? : Nat → List Char → Option (List Char)
  | 0, _ => none
  | fuel + 1, s =>
    match s with
    | [] => some []
    | '\\' :: 'u' :: s => do
      let (c, s) ← unicode? s
      return c :: (← unescape? fuel s)
    | '\\' :: e :: s => do
      let c ← escape? e
      return c :: (← unescape? fuel s)
    | '\\' :: [] => none
    | c :: s => (unescape? fuel s).map (c :: ·)

/-- The text up to the closing mark; where backslashes count, a character after one is passed
over. -/
def upTo? (close : List Char) (escapes : Bool) : Nat → List Char → Option (List Char × List Char)
  | 0, _ => none
  | fuel + 1, s =>
    match Chars.stripStart? close s with
    | some rest => some ([], rest)
    | none =>
      match s with
      | [] => none
      | '\\' :: c :: s =>
        if escapes then (upTo? close escapes fuel s).map fun (a, b) => ('\\' :: c :: a, b)
        else (upTo? close escapes fuel (c :: s)).map fun (a, b) => ('\\' :: a, b)
      | c :: s => (upTo? close escapes fuel s).map fun (a, b) => (c :: a, b)

/-- The lines of a text, at most `fuel`. -/
def linesOf : Nat → List Char → List (List Char)
  | 0, s => [s]
  | fuel + 1, s =>
    let line := s.takeWhile fun c => !isNewline c
    match newline? (s.drop line.length) with
    | some rest => line :: linesOf fuel rest
    | none => [line]

/-- The lines of a text that began on a line of its own, without the indentation of the last one,
which holds nothing else. -/
def dedent? (s : List Char) : Option (List Char) := do
  let lines := linesOf s.length (← newline? s)
  let indent ← lines.getLast?
  if ¬ indent.all isSpace then none
  let kept ← lines.dropLast.mapM fun line =>
    if line.all isSpace then some [] else Chars.stripStart? indent line
  return (List.intersperse ['\n'] kept).flatten

/-- A text of one or more lines in quotes, of which the opening ones are read; `hashes` stand
around them. -/
def quoted? (hashes : Nat) (s : List Char) : Option (String × List Char) := do
  let escapes := hashes = 0
  let marks (n : Nat) := List.replicate n '"' ++ List.replicate hashes '#'
  let finish (body : List Char) : Option String :=
    if escapes then (unescape? (body.length + 1) body).map String.ofList
    else some (String.ofList body)
  match s with
  | '"' :: '"' :: '"' :: s =>
    let (body, rest) ← upTo? (marks 3) escapes (s.length + 1) s
    if body.any isDisallowed then none
    let joined := if escapes then dropJoins body.length body else body
    return (← finish (← dedent? joined), rest)
  | '"' :: s =>
    let (body, rest) ← upTo? (marks 1) escapes (s.length + 1) s
    let joined := if escapes then dropJoins body.length body else body
    if body.any isDisallowed ∨ joined.any isNewline then none
    return (← finish joined, rest)
  | _ => none

/-- A name or a quoted text. -/
def string? (s : List Char) : Option (String × List Char) :=
  match s with
  | '"' :: _ => quoted? 0 s
  | '#' :: _ =>
    let hashes := (s.takeWhile (· == '#')).length
    quoted? hashes (s.drop hashes)
  | s => bareName? s

end Kdl

end CertSteward
