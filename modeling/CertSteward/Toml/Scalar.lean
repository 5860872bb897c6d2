import CertSteward.Json.Reader
import CertSteward.Time.Calendar

/-!
# Keys, texts and numbers of a TOML document

Every reader takes the rest of the document and gives back what it leaves.

## Main definitions

* `Toml.key?` — a key with dots
* `Toml.text?`, `Toml.number?`, `Toml.time?` — texts in quotes, numbers, times
-/

namespace CertSteward

namespace Toml

/-! ### Blanks -/

/-- Blanks inside a line. -/
def isGap (c : Char) : Bool := c == ' ' || c == '\t'

/-- Blanks at the start dropped. -/
def skipGap (s : List Char) : List Char := s.dropWhile isGap

/-- Control characters, of which only the tabulator may stand in texts and comments. -/
def isControl (c : Char) : Bool := (c.toNat < 0x20 && c != '\t') || c.toNat == 0x7F

/-- What follows one end of line. -/
def newline? : List Char → Option (List Char)
  | '\n' :: s => some s
  | '\r' :: '\n' :: s => some s
  | _ => none

/-- Skips a comment up to the end of the line. -/
def skipComment? (s : List Char) : Option (List Char) :=
  match s with
  | '#' :: s =>
    let rest := s.dropWhile fun c => !isControl c
    if rest = [] ∨ (newline? rest).isSome then some rest else none
  | s => some s

/-- Skips blanks, comments and ends of lines. -/
def skipLines? : Nat → List Char → Option (List Char)
  | 0, s => some s
  | fuel + 1, s => do
    let s ← skipComment? (skipGap s)
    match newline? s with
    | some s => skipLines? fuel s
    | none => some s

/-! ### Texts -/

/-- The character of a code of `n` hexadecimal digits. -/
def unicode? (n : Nat) (s : List Char) : Option (Char × List Char) := do
  let ds ← (s.take n).mapM Chars.hexDigit?
  let code := ds.foldl (fun m d => 16 * m + d) 0
  if ds.length = n ∧ code.isValidChar then some (Char.ofNat code, s.drop n) else none

/-- Reads what follows a backslash. -/
def escape? (s : List Char) : Option (Char × List Char) :=
  match s with
  | 'u' :: s => unicode? 4 s
  | 'U' :: s => unicode? 8 s
  | 'b' :: s => some (Char.ofNat 8, s)
  | 't' :: s => some ('\t', s)
  | 'n' :: s => some ('\n', s)
  | 'f' :: s => some (Char.ofNat 12, s)
  | 'r' :: s => some ('\r', s)
  | '"' :: s => some ('"', s)
  | '\\' :: s => some ('\\', s)
  | _ => none

/-- The inside of a text of one line up to its closing mark. -/
def line? (mark : Char) : Nat → List Char → Option (List Char × List Char)
  | 0, _ => none
  | fuel + 1, s =>
    match s with
    | [] => none
    | c :: s =>
      if c = mark then some ([], s)
      else if isControl c then none
      else if c = '\\' ∧ mark = '"' then do
        let (e, s) ← escape? s
        let (t, s) ← line? mark fuel s
        return (e :: t, s)
      else (line? mark fuel s).map fun (t, s) => (c :: t, s)

/-- Drops blanks up to and including the end of the line, and all blanks after it. -/
def joinLine? (s : List Char) : Option (List Char) := do
  let s ← newline? (skipGap s)
  return s.dropWhile fun c => isGap c || c == '\n' || c == '\r'

/-- The inside of a text of several lines up to its closing marks; up to two marks of its own may
stand before these. -/
def block? (mark : Char) : Nat → List Char → Option (List Char × List Char)
  | 0, _ => none
  | fuel + 1, s =>
    let marks := (s.takeWhile (· == mark)).length
    if 3 ≤ marks then
      if marks ≤ 5 then some (List.replicate (marks - 3) mark, s.drop marks) else none
    else
      match newline? s with
      | some s => (block? mark fuel s).map fun (t, s) => ('\n' :: t, s)
      | none =>
        match s with
        | [] => none
        | c :: s =>
          if isControl c then none
          else if c = '\\' ∧ mark = '"' then
            match joinLine? s with
            | some s => block? mark fuel s
            | none => do
              let (e, s) ← escape? s
              let (t, s) ← block? mark fuel s
              return (e :: t, s)
          else (block? mark fuel s).map fun (t, s) => (c :: t, s)

/-- A text in quotes of one line. -/
def lineText? (s : List Char) : Option (String × List Char) :=
  match s with
  | c :: t =>
    if c = '"' ∨ c = '\'' then (line? c (t.length + 1) t).map fun (u, s) => (String.ofList u, s)
    else none
  | [] => none

/-- A text in quotes. -/
def text? (s : List Char) : Option (String × List Char) :=
  match s with
  | a :: b :: c :: t =>
    if a = b ∧ b = c ∧ (a = '"' ∨ a = '\'') then
      let t := (newline? t).getD t
      (block? a (t.length + 1) t).map fun (u, s) => (String.ofList u, s)
    else lineText? s
  | s => lineText? s

/-! ### Keys -/

/-- Characters of a key without quotes. -/
def isKeyChar (c : Char) : Bool := Chars.isAlnum c || c == '-' || c == '_'

/-- One part of a key. -/
def keyPart? (s : List Char) : Option (String × List Char) :=
  let bare := s.takeWhile isKeyChar
  if bare = [] then lineText? s else some (String.ofList bare, s.drop bare.length)

/-- A key: parts with dots between them; blanks around it are skipped. -/
def keyWithin? : Nat → List Char → Option (List String × List Char)
  | 0, _ => none
  | fuel + 1, s => do
    let (part, s) ← keyPart? (skipGap s)
    match skipGap s with
    | '.' :: s =>
      let (more, s) ← keyWithin? fuel s
      return (part :: more, s)
    | s => return ([part], s)

/-- A key. -/
def key? (s : List Char) : Option (List String × List Char) := keyWithin? (s.length + 1) s

/-! ### Numbers -/

/-- Digits, with single underscores between them. -/
def digits? (isDigit : Char → Bool) (s : List Char) : Option (List Char × List Char) :=
  let run := s.takeWhile fun c => c == '_' || isDigit c
  let pieces := Chars.splitOn '_' run
  if pieces.all (· ≠ []) then some (run.filter (· != '_'), s.drop run.length) else none

/-- A number in another base. -/
def based? (base : Nat) (s : List Char) : Option (Json × List Char) := do
  let value (c : Char) := (Chars.hexDigit? c).getD base
  let (ds, s) ← digits? (fun c => value c < base) s
  let n := ds.foldl (fun n c => base * n + value c) 0
  if n < Nat.pow 2 63 then some (.nat n, s) else none

/-- The fraction and the exponent of a number; the truth value says that there is one. -/
def tail? (s : List Char) : Option (Bool × List Char) := do
  let (fraction, s) ← match s with
    | '.' :: s => (digits? Char.isDigit s).map fun (_, s) => (true, s)
    | s => some (false, s)
  match s with
  | c :: t =>
    if c = 'e' ∨ c = 'E' then
      let t := match t with
        | d :: u => if d = '+' ∨ d = '-' then u else t
        | [] => t
      (digits? Char.isDigit t).map fun (_, s) => (true, s)
    else some (fraction, s)
  | [] => some (fraction, s)

/-- A number in base ten. Of one with a fraction or an exponent only that is kept. -/
def decimal? (negative : Bool) (s : List Char) : Option (Json × List Char) := do
  let (ds, s) ← digits? Char.isDigit s
  if ds.length > 1 ∧ ds.head? = some '0' then none
  let (isFloat, s) ← tail? s
  let n := Chars.natOfDigits ds
  if isFloat then some (.number (.float 0), s)
  else if negative then if n ≤ Nat.pow 2 63 then some (.int (-n), s) else none
  else if n < Nat.pow 2 63 then some (.nat n, s)
  else none

/-- A number. -/
def number? (s : List Char) : Option (Json × List Char) :=
  let signed (negative : Bool) (s : List Char) : Option (Json × List Char) :=
    match Chars.stripStart? "inf".toList s, Chars.stripStart? "nan".toList s with
    | some s, _ => some (.number (.float 0), s)
    | none, some s => some (.number (.float 0), s)
    | none, none => decimal? negative s
  match s with
  | '0' :: 'x' :: s => based? 16 s
  | '0' :: 'o' :: s => based? 8 s
  | '0' :: 'b' :: s => based? 2 s
  | '+' :: s => signed false s
  | '-' :: s => signed true s
  | s => signed false s

/-! ### Times -/

/-- Exactly `n` digits. -/
def fixed? (n : Nat) (s : List Char) : Option (Nat × List Char) :=
  let ds := s.take n
  if ds.length = n ∧ ds.all Char.isDigit then some (Chars.natOfDigits ds, s.drop n) else none

/-- Skips a character. -/
def skip? (c : Char) (s : List Char) : Option (List Char) := Chars.stripStart? [c] s

/-- Skips a date. -/
def date? (s : List Char) : Option (List Char) := do
  let (year, s) ← fixed? 4 s
  let (month, s) ← fixed? 2 (← skip? '-' s)
  let (day, s) ← fixed? 2 (← skip? '-' s)
  if Civil.IsValid { year, month, day } then some s else none

/-- Skips a time of day. -/
def timeOfDay? (s : List Char) : Option (List Char) := do
  let (hour, s) ← fixed? 2 s
  let (minute, s) ← fixed? 2 (← skip? ':' s)
  let (second, s) ← fixed? 2 (← skip? ':' s)
  if hour > 23 ∨ minute > 59 ∨ second > 60 then none
  match s with
  | '.' :: s =>
    let ds := s.takeWhile Char.isDigit
    if ds = [] then none else some (s.drop ds.length)
  | s => some s

/-- Skips an offset from UTC, which may be missing. -/
def offset? (s : List Char) : Option (List Char) :=
  match s with
  | c :: t =>
    if c = 'Z' ∨ c = 'z' then some t
    else if c = '+' ∨ c = '-' then do
      let (hour, t) ← fixed? 2 t
      let (minute, t) ← fixed? 2 (← skip? ':' t)
      if hour ≤ 23 ∧ minute ≤ 59 then some t else none
    else some s
  | [] => some []

/-- A time, kept as an object of one member. -/
def time? (s : List Char) : Option (Json × List Char) := do
  let rest ← match date? s with
    | some s =>
      match s with
      | c :: t =>
        if c = 'T' ∨ c = 't' ∨ (c = ' ' ∧ (fixed? 2 t).isSome) then
          (timeOfDay? t).bind offset?
        else some s
      | [] => some []
    | none => timeOfDay? s
  return (.object [("time", .string (String.ofList (s.take (s.length - rest.length))))], rest)

end Toml

end CertSteward
