import CertSteward.Kdl.Document
import CertSteward.Kdl.Text

/-!
# Reading KDL

The grammar is that of version 2: words of the language begin with `#`, names need no quotes, and
a slash with a hyphen takes back the node, value or block that follows.

## Main definitions

* `Kdl.parse?` — reads a document
-/

namespace CertSteward

namespace Kdl

/-! ### Values -/

/-- The digits of a numeral; underscores may stand behind the first one. -/
def digits? (base : Nat) (s : List Char) : Option (Nat × List Char) :=
  let value? (c : Char) := (Chars.hexDigit? c).bind fun d => if d < base then some d else none
  match s with
  | c :: _ =>
    if (value? c).isSome then
      let ds := s.takeWhile fun c => c == '_' || (value? c).isSome
      some (ds.foldl (fun n c => ((value? c).map (base * n + ·)).getD n) 0, s.drop ds.length)
    else none
  | [] => none

/-- The largest whole number. -/
def maxWhole : Nat := Nat.pow 2 127 - 1

/-- What follows an exponent, which may be missing. -/
def skipExponent? (s : List Char) : Option (List Char) :=
  match s with
  | c :: t =>
    if c = 'e' ∨ c = 'E' then
      let t := match t with
        | d :: u => if d = '+' ∨ d = '-' then u else t
        | [] => t
      (digits? 10 t).map (·.2)
    else some s
  | [] => some s

/-- A number. -/
def number? (s : List Char) : Option (Value × List Char) := do
  let (negative, s) := match s with
    | '-' :: s => (true, s)
    | '+' :: s => (false, s)
    | s => (false, s)
  let whole (n : Nat) (s : List Char) : Option (Value × List Char) :=
    if n ≤ maxWhole then some (.whole (if negative then -n else n), s) else none
  match s with
  | '0' :: 'x' :: s => let (n, s) ← digits? 16 s; whole n s
  | '0' :: 'o' :: s => let (n, s) ← digits? 8 s; whole n s
  | '0' :: 'b' :: s => let (n, s) ← digits? 2 s; whole n s
  | s =>
    let (n, s) ← digits? 10 s
    let fraction ← match s with
      | '.' :: s => (digits? 10 s).map (·.2)
      | s => some s
    let rest ← skipExponent? fraction
    if rest.length = s.length then whole n s else some (.decimal, rest)

/-- The words of the language. -/
def words : List (List Char × Value) :=
  [("#true".toList, .truth true), ("#false".toList, .truth false), ("#null".toList, .null),
    ("#inf".toList, .decimal), ("#-inf".toList, .decimal), ("#nan".toList, .decimal)]

/-- A word of the language. -/
def word? (s : List Char) : Option (Value × List Char) :=
  words.findSome? fun (w, v) => (Chars.stripStart? w s).map fun s => (v, s)

/-- Whether a number begins here. -/
def startsNumber (s : List Char) : Bool :=
  match s with
  | c :: t => c.isDigit || ((c == '+' || c == '-') && t.head?.any Char.isDigit)
  | [] => false

/-- A value without a type. -/
def plainValue? (s : List Char) : Option (Value × List Char) :=
  match word? s with
  | some r => some r
  | none =>
    if startsNumber s then number? s else (string? s).map fun (t, s) => (.text t, s)

/-- Skips a type in parentheses. -/
def skipType? (s : List Char) : Option (List Char) := do
  match s with
  | '(' :: s =>
    let (_, s) ← string? (← skipSpace? s)
    match ← skipSpace? s with
    | ')' :: s => skipSpace? s
    | _ => none
  | s => some s

/-- A value, which may have a type. -/
def value? (s : List Char) : Option (Value × List Char) := do plainValue? (← skipType? s)

/-- A value, which may have a name or a type. -/
def entry? (s : List Char) : Option (Entry × List Char) := do
  let named (name : String) (s : List Char) : Option (Entry × List Char) := do
    match ← skipSpace? s with
    | '=' :: s =>
      let (v, s) ← value? (← skipSpace? s)
      return ({ name := some name, value := v }, s)
    | _ => return ({ value := .text name }, s)
  match s with
  | '(' :: _ => (value? s).map fun (v, s) => ({ value := v }, s)
  | s =>
    match ← plainValue? s with
    | (.text t, s) => named t s
    | (v, s) => return ({ value := v }, s)

/-! ### Nodes -/

/-- Whether a node ends here. -/
def endsNode (s : List Char) : Bool :=
  match s with
  | [] => true
  | '/' :: '/' :: _ => true
  | c :: _ => c == ';' || c == '\x7d' || isNewline c

/-- What follows the mark that takes back what comes next. -/
def takenBack? (s : List Char) : Option (List Char) :=
  match s with
  | '/' :: '-' :: s => skipLines? s
  | _ => none

/-- How far a node is read. Entries come first, then its blocks. -/
inductive Stage
  | entries
  /-- A block that is taken back was read, which no entry may follow. -/
  | blocks
  /-- The block of the node was read, which only blocks that are taken back may follow. -/
  | closed
deriving DecidableEq

mutual

/-- Entries and blocks of a node up to its end. -/
def parts? (fuel : Nat) (stage : Stage) (s : List Char) :
    Option (List Entry × List Node × List Char) :=
  match fuel with
  | 0 => none
  | fuel + 1 => do
    let t ← skipSpace? s
    if endsNode t then return ([], [], t)
    let (dropped, t) := match takenBack? t with
      | some u => (true, u)
      | none => (false, t)
    match t with
    | '\x7b' :: t =>
      if stage = .closed ∧ ¬ dropped then none
      let (nodes, t) ← nodes? fuel true t
      let stage := if dropped ∧ stage ≠ .closed then .blocks else .closed
      let (entries, more, t) ← parts? fuel stage t
      return (entries, if dropped then more else nodes, t)
    | t =>
      if stage ≠ .entries ∨ (¬ dropped ∧ t.length = s.length) then none
      let (e, t) ← entry? t
      let (entries, nodes, t) ← parts? fuel .entries t
      return (if dropped then entries else e :: entries, nodes, t)

/-- Nodes up to the end of the document or of the block. -/
def nodes? (fuel : Nat) (inBlock : Bool) (s : List Char) : Option (List Node × List Char) :=
  match fuel with
  | 0 => none
  | fuel + 1 => do
    match ← skipLines? s with
    | [] => if inBlock then none else return ([], [])
    | '\x7d' :: s => if inBlock then return ([], s) else none
    | s =>
      let (dropped, s) := match takenBack? s with
        | some t => (true, t)
        | none => (false, s)
      let (name, s) ← string? (← skipType? s)
      let (entries, children, s) ← parts? fuel .entries s
      let s := match s with
        | ';' :: s => s
        | s => s
      let (more, s) ← nodes? fuel inBlock s
      return (if dropped then more else .mk name entries children :: more, s)

end

/-- Reads a document. -/
def parse? (text : String) : Option (List Node) :=
  let s := match text.toList with
    | c :: s => if c.toNat = 0xFEFF then s else c :: s
    | [] => []
  (nodes? (2 * s.length + 2) false s).map (·.1)

end Kdl

end CertSteward
