import CertSteward.Toml.Scalar

/-!
# Reading TOML

A document is read into the same values as JSON. A table may be named once by a header; tables on
the way to it come into being by themselves, and keys with dots add only to tables that such keys
made.

## Main definitions

* `Toml.Item` — a value while the document is read
* `Toml.parse?` — reads a document
-/

namespace CertSteward

namespace Toml

/-- How a table came into being. -/
inductive Origin
  /-- It stands on the way to a table that a header names. -/
  | passed
  /-- A key with dots made it. -/
  | dotted
  /-- A header names it. -/
  | header
deriving DecidableEq, Repr

/-- A value while the document is read. -/
inductive Item
  /-- A value that nothing is added to. -/
  | closed (value : Json)
  /-- A table. -/
  | table (origin : Origin) (members : List (String × Item))
  /-- A row of tables, the last one first. -/
  | tables (rows : List (List (String × Item)))

mutual

/-- The value that was read. -/
def Item.toJson : Item → Json
  | .closed v => v
  | .table _ ms => .object (membersToJson ms)
  | .tables rows => .array (rowsToJson rows).reverse

/-- The members of a table. -/
def membersToJson : List (String × Item) → List (String × Json)
  | [] => []
  | (k, v) :: ms => (k, v.toJson) :: membersToJson ms

/-- A row of tables. -/
def rowsToJson : List (List (String × Item)) → List Json
  | [] => []
  | ms :: rows => .object (membersToJson ms) :: rowsToJson rows

end

/-- The members of a table. -/
abbrev Members := List (String × Item)

/-- Puts a value in the place of the member of that name, or at the end. -/
def setMember (ms : Members) (name : String) (v : Item) : Members :=
  match ms with
  | [] => [(name, v)]
  | (k, w) :: ms => if k = name then (k, v) :: ms else (k, w) :: setMember ms name v

/-- Changes the table that a path leads to. Tables on the way are made where they are missing;
with `dotted` only tables that keys made or that are passed by headers are entered. -/
def within? (dotted : Bool) (path : List String) (f : Origin → Members → Option Members)
    (origin : Origin) (ms : Members) : Option Members :=
  match path with
  | [] => f origin ms
  | name :: path =>
    match ms.lookup name with
    | none => do
      let new := if dotted then Origin.dotted else Origin.passed
      return setMember ms name (.table new (← within? dotted path f new []))
    | some (.table o inner) => do
      if dotted ∧ o = .header then none
      return setMember ms name (.table o (← within? dotted path f o inner))
    | some (.tables (row :: rows)) => do
      return setMember ms name (.tables ((← within? dotted path f .header row) :: rows))
    | some _ => none

/-- Adds a value under a key with dots. -/
def addValue? (path : List String) (v : Item) (ms : Members) : Option Members := do
  let name ← path.getLast?
  within? true path.dropLast (fun origin inner =>
    if (origin ≠ .dotted ∧ path.length > 1) ∨ (inner.lookup name).isSome then none
    else some (inner ++ [(name, v)])) .header ms

/-- Opens the table that a header names. -/
def openTable? (path : List String) (ms : Members) : Option Members := do
  let name ← path.getLast?
  within? false path.dropLast (fun _ inner =>
    match inner.lookup name with
    | none => some (inner ++ [(name, .table .header [])])
    | some (.table .passed found) => some (setMember inner name (.table .header found))
    | some _ => none) .header ms

/-- Adds a row to the tables that a header names. -/
def openRow? (path : List String) (ms : Members) : Option Members := do
  let name ← path.getLast?
  within? false path.dropLast (fun _ inner =>
    match inner.lookup name with
    | none => some (inner ++ [(name, .tables [[]])])
    | some (.tables rows) => some (setMember inner name (.tables ([] :: rows)))
    | some _ => none) .header ms

mutual

/-- A value. -/
def value? (fuel : Nat) (s : List Char) : Option (Json × List Char) :=
  match fuel with
  | 0 => none
  | fuel + 1 =>
    match s with
    | '[' :: s => (elements? fuel s).map fun (xs, s) => (.array xs, s)
    | '\x7b' :: s =>
      match skipGap s with
      | '\x7d' :: s => some (.object [], s)
      | s => (members? fuel [] s).map fun (ms, s) => (.object (membersToJson ms), s)
    | c :: _ =>
      if c = '"' ∨ c = '\'' then (text? s).map fun (t, s) => (.string t, s)
      else
        match Chars.stripStart? "true".toList s, Chars.stripStart? "false".toList s with
        | some s, _ => some (.bool true, s)
        | none, some s => some (.bool false, s)
        | none, none => (time? s).or (number? s)
    | [] => none

/-- The elements of an array up to its end; one comma may stand behind the last one. -/
def elements? (fuel : Nat) (s : List Char) : Option (List Json × List Char) :=
  match fuel with
  | 0 => none
  | fuel + 1 => do
    match ← skipLines? s.length s with
    | ']' :: s => return ([], s)
    | s =>
      let (x, s) ← value? fuel s
      match ← skipLines? s.length s with
      | ',' :: s =>
        let (xs, s) ← elements? fuel s
        return (x :: xs, s)
      | ']' :: s => return ([x], s)
      | _ => none

/-- The members of a table in braces up to its end. -/
def members? (fuel : Nat) (done : Members) (s : List Char) : Option (Members × List Char) :=
  match fuel with
  | 0 => none
  | fuel + 1 => do
    let (path, s) ← key? s
    let s ← skip? '=' s
    let (v, s) ← value? fuel (skipGap s)
    let done ← addValue? path (.closed v) done
    match skipGap s with
    | ',' :: s => members? fuel done s
    | '\x7d' :: s => return (done, s)
    | _ => none

end

/-- Goes on with the next line. -/
def endLine? (s : List Char) : Option (List Char) := do
  match ← skipComment? (skipGap s) with
  | [] => some []
  | s => newline? s

/-- Reads lines: `ms` is what has been read, `current` the path of the table that keys go to. -/
def lines? : Nat → Members → List String → List Char → Option Members
  | 0, _, _, _ => none
  | fuel + 1, ms, current, s => do
    match ← skipLines? s.length s with
    | [] => some ms
    | '[' :: '[' :: s =>
      let (path, s) ← key? s
      let s ← Chars.stripStart? [']', ']'] s
      lines? fuel (← openRow? path ms) path (← endLine? s)
    | '[' :: s =>
      let (path, s) ← key? s
      let s ← skip? ']' s
      lines? fuel (← openTable? path ms) path (← endLine? s)
    | s =>
      let (path, s) ← key? s
      let s ← skip? '=' s
      let (v, s) ← value? (s.length + 1) (skipGap s)
      let ms ← within? false current (fun _ inner => addValue? path (.closed v) inner) .header ms
      lines? fuel ms current (← endLine? s)

/-- Reads a document. -/
def parse? (text : String) : Option Json :=
  let s := match text.toList with
    | c :: s => if c.toNat = 0xFEFF then s else c :: s
    | [] => []
  (lines? (s.length + 1) [] [] s).map fun ms => .object (membersToJson ms)

end Toml

end CertSteward
