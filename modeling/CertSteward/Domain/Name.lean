import CertSteward.Text.Chars

/-!
# Domain names

A name is normalized before it is used: blanks around it and dots at its end are dropped and its
letters are lower-cased. What is left has to be two or more labels of 1 to 63 bytes, made of
letters, digits, hyphens and underscores, with no hyphen at either end of a label; one leading
`*` label is accepted where a wildcard is allowed.

A certificate names its primary domain, then the further domains in order, then the wildcard of
the primary domain if it is wanted. Blanks around names are dropped, names that are then empty are
left out, and of names that differ in case only the first stays.

## Main definitions

* `Domain.normalize` — the normalized name, or what is wrong with it
* `Domain.base` — a name without its leading `*.`
* `Domain.challengeName` — where the challenge record of a name lives
* `Domain.inZone?`, `inZone` — whether a zone is responsible for a name
* `nameList?` — the names of a certificate, or `none` if nothing is left
-/

namespace CertSteward

namespace Domain

/-- What makes a text no domain name. -/
inductive Fault
  | empty
  | tooLong
  | wildcard
  | noDot
  | labelLength
  | labelHyphen
  | labelCharacter
deriving DecidableEq, Repr

/-- The wording of a fault. -/
def Fault.message : Fault → String
  | empty => "empty"
  | tooLong => "longer than 253 characters"
  | wildcard => "wildcard not allowed here; use the wildcard flag"
  | noDot => "must contain at least one dot"
  | labelLength => "labels must be 1-63 characters"
  | labelHyphen => "labels must not start or end with '-'"
  | labelCharacter => "labels may only contain a-z, 0-9, '-' and '_'"

/-- The number of bytes of a text in UTF-8. -/
def byteLength (s : List Char) : Nat := s.foldl (fun n c => n + c.utf8Size) 0

/-- The characters of a label. -/
def isLabelChar (c : Char) : Bool := Chars.isAlnum c || c == '-' || c == '_'

/-- The fault of a label, if it has one. -/
def labelFault? (label : List Char) : Option Fault :=
  if label = [] ∨ byteLength label > 63 then some .labelLength
  else if label.head? = some '-' ∨ label.getLast? = some '-' then some .labelHyphen
  else if label.all isLabelChar then none
  else some .labelCharacter

/-- The leading `*.` of a wildcard name split off. -/
def splitWildcard (name : List Char) : Bool × List Char :=
  match Chars.stripStart? ['*', '.'] name with
  | some rest => (true, rest)
  | none => (false, name)

/-- Blanks around a name and dots at its end dropped, letters lower-cased. -/
def fold (name : List Char) : List Char :=
  Chars.lower (Chars.dropEndWhile (· == '.') (Chars.trim name))

/-- The fault of a folded name, if it has one. -/
def fault? (allowWildcard : Bool) (name : List Char) : Option Fault :=
  if name = [] then some .empty
  else if byteLength name > 253 then some .tooLong
  else
    let (isWildcard, rest) := splitWildcard name
    if isWildcard ∧ ¬ allowWildcard then some .wildcard
    else if '.' ∉ rest then some .noDot
    else (Chars.splitOn '.' rest).findSome? labelFault?

/-- The normalized form of a domain name. -/
def normalize (name : String) (allowWildcard : Bool) : Except Fault String :=
  let folded := fold name.toList
  match fault? allowWildcard folded with
  | some fault => .error fault
  | none => .ok (String.ofList folded)

/-- A name without its leading `*.`. -/
def base (name : String) : String := String.ofList (splitWildcard name.toList).2

/-- The name of a domain's wildcard. -/
def wildcardOf (name : String) : String := "*." ++ name

/-- The label under which challenge records live. -/
def challengeLabel : String := "_acme-challenge"

/-- The name of the challenge record of a domain; a wildcard shares it with its base domain. -/
def challengeName (name : String) : String := challengeLabel ++ "." ++ base name

/-! ### Zones

A name is compared with a zone from its end on, by a cut at a byte. -/

/-- The bytes of a text in UTF-8. -/
def bytes (s : List Char) : List UInt8 := s.flatMap String.utf8EncodeChar

/-- What follows the first `n` bytes of a text; `none` if they end inside a character or if there
are fewer. -/
def dropBytes? : Nat → List Char → Option (List Char)
  | 0, s => some s
  | _ + 1, [] => none
  | n + 1, c :: s => if c.utf8Size ≤ n + 1 then dropBytes? (n + 1 - c.utf8Size) s else none

/-- Whether `domain` is `zone` or lies below it, ignoring case, one leading `*.` of the domain and
dots at the end of both; `none` if a byte is read or a cut made where there is none. -/
def inZone? (domain zone : String) : Option Bool :=
  let d := Chars.dropEndWhile (· == '.') (base domain).toList
  let z := Chars.dropEndWhile (· == '.') zone.toList
  if Chars.sameIgnoringCase d z then some true
  else if byteLength d ≤ byteLength z then some false
  else
    let above := byteLength d - byteLength z
    match (bytes d)[above - 1]? with
    | none => none
    | some before =>
      if before ≠ '.'.toNat.toUInt8 then some false
      else (dropBytes? above d).map (Chars.sameIgnoringCase · z)

/-- Whether `domain` is `zone` or lies below it. -/
def inZone (domain zone : String) : Bool := (inZone? domain zone).getD false

end Domain

/-! ### The names of a certificate -/

/-- Adds a name at the end unless it is empty or already there in some spelling. -/
def addName (names : List String) (name : String) : List String :=
  if name.isEmpty ∨ names.any (Text.sameIgnoringCase · name) then names else names ++ [name]

/-- The names in the order in which they are considered. -/
def nameCandidates (primary : String) (others : List String) (wildcard : Bool) : List String :=
  let primary := Text.trim primary
  primary :: others.map Text.trim ++
    (if wildcard ∧ ¬ primary.isEmpty then ["*." ++ primary] else [])

/-- The names of a certificate, or `none` if there are none. -/
def nameList? (primary : String) (others : List String) (wildcard : Bool) :
    Option (List String) :=
  match (nameCandidates primary others wildcard).foldl addName [] with
  | [] => none
  | names => some names

end CertSteward
