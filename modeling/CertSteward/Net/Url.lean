import CertSteward.Bytes.Unicode
import CertSteward.Net.Address
import CertSteward.Net.Punycode
import CertSteward.Text.Chars

/-!
# Locators

A locator is read in the forgiving way of browsers: blanks and control characters around it and
tabs and line breaks inside it are dropped, backslashes count as slashes, dot segments are
resolved, numeric hosts are completed to four numbers, and characters that may not stand in a part
are written as percent escapes. What cannot be mended is a fault.

The schemes `http`, `https`, `ws`, `wss` and `ftp` need a host. Other schemes are taken as they
come.

## Main definitions

* `Url` — the parts of a locator
* `Url.parse` — reading, or what is wrong
* `Url.text` — the written form
-/

namespace CertSteward

/-- The parts of a locator. -/
structure Url where
  /-- The scheme in lower case. -/
  scheme : String
  /-- User name and password, escaped, with `@` behind; empty if there are none. -/
  userInfo : String := ""
  /-- The host. -/
  host : Option String := none
  /-- The port, if it is not the usual one of the scheme. -/
  port : Option Nat := none
  /-- The path. -/
  path : String := ""
  /-- What follows the question mark. -/
  query : Option String := none
  /-- What follows the number sign. -/
  fragment : Option String := none
deriving DecidableEq, Repr

namespace Url

/-- What makes a text no locator. -/
inductive Fault
  | relative
  | emptyHost
  | invalidPort
  | invalidV4
  | invalidV6
  | invalidHost
  | invalidHostCharacter
deriving DecidableEq, Repr

/-- The wording of a fault. -/
def Fault.message : Fault → String
  | relative => "relative URL without a base"
  | emptyHost => "empty host"
  | invalidPort => "invalid port number"
  | invalidV4 => "invalid IPv4 address"
  | invalidV6 => "invalid IPv6 address"
  | invalidHost => "invalid international domain name"
  | invalidHostCharacter => "invalid domain character"

/-! ### Escapes -/

/-- Control characters and everything outside ASCII. -/
def isControl (n : Nat) : Bool := n < 0x20 || n ≥ 0x7F

/-- Escaped in fragments. -/
def inFragment (n : Nat) : Bool := isControl n || " \"<>`".toList.any fun c => c.toNat == n

/-- Escaped in paths. -/
def inPath (n : Nat) : Bool := inFragment n || "#?\x7b\x7d".toList.any fun c => c.toNat == n

/-- Escaped in user names and passwords. -/
def inUserInfo (n : Nat) : Bool := inPath n || "/:;=@[\\]^|".toList.any fun c => c.toNat == n

/-- Escaped in queries. -/
def inQuery (special : Bool) (n : Nat) : Bool :=
  isControl n || " \"#<>".toList.any (fun c => c.toNat == n) || (special && n == 39)

/-- A hexadecimal digit in upper case. -/
def upperDigit (n : Nat) : Char := if n < 10 then Char.ofNat (48 + n) else Char.ofNat (55 + n)

/-- The bytes of a text, those in the class as percent escapes. -/
def escape (escaped : Nat → Bool) (s : List Char) : List Char :=
  (Utf8.encode (String.ofList s)).flatMap fun b =>
    let n := b.toNat
    if escaped n then ['%', upperDigit (n / 16), upperDigit (n % 16)] else [Char.ofNat n]

/-- Percent escapes replaced by the bytes they stand for. -/
def unescape : List UInt8 → List UInt8
  | [] => []
  | [a] => [a]
  | [a, b] => [a, b]
  | a :: b :: c :: rest =>
    match Chars.hexDigit? (Char.ofNat b.toNat), Chars.hexDigit? (Char.ofNat c.toNat) with
    | some m, some n =>
      if a = 37 then UInt8.ofNat (16 * m + n) :: unescape rest else a :: unescape (b :: c :: rest)
    | _, _ => a :: unescape (b :: c :: rest)

/-! ### Schemes and hosts -/

/-- Schemes that need a host, with their usual ports. -/
def usualPort? (scheme : String) : Option Nat :=
  if scheme = "http" ∨ scheme = "ws" then some 80
  else if scheme = "https" ∨ scheme = "wss" then some 443
  else if scheme = "ftp" then some 21
  else none

/-- Reads the scheme: a letter, then letters, digits, `+`, `-` and `.`, up to a colon. -/
def scheme? (s : List Char) : Option (String × List Char) :=
  match Chars.splitOnce ':' s with
  | some (name, rest) =>
    match name with
    | c :: _ =>
      if c.isAlpha ∧ name.all fun c => Chars.isAlnum c || c == '+' || c == '-' || c == '.' then
        some (String.ofList (Chars.lower name), rest)
      else none
    | [] => none
  | none => none

/-- A number of a numeric host: decimal, octal after `0`, hexadecimal after `0x`. -/
def hostNumber? (s : List Char) : Option Nat :=
  let read (base : Nat) (s : List Char) : Option Nat :=
    s.foldl (fun n c => do
      let d ← Chars.hexDigit? c
      if d < base then return base * (← n) + d else none) (some 0)
  match s with
  | [] => none
  | '0' :: 'x' :: s => read 16 s
  | '0' :: 'X' :: s => read 16 s
  | '0' :: c :: s => read 8 (c :: s)
  | s => read 10 s

/-- Whether a host has to be read as numbers. -/
def endsInNumber (host : List Char) : Bool :=
  let parts := Chars.splitOn '.' host
  let parts := if parts.getLast? = some [] then parts.dropLast else parts
  match parts.getLast? with
  | none => false
  | some last => (last ≠ [] && last.all Char.isDigit) || (hostNumber? last).isSome

/-- A numeric host completed to four numbers: the last number fills all places that are left. -/
def numericHost? (host : List Char) : Option (List Nat) := do
  let parts := Chars.splitOn '.' host
  let parts := if parts.getLast? = some [] then parts.dropLast else parts
  let numbers ← parts.mapM hostNumber?
  let last ← numbers.getLast?
  let first := numbers.dropLast
  if first.length > 3 ∨ first.any (· > 255) ∨ last ≥ Nat.pow 256 (4 - first.length) then none
  let places := 4 - first.length
  return first ++ (List.range places).map fun i => last / Nat.pow 256 (places - 1 - i) % 256

/-- Characters that may not stand in a host. -/
def forbiddenInHost (c : Char) : Bool :=
  c.toNat ≤ 0x20 || c.toNat == 0x7F || "#%/:<>?@[\\]^`\x7b|\x7d".toList.contains c

/-- Characters that may not stand in a host of an unknown scheme. -/
def forbiddenInOpaqueHost (c : Char) : Bool :=
  c.toNat == 0 || "\t\n\r #/:<>?@[\\]^|".toList.contains c

/-- The host of a locator whose scheme needs one. -/
def parseHost (s : List Char) : Except Fault String :=
  match s with
  | [] => .error .emptyHost
  | '[' :: inner =>
    if inner.getLast? = some ']' then
      match Address.v6? inner.dropLast with
      | some ns => .ok ("[" ++ Address.v6Text ns ++ "]")
      | none => .error .invalidV6
    else .error .invalidV6
  | s =>
    match Utf8.decode? (unescape (Utf8.encode (String.ofList s))) with
    | none => .error .invalidHost
    | some name =>
      let name := Punycode.toAscii name.toList
      if name = [] then .error .emptyHost
      else if name.any forbiddenInHost then .error .invalidHost
      else if endsInNumber name then
        match numericHost? name with
        | some ns => .ok (Text.join "." (ns.map toString))
        | none => .error .invalidV4
      else .ok (String.ofList name)

/-- The host of a locator of an unknown scheme. -/
def opaqueHost (s : List Char) : Except Fault String :=
  match s with
  | '[' :: _ => parseHost s
  | s =>
    if s.any forbiddenInOpaqueHost then .error .invalidHostCharacter
    else .ok (String.ofList (escape isControl s))

/-! ### The parts behind the scheme -/

/-- Whether a character ends the authority. -/
def endsAuthority (special : Bool) (c : Char) : Bool :=
  c == '/' || c == '?' || c == '#' || (special && c == '\\')

/-- User name and password in written form. -/
def userInfoText (s : List Char) : String :=
  let (user, password) := (Chars.splitOnce ':' s).getD (s, [])
  let name := escape inUserInfo user
  let word := escape inUserInfo password
  if name = [] ∧ word = [] then ""
  else String.ofList (name ++ (if word = [] then [] else ':' :: word) ++ ['@'])

/-- Splits user name and password off at the last `@` of the authority. -/
def splitUserInfo (s : List Char) : List Char × List Char :=
  match s.reverse.span (· != '@') with
  | (_, []) => ([], s)
  | (after, _ :: before) => (before.reverse, after.reverse)

/-- Splits a host from the port behind it; colons inside brackets belong to the host. -/
def splitPort (s : List Char) : List Char × Option (List Char) :=
  go false s
where
  /-- The rest of the host, knowing whether a bracket is open. -/
  go (inside : Bool) : List Char → List Char × Option (List Char)
    | [] => ([], none)
    | c :: s =>
      if c = ':' ∧ ¬ inside then ([], some s)
      else
        let inside := if c = '[' then true else if c = ']' then false else inside
        let (h, p) := go inside s
        (c :: h, p)

/-- The port, unless it is the usual one. -/
def parsePort (usual : Option Nat) (s : List Char) : Except Fault (Option Nat) :=
  if s = [] then .ok none
  else
    match Chars.nat? s with
    | some n =>
      if n > 65535 then .error .invalidPort else .ok (if usual = some n then none else some n)
    | none => .error .invalidPort

/-- A segment that stands for the directory it is in. -/
def isSingleDot (s : List Char) : Bool :=
  let s := Chars.lower s
  s == ".".toList || s == "%2e".toList

/-- A segment that stands for the directory above. -/
def isDoubleDot (s : List Char) : Bool :=
  let s := Chars.lower s
  s == "..".toList || s == ".%2e".toList || s == "%2e.".toList || s == "%2e%2e".toList

/-- Adds the segments of a path to those already there, resolving dot segments. -/
def resolve (done : List (List Char)) : List (List Char) → List (List Char)
  | [] => done
  | [s] =>
    if isDoubleDot s then done.dropLast ++ [[]]
    else if isSingleDot s then done ++ [[]]
    else done ++ [s]
  | s :: t :: rest =>
    if isDoubleDot s then resolve done.dropLast (t :: rest)
    else if isSingleDot s then resolve done (t :: rest)
    else resolve (done ++ [s]) (t :: rest)

/-- A path in written form. -/
def pathText (special : Bool) (s : List Char) : String :=
  let s := if special then s.map fun c => if c = '\\' then '/' else c else s
  match s with
  | [] => if special then "/" else ""
  | s =>
    let s := if s.head? = some '/' then s.drop 1 else s
    let segments := resolve [] ((Chars.splitOn '/' s).map (escape inPath))
    String.ofList (segments.flatMap ('/' :: ·))

/-- Splits query and fragment off. -/
def splitTail (special : Bool) (s : List Char) : List Char × Option String × Option String :=
  let (s, fragment) :=
    match Chars.splitOnce '#' s with
    | some (s, f) => (s, some (String.ofList (escape inFragment f)))
    | none => (s, none)
  match Chars.splitOnce '?' s with
  | some (s, q) => (s, some (String.ofList (escape (inQuery special) q)), fragment)
  | none => (s, none, fragment)

/-- Reads what follows the two slashes. -/
def authority (scheme : String) (s : List Char) : Except Fault Url := do
  let usual := usualPort? scheme
  let special := usual.isSome
  let (auth, rest) := s.span fun c => !endsAuthority special c
  let (user, hostPort) := splitUserInfo auth
  if auth.contains '@' ∧ user = [] ∧ hostPort = [] then throw .emptyHost
  let (h, p) := splitPort hostPort
  let h ← if special then parseHost h else opaqueHost h
  if h = "" ∧ p.isSome then throw .emptyHost
  let userInfo := userInfoText user
  if h = "" ∧ userInfo ≠ "" then throw .emptyHost
  let p ← parsePort usual (p.getD [])
  let (path, query, fragment) := splitTail special rest
  return { scheme, userInfo, host := some h, port := p, path := pathText special path, query,
           fragment }

/-- Control characters and blanks, which are dropped at the ends. -/
def isOuter (c : Char) : Bool := c.toNat ≤ 0x20

/-- Tabs and line breaks, which are dropped everywhere. -/
def isSkipped (c : Char) : Bool := c == '\t' || c == '\n' || c == '\r'

/-- Reads a locator. -/
def parse (text : String) : Except Fault Url :=
  let s := (Chars.dropEndWhile isOuter (text.toList.dropWhile isOuter)).filter fun c => !isSkipped c
  match scheme? s with
  | none => .error .relative
  | some (scheme, rest) =>
    if (usualPort? scheme).isSome then
      authority scheme (rest.dropWhile fun c => c == '/' || c == '\\')
    else
      match Chars.stripStart? ['/', '/'] rest with
      | some rest => if scheme = "file" then .ok { scheme } else authority scheme rest
      | none => .ok { scheme, path := String.ofList rest }

/-- The written form. -/
def text (u : Url) : String :=
  u.scheme ++ ":" ++
    (match u.host with
      | some h => "//" ++ u.userInfo ++ h ++ (u.port.elim "" fun p => ":" ++ toString p)
      | none => "") ++
    u.path ++ u.query.elim "" ("?" ++ ·) ++ u.fragment.elim "" ("#" ++ ·)

end Url

end CertSteward
