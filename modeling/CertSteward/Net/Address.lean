import CertSteward.Text.Chars

/-!
# Internet addresses

## Main definitions

* `Address.v4?`, `Address.v6?` — the numbers of a written address
* `Address.bytes?` — the 4 or 16 bytes of a written address
* `Address.v6Text` — the written form with the longest run of zero groups left out
* `Address.normal?` — the written form of an address of either kind
-/

namespace CertSteward

namespace Address

/-- One of four decimal numbers: up to three digits, at most 255, no zeros in front. -/
def octet? (s : List Char) : Option Nat :=
  match Chars.nat? s with
  | some n =>
    if s.length ≤ 3 ∧ n ≤ 255 ∧ (s.length = 1 ∨ s.head? ≠ some '0') then some n else none
  | none => none

/-- Four decimal numbers with dots between them. -/
def v4? (s : List Char) : Option (List Nat) :=
  match Chars.splitOn '.' s with
  | [a, b, c, d] => do
    let a ← octet? a
    let b ← octet? b
    let c ← octet? c
    let d ← octet? d
    return [a, b, c, d]
  | _ => none

/-- One group of up to four hexadecimal digits. -/
def group? (s : List Char) : Option Nat :=
  if s = [] ∨ s.length > 4 then none
  else s.foldl (fun n c => do return 16 * (← n) + (← Chars.hexDigit? c)) (some 0)

/-- Groups with colons between them; the last one may be a dotted address, which is two groups. -/
def groups? : List (List Char) → Bool → Option (List Nat)
  | [], _ => some []
  | [s], dotted =>
    match group? s with
    | some n => some [n]
    | none =>
      if dotted then
        match v4? s with
        | some [a, b, c, d] => some [a * 256 + b, c * 256 + d]
        | _ => none
      else none
  | s :: t :: rest, dotted => do
    let n ← group? s
    let ns ← groups? (t :: rest) dotted
    return n :: ns

/-- The pieces between colons, none for an empty text. -/
def pieces (s : List Char) : List (List Char) := if s = [] then [] else Chars.splitOn ':' s

/-- The eight groups of an address. -/
def v6? (s : List Char) : Option (List Nat) :=
  match Chars.splitAtText [':', ':'] s with
  | none =>
    match groups? (pieces s) true with
    | some ns => if ns.length = 8 then some ns else none
    | none => none
  | some (before, after) => do
    let head ← groups? (pieces before) false
    let tail ← groups? (pieces after) true
    if head.length + tail.length ≤ 7 then
      some (head ++ List.replicate (8 - head.length - tail.length) 0 ++ tail)
    else none

/-- The bytes of an address of either kind. -/
def bytes? (s : String) : Option (List UInt8) :=
  match v4? s.toList with
  | some ns => some (ns.map UInt8.ofNat)
  | none => (v6? s.toList).map fun ns =>
    ns.flatMap fun n => [UInt8.ofNat (n / 256), UInt8.ofNat (n % 256)]

/-- Whether a text is an address. -/
def isAddress (s : String) : Bool := (bytes? s).isSome

/-- The length of the run of zeros at the start. -/
def zeroRun (ns : List Nat) : Nat := (ns.takeWhile (· == 0)).length

/-- The start and the length of the first longest run of zeros. -/
def longestZeros (ns : List Nat) : Nat × Nat :=
  (List.range ns.length).foldl (fun best i =>
    let n := zeroRun (ns.drop i)
    if n > best.2 then (i, n) else best) (0, 0)

/-- Lower-case hexadecimal without zeros in front. -/
def hexText (n : Nat) : String := String.ofList (Nat.toDigits 16 n)

/-- The written form; the first longest run of two or more zero groups becomes `::`. -/
def v6Text (ns : List Nat) : String :=
  let (i, n) := longestZeros ns
  let groups (ms : List Nat) := Text.join ":" (ms.map hexText)
  if n < 2 then groups ns else groups (ns.take i) ++ "::" ++ groups (ns.drop (i + n))

/-- The written form of an address of either kind; one that embeds a dotted address shows it. -/
def normal? (s : String) : Option String :=
  match v4? s.toList, v6? s.toList with
  | some ns, _ => some (Text.join "." (ns.map toString))
  | none, some [0, 0, 0, 0, 0, 0xFFFF, a, b] =>
    some ("::ffff:" ++ Text.join "." ([a / 256, a % 256, b / 256, b % 256].map toString))
  | none, some ns => some (v6Text ns)
  | none, none => none

end Address

end CertSteward
