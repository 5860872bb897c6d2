import CertSteward.Net.Address
import CertSteward.Net.Punycode

/-!
# Mail addresses

## Main definitions

* `isEmail` — whether a text is a mail address
-/

namespace CertSteward

namespace Email

/-- Letters and digits of ASCII, and the two characters outside it that fold to ASCII letters. -/
def isAlnum (c : Char) : Bool := Chars.isAlnum c || c.toNat == 0x17F || c.toNat == 0x212A

/-- Characters before the sign. -/
def isUserChar (c : Char) : Bool := isAlnum c || ".!#$%&'*+/=?^_\x60\x7b|\x7d~-".toList.contains c

/-- A label of 1 to 63 letters, digits and hyphens, with no hyphen at either end. -/
def isLabel (s : List Char) : Bool :=
  s.head?.any isAlnum && s.getLast?.any isAlnum && s.length ≤ 63 &&
    s.all fun c => isAlnum c || c == '-'

/-- Whether a text ends with an address in brackets. -/
def endsInLiteral (s : List Char) : Bool :=
  match s.reverse with
  | ']' :: rest =>
    let inner := rest.takeWhile fun c => c == ':' || c == '.' || (Chars.hexDigit? c).isSome
    inner ≠ [] && (rest.drop inner.length).head? == some '[' &&
      Address.isAddress (String.ofList inner.reverse)
  | _ => false

/-- What may stand behind the sign. -/
def isHost (s : List Char) : Bool := (Chars.splitOn '.' s).all isLabel || endsInLiteral s

end Email

/-- Whether a text is a mail address: at most 64 characters before the last `@`, at most 255 behind
it, and a name that is valid as it stands or in ASCII. -/
def isEmail (text : String) : Bool :=
  match (Chars.splitOn '@' text.toList).reverse with
  | host :: piece :: pieces =>
    let user := (List.intersperse ['@'] (piece :: pieces).reverse).flatten
    user.length ≤ 64 && host.length ≤ 255 && user ≠ [] && user.all Email.isUserChar &&
      (Email.isHost host || Email.isHost (Punycode.toAscii host))
  | _ => false

end CertSteward
