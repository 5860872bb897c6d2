import CertSteward.Bytes.Base64
import CertSteward.Material.Error
import CertSteward.Text.Chars

/-!
# PEM texts

A block names what it holds in a first and a last line and carries the bytes in Base64 between
them, after optional headers that end with an empty line. A text may hold several blocks and
anything else around them.

Blocks are found by their marks. A mark is looked for from left to right; a character that breaks
off a partial mark is passed over and is not tried again as its beginning, so that a mark after
further hyphens is missed.

## Main definitions

* `PemBlock`, `Pem.encode`, `Pem.decode` — blocks, their text, and reading them
* `Pem.certificates` — the bytes of the certificates in a text
* `Pem.splitChain` — the first certificate and the others as texts of their own
-/

namespace CertSteward

/-- One block of a PEM text. -/
structure PemBlock where
  /-- What the block holds. -/
  tag : String
  /-- The bytes. -/
  contents : List UInt8
  /-- The header lines; each has a colon. -/
  headers : List String := []
deriving DecidableEq, Repr

namespace PemBlock

/-- Name and value of each header, blanks around them dropped. -/
def headerPairs (b : PemBlock) : List (String × String) :=
  b.headers.map fun line =>
    match Chars.splitOnce ':' line.toList with
    | some (name, value) =>
      (String.ofList (Chars.trim name), String.ofList (Chars.trim value))
    | none => (line, "")

end PemBlock

namespace Pem

/-! ### Faults -/

/-- What is wrong with a PEM text. -/
inductive Fault
  | missingBegin
  | missingEnd
  | mismatch (first last : String)
  | invalidData
  | invalidHeader (line : String)
  | noBlock
  | noCertificate
  | noPrivateKey
deriving DecidableEq, Repr

/-- The wording of a fault. -/
def Fault.message : Fault → String
  | missingBegin => "missing BEGIN tag"
  | missingEnd => "missing END tag"
  | mismatch first last =>
    "mismatching BEGIN (\"" ++ first ++ "\") and END (\"" ++ last ++ "\") tags"
  | invalidData => "invalid data: not Base64"
  | invalidHeader line => "invalid header: " ++ line
  | noBlock => "no PEM blocks found"
  | noCertificate => "no CERTIFICATE block found"
  | noPrivateKey => "expected a PKCS#8 PRIVATE KEY block"

/-- A fault as a fault of the material. -/
def Fault.toMaterial (f : Fault) : MaterialError := .malformedPem f.message

/-! ### Tags and marks -/

/-- The tag of a certificate. -/
def certificateTag : String := "CERTIFICATE"

/-- The tag of a private key. -/
def privateKeyTag : String := "PRIVATE KEY"

/-- The tag of a certificate request. -/
def requestTag : String := "CERTIFICATE REQUEST"

/-- The mark that ends a tag. -/
def dashes : List Char := "-----".toList

/-- The mark before the tag of the first line. -/
def beginMark : List Char := "-----BEGIN ".toList

/-- The mark before the tag of the last line. -/
def endMark : List Char := "-----END ".toList

/-- What follows `mark`, of which `due` is still to come. -/
def after? (mark : List Char) : List Char → List Char → Option (List Char)
  | [], s => some s
  | _ :: _, [] => none
  | d :: due, c :: s => if c = d then after? mark due s else after? mark mark s

/-- The parts of a text before and after a mark. -/
def cut? (mark s : List Char) : Option (List Char × List Char) :=
  (after? mark mark s).map fun rest => (s.take (s.length - rest.length - mark.length), rest)

/-! ### Reading -/

/-- A block with nothing read inside it. -/
structure RawBlock where
  /-- The tag of the first line. -/
  first : List Char
  /-- Everything between the two lines. -/
  body : List Char
  /-- The tag of the last line. -/
  last : List Char

/-- Blanks behind a mark. -/
def isGap (c : Char) : Bool := c == ' ' || c == '\t' || c == '\n' || c == '\r'

/-- The next block and the text behind it. -/
def rawBlock? (s : List Char) : Option (RawBlock × List Char) := do
  let (_, s) ← cut? beginMark s
  let (first, s) ← cut? dashes s
  let (body, s) ← cut? endMark (s.dropWhile isGap)
  let (last, s) ← cut? dashes s
  return ({ first, body, last }, s.dropWhile isGap)

/-- All blocks of a text of at most `fuel` characters. -/
def rawBlocks : Nat → List Char → List RawBlock
  | 0, _ => []
  | fuel + 1, s =>
    match rawBlock? s with
    | some (b, s) => b :: rawBlocks fuel s
    | none => []

/-- The headers and the data of a body, which an empty line separates. -/
def splitBody (body : List Char) : List Char × List Char :=
  match cut? ['\n', '\n'] body with
  | some parts => parts
  | none => (cut? ['\r', '\n', '\r', '\n'] body).getD ([], body)

/-- Reads the inside of a block. -/
def RawBlock.read (b : RawBlock) : Except Fault PemBlock := do
  if b.first = [] then throw .missingBegin
  if b.last = [] then throw .missingEnd
  if b.first ≠ b.last then throw (.mismatch (String.ofList b.first) (String.ofList b.last))
  let (headers, data) := splitBody b.body
  match Base64.decodeWith? Base64.standard (data.filter fun c => !Chars.isBlank c) with
  | none => throw .invalidData
  | some contents =>
    let lines := (Chars.lines headers).map Chars.trimEnd
    match lines.find? fun line => !line.contains ':' with
    | some line => throw (.invalidHeader (String.ofList line))
    | none =>
      return { tag := String.ofList b.first, contents
               headers := lines.map fun line => String.ofList (Chars.trim line) }

/-- The blocks of a text, or the first fault. -/
def blocks (text : String) : Except Fault (List PemBlock) := do
  let s := text.toList
  match ← (rawBlocks s.length s).mapM RawBlock.read with
  | [] => throw .noBlock
  | bs => return bs

/-- The blocks of a text; there is at least one. -/
def decode (text : String) : Except MaterialError (List PemBlock) :=
  (blocks text).mapError Fault.toMaterial

/-! ### Writing -/

/-- The characters in rows of 64, each closed by a line feed. -/
def rows (s : List Char) : List Char :=
  match s with
  | [] => []
  | c :: s => (c :: s.take 63) ++ '\n' :: rows (s.drop 63)
termination_by s.length
decreasing_by simp only [List.length_drop, List.length_cons]; omega

/-- One block as text. -/
def encodeBlock (b : PemBlock) : List Char :=
  let headers := b.headers.flatMap fun line => Chars.trim line.toList ++ ['\n']
  beginMark ++ b.tag.toList ++ dashes ++ '\n' :: headers ++ (if headers = [] then [] else ['\n']) ++
    rows (Base64.encodeWith Base64.standard b.contents) ++ endMark ++ b.tag.toList ++ dashes ++
    ['\n']

/-- Blocks as text, an empty line between them. -/
def encodeChars : List PemBlock → List Char
  | [] => []
  | [b] => encodeBlock b
  | b :: c :: bs => encodeBlock b ++ '\n' :: encodeChars (c :: bs)

/-- Blocks as text. -/
def encode (bs : List PemBlock) : String := String.ofList (encodeChars bs)

/-! ### Certificates -/

/-- The bytes of the certificates in a text; there is at least one. -/
def certificates (text : String) : Except MaterialError (List (List UInt8)) := do
  match ((← decode text).filter fun b => b.tag == certificateTag).map (·.contents) with
  | [] => throw (Fault.toMaterial .noCertificate)
  | ders => return ders

/-- Certificates as text. -/
def ofCertificates (ders : List (List UInt8)) : String :=
  encode (ders.map fun der => { tag := certificateTag, contents := der })

/-- The first certificate of a text, and the further ones, which may be none. -/
def splitChain (text : String) : Except MaterialError (String × String) := do
  match ← certificates text with
  | [] => throw (Fault.toMaterial .noCertificate)
  | leaf :: rest => return (ofCertificates [leaf], ofCertificates rest)

/-- The bytes of the first private key of a text. -/
def privateKey (text : String) : Except MaterialError (List UInt8) := do
  match (← decode text).find? fun b => b.tag == privateKeyTag with
  | some b => return b.contents
  | none => throw (Fault.toMaterial .noPrivateKey)

end Pem

end CertSteward
