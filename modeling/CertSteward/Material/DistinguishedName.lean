import CertSteward.Asn1.ObjectId
import CertSteward.Bytes.Hex
import CertSteward.Bytes.Unicode

/-!
# Distinguished names

A name is a row of parts; a part is usually one attribute and its value, and may hold several. The
written form joins attributes of a part with `+` and parts with a comma.

## Main definitions

* `DistinguishedName`, `DistinguishedName.ofDer?`, `DistinguishedName.toDer`
* `DistinguishedName.text` — the written form
* `DistinguishedName.commonName?` — the first common name
-/

namespace CertSteward

/-- An attribute and its value. -/
structure NameAttribute where
  /-- Which attribute. -/
  kind : ObjectId
  /-- The value, most often a text. -/
  value : Der
deriving DecidableEq, Repr

namespace NameAttribute

/-- Short names of attributes. -/
def shortNames : List (List Nat × String) :=
  [([2, 5, 4, 3], "CN"), ([2, 5, 4, 6], "C"), ([2, 5, 4, 7], "L"), ([2, 5, 4, 8], "ST"),
    ([2, 5, 4, 10], "O"), ([2, 5, 4, 11], "OU"),
    ([0, 9, 2342, 19200300, 100, 1, 25], "DC"), ([1, 2, 840, 113549, 1, 9, 1], "Email"),
    ([2, 5, 4, 0], "objectClass"), ([2, 5, 4, 1], "aliasedEntryName"),
    ([2, 5, 4, 2], "knowledgeInformation"), ([2, 5, 4, 4], "surname"),
    ([2, 5, 4, 5], "serialNumber"), ([2, 5, 4, 9], "streetAddress"), ([2, 5, 4, 12], "title"),
    ([2, 5, 4, 13], "description"), ([2, 5, 4, 14], "searchGuide"),
    ([2, 5, 4, 15], "businessCategory"), ([2, 5, 4, 16], "postalAddress"),
    ([2, 5, 4, 17], "postalCode"), ([2, 5, 4, 41], "name"), ([2, 5, 4, 42], "givenName"),
    ([2, 5, 4, 43], "initials"), ([2, 5, 4, 44], "generationQualifier"),
    ([2, 5, 4, 45], "uniqueIdentifier"), ([2, 5, 4, 46], "dnQualifier")]

/-- The name of an attribute, its number where it has none. -/
def label (a : NameAttribute) : String :=
  (shortNames.lookup a.kind.path).getD ("OID(" ++ a.kind.text ++ ")")

/-- The tags of texts that are read as UTF-8. -/
def textTags : List UInt8 := [7, 12, 18, 19, 20, 21, 22, 25, 26, 27]

/-- The value as a text of single bytes or UTF-8. -/
def plainText? (a : NameAttribute) : Option String :=
  if a.value.tag ∈ textTags then Utf8.decode? a.value.contents else none

/-- The written form of the value: a text of any kind, else its bytes in upper-case hexadecimal. -/
def valueText? (a : NameAttribute) : Option String :=
  if a.value.tag ∈ textTags then Utf8.decode? a.value.contents
  else if a.value.tag = 30 then Utf16.decode? a.value.contents
  else if a.value.tag = 28 then Utf32.decode? a.value.contents
  else some (Hex.encodeUpper a.value.contents)

/-- The written form. -/
def text? (a : NameAttribute) : Option String := (a.valueText?).map fun v => a.label ++ "=" ++ v

/-- Reads an attribute. -/
def ofDer? (v : Der) : Option NameAttribute := do
  if v.tag ≠ Der.sequenceTag then none
  let (kind, s) ← Der.readTag? Der.objectTag v.contents
  let (value, _) ← Der.read? s
  return { kind := ← ObjectId.ofBytes? kind, value }

/-- An attribute as a value. -/
def toDer (a : NameAttribute) : Der := .sequence [a.kind.toDer, a.value]

/-- An attribute with a text. -/
def ofText (kind : ObjectId) (s : String) : NameAttribute := { kind, value := .text s }

end NameAttribute

/-- A row of parts, each of them one or more attributes. -/
structure DistinguishedName where
  /-- The parts. -/
  parts : List (List NameAttribute)
deriving DecidableEq, Repr

namespace DistinguishedName

/-- The results of `f` up to the first value that it refuses. -/
def readWhile (f : Der → Option α) : List Der → List α
  | [] => []
  | v :: vs =>
    match f v with
    | some a => a :: readWhile f vs
    | none => []

/-- Reads a part. -/
def part? (v : Der) : Option (List NameAttribute) :=
  if v.tag = Der.setTag then
    match readWhile NameAttribute.ofDer? (Der.readMany v.contents.length v.contents).1 with
    | [] => none
    | as => some as
  else none

/-- Reads the contents of a name; what cannot be read ends it. -/
def ofBytes (s : List UInt8) : DistinguishedName :=
  { parts := readWhile part? (Der.readMany s.length s).1 }

/-- A name as a value. -/
def toDer (n : DistinguishedName) : Der :=
  .sequence (n.parts.map fun p => Der.set (p.map NameAttribute.toDer))

/-- A name of one attribute a part. -/
def ofTexts (attributes : List (ObjectId × String)) : DistinguishedName :=
  { parts := attributes.map fun (kind, s) => [NameAttribute.ofText kind s] }

/-- The written form; a name with a text that cannot be read has none of its own. -/
def text (n : DistinguishedName) : String :=
  match n.parts.mapM fun p => (p.mapM NameAttribute.text?).map (Text.join " + ") with
  | some ps => Text.join ", " ps
  | none => "<X509Error: Invalid X.509 name>"

/-- The first common name, if it is a plain text. -/
def commonName? (n : DistinguishedName) : Option String :=
  (n.parts.flatten.find? fun a => a.kind == ObjectId.commonName).bind NameAttribute.plainText?

end DistinguishedName

end CertSteward
