/-!
# JSON values

Objects keep the order of their members. Numbers that are written without fraction and exponent
and fit 64 bits stay whole, all others are doubles.

## Main definitions

* `Json` — a value
* `Json.field?`, `Json.string?`, `Json.whole?` … — looking into a value
* `Json.fields?`, `Json.fieldOr?` — the known members of an object, and one of them or its default
-/

namespace CertSteward

/-- A number of a JSON text. -/
inductive Json.Number
  /-- A whole number from `-2 ^ 63` up to `2 ^ 64 - 1`. -/
  | whole (n : Int)
  /-- Any other number. -/
  | float (x : Float)
deriving Inhabited

/-- A JSON value. -/
inductive Json
  | null
  | bool (b : Bool)
  | number (n : Json.Number)
  | string (s : String)
  | array (elements : List Json)
  | object (members : List (String × Json))
deriving Inhabited

namespace Json

/-- A whole number. -/
def int (n : Int) : Json := number (.whole n)

/-- A natural number. -/
def nat (n : Nat) : Json := int n

/-- A text or `null`. -/
def optional (s : Option String) : Json := s.elim null string

/-- A list of texts. -/
def strings (xs : List String) : Json := array (xs.map string)

/-- The members of an object, none for any other value. -/
def members : Json → List (String × Json)
  | object ms => ms
  | _ => []

/-- The first member of that name. -/
def field? (j : Json) (name : String) : Option Json := j.members.lookup name

/-- A text. -/
def string? : Json → Option String
  | string s => some s
  | _ => none

/-- A truth value. -/
def bool? : Json → Option Bool
  | bool b => some b
  | _ => none

/-- A whole number. -/
def whole? : Json → Option Int
  | number (.whole n) => some n
  | _ => none

/-- A whole number that is not negative. -/
def nat? (j : Json) : Option Nat :=
  match j.whole? with
  | some n => if 0 ≤ n then some n.toNat else none
  | none => none

/-- A number as a double. -/
def float? : Json → Option Float
  | number (.whole n) => some (Float.ofInt n)
  | number (.float x) => some x
  | _ => none

/-- The elements of an array. -/
def array? : Json → Option (List Json)
  | array xs => some xs
  | _ => none

/-! ### Objects with known members -/

/-- The members with a known name in the order given, if none of them stands there twice. An array
gives the known members in their order. -/
def fields? (known : List String) : Json → Option (List (String × Json))
  | .object ms =>
    let ms := ms.filter fun (name, _) => known.contains name
    if (ms.map (·.1)).Nodup then some ms else none
  | .array vs => if vs.length ≤ known.length then some (known.zip vs) else none
  | _ => none

/-- The member of that name, or its default. -/
def fieldOr? (ms : List (String × Json)) (name : String) (read : Json → Option α) (usual : α) :
    Option α :=
  match ms.lookup name with
  | some v => read v
  | none => some usual

end Json

end CertSteward
