/-!
# KDL documents

A document is a row of nodes. A node has a name, entries — values, some of them named — and nodes
of its own.

## Main definitions

* `Kdl.Value`, `Kdl.Entry`, `Kdl.Node`
* `Kdl.Node.child?`, `Kdl.Node.firstValue?`, `Kdl.Node.arguments` — looking into a node
-/

namespace CertSteward

namespace Kdl

/-- A value. Numbers with a fraction or an exponent are told apart from whole ones only. -/
inductive Value
  | text (s : String)
  | whole (n : Int)
  | decimal
  | truth (b : Bool)
  | null
deriving DecidableEq, Repr

/-- A value of a node, which may have a name. -/
structure Entry where
  /-- Its name. -/
  name : Option String := none
  /-- The value. -/
  value : Value
deriving DecidableEq, Repr

/-- A node. -/
inductive Node
  | mk (name : String) (entries : List Entry) (children : List Node)
deriving Repr

namespace Value

/-- A text. -/
def text? : Value → Option String
  | text s => some s
  | _ => none

/-- A whole number. -/
def whole? : Value → Option Int
  | whole n => some n
  | _ => none

/-- A truth value. -/
def truth? : Value → Option Bool
  | truth b => some b
  | _ => none

end Value

namespace Node

/-- The name. -/
def name : Node → String
  | mk n _ _ => n

/-- The values. -/
def entries : Node → List Entry
  | mk _ es _ => es

/-- The nodes inside. -/
def children : Node → List Node
  | mk _ _ cs => cs

/-- The first node of that name inside. -/
def child? (n : Node) (name : String) : Option Node := n.children.find? (·.name == name)

/-- The first value of the first node of that name inside. -/
def firstValue? (n : Node) (name : String) : Option Value := do
  return (← (← n.child? name).entries.head?).value

/-- The values without a name. -/
def arguments (n : Node) : List Value :=
  (n.entries.filter fun e => e.name.isNone).map (·.value)

end Node

end Kdl

end CertSteward
