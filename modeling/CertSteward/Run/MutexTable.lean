/-!
# Tables of guarded values

A table maps keys to cells. A cell holds a value and is held by one fiber at a time; fibers that
come while it is held wait in line, and who lets it go hands it to the first of them. A cell counts
its users: those that hold it, wait for it or have only looked it up. A key can be removed while
its cell is in use, and then leads to another cell when it is asked for again.

Each operation is one atomic step. What looks like one step to a user of the table, such as taking
the cell of a key, is made of several, and other fibers may come between them.

## Main definitions

* `MutexTable`, `MutexTable.obtain`, `find` — cells by key, with one more user
* `MutexTable.enter`, `tryEnter`, `leave`, `withdraw` — holding a cell
* `MutexTable.discard`, `tidy`, `remove` — removing a key
-/

namespace CertSteward

/-- A guarded value. -/
structure MutexTable.Cell (ν : Type) where
  /-- The value. -/
  value : ν
  /-- Whether a fiber holds the cell. -/
  isHeld : Bool := false
  /-- The fibers that wait for it, the first in line first. -/
  waiting : List Nat := []
  /-- How many users it has. -/
  users : Nat := 0

/-- Guarded values by key. Cells are known by their number and are never given up. -/
structure MutexTable (κ ν : Type) where
  /-- The cells. -/
  cells : Array (MutexTable.Cell ν) := #[]
  /-- The number of the cell that a key leads to. -/
  index : List (κ × Nat) := []

namespace MutexTable

variable {κ ν : Type} [BEq κ]

/-- Changes a cell. -/
def modify (t : MutexTable κ ν) (c : Nat) (f : Cell ν → Cell ν) : MutexTable κ ν :=
  { t with cells := t.cells.modify c f }

/-! ### Users -/

/-- One more user of a cell. -/
def share (t : MutexTable κ ν) (c : Nat) : MutexTable κ ν :=
  t.modify c fun cell => { cell with users := cell.users + 1 }

/-- One user less. -/
def release (t : MutexTable κ ν) (c : Nat) : MutexTable κ ν :=
  t.modify c fun cell => { cell with users := cell.users - 1 }

/-- The cell of a key with one more user; a new one if the key leads nowhere. -/
def obtain (t : MutexTable κ ν) (k : κ) (start : ν) : Nat × MutexTable κ ν :=
  match t.index.lookup k with
  | some c => (c, t.share c)
  | none =>
    let c := t.cells.size
    (c, { cells := t.cells.push { value := start, users := 1 }, index := t.index ++ [(k, c)] })

/-- The cell of a key with one more user, if the key leads to one. -/
def find (t : MutexTable κ ν) (k : κ) : Option Nat × MutexTable κ ν :=
  match t.index.lookup k with
  | some c => (some c, t.share c)
  | none => (none, t)

/-! ### Holding a cell -/

/-- Whether a fiber holds the cell. -/
def isHeld (t : MutexTable κ ν) (c : Nat) : Bool := t.cells[c]?.any (·.isHeld)

/-- Takes a cell that nobody holds, and says whether that was so. -/
def tryEnter (t : MutexTable κ ν) (c : Nat) : Bool × MutexTable κ ν :=
  if t.isHeld c then (false, t) else (true, t.modify c fun cell => { cell with isHeld := true })

/-- Takes a cell or gets in line for it, and says which. -/
def enter (t : MutexTable κ ν) (c fiber : Nat) : Bool × MutexTable κ ν :=
  match t.tryEnter c with
  | (true, t) => (true, t)
  | (false, t) => (false, t.modify c fun cell => { cell with waiting := cell.waiting ++ [fiber] })

/-- Lets a cell go. It passes to the first in line, who is told. -/
def leave (t : MutexTable κ ν) (c : Nat) : Option Nat × MutexTable κ ν :=
  match (t.cells[c]?.map (·.waiting)).getD [] with
  | fiber :: rest => (some fiber, t.modify c fun cell => { cell with waiting := rest })
  | [] => (none, t.modify c fun cell => { cell with isHeld := false })

/-- Gets a fiber out of the line. -/
def withdraw (t : MutexTable κ ν) (c fiber : Nat) : MutexTable κ ν :=
  t.modify c fun cell => { cell with waiting := cell.waiting.filter (· ≠ fiber) }

/-- The value in a cell. -/
def value? (t : MutexTable κ ν) (c : Nat) : Option ν := t.cells[c]?.map (·.value)

/-- Puts a value into a cell. -/
def put (t : MutexTable κ ν) (c : Nat) (v : ν) : MutexTable κ ν :=
  t.modify c fun cell => { cell with value := v }

/-! ### Removing a key -/

/-- Makes a key lead nowhere. -/
def remove (t : MutexTable κ ν) (k : κ) : MutexTable κ ν :=
  { t with index := t.index.filter fun entry => !(entry.1 == k) }

/-- The number of users of a cell. -/
def users (t : MutexTable κ ν) (c : Nat) : Nat := (t.cells[c]?.map (·.users)).getD 0

/-- Removes a key that leads to this cell, if nobody else uses it. -/
def discard (t : MutexTable κ ν) (k : κ) (c : Nat) : MutexTable κ ν :=
  if t.index.lookup k = some c ∧ t.users c ≤ 1 then t.remove k else t

/-- Removes a key whose cell nobody uses. -/
def tidy (t : MutexTable κ ν) (k : κ) : MutexTable κ ν :=
  match t.index.lookup k with
  | some c => if t.users c = 0 then t.remove k else t
  | none => t

/-! ### The whole table -/

/-- The number of keys. -/
def size (t : MutexTable κ ν) : Nat := t.index.length

/-- Whether the cell of a key is held. -/
def isLocked (t : MutexTable κ ν) (k : κ) : Bool := (t.index.lookup k).any t.isHeld

/-- The number of keys whose cell is held or satisfies `p`. -/
def countBusy (t : MutexTable κ ν) (p : ν → Bool) : Nat :=
  t.index.countP fun (_, c) => t.cells[c]?.any fun cell => cell.isHeld || p cell.value

end MutexTable

end CertSteward
