import CertSteward.Bytes.Base64
import CertSteward.Bytes.Sha256
import CertSteward.Bytes.Unicode
import CertSteward.Domain.Name

/-!
# The challenges of an order

One entry an identifier, in the order in which the identifiers first came. A second entry of an
identifier takes the place of the first.

## Main definitions

* `Challenge.recordValue` — the value of the TXT record that proves control of a domain
* `ChallengeStatus`, `ChallengeEntry`, `ChallengeSet`
* `ChallengeSet.insert`, `get?`, `modify`, `setStatus`, `markInvalid`, `advanceAll` — edits
* `ChallengeSet.allValid`, `firstInvalid?`, `count` — summaries
-/

namespace CertSteward

/-- The digest of the key authorization, in Base64 for URLs. -/
def Challenge.recordValue (keyAuthorization : String) : String :=
  Base64.encodeUrl (sha256 (Utf8.encode keyAuthorization))

/-- Where a challenge stands. -/
inductive ChallengeStatus
  | notStarted
  | provisioned
  | validating
  | valid
  | invalid
deriving DecidableEq, Repr, Inhabited

namespace ChallengeStatus

/-- All of them. -/
def all : List ChallengeStatus := [notStarted, provisioned, validating, valid, invalid]

/-- The written form. -/
def text : ChallengeStatus → String
  | notStarted => "not-started"
  | provisioned => "provisioned"
  | validating => "validating"
  | valid => "valid"
  | invalid => "invalid"

/-- Reads the written form. -/
def ofText? (s : String) : Option ChallengeStatus := all.find? (·.text == s)

end ChallengeStatus

/-- One challenge. -/
structure ChallengeEntry where
  /-- The name to prove control of. -/
  identifier : String
  /-- The token of the challenge. -/
  token : String
  /-- The text whose digest the record holds. -/
  keyAuthorization : String
  /-- Where the challenge is answered. -/
  url : String
  /-- Where it stands. -/
  status : ChallengeStatus := .notStarted
  /-- What went wrong. -/
  error : Option String := none
  /-- The name of the TXT record. -/
  recordName : String := Domain.challengeName identifier
  /-- The value of the TXT record. -/
  recordValue : String := Challenge.recordValue keyAuthorization
deriving DecidableEq, Repr

/-- The challenges of an order. -/
structure ChallengeSet where
  /-- The entries in order of first insertion. -/
  entries : List ChallengeEntry := []
deriving DecidableEq, Repr

namespace ChallengeSet

/-- The entry of an identifier. -/
def get? (c : ChallengeSet) (id : String) : Option ChallengeEntry :=
  c.entries.find? (·.identifier == id)

/-- Changes the first entry that satisfies `p`. -/
def modifyFirst (p : ChallengeEntry → Bool) (f : ChallengeEntry → ChallengeEntry) :
    List ChallengeEntry → List ChallengeEntry
  | [] => []
  | e :: es => if p e then f e :: es else e :: modifyFirst p f es

/-- Changes the entry of an identifier. -/
def modify (c : ChallengeSet) (id : String) (f : ChallengeEntry → ChallengeEntry) :
    ChallengeSet :=
  { entries := modifyFirst (·.identifier == id) f c.entries }

/-- Puts an entry in the place of the one of its identifier, or at the end. -/
def insert (c : ChallengeSet) (e : ChallengeEntry) : ChallengeSet :=
  if (c.get? e.identifier).isSome then c.modify e.identifier fun _ => e
  else { entries := c.entries ++ [e] }

/-- Sets the status of an identifier. -/
def setStatus (c : ChallengeSet) (id : String) (s : ChallengeStatus) : ChallengeSet :=
  c.modify id fun e => { e with status := s }

/-- Marks an identifier as invalid. -/
def markInvalid (c : ChallengeSet) (id : String) (error : String) : ChallengeSet :=
  c.modify id fun e => { e with status := .invalid, error := some error }

/-- Moves all entries of one status to another. -/
def advanceAll (c : ChallengeSet) (old new : ChallengeStatus) : ChallengeSet :=
  { entries := c.entries.map fun e => if e.status = old then { e with status := new } else e }

/-- The number of entries. -/
def size (c : ChallengeSet) : Nat := c.entries.length

/-- Whether there are no entries. -/
def isEmpty (c : ChallengeSet) : Bool := c.entries.isEmpty

/-- Whether there are entries and all are valid. -/
def allValid (c : ChallengeSet) : Bool :=
  !c.isEmpty && c.entries.all fun e => e.status == .valid

/-- The first invalid entry. -/
def firstInvalid? (c : ChallengeSet) : Option ChallengeEntry :=
  c.entries.find? fun e => e.status == .invalid

/-- The number of entries of a status. -/
def count (c : ChallengeSet) (s : ChallengeStatus) : Nat :=
  c.entries.countP fun e => e.status == s

end ChallengeSet

end CertSteward
