import CertSteward.Authority.Authority
import CertSteward.Bytes.Hex
import CertSteward.Bytes.Sha256
import CertSteward.Run.Act
import CertSteward.Run.MutexTable
import CertSteward.Run.Permits

/-!
# The surroundings of programs

What programs read and change with one step: the clocks, the source of names and keys, the
authority, the DNS service, the store, the counts, and the tables of domains and slots.

## Main definitions

* `World`
* `World.drawBytes`, `World.readClock` — fresh bytes, and the wall clock
* `MutexTable.apply` — a step on a table
-/

namespace CertSteward

/-- Does one step on a table and tells which fiber holds the cell from now on, if it passes to
another. A new cell begins with `start`. -/
def MutexTable.apply {κ ν : Type} [BEq κ] (t : MutexTable κ ν) (start : ν) :
    (a : TableAct κ ν) → (a.Answer × Option Nat) × MutexTable κ ν
  | .obtain k => let (c, t) := t.obtain k start; ((c, none), t)
  | .find k => let (c, t) := t.find k; ((c, none), t)
  | .share c => (((), none), t.share c)
  | .release c => (((), none), t.release c)
  | .tryEnter c => let (got, t) := t.tryEnter c; ((got, none), t)
  | .leave c => let (next, t) := t.leave c; (((), next), t)
  | .value c => ((t.value? c, none), t)
  | .put c v => (((), none), t.put c v)
  | .discard k c => (((), none), t.discard k c)
  | .tidy k => (((), none), t.tidy k)
  | .remove k => (((), none), t.remove k)

/-- The surroundings of programs. -/
structure World where
  /-- The time since the start. -/
  clock : Duration := 0
  /-- The last reading of the wall clock. -/
  wall : Instant
  /-- Where fresh bytes come from. -/
  seed : List UInt8
  /-- How often they were drawn. -/
  drawn : Nat := 0
  authority : Authority
  /-- How an authority is reached. -/
  client : AuthorityClient := .unreachable
  dns : DnsService := .memory {}
  /-- How a DNS service is reached. -/
  transport : HttpTransport := .none
  store : RecordStore := .memory {}
  metrics : Metrics := {}
  /-- How often the renewals of records were put off in a row. -/
  attempts : List (String × Nat) := []
  slots : MutexTable SlotKey (Option String) := {}
  locks : MutexTable String Unit := {}
  permits : Array Permits := #[]

namespace World

/-- Fresh bytes. -/
def drawBytes (w : World) : List UInt8 × World :=
  (sha256 (w.seed ++ Utf8.encode (toString w.drawn)), { w with drawn := w.drawn + 1 })

/-- A name for a record. -/
def drawName (w : World) : String × World :=
  let (bytes, w) := w.drawBytes
  ("cert_" ++ Hex.encode (bytes.take 16), w)

/-- A reading of the wall clock. Two readings always differ. -/
def readClock (w : World) : Instant × World :=
  let nanos := w.wall.nanos + 1000
  let wall : Instant := if nanos < 1000000000 then { w.wall with nanos }
    else { seconds := w.wall.seconds + 1, nanos := nanos - 1000000000 }
  (wall, { w with wall })

/-- How often the renewal of a record was put off. -/
def attemptsOf (w : World) (id : String) : Nat := (w.attempts.lookup id).getD 0

/-- Notes how often the renewal of a record was put off. -/
def setAttempts (w : World) (id : String) (n : Nat) : World :=
  let others := w.attempts.filter fun entry => entry.1 ≠ id
  { w with attempts := if n = 0 then others else (id, n) :: others }

/-- Asks the authority. -/
def askAuthority (w : World) (r : AuthorityRequest) : (r.Reply × Duration) × World :=
  let (now, w) := w.readClock
  let (reply, authority, store) := w.authority.answer w.client now r w.store
  (reply, { w with authority, store })

/-- Asks the DNS service. -/
def askDns (w : World) (r : DnsRequest) : r.Reply × World :=
  let (reply, dns) := w.dns.answer w.transport r
  (reply, { w with dns })

/-- Asks the store. -/
def askStore (w : World) (r : StoreRequest) : r.Reply × World :=
  let (reply, store) := w.store.answer r
  (reply, { w with store })

/-- Looks for a TXT record. Name servers that nobody runs refuse within a millisecond. -/
def lookUp (_ : World) (name : String) : Except String (List String) × Duration :=
  (.error ("no connections available for " ++ name), .ofMillis 1)

end World

end CertSteward
