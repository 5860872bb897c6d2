import CertSteward.Dns.Error
import CertSteward.Domain.Name
import CertSteward.Time.Instant

/-!
# Records in memory

A DNS service for trying things out. It can be told to fail.

## Main definitions

* `MemoryDns` — the records and what to do wrong
* `MemoryDns.create`, `MemoryDns.settle`, `MemoryDns.delete`, `MemoryDns.supports`
-/

namespace CertSteward

/-- A record in memory. -/
structure MemoryDns.Entry where
  /-- The name in small letters. -/
  name : String
  id : String
  value : String
deriving DecidableEq, Repr

/-- Records in memory. -/
structure MemoryDns where
  /-- The records in the order in which they were made. -/
  entries : List MemoryDns.Entry := []
  /-- The zones that are served, in small letters; all if there are none. -/
  zones : List String := []
  /-- The number of records made so far. -/
  made : Nat := 0
  /-- The number of calls to make a record. -/
  creates : Nat := 0
  /-- The number of calls to delete one. -/
  deletes : Nat := 0
  /-- How many of the next calls to make a record fail. -/
  failingCreates : Nat := 0
  /-- Whether calls to delete a record fail. -/
  failsDeletes : Bool := false
  /-- Why calls to make a record are refused. -/
  refusal : Option String := none
  /-- The time that making a record takes. -/
  createDelay : Option Duration := none
  /-- The number of delayed calls under way. -/
  underWay : Nat := 0
  /-- The most delayed calls that were ever under way. -/
  mostUnderWay : Nat := 0
deriving DecidableEq, Repr

namespace MemoryDns

/-- A service for some zones. -/
def ofZones (zones : List String) : MemoryDns := { zones := zones.map Text.lower }

/-- Makes a record. It is there at once, but the answer may take time; then `settle` follows. -/
def create (m : MemoryDns) (name value : String) :
    (Except DnsError String × Option Duration) × MemoryDns :=
  let m := { m with creates := m.creates + 1 }
  if m.failingCreates ≠ 0 then
    ((.error (.apiRequest "injected transient failure"), none),
      { m with failingCreates := m.failingCreates - 1 })
  else
    match m.refusal with
    | some reason => ((.error (.authentication reason), none), m)
    | none =>
      let id := "mem-" ++ toString (m.made + 1)
      let entry : Entry := { name := Text.lower name, id, value }
      let m := { m with made := m.made + 1, entries := m.entries ++ [entry] }
      match m.createDelay with
      | none => ((.ok id, none), m)
      | some delay =>
        ((.ok id, some delay), { m with underWay := m.underWay + 1
                                        mostUnderWay := max m.mostUnderWay (m.underWay + 1) })

/-- The end of a delayed call. -/
def settle (m : MemoryDns) : MemoryDns := { m with underWay := m.underWay - 1 }

/-- Deletes a record; one that is not there is deleted already. -/
def delete (m : MemoryDns) (name id : String) : Except DnsError Unit × MemoryDns :=
  let m := { m with deletes := m.deletes + 1 }
  if m.failsDeletes then (.error (.recordDeletion id "injected failure"), m)
  else
    (.ok (), { m with
      entries := m.entries.filter fun e => !(e.name = Text.lower name ∧ e.id = id) })

/-- Whether a domain lies in one of the zones. -/
def supports (m : MemoryDns) (domain : String) : Bool :=
  m.zones.isEmpty || m.zones.any fun zone => Domain.inZone domain zone

/-- The values of the records with a name. -/
def values (m : MemoryDns) (name : String) : List String :=
  (m.entries.filter fun e => e.name = Text.lower name).map (·.value)

end MemoryDns

end CertSteward
