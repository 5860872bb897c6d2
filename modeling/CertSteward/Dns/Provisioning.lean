import CertSteward.Config.Settings
import CertSteward.Dns.Error
import CertSteward.Net.Address
import CertSteward.Run.Act
import CertSteward.Run.Retry

/-!
# Making and removing challenge records

A challenge record has a slot, known by its name and value. Whoever makes or removes the record
holds the slot while doing so, and the slot remembers the id of a record that is there. A record is
made by a job of its own: who asked for it may stop waiting, and the record is remembered all the
same. One may wait until name servers see a record.

## Main definitions

* `PropagationPlan`, `PropagationPlan.await` — how to wait for name servers
* `DnsPractice` — how often to try again, and how to wait
* `DnsPractice.provision`, `deprovision`, `tracked` — one record
* `DnsPractice.provisionAll`, `deprovisionAll`, `awaitAll` — several records
-/

namespace CertSteward

/-! ### Name servers -/

/-- How to wait until a record is seen by name servers. -/
structure PropagationPlan where
  /-- The time before the first look. -/
  initialDelay : Duration
  /-- The time between two looks. -/
  checkInterval : Duration
  /-- The time after which the wait is given up. -/
  timeout : Duration
  /-- The addresses of the name servers, the system's own if there are none. -/
  nameservers : List String
deriving DecidableEq, Repr

/-- The plan that a configuration gives. -/
def PropagationPlan.ofSettings (p : PropagationSettings) : Except DnsError PropagationPlan := do
  let nameservers ← p.nameservers.mapM fun ns =>
    match Address.normal? ns with
    | some a => Except.ok a
    | none => .error (.configuration ("invalid nameserver address '" ++ ns ++ "'"))
  return { initialDelay := .ofSeconds p.initialDelay, checkInterval := .ofSeconds p.checkInterval
           timeout := .ofSeconds p.timeout, nameservers }

namespace PropagationPlan

/-- One look, and the pause after it. There is a result once the record is seen or the deadline
has passed. -/
def look (p : PropagationPlan) (deadline : Duration) (name value : String) :
    Watched (Unit ⊕ Except DnsError Unit) := do
  let (seen, time) ← perform (.lookUp p.nameservers name)
  pause time
  if (seen.toOption.getD []).contains value then return .inr (.ok ())
  if deadline ≤ (← perform .now) then
    return .inr (.error (.propagationTimeout name p.timeout.seconds))
  pause p.checkInterval
  return .inl ()

/-- Waits until name servers see a record with that value. -/
def await (p : PropagationPlan) (name value : String) : Watched (Except DnsError Unit) := do
  let deadline := (← perform .now) + p.timeout
  pause p.initialDelay
  Program.loop (fun _ => p.look deadline name value)
    (return .error (.propagationTimeout name p.timeout.seconds)) Program.manyRounds ()

end PropagationPlan

/-! ### Records -/

/-- How challenge records are made and removed. -/
structure DnsPractice where
  /-- The delays between tries. -/
  delays : BackoffPolicy :=
    { initial := .ofSeconds 1, largest := .ofSeconds 8, budget := some (.ofSeconds 60) }
  /-- How often a failed call is tried again. -/
  retries : Nat := 3
  /-- How to wait for name servers, if at all. -/
  propagation : Option PropagationPlan := none

/-- The practice that settings give. -/
def DnsPractice.ofSettings (d : DnsSettings) : Except DnsError DnsPractice := do
  let propagation ← if d.propagation.enabled
    then some <$> PropagationPlan.ofSettings d.propagation else pure none
  return { retries := d.retries, propagation }

/-- The key of the slot of a record. -/
def slotKey (name value : String) : SlotKey := (Text.lower name, value)

/-- A step on the slots. -/
def slotStep (a : TableAct SlotKey (Option String)) : Steward a.Answer := perform (.slots a)

namespace DnsPractice

/-- A call that was given up before it came to an end. -/
def givenUp : DnsError := .apiRequest "record creation task failed: cancelled"

/-! ### One record -/

/-- Asks once for a record and waits for the answer. -/
def createOnce (name value : String) : Watched (Except DnsError String) := do
  match ← perform (.dns (.create name value)) with
  | (result, none) => return result
  | (result, some time) =>
    pause time
    perform (.dns .settle)
    return result

/-- Makes a record for a slot that is held, and lets the slot go. -/
def createRecord (p : DnsPractice) (slot : Nat) (name value : String) :
    Steward (Except DnsError String) := do
  let result ← (retry p.delays p.retries DnsError.isRetryable (createOnce name value)).run
  let result := result.getD (.error givenUp)
  if let .ok id := result then slotStep (.put slot (some id))
  slotStep (.leave slot)
  slotStep (.release slot)
  return result

/-- Starts the job that makes a record for a slot that is held, and waits for it. A slot that stays
empty is removed if nobody else uses it. -/
def provisionHeld (slot : Nat) (name value : String) : Watched (Except DnsError DnsHandle) := do
  slotStep (.share slot)
  let job ← perform (.spawn (.createRecord slot name value))
  match ← await (.join job) with
  | .created (.ok id) => return .ok { name, value, id }
  | outcome =>
    slotStep (.discard (slotKey name value) slot)
    match outcome with
    | .created (.error e) => return .error e
    | _ => return .error givenUp

/-- Makes a record for a slot unless it is there. -/
def provisionIn (slot : Nat) (name value : String) : Watched (Except DnsError DnsHandle) := do
  await (.slot slot)
  match (← slotStep (.value slot)).join with
  | some id =>
    slotStep (.leave slot)
    return .ok { name, value, id }
  | none => provisionHeld slot name value

/-- Makes a record unless it is there. -/
def provision (name value : String) : Watched (Except DnsError DnsHandle) where
  run := do
    let slot ← slotStep (.obtain (slotKey name value))
    let result ← (provisionIn slot name value).run
    slotStep (.release slot)
    return result

/-- The record in a slot. -/
def recordIn (slot : Nat) : Watched (Option String) := do
  await (.slot slot)
  let id ← slotStep (.value slot)
  slotStep (.leave slot)
  return id.join

/-- The record with a name and a value, if it was made and is still there. -/
def tracked (name value : String) : Steward (Option DnsHandle) := do
  match ← slotStep (.find (slotKey name value)) with
  | none => return none
  | some slot =>
    let id ← (recordIn slot).run
    slotStep (.release slot)
    return id.join.map fun id => { name, value, id }

/-- Removes the record in a slot that leads there by the key of `h`. -/
def deprovisionIn (p : DnsPractice) (slot : Nat) (h : DnsHandle) : Watched (Except DnsError Unit) :=
  do
  await (.slot slot)
  match (← slotStep (.value slot)).join with
  | none =>
    slotStep (.leave slot)
    return .ok ()
  | some id =>
    match ← retry p.delays p.retries DnsError.isRetryable (perform (.dns (.delete h.name id))) with
    | .ok () =>
      slotStep (.put slot none)
      slotStep (.leave slot)
      slotStep (.remove (slotKey h.name h.value))
      return .ok ()
    | .error e =>
      slotStep (.leave slot)
      return .error e

/-- Removes a record. One without a slot is removed by its id; one whose slot is empty is gone. -/
def deprovision (p : DnsPractice) (h : DnsHandle) : Steward (Except DnsError Unit) := do
  match ← slotStep (.find (slotKey h.name h.value)) with
  | none => perform (.dns (.delete h.name h.id))
  | some slot =>
    let result ← (p.deprovisionIn slot h).run
    slotStep (.release slot)
    return result.getD (.error givenUp)

/-! ### Several records -/

/-- Makes records beside each other. -/
def provisionAll (records : List (String × String)) :
    Watched (List (Except DnsError DnsHandle)) := do
  let outcomes ← await (.all (records.map fun (name, value) => .provision name value))
  return outcomes.map fun
    | .provisioned result => result
    | _ => .error givenUp

/-- The result of an outcome of a call without an answer. -/
def resultOf : Outcome → Except DnsError Unit
  | .dns result => result
  | _ => .error givenUp

/-- Removes records beside each other and tells how many could not be removed. -/
def deprovisionAll (handles : List DnsHandle) : Steward Nat := do
  match ← perform (.wait (.all (handles.map .deprovision))) with
  | some outcomes => return outcomes.countP fun o => !(resultOf o).isOk
  | none => return handles.length

/-- Waits until name servers see records. -/
def awaitAll (p : DnsPractice) (handles : List DnsHandle) : Watched (Except DnsError Unit) := do
  match p.propagation with
  | none => return .ok ()
  | some _ =>
    let outcomes ← await (.all (handles.map fun h => .propagate h.name h.value))
    return outcomes.forM resultOf

end DnsPractice

end CertSteward
