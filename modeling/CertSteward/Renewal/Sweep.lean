import CertSteward.Record.Record
import CertSteward.Renewal.Manage

/-!
# Sweeps

A sweep looks at all records of the store. Those that are due are renewed, a few beside each other;
those that have run out and are not renewed unasked are marked as expired. The daemon sweeps again
and again.

## Main definitions

* `CertificateRecord.isDue?`, `selectDue?` — issued certificates that are renewed without being
  asked and whose expiry lies in the window
* `RenewalPractice` — how renewals are made
* `renewDue` — one renewal of a sweep
* `sweep` — a whole sweep
* `runDaemon` — sweeps at intervals
-/

namespace CertSteward

/-- Whether a certificate is to be renewed now, unless the window ends after the calendar. -/
def CertificateRecord.isDue? (r : CertificateRecord) (w : RenewalWindow) (now : Instant) :
    Option Bool :=
  if r.status = .issued ∧ r.autoRenew then r.needsRenewal? w now else some false

/-- The certificates that are to be renewed now, in their order. -/
def selectDue? (rs : List CertificateRecord) (w : RenewalWindow) (now : Instant) :
    Option (List CertificateRecord) :=
  rs.filterMapM fun r => (r.isDue? w now).map fun due => if due then some r else none

/-- How renewals are made. -/
structure RenewalPractice where
  issuance : IssuancePractice := {}
  /-- The time before expiry within which a certificate is due. -/
  window : RenewalWindow := {}
  /-- How many renewals run beside each other, if that is at least one. -/
  workers : Nat := 2
  /-- The time from one sweep to the next, if that is at least a minute. -/
  interval : Duration := .ofSeconds 3600
  /-- Whether the daemon begins with a sweep. -/
  runOnStart : Bool := true

namespace RenewalPractice

/-- How many renewals run beside each other. -/
def workerCount (p : RenewalPractice) : Nat := max p.workers 1

/-- The time from one sweep to the next. -/
def sweepInterval (p : RenewalPractice) : Duration := max p.interval (.ofSeconds 60)

end RenewalPractice

/-! ### One renewal -/

/-- Keeps what came of a renewal: a result is stored and what was put off is counted. -/
def keepOutcome (id : String) (outcome : RenewalOutcome) (record : Option CertificateRecord) :
    Steward Unit := do
  match outcome with
  | .renewed | .failed =>
    perform (.setAttempts id 0)
    if let some r := record then
      let _ ← perform (.records (.save r))
  | .transient =>
    let n ← perform (.attempts id)
    perform (.setAttempts id (n + 1))
  | .skipped | .cancelled => return

/-- Renews a certificate that is due, unless another issuance holds its domain. -/
def renewInSweep (p : RenewalPractice) (r : CertificateRecord) : Steward RenewalOutcome := do
  let (outcome, record) := match ← renewRecord p.issuance p.window r
      { force := true, lock := .skip } with
    | .ok renewal => (RenewalOutcome.renewed, some renewal.record)
    | .error failure => (.ofError failure.error, failure.record)
  keepOutcome r.id outcome record
  return outcome

/-- Renews a certificate once there is a permit for it. -/
def renewDue (p : RenewalPractice) (permits : Nat) (t : RenewalTask) : Steward RenewalOutcome := do
  match ← perform (.wait (.permit permits)) with
  | none => return .cancelled
  | some () =>
    let outcome ← if ← perform .isCancelled then pure .cancelled else renewInSweep p t.record
    perform (.givePermit permits)
    return outcome

/-! ### A sweep -/

/-- Marks a record as expired if it has run out, and says whether it had. -/
def expire (now : Instant) (r : CertificateRecord) : Steward Bool := do
  if r.isOver now then
    let clock ← perform .wallClock
    let _ ← perform (.records (.save (r.markExpiredIfDue now clock)))
    return true
  else return false

/-- Looks at a record: it is due, or it may have expired. -/
def examine (w : RenewalWindow) (now : Instant) (acc : List RenewalTask × Nat)
    (r : CertificateRecord) : Steward (List RenewalTask × Nat) := do
  if ← dated (r.isDue? w now) then
    let n ← perform (.attempts r.id)
    return (acc.1 ++ [{ record := r, attempt := n + 1 }], acc.2)
  else if !r.autoRenew then
    if ← expire now r then return (acc.1, acc.2 + 1)
  return acc

/-- What came of a job of a sweep. -/
def dueOutcome : Outcome → RenewalOutcome
  | .due outcome => outcome
  | _ => .transient

/-- Waits for the renewals of a sweep and counts them. -/
def collect (jobs : List Nat) : Steward (List RenewalOutcome) :=
  jobs.mapM fun job => do
    let outcome := (← perform (.wait (.join job))).elim .transient dueOutcome
    perform (.note (.renewal outcome.text))
    return outcome

/-- Looks at all records, and renews those that are due. -/
def sweep (p : RenewalPractice) : Steward (Except StoreError SweepReport) := do
  let started ← perform .now
  let now ← perform .wallClock
  match ← perform (.records .list) with
  | .error e => return .error e
  | .ok records =>
    let (due, expired) ← records.foldlM (examine p.window now) ([], 0)
    let permits ← perform (.newPermits p.workerCount)
    let jobs ← due.mapM fun t => perform (.spawn (.renewDue permits t))
    let outcomes ← collect jobs
    perform (.note .sweep)
    let duration := (← perform .now) - started
    return .ok { scanned := records.length, selected := due.length, outcomes, expired, duration }

/-! ### The daemon -/

/-- Waits until a moment, and says whether it came. It does not if the daemon is stopped. -/
def waitUntil (moment : Duration) : Steward Bool := do
  if ← perform .watch then
    let now ← perform .now
    let came ← perform (.wait (.sleep (moment - now)))
    perform .unwatch
    return came.isSome
  else return false

/-- One round of the daemon: a sweep once `moment` has come. After a sweep that took longer than
the interval the next one begins an interval later than it should. -/
def daemonRound (p : RenewalPractice) (moment : Duration) : Steward (Duration ⊕ Unit) := do
  if ← waitUntil moment then
    let now ← perform .now
    let _ ← sweep p
    let isLate := moment + .ofMillis 5 < now
    return .inl ((if isLate then now else moment) + p.sweepInterval)
  else return .inr ()

/-- Sweeps at intervals until it is stopped. -/
def runDaemon (p : RenewalPractice) : Steward Unit := do
  let now ← perform .now
  let first := if p.runOnStart then now else now + p.sweepInterval
  Program.loop (daemonRound p) (pure ()) Program.manyRounds first

end CertSteward
