import CertSteward.Dns.Provisioning
import CertSteward.Renewal.Sweep
import CertSteward.Run.Machine

/-!
# What jobs do

## Main definitions

* `RenewalPractice.program` — the program of each job
* `cancelledAfter` — a program that is cancelled after a time
-/

namespace CertSteward

/-- What came of a program that can be interrupted. -/
def Watched.outcome {α : Type} (p : Watched α) (f : α → Outcome) : Steward Outcome := do
  return (← p.run).elim .interrupted f

/-- The program of a job. -/
def RenewalPractice.program (p : RenewalPractice) : Job → Steward Outcome
  | .createRecord slot name value =>
    .created <$> p.issuance.dns.createRecord slot name value
  | .provision name value => (DnsPractice.provision name value).outcome .provisioned
  | .deprovision h => .dns <$> p.issuance.dns.deprovision h
  | .propagate name value =>
    match p.issuance.dns.propagation with
    | some plan => (plan.await name value).outcome .dns
    | none => pure (.dns (.ok ()))
  | .renew r o => .renewal <$> renewRecord p.issuance p.window r o
  | .renewDue permits t => .due <$> renewDue p permits t
  | .cancelAfter time => do
    let _ ← (pause time).run
    perform .cancel
    return .finished
  | .unlockAfter time lock domain => do
    let _ ← (pause time).run
    unlockDomain domain lock
    return .finished

/-- A program that is cancelled after a time, if one is given. -/
def cancelledAfter {α : Type} (time : Option Duration) (p : Steward α) : Steward α := do
  match time with
  | none => p
  | some 0 =>
    perform .cancel
    p
  | some time =>
    let _ ← perform (.spawn (.cancelAfter time))
    p

end CertSteward
