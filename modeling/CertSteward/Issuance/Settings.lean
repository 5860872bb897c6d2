import CertSteward.Backoff.Policy
import CertSteward.Config.Settings
import CertSteward.Material.Key

/-!
# Settings of an issuance

## Main definitions

* `IssuanceSettings`, `IssuanceSettings.ofAcme`
* `LockMode` — what to do while another issuance holds the domain
-/

namespace CertSteward

/-- How an issuance calls the authority. -/
structure IssuanceSettings where
  /-- The time that one call may take. -/
  callTimeout : Duration := .ofSeconds 30
  /-- How often a failed call is tried again. -/
  callRetries : Nat := 3
  /-- The delays between those tries. -/
  retry : BackoffPolicy := { initial := .ofSeconds 1, largest := .ofSeconds 10 }
  /-- The delays while the authorizations are awaited. -/
  validation : BackoffPolicy := .polling
  /-- The delays while the certificate is awaited. -/
  finalize : BackoffPolicy := .polling
  /-- The kind of key to make. -/
  key : KeySpec := .rsa 2048

namespace IssuanceSettings

/-- The settings that a configuration gives. -/
def ofAcme (a : AcmeSettings) : IssuanceSettings :=
  let polling (budget : Nat) : BackoffPolicy :=
    { initial := .ofMillis a.pollInitial, largest := .ofMillis a.pollMax
      budget := some (.ofSeconds budget) }
  { callTimeout := .ofSeconds a.requestTimeout, callRetries := a.requestRetries
    validation := polling a.validationTimeout, finalize := polling a.finalizeTimeout
    key := .ofKeyType a.keyType }

end IssuanceSettings

/-- What to do while another issuance holds the domain. -/
inductive LockMode
  | wait
  | skip
deriving DecidableEq, Repr, Inhabited

end CertSteward
