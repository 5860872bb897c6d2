import CertSteward.Config.Fault
import CertSteward.Config.Settings
import CertSteward.Kdl.Reader

/-!
# Configurations in KDL

A section is a block at the top of the document, and a later block takes the place of an earlier
one of its name. A setting is a node in the block, of which the first value counts; a value of
another kind than the setting has leaves the default in place.

## Main definitions

* `Config.ofNodes` — the configuration in a document
* `Config.ofKdl` — the configuration in a text
-/

namespace CertSteward

namespace Config

/-! ### Values -/

/-- The text that a block gives for a setting. -/
def blockText? (b : Kdl.Node) (setting : String) : Option String :=
  (b.firstValue? setting).bind Kdl.Value.text?

/-- The truth value that a block gives for a setting. -/
def blockTruth? (b : Kdl.Node) (setting : String) : Option Bool :=
  (b.firstValue? setting).bind Kdl.Value.truth?

/-- The number that a block gives for a setting, if it gives a whole number. -/
def blockNat? (b : Kdl.Node) (setting : String) : Except ConfigFault (Option Nat) :=
  match (b.firstValue? setting).bind Kdl.Value.whole? with
  | some n =>
    if 0 ≤ n ∧ n < Nat.pow 2 64 then .ok (some n.toNat) else .error (.negative b.name setting n)
  | none => .ok none

/-- The number that a block gives for a setting, or its default. -/
def blockNat (b : Kdl.Node) (setting : String) (usual : Nat) : Except ConfigFault Nat :=
  (blockNat? b setting).map (·.getD usual)

/-- The number below `2 ^ 32` that a block gives for a setting, or its default. -/
def blockSmall (b : Kdl.Node) (setting : String) (usual : Nat) : Except ConfigFault Nat := do
  match ← blockNat? b setting with
  | some n => if n < Nat.pow 2 32 then return n else throw (.tooLarge b.name setting n)
  | none => return usual

/-- The choice that a block gives for a setting, or its default. -/
def blockChoice (b : Kdl.Node) (setting : String) (parse : String → Except String α) (usual : α) :
    Except ConfigFault α :=
  match blockText? b setting with
  | some s => (parse s).mapError .choice
  | none => .ok usual

/-! ### Blocks -/

/-- The block on ordering. -/
def acmeOfBlock (b : Kdl.Node) : Except ConfigFault AcmeSettings := do
  let d : AcmeSettings := {}
  let directory ← blockChoice b "directory" Directory.parse d.directory
  let keyType ← blockChoice b "key-type" KeyType.parse d.keyType
  let requestRetries ← blockSmall b "request-retries" d.requestRetries
  let requestTimeout ← blockNat b "request-timeout-secs" d.requestTimeout
  let validationTimeout ← blockNat b "validation-timeout-secs" d.validationTimeout
  let pollInitial ← blockNat b "poll-initial-interval-ms" d.pollInitial
  let pollMax ← blockNat b "poll-max-interval-ms" d.pollMax
  let finalizeTimeout ← blockNat b "finalize-timeout-secs" d.finalizeTimeout
  return { email := blockText? b "email", directory, keyType, requestTimeout, requestRetries
           validationTimeout, pollInitial, pollMax, finalizeTimeout }

/-- The block on renewal. -/
def renewalOfBlock (b : Kdl.Node) : Except ConfigFault RenewalSettings := do
  let d : RenewalSettings := {}
  let windowDays ← blockSmall b "window-days" d.windowDays
  let intervalHours ← blockNat b "interval-hours" d.intervalHours
  let workers ← blockNat b "workers" d.workers
  return { intervalHours, windowDays, workers
           runOnStart := (blockTruth? b "run-on-start").getD d.runOnStart }

/-- The block on the wait for the name servers. -/
def propagationOfBlock (b : Kdl.Node) : Except ConfigFault PropagationSettings := do
  let d : PropagationSettings := {}
  let initialDelay ← blockNat b "initial-delay-secs" d.initialDelay
  let checkInterval ← blockNat b "check-interval-secs" d.checkInterval
  let timeout ← blockNat b "timeout-secs" d.timeout
  let nameservers := match b.child? "nameservers" with
    | some n => n.arguments.filterMap Kdl.Value.text?
    | none => d.nameservers
  return { enabled := (blockTruth? b "enabled").getD d.enabled, initialDelay, checkInterval
           timeout, nameservers }

/-- The block on challenge records. -/
def dnsOfBlock (b : Kdl.Node) : Except ConfigFault DnsSettings := do
  let d : DnsSettings := {}
  let kind ← blockChoice b "type" DnsKind.parse d.kind
  let retries ← blockSmall b "provision-retries" d.retries
  let propagation ← match b.child? "propagation" with
    | some n => propagationOfBlock n
    | none => .ok d.propagation
  let apiTimeout ← blockNat b "api-timeout-secs" d.apiTimeout
  return { kind, zoneId := blockText? b "zone-id", url := blockText? b "url"
           authHeader := blockText? b "auth-header"
           credentialsFile := blockText? b "credentials-file"
           credentialsVariable := blockText? b "credentials-env"
           apiTimeout, retries, propagation }

/-- The block on storage. -/
def storageOfBlock (b : Kdl.Node) : StorageSettings :=
  { path := (blockText? b "path").getD ({} : StorageSettings).path }

/-- The block on logging. -/
def loggingOfBlock (b : Kdl.Node) : LoggingSettings :=
  let d : LoggingSettings := {}
  { level := (blockText? b "level").getD d.level, format := (blockText? b "format").getD d.format }

/-- Takes a block into a configuration. -/
def addBlock (c : Config) (b : Kdl.Node) : Except ConfigFault Config :=
  match b.name with
  | "acme" => (acmeOfBlock b).map fun s => { c with acme := s }
  | "renewal" => (renewalOfBlock b).map fun s => { c with renewal := s }
  | "dns-provider" => (dnsOfBlock b).map fun s => { c with dns := s }
  | "storage" => .ok { c with storage := storageOfBlock b }
  | "logging" => .ok { c with logging := loggingOfBlock b }
  | name => .error (.unknownBlock name)

/-- The configuration in a document. -/
def ofNodes (nodes : List Kdl.Node) : Except ConfigFault Config := nodes.foldlM addBlock {}

/-- The configuration in a text. -/
def ofKdl (text : String) : Except ConfigFault Config :=
  match Kdl.parse? text with
  | some nodes => ofNodes nodes
  | none => .error .kdl

end Config

end CertSteward
