import CertSteward.Config.Blocks
import CertSteward.Config.File
import Mathlib.Algebra.Group.Int.Defs

/-!
# Settings, however they are written

A configuration states some settings and leaves the others out. The same settings can be stated in
a KDL document and in a JSON value, in any order and under the names that each format has for them.

Whole numbers are where the formats differ most. A KDL document has them in any size. A JSON value
has those of 64 bits; all others stand there as doubles, which no setting takes.

## Main definitions

* `ConfigStatement` and its sections — settings that are stated or left out
* `ConfigStatement.InKdl`, `ConfigStatement.InJson` — documents that state them
* `ConfigStatement.config?` — the configuration that they mean
-/

namespace CertSteward

/-! ### What is stated -/

/-- Settings on ordering. -/
structure AcmeStatement where
  email : Option String := none
  directory : Option String := none
  keyType : Option KeyType := none
  requestTimeout : Option Int := none
  requestRetries : Option Int := none
  validationTimeout : Option Int := none
  pollInitial : Option Int := none
  pollMax : Option Int := none
  finalizeTimeout : Option Int := none

/-- Settings on renewal. -/
structure RenewalStatement where
  intervalHours : Option Int := none
  windowDays : Option Int := none
  workers : Option Int := none
  runOnStart : Option Bool := none

/-- Settings on the wait for the name servers. -/
structure PropagationStatement where
  enabled : Option Bool := none
  initialDelay : Option Int := none
  checkInterval : Option Int := none
  timeout : Option Int := none
  nameservers : Option (List String) := none

/-- Settings on challenge records. -/
structure DnsStatement where
  kind : Option DnsKind := none
  zoneId : Option String := none
  url : Option String := none
  authHeader : Option String := none
  credentialsFile : Option String := none
  credentialsVariable : Option String := none
  apiTimeout : Option Int := none
  retries : Option Int := none
  propagation : Option PropagationStatement := none

/-- Settings on storage. -/
structure StorageStatement where
  path : Option String := none

/-- Settings on logging. -/
structure LoggingStatement where
  level : Option String := none
  format : Option String := none

/-- The sections that are stated. -/
structure ConfigStatement where
  acme : Option AcmeStatement := none
  renewal : Option RenewalStatement := none
  dns : Option DnsStatement := none
  storage : Option StorageStatement := none
  logging : Option LoggingStatement := none

/-! ### Tables -/

/-- The rows of a table that are not left out. -/
def stated {β : Type} (table : List (String × Option β)) : List (String × β) :=
  table.filterMap fun row => row.2.map (row.1, ·)

namespace Kdl

/-- What a node holds besides its name. -/
abbrev Body := List Entry × List Node

/-- The name of a node and what it holds. -/
def Node.row (n : Node) : String × Body := (n.name, n.entries, n.children)

/-- The node of a row. -/
def Node.ofRow (row : String × Body) : Node := .mk row.1 row.2.1 row.2.2

/-- Values without names. -/
def values (vs : List Value) : Body := (vs.map fun v => { value := v }, [])

def text (s : String) : Body := values [.text s]

def whole (n : Int) : Body := values [.whole n]

def truth (b : Bool) : Body := values [.truth b]

/-- Nodes that are the rows of this table, in any order. -/
def Gives (nodes : List Node) (table : List (String × Option Body)) : Prop :=
  (nodes.map Node.row).Perm (stated table)

/-- A block of the rows of this table. -/
def IsBlock (table : List (String × Option Body)) (b : Body) : Prop := b.1 = [] ∧ Gives b.2 table

end Kdl

namespace Json

/-- An object of the members of this table, in any order. -/
def Gives (v : Json) (table : List (String × Option Json)) : Prop :=
  ∃ ms, v = .object ms ∧ ms.Perm (stated table)

/-- A whole number, which stands there as a double if 64 bits do not hold it. -/
def ofInt (wide : Int → Float) (n : Int) : Json :=
  if -2 ^ 63 ≤ n ∧ n < 2 ^ 64 then .int n else .number (.float (wide n))

end Json

/-! ### Documents that state settings -/

section Kdl

open Kdl

def AcmeStatement.table (a : AcmeStatement) : List (String × Option Body) :=
  [("email", a.email.map text), ("directory", a.directory.map text),
    ("key-type", a.keyType.map (text ·.text)),
    ("request-timeout-secs", a.requestTimeout.map whole),
    ("request-retries", a.requestRetries.map whole),
    ("validation-timeout-secs", a.validationTimeout.map whole),
    ("poll-initial-interval-ms", a.pollInitial.map whole),
    ("poll-max-interval-ms", a.pollMax.map whole),
    ("finalize-timeout-secs", a.finalizeTimeout.map whole)]

def RenewalStatement.table (r : RenewalStatement) : List (String × Option Body) :=
  [("interval-hours", r.intervalHours.map whole), ("window-days", r.windowDays.map whole),
    ("workers", r.workers.map whole), ("run-on-start", r.runOnStart.map truth)]

def PropagationStatement.table (p : PropagationStatement) : List (String × Option Body) :=
  [("enabled", p.enabled.map truth), ("initial-delay-secs", p.initialDelay.map whole),
    ("check-interval-secs", p.checkInterval.map whole), ("timeout-secs", p.timeout.map whole),
    ("nameservers", p.nameservers.map fun names => values (names.map .text))]

/-- The table, with what stands there on the wait for the name servers. -/
def DnsStatement.table (d : DnsStatement) (propagation : Option Body) :
    List (String × Option Body) :=
  [("type", d.kind.map (text ·.text)), ("zone-id", d.zoneId.map text), ("url", d.url.map text),
    ("auth-header", d.authHeader.map text), ("credentials-file", d.credentialsFile.map text),
    ("credentials-env", d.credentialsVariable.map text),
    ("api-timeout-secs", d.apiTimeout.map whole), ("provision-retries", d.retries.map whole),
    ("propagation", propagation)]

def StorageStatement.table (s : StorageStatement) : List (String × Option Body) :=
  [("path", s.path.map text)]

def LoggingStatement.table (l : LoggingStatement) : List (String × Option Body) :=
  [("level", l.level.map text), ("format", l.format.map text)]

def DnsStatement.IsBlock (d : DnsStatement) (b : Body) : Prop :=
  ∃ propagation, Option.Rel (fun p => Kdl.IsBlock p.table) d.propagation propagation ∧
    Kdl.IsBlock (d.table propagation) b

/-- Nodes that state just these settings. -/
def ConfigStatement.InKdl (s : ConfigStatement) (nodes : List Node) : Prop :=
  ∃ acme renewal dns storage logging,
    Option.Rel (fun a => IsBlock a.table) s.acme acme ∧
    Option.Rel (fun r => IsBlock r.table) s.renewal renewal ∧
    Option.Rel DnsStatement.IsBlock s.dns dns ∧
    Option.Rel (fun p => IsBlock p.table) s.storage storage ∧
    Option.Rel (fun l => IsBlock l.table) s.logging logging ∧
    Gives nodes [("acme", acme), ("renewal", renewal), ("dns-provider", dns),
      ("storage", storage), ("logging", logging)]

end Kdl

section Json

variable (wide : Int → Float)

def AcmeStatement.members (a : AcmeStatement) : List (String × Option Json) :=
  [("email", a.email.map .string), ("directory", a.directory.map .string),
    ("key_type", a.keyType.map fun k => .string k.text),
    ("request_timeout_secs", a.requestTimeout.map (Json.ofInt wide)),
    ("request_retries", a.requestRetries.map (Json.ofInt wide)),
    ("validation_timeout_secs", a.validationTimeout.map (Json.ofInt wide)),
    ("poll_initial_interval_ms", a.pollInitial.map (Json.ofInt wide)),
    ("poll_max_interval_ms", a.pollMax.map (Json.ofInt wide)),
    ("finalize_timeout_secs", a.finalizeTimeout.map (Json.ofInt wide))]

def RenewalStatement.members (r : RenewalStatement) : List (String × Option Json) :=
  [("interval_hours", r.intervalHours.map (Json.ofInt wide)),
    ("window_days", r.windowDays.map (Json.ofInt wide)),
    ("workers", r.workers.map (Json.ofInt wide)), ("run_on_start", r.runOnStart.map .bool)]

def PropagationStatement.members (p : PropagationStatement) : List (String × Option Json) :=
  [("enabled", p.enabled.map .bool),
    ("initial_delay_secs", p.initialDelay.map (Json.ofInt wide)),
    ("check_interval_secs", p.checkInterval.map (Json.ofInt wide)),
    ("timeout_secs", p.timeout.map (Json.ofInt wide)),
    ("nameservers", p.nameservers.map .strings)]

/-- The members, with what stands there on the wait for the name servers. -/
def DnsStatement.members (d : DnsStatement) (propagation : Option Json) :
    List (String × Option Json) :=
  [("provider", d.kind.map fun k => .string k.text), ("zone_id", d.zoneId.map .string),
    ("url", d.url.map .string), ("auth_header", d.authHeader.map .string),
    ("credentials_file", d.credentialsFile.map .string),
    ("credentials_env", d.credentialsVariable.map .string),
    ("api_timeout_secs", d.apiTimeout.map (Json.ofInt wide)),
    ("provision_retries", d.retries.map (Json.ofInt wide)), ("propagation", propagation)]

def StorageStatement.members (s : StorageStatement) : List (String × Option Json) :=
  [("path", s.path.map .string)]

def LoggingStatement.members (l : LoggingStatement) : List (String × Option Json) :=
  [("level", l.level.map .string), ("format", l.format.map .string)]

def DnsStatement.IsObject (d : DnsStatement) (v : Json) : Prop :=
  ∃ propagation, Option.Rel (fun p v => v.Gives (p.members wide)) d.propagation propagation ∧
    v.Gives (d.members wide propagation)

/-- A value that states just these settings, with what doubles stand for wide numbers. -/
def ConfigStatement.InJson (s : ConfigStatement) (v : Json) : Prop :=
  ∃ acme renewal dns storage logging,
    Option.Rel (fun a v => v.Gives (a.members wide)) s.acme acme ∧
    Option.Rel (fun r v => v.Gives (r.members wide)) s.renewal renewal ∧
    Option.Rel (DnsStatement.IsObject wide) s.dns dns ∧
    Option.Rel (fun p v => v.Gives p.members) s.storage storage ∧
    Option.Rel (fun l v => v.Gives l.members) s.logging logging ∧
    v.Gives [("acme", acme), ("renewal", renewal), ("dns_provider", dns), ("storage", storage),
      ("logging", logging)]

end Json

/-! ### What is meant -/

/-- What is stated, as far as it can be read, or the default. -/
def orUsual? {α β : Type} (o : Option α) (read : α → Option β) (usual : β) : Option β :=
  o.elim (some usual) read

/-- A number of so many bits. -/
def natOf? (bits : Nat) (n : Int) : Option Nat :=
  if 0 ≤ n ∧ n < Nat.pow 2 bits then some n.toNat else none

def AcmeStatement.settings? (a : AcmeStatement) : Option AcmeSettings := do
  let d : AcmeSettings := {}
  let directory ← orUsual? a.directory (fun s => (Directory.parse s).toOption) d.directory
  let requestTimeout ← orUsual? a.requestTimeout (natOf? 64) d.requestTimeout
  let requestRetries ← orUsual? a.requestRetries (natOf? 32) d.requestRetries
  let validationTimeout ← orUsual? a.validationTimeout (natOf? 64) d.validationTimeout
  let pollInitial ← orUsual? a.pollInitial (natOf? 64) d.pollInitial
  let pollMax ← orUsual? a.pollMax (natOf? 64) d.pollMax
  let finalizeTimeout ← orUsual? a.finalizeTimeout (natOf? 64) d.finalizeTimeout
  return { email := a.email, directory, keyType := a.keyType.getD d.keyType, requestTimeout
           requestRetries, validationTimeout, pollInitial, pollMax, finalizeTimeout }

def RenewalStatement.settings? (r : RenewalStatement) : Option RenewalSettings := do
  let d : RenewalSettings := {}
  let intervalHours ← orUsual? r.intervalHours (natOf? 64) d.intervalHours
  let windowDays ← orUsual? r.windowDays (natOf? 32) d.windowDays
  let workers ← orUsual? r.workers (natOf? 64) d.workers
  return { intervalHours, windowDays, workers, runOnStart := r.runOnStart.getD d.runOnStart }

def PropagationStatement.settings? (p : PropagationStatement) : Option PropagationSettings := do
  let d : PropagationSettings := {}
  let initialDelay ← orUsual? p.initialDelay (natOf? 64) d.initialDelay
  let checkInterval ← orUsual? p.checkInterval (natOf? 64) d.checkInterval
  let timeout ← orUsual? p.timeout (natOf? 64) d.timeout
  return { enabled := p.enabled.getD d.enabled, initialDelay, checkInterval, timeout
           nameservers := p.nameservers.getD d.nameservers }

def DnsStatement.settings? (s : DnsStatement) : Option DnsSettings := do
  let d : DnsSettings := {}
  let apiTimeout ← orUsual? s.apiTimeout (natOf? 64) d.apiTimeout
  let retries ← orUsual? s.retries (natOf? 32) d.retries
  let propagation ← orUsual? s.propagation PropagationStatement.settings? d.propagation
  return { kind := s.kind.getD d.kind, zoneId := s.zoneId, url := s.url, authHeader := s.authHeader
           credentialsFile := s.credentialsFile, credentialsVariable := s.credentialsVariable
           apiTimeout, retries, propagation }

def StorageStatement.settings (s : StorageStatement) : StorageSettings :=
  { path := s.path.getD ({} : StorageSettings).path }

def LoggingStatement.settings (l : LoggingStatement) : LoggingSettings :=
  let d : LoggingSettings := {}
  { level := l.level.getD d.level, format := l.format.getD d.format }

/-- The configuration that is meant, unless a setting cannot be read. -/
def ConfigStatement.config? (s : ConfigStatement) : Option Config := do
  let acme ← orUsual? s.acme AcmeStatement.settings? {}
  let renewal ← orUsual? s.renewal RenewalStatement.settings? {}
  let dns ← orUsual? s.dns DnsStatement.settings? {}
  return { acme, renewal, dns, storage := (s.storage.map (·.settings)).getD {}
           logging := (s.logging.map (·.settings)).getD {} }

end CertSteward
