import CertSteward.Config.Choices
import CertSteward.Json.Value
import CertSteward.Time.Instant

/-!
# The configuration

Five sections of settings, each with its default.

## Main definitions

* `AcmeSettings`, `RenewalSettings`, `DnsSettings`, `PropagationSettings`, `StorageSettings`,
  `LoggingSettings`, `Config`
* `Config.embedded` — the configuration that is used when there is none
* `Config.toJson` — the stored form
-/

namespace CertSteward

/-- How certificates are ordered. -/
structure AcmeSettings where
  /-- Where the authority writes to. -/
  email : Option String := none
  /-- The authority. -/
  directory : Directory := .letsEncryptStaging
  /-- The kind of key to make. -/
  keyType : KeyType := .rsa2048
  /-- Seconds that one call may take. -/
  requestTimeout : Nat := 30
  /-- How often a failed call is tried again. -/
  requestRetries : Nat := 3
  /-- Seconds to wait for the authorizations. -/
  validationTimeout : Nat := 120
  /-- Milliseconds before the first look. -/
  pollInitial : Nat := 1000
  /-- The most milliseconds between two looks. -/
  pollMax : Nat := 10000
  /-- Seconds to wait for the certificate. -/
  finalizeTimeout : Nat := 120
deriving DecidableEq, Repr, Inhabited

/-- When certificates are renewed. -/
structure RenewalSettings where
  /-- Hours between two sweeps. -/
  intervalHours : Nat := 24
  /-- Days before expiry. -/
  windowDays : Nat := 30
  /-- How many renewals run at once. -/
  workers : Nat := 4
  /-- Whether the first sweep is at once. -/
  runOnStart : Bool := true
deriving DecidableEq, Repr, Inhabited

namespace RenewalSettings

/-- The time between two sweeps, in seconds of 64 bits. -/
def interval (r : RenewalSettings) : Duration := .ofSeconds (r.intervalHours * 3600 % Nat.pow 2 64)

end RenewalSettings

/-- Whether and how to wait until a record is seen by name servers. -/
structure PropagationSettings where
  /-- Whether to wait. -/
  enabled : Bool := false
  /-- Seconds before the first look. -/
  initialDelay : Nat := 10
  /-- Seconds between two looks. -/
  checkInterval : Nat := 5
  /-- Seconds until the wait is given up. -/
  timeout : Nat := 120
  /-- The name servers to ask, the system's own if there are none. -/
  nameservers : List String := ["8.8.8.8", "1.1.1.1", "9.9.9.9"]
deriving DecidableEq, Repr, Inhabited

/-- Where challenge records are made. -/
structure DnsSettings where
  /-- The service. -/
  kind : DnsKind := .memory
  /-- The zone at the service. -/
  zoneId : Option String := none
  /-- Where the service is reached. -/
  url : Option String := none
  /-- The header that carries the credentials. -/
  authHeader : Option String := none
  /-- The file that holds the credentials. -/
  credentialsFile : Option String := none
  /-- The variable that holds the credentials. -/
  credentialsVariable : Option String := none
  /-- Seconds that one call may take. -/
  apiTimeout : Nat := 30
  /-- How often a failed call is tried again. -/
  retries : Nat := 3
  /-- The wait for the name servers. -/
  propagation : PropagationSettings := {}
deriving DecidableEq, Repr, Inhabited

namespace DnsSettings

/-- Whether a place for credentials is named. -/
def hasCredentials (d : DnsSettings) : Bool :=
  d.credentialsFile.isSome || d.credentialsVariable.isSome

end DnsSettings

/-- Where records are kept. -/
structure StorageSettings where
  /-- The directory. -/
  path : String := "/var/lib/certkeeper"
deriving DecidableEq, Repr, Inhabited

/-- What is logged. -/
structure LoggingSettings where
  /-- From which level on. -/
  level : String := "info"
  /-- The form of log lines. -/
  format : String := "pretty"
deriving DecidableEq, Repr, Inhabited

/-- All settings. -/
structure Config where
  /-- How certificates are ordered. -/
  acme : AcmeSettings := {}
  /-- When certificates are renewed. -/
  renewal : RenewalSettings := {}
  /-- Where challenge records are made. -/
  dns : DnsSettings := {}
  /-- Where records are kept. -/
  storage : StorageSettings := {}
  /-- What is logged. -/
  logging : LoggingSettings := {}
deriving DecidableEq, Repr, Inhabited

namespace Config

/-- The configuration that is used when there is none: the development authority, and records in
the current directory. -/
def embedded : Config :=
  { acme := { directory := .development }, storage := { path := "certkeeper-data" } }

/-! ### Stored form -/

/-- The stored form of the section on ordering. -/
def acmeJson (a : AcmeSettings) : Json :=
  .object [("email", .optional a.email), ("directory", .string a.directory.text),
    ("key_type", .string a.keyType.text), ("request_timeout_secs", .nat a.requestTimeout),
    ("request_retries", .nat a.requestRetries),
    ("validation_timeout_secs", .nat a.validationTimeout),
    ("poll_initial_interval_ms", .nat a.pollInitial),
    ("poll_max_interval_ms", .nat a.pollMax), ("finalize_timeout_secs", .nat a.finalizeTimeout)]

/-- The stored form of the section on renewal. -/
def renewalJson (r : RenewalSettings) : Json :=
  .object [("interval_hours", .nat r.intervalHours), ("window_days", .nat r.windowDays),
    ("workers", .nat r.workers), ("run_on_start", .bool r.runOnStart)]

/-- The stored form of the wait for the name servers. -/
def propagationJson (p : PropagationSettings) : Json :=
  .object [("enabled", .bool p.enabled), ("initial_delay_secs", .nat p.initialDelay),
    ("check_interval_secs", .nat p.checkInterval), ("timeout_secs", .nat p.timeout),
    ("nameservers", .strings p.nameservers)]

/-- The stored form of the section on challenge records. -/
def dnsJson (d : DnsSettings) : Json :=
  .object [("provider", .string d.kind.text), ("zone_id", .optional d.zoneId),
    ("url", .optional d.url), ("auth_header", .optional d.authHeader),
    ("credentials_file", .optional d.credentialsFile),
    ("credentials_env", .optional d.credentialsVariable),
    ("api_timeout_secs", .nat d.apiTimeout), ("provision_retries", .nat d.retries),
    ("propagation", propagationJson d.propagation)]

/-- The stored form. -/
def toJson (c : Config) : Json :=
  .object [("acme", acmeJson c.acme), ("renewal", renewalJson c.renewal),
    ("dns_provider", dnsJson c.dns), ("storage", .object [("path", .string c.storage.path)]),
    ("logging", .object [("level", .string c.logging.level),
      ("format", .string c.logging.format)])]

end Config

end CertSteward
