import CertSteward.Config.Settings
import CertSteward.Net.Address
import CertSteward.Net.Email
import CertSteward.Net.Url

/-!
# Valid configurations

Each setting has its range. If all are in range, the settings have to fit together; of that the
first violation is reported.

## Main definitions

* `Violation` — a setting that is not as it should be
* `Config.violations` — all that is to be reported
* `Config.isValid`
-/

namespace CertSteward

/-- A setting that is not as it should be. -/
structure Violation where
  /-- The section and the setting, or that the configuration as a whole is meant. -/
  path : String
  /-- The rule that it breaks. -/
  rule : String
  /-- What to say about it. -/
  message : Option String := none
deriving DecidableEq, Repr

namespace Config

/-- A violation unless the setting is in range. -/
def inRange (path : String) (value low high : Nat) : List Violation :=
  if low ≤ value ∧ value ≤ high then [] else [{ path, rule := "range" }]

/-- The settings that are out of their range. -/
def fieldViolations (c : Config) : List Violation :=
  (if c.acme.email.all isEmail then []
    else [{ path := "acme.email", rule := "email"
            message := some "acme email must be a valid email address" }]) ++
  inRange "acme.request_timeout_secs" c.acme.requestTimeout 1 600 ++
  inRange "acme.request_retries" c.acme.requestRetries 0 10 ++
  inRange "acme.validation_timeout_secs" c.acme.validationTimeout 1 3600 ++
  inRange "acme.poll_initial_interval_ms" c.acme.pollInitial 1000 60000 ++
  inRange "acme.poll_max_interval_ms" c.acme.pollMax 1000 300000 ++
  inRange "acme.finalize_timeout_secs" c.acme.finalizeTimeout 1 3600 ++
  inRange "renewal.interval_hours" c.renewal.intervalHours 1 720 ++
  inRange "renewal.window_days" c.renewal.windowDays 1 89 ++
  inRange "renewal.workers" c.renewal.workers 1 64 ++
  inRange "dns_provider.api_timeout_secs" c.dns.apiTimeout 1 300 ++
  inRange "dns_provider.provision_retries" c.dns.retries 0 10 ++
  inRange "dns_provider.propagation.initial_delay_secs" c.dns.propagation.initialDelay 0 600 ++
  inRange "dns_provider.propagation.check_interval_secs" c.dns.propagation.checkInterval 1 300 ++
  inRange "dns_provider.propagation.timeout_secs" c.dns.propagation.timeout 1 3600 ++
  (if c.logging.level.isEmpty then [{ path := "logging.level", rule := "length" }] else [])

/-- A violation of the configuration as a whole. -/
def whole (rule message : String) : Violation :=
  { path := "__all__", rule, message := some message }

/-- What the service needs and does not have. -/
def serviceViolation? (d : DnsSettings) : Option Violation :=
  match d.kind with
  | .cloudflare =>
    if d.zoneId.getD "" = "" then
      some (whole "cloudflare_zone_id" "dns-provider 'cloudflare' requires a zone-id")
    else if ¬ d.hasCredentials then
      some (whole "cloudflare_credentials"
        "dns-provider 'cloudflare' requires credentials-file or credentials-env")
    else none
  | .webhook =>
    if d.url.getD "" = "" then some (whole "webhook_url" "dns-provider 'webhook' requires a url")
    else none
  | .memory => none

/-- A locator of the service that is none. -/
def urlViolation? (d : DnsSettings) : Option Violation :=
  match d.url with
  | none => none
  | some url =>
    match Url.parse url with
    | .ok _ => none
    | .error fault =>
      some (whole "dns_url" ("dns-provider url '" ++ url ++ "' is invalid: " ++ fault.message))

/-- The first way in which the settings do not fit together. -/
def mismatch? (c : Config) : Option Violation :=
  if c.acme.pollMax < c.acme.pollInitial then
    some (whole "poll_interval_order" ("acme poll-max-interval-ms (" ++ toString c.acme.pollMax ++
      ") must not be below poll-initial-interval-ms (" ++ toString c.acme.pollInitial ++ ")"))
  else
    (serviceViolation? c.dns).or <| (urlViolation? c.dns).or <|
      ((c.dns.propagation.nameservers.find? (!Address.isAddress ·)).map fun ns =>
        whole "nameserver" ("propagation nameserver '" ++ ns ++ "' is not an IP address")).or <|
      match LogFormat.parse c.logging.format with
      | .ok _ => none
      | .error message => some (whole "log_format" message)

/-- All that is to be reported. -/
def violations (c : Config) : List Violation :=
  match c.fieldViolations with
  | [] => (mismatch? c).toList
  | vs => vs

/-- Whether nothing is to be reported. -/
def isValid (c : Config) : Bool := c.violations.isEmpty

end Config

end CertSteward
