import CertSteward.Config.Validation
import CertSteward.Dns.Provisioning
import CertSteward.Issuance.Settings
import CertSteward.Json.Printer
import CertSteward.Report.Fault

/-!
# Reports of configurations

What a configuration says, whether it is valid, and what follows from it.

## Main definitions

* `Config.report`
-/

namespace CertSteward

/-- A kind of key. -/
def KeySpec.described : KeySpec → String
  | rsa bits => "Rsa \x7b bits: " ++ toString bits ++ " \x7d"
  | ecdsaP256 => "EcdsaP256"

instance : ToJson KeySpec := ⟨fun s => .string s.described⟩

instance : ToJson BackoffPolicy :=
  ⟨fun p => .array [p.initial.toJson, p.largest.toJson, p.budget.elim .null Duration.toJson,
    .number (.float p.multiplier)]⟩

instance : ToJson PropagationPlan :=
  ⟨fun p => .object [("initial_delay", p.initialDelay.toJson),
    ("check_interval", p.checkInterval.toJson), ("timeout", p.timeout.toJson),
    ("nameservers", .strings p.nameservers)]⟩

instance : ToJson IssuanceSettings :=
  ⟨fun s => .object [("call_timeout", s.callTimeout.toJson), ("call_retries", .nat s.callRetries),
    ("retry", ToJson.toJson s.retry), ("validation", ToJson.toJson s.validation),
    ("finalize", ToJson.toJson s.finalize), ("key_spec", ToJson.toJson s.key)]⟩

instance : ToJson Violation :=
  ⟨fun v => .object [("code", .string v.rule), ("message", .optional v.message),
    ("path", .string v.path)]⟩

namespace Config

/-- The violations in the order of their texts, nothing if there are none. -/
def violationReport (c : Config) : Json :=
  if c.isValid then .null
  else .array ((c.violations.map ToJson.toJson).mergeSort fun a b => a.compact ≤ b.compact)

/-- What a configuration says and what follows from it. -/
def report (c : Config) : Json :=
  .object [("config", c.toJson), ("valid", .bool c.isValid), ("errors", c.violationReport),
    ("directory_url", .optional c.acme.directory.url?),
    ("has_credentials", .bool c.dns.hasCredentials),
    ("api_timeout", (Duration.ofSeconds c.dns.apiTimeout).toJson),
    ("orchestrator", ToJson.toJson (IssuanceSettings.ofAcme c.acme)),
    ("propagation", match PropagationPlan.ofSettings c.dns.propagation with
      | .ok p => ToJson.toJson p
      | .error e => Reported.report e),
    ("scheduler", .array [c.renewal.interval.toJson, .nat c.renewal.workers,
      .bool c.renewal.runOnStart])]

end Config

end CertSteward
