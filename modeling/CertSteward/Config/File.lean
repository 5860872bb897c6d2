import CertSteward.Config.Blocks
import CertSteward.Config.Fault
import CertSteward.Config.Settings
import CertSteward.Json.Reader
import CertSteward.Json.Value
import CertSteward.Toml.Reader

/-!
# Configuration files

In JSON and TOML a section is an object, or an array that gives the settings in their order. A
setting that is left out has its default, one that the section does not know is passed over, and one
that stands there twice or has a value of the wrong kind makes the whole configuration unreadable.

The extension of a file tells its format: KDL, which is also taken where there is no extension,
JSON or TOML.

## Main definitions

* `Config.ofValue?` — the configuration in a value
* `Config.ofJson`, `Config.ofToml` — the configuration in a text
* `fileExtension?` — the extension of a path
* `Config.ofFile` — the configuration in a file
-/

namespace CertSteward

namespace Config

/-! ### Values -/

/-- A text or `null`. -/
def optionalText? : Json → Option (Option String)
  | .null => some none
  | .string s => some (some s)
  | _ => none

/-- A number below `2 ^ bits`. -/
def bounded? (bits : Nat) (v : Json) : Option Nat :=
  v.nat?.bind fun n => if n < Nat.pow 2 bits then some n else none

/-- A choice by its written form; an object with that one member, which is `null`, will do. -/
def choice? (ofText? : String → Option α) : Json → Option α
  | .string s => ofText? s
  | .object [(s, .null)] => ofText? s
  | _ => none

/-- A list of texts. -/
def texts? (v : Json) : Option (List String) := v.array?.bind fun vs => vs.mapM Json.string?

/-- An authority. -/
def directory? (v : Json) : Option Directory :=
  v.string?.bind fun s => (Directory.parse s).toOption

/-! ### Sections -/

/-- The section on ordering. -/
def acme? (v : Json) : Option AcmeSettings := do
  let ms ← Json.fields? ["email", "directory", "key_type", "request_timeout_secs",
    "request_retries", "validation_timeout_secs", "poll_initial_interval_ms",
    "poll_max_interval_ms", "finalize_timeout_secs"] v
  let d : AcmeSettings := {}
  return { email := ← Json.fieldOr? ms "email" optionalText? d.email
           directory := ← Json.fieldOr? ms "directory" directory? d.directory
           keyType := ← Json.fieldOr? ms "key_type" (choice? KeyType.ofText?) d.keyType
           requestTimeout :=
             ← Json.fieldOr? ms "request_timeout_secs" (bounded? 64) d.requestTimeout
           requestRetries := ← Json.fieldOr? ms "request_retries" (bounded? 32) d.requestRetries
           validationTimeout :=
             ← Json.fieldOr? ms "validation_timeout_secs" (bounded? 64) d.validationTimeout
           pollInitial := ← Json.fieldOr? ms "poll_initial_interval_ms" (bounded? 64) d.pollInitial
           pollMax := ← Json.fieldOr? ms "poll_max_interval_ms" (bounded? 64) d.pollMax
           finalizeTimeout :=
             ← Json.fieldOr? ms "finalize_timeout_secs" (bounded? 64) d.finalizeTimeout }

/-- The section on renewal. -/
def renewal? (v : Json) : Option RenewalSettings := do
  let ms ← Json.fields? ["interval_hours", "window_days", "workers", "run_on_start"] v
  let d : RenewalSettings := {}
  return { intervalHours := ← Json.fieldOr? ms "interval_hours" (bounded? 64) d.intervalHours
           windowDays := ← Json.fieldOr? ms "window_days" (bounded? 32) d.windowDays
           workers := ← Json.fieldOr? ms "workers" (bounded? 64) d.workers
           runOnStart := ← Json.fieldOr? ms "run_on_start" Json.bool? d.runOnStart }

/-- The wait for the name servers. -/
def propagation? (v : Json) : Option PropagationSettings := do
  let ms ← Json.fields? ["enabled", "initial_delay_secs", "check_interval_secs",
    "timeout_secs", "nameservers"] v
  let d : PropagationSettings := {}
  return { enabled := ← Json.fieldOr? ms "enabled" Json.bool? d.enabled
           initialDelay := ← Json.fieldOr? ms "initial_delay_secs" (bounded? 64) d.initialDelay
           checkInterval := ← Json.fieldOr? ms "check_interval_secs" (bounded? 64) d.checkInterval
           timeout := ← Json.fieldOr? ms "timeout_secs" (bounded? 64) d.timeout
           nameservers := ← Json.fieldOr? ms "nameservers" texts? d.nameservers }

/-- The section on challenge records. -/
def dns? (v : Json) : Option DnsSettings := do
  let ms ← Json.fields? ["provider", "zone_id", "url", "auth_header", "credentials_file",
    "credentials_env", "api_timeout_secs", "provision_retries", "propagation"] v
  let d : DnsSettings := {}
  return { kind := ← Json.fieldOr? ms "provider" (choice? DnsKind.ofText?) d.kind
           zoneId := ← Json.fieldOr? ms "zone_id" optionalText? d.zoneId
           url := ← Json.fieldOr? ms "url" optionalText? d.url
           authHeader := ← Json.fieldOr? ms "auth_header" optionalText? d.authHeader
           credentialsFile := ← Json.fieldOr? ms "credentials_file" optionalText? d.credentialsFile
           credentialsVariable :=
             ← Json.fieldOr? ms "credentials_env" optionalText? d.credentialsVariable
           apiTimeout := ← Json.fieldOr? ms "api_timeout_secs" (bounded? 64) d.apiTimeout
           retries := ← Json.fieldOr? ms "provision_retries" (bounded? 32) d.retries
           propagation := ← Json.fieldOr? ms "propagation" propagation? d.propagation }

/-- The section on storage. -/
def storage? (v : Json) : Option StorageSettings := do
  let ms ← Json.fields? ["path"] v
  return { path := ← Json.fieldOr? ms "path" Json.string? ({} : StorageSettings).path }

/-- The section on logging. -/
def logging? (v : Json) : Option LoggingSettings := do
  let ms ← Json.fields? ["level", "format"] v
  let d : LoggingSettings := {}
  return { level := ← Json.fieldOr? ms "level" Json.string? d.level
           format := ← Json.fieldOr? ms "format" Json.string? d.format }

/-- The configuration in a value. -/
def ofValue? (v : Json) : Option Config := do
  let ms ← Json.fields? ["acme", "renewal", "dns_provider", "storage", "logging"] v
  return { acme := ← Json.fieldOr? ms "acme" acme? {}
           renewal := ← Json.fieldOr? ms "renewal" renewal? {}
           dns := ← Json.fieldOr? ms "dns_provider" dns? {}
           storage := ← Json.fieldOr? ms "storage" storage? {}
           logging := ← Json.fieldOr? ms "logging" logging? {} }

/-- The configuration in a JSON text. -/
def ofJson (text : String) : Except ConfigFault Config :=
  match (Json.parse? text).bind ofValue? with
  | some c => .ok c
  | none => .error .json

/-- The configuration in a TOML text. -/
def ofToml (text : String) : Except ConfigFault Config :=
  match (Toml.parse? text).bind ofValue? with
  | some c => .ok c
  | none => .error .toml

end Config

/-- What follows the last dot of the last part of a path, if there is something before it. -/
def fileExtension? (path : String) : Option String :=
  let parts := (Chars.splitOn '/' path.toList).filter fun p => p ≠ [] ∧ p ≠ ['.']
  match parts.getLast? with
  | none => none
  | some name =>
    if name = ['.', '.'] then none
    else
      let extension := (name.reverse.takeWhile (· ≠ '.')).reverse
      if extension.length + 1 < name.length then some (String.ofList extension) else none

namespace Config

/-- The configuration in a file with that content, or in one that cannot be read. -/
def ofFile (path : String) (content : Except FileFault String) : Except ConfigFault Config :=
  match content with
  | .error fault => .error (.unreadable path fault)
  | .ok text =>
    match (fileExtension? path).getD "kdl" with
    | "kdl" => ofKdl text
    | "json" => ofJson text
    | "toml" => ofToml text
    | extension => .error (.unsupported extension)

end Config

end CertSteward
