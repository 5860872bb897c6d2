import CertSteward.Config.Settings
import CertSteward.Dns.Error
import CertSteward.Json.Reader
import CertSteward.Json.Value
import CertSteward.Store.FileTree

/-!
# Credentials for a DNS service

Credentials come from a file or from a variable. Both hold either a plain token or a JSON object
with a token, or with a key and a secret; blanks around them do not count.

## Main definitions

* `Credentials`, `Credentials.bearer`
* `Credentials.Members`, `Credentials.ofMembers?` — what an object holds, and what it comes to
* `Credentials.ofFile`, `Credentials.ofVariable` — from their two sources
* `DnsSettings.credentials` — from the source that the settings name
-/

namespace CertSteward

/-- What a DNS service knows its users by. -/
inductive Credentials
  | token (text : String)
  | keySecret (key secret : String)
deriving DecidableEq

namespace Credentials

/-- The token, if that is all. -/
def token? : Credentials → Option String
  | token t => some t
  | keySecret .. => none

/-- The key, if there is one. -/
def key? : Credentials → Option String
  | token _ => none
  | keySecret k _ => some k

/-- The secret, if there is one. -/
def secret? : Credentials → Option String
  | token _ => none
  | keySecret _ s => some s

/-- What is sent with a request. -/
def bearer : Credentials → String
  | token t => t
  | keySecret k _ => k

/-- The description for diagnosis, which shows no secret. -/
def described : Credentials → String
  | token _ => "Credentials::Token([REDACTED])"
  | keySecret .. => "Credentials::KeySecret([REDACTED])"

/-- A text or `null`. -/
def textOrNull? : Json → Option (Option String)
  | .null => some none
  | .string s => some (some s)
  | _ => none

/-- The members of an object that credentials are made of. -/
structure Members where
  token : Option String
  otherToken : Option String
  key : Option String
  secret : Option String

/-- The members of the object in a text. -/
def Members.ofText? (text : String) : Option Members := do
  let ms ← Json.fields? ["token", "api_token", "api_key", "api_secret"] (← Json.parse? text)
  return {
    token := ← Json.fieldOr? ms "token" textOrNull? none
    otherToken := ← Json.fieldOr? ms "api_token" textOrNull? none
    key := ← Json.fieldOr? ms "api_key" textOrNull? none
    secret := ← Json.fieldOr? ms "api_secret" textOrNull? none }

/-- The credentials of such members: a key with its secret before a token, and a key alone last. -/
def ofMembers? : Members → Option Credentials
  | ⟨_, _, some k, some s⟩ => some (keySecret k s)
  | ⟨some t, _, _, _⟩ => some (token t)
  | ⟨none, some t, _, _⟩ => some (token t)
  | ⟨none, none, some k, _⟩ => some (token k)
  | ⟨none, none, none, _⟩ => none

/-- The credentials in an object. -/
def ofJson (text : String) : Except DnsError Credentials :=
  match Members.ofText? text with
  | none => .error (.credentials "invalid JSON credentials: unexpected value")
  | some members =>
    match ofMembers? members with
    | some credentials => .ok credentials
    | none => .error (.credentials
        ("expected \x7b\"token\": \"...\"\x7d or " ++
          "\x7b\"api_key\": \"...\", \"api_secret\": \"...\"\x7d"))

/-- The credentials in a text, which comes from the place with that description. -/
def ofText (place text : String) : Except DnsError Credentials :=
  let trimmed := Text.trim text
  if trimmed.toList.head? = some '\x7b' then ofJson trimmed
  else if trimmed.isEmpty then .error (.credentials (place ++ " is empty"))
  else .ok (token trimmed)

/-- The credentials in a file with that content. -/
def ofFile (path : String) (content : Except FileFault String) : Except DnsError Credentials :=
  match content with
  | .error fault => .error (.credentials
      ("failed to read credentials file '" ++ path ++ "': " ++ fault.message))
  | .ok text => ofText ("credentials file '" ++ path ++ "'") text

/-- The credentials in a variable with that value. -/
def ofVariable (name : String) (value : Option String) : Except DnsError Credentials :=
  match value with
  | none => .error (.credentials ("environment variable '" ++ name ++ "' not set"))
  | some text => ofText ("environment variable '" ++ name ++ "'") text

end Credentials

/-- The credentials from the source that the settings name; a file goes before a variable. -/
def DnsSettings.credentials (d : DnsSettings) (file : String → Except FileFault String)
    (environment : String → Option String) : Except DnsError (Option Credentials) :=
  match d.credentialsFile, d.credentialsVariable with
  | some path, _ => (Credentials.ofFile path (file path)).map some
  | none, some name => (Credentials.ofVariable name (environment name)).map some
  | none, none => .ok none

end CertSteward
