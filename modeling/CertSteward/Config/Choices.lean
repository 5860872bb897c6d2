import CertSteward.Net.Url
import CertSteward.Text.Chars

/-!
# Choices of a configuration

Each choice has a written form and a forgiving reader; a stored configuration uses the written
form.

## Main definitions

* `KeyType` — the kind of key that is made for a certificate
* `Directory` — the certificate authority
* `DnsKind` — the DNS service
* `LogFormat` — the form of log lines
-/

namespace CertSteward

/-- The kind of key that is made for a certificate. -/
inductive KeyType
  | rsa2048
  | rsa3072
  | rsa4096
  | ecdsaP256
deriving DecidableEq, Repr, Inhabited

namespace KeyType

/-- All of them. -/
def all : List KeyType := [rsa2048, rsa3072, rsa4096, ecdsaP256]

/-- The written form. -/
def text : KeyType → String
  | rsa2048 => "rsa2048"
  | rsa3072 => "rsa3072"
  | rsa4096 => "rsa4096"
  | ecdsaP256 => "ecdsa-p256"

/-- Reads the written form. -/
def ofText? (s : String) : Option KeyType := all.find? (·.text == s)

/-- Reads a kind of key; underscores count as hyphens. -/
def parse (s : String) : Except String KeyType :=
  let name := String.ofList ((Chars.lower s.toList).map fun c => if c = '_' then '-' else c)
  if name = "rsa2048" ∨ name = "rsa-2048" then .ok rsa2048
  else if name = "rsa3072" ∨ name = "rsa-3072" then .ok rsa3072
  else if name = "rsa4096" ∨ name = "rsa-4096" then .ok rsa4096
  else if name = "ecdsa-p256" ∨ name = "p256" then .ok ecdsaP256
  else .error ("invalid key-type '" ++ name ++
    "'. Valid types: rsa2048, rsa3072, rsa4096, ecdsa-p256")

end KeyType

/-- The certificate authority. -/
inductive Directory
  | letsEncrypt
  | letsEncryptStaging
  | development
  | custom (url : String)
deriving DecidableEq, Repr

instance : Inhabited Directory := ⟨.letsEncryptStaging⟩

namespace Directory

/-- Where the authority is reached; the development authority is not reached over the net. -/
def url? : Directory → Option String
  | letsEncrypt => some "https://acme-v02.api.letsencrypt.org/directory"
  | letsEncryptStaging => some "https://acme-staging-v02.api.letsencrypt.org/directory"
  | development => none
  | custom url => some url

/-- Whether this is the development authority. -/
def isDevelopment (d : Directory) : Bool := d == development

/-- The written form. -/
def text : Directory → String
  | letsEncrypt => "letsencrypt"
  | letsEncryptStaging => "letsencrypt-staging"
  | development => "development"
  | custom url => url

/-- Reads an authority: one of the names or a locator for the web. -/
def parse (s : String) : Except String Directory :=
  let name := Text.lower (Text.trim s)
  if name = "letsencrypt" ∨ name = "production" then .ok letsEncrypt
  else if name = "letsencrypt-staging" ∨ name = "staging" then .ok letsEncryptStaging
  else if name = "development" ∨ name = "dev" then .ok development
  else
    match Url.parse (Text.trim s) with
    | .error fault => .error ("invalid ACME directory '" ++ s ++ "': " ++ fault.message)
    | .ok url =>
      if url.scheme = "https" ∨ url.scheme = "http" then .ok (custom url.text)
      else .error ("invalid ACME directory '" ++ s ++ "': unsupported scheme '" ++ url.scheme ++
        "'. Use letsencrypt, letsencrypt-staging, development or an https URL")

end Directory

/-- The DNS service. -/
inductive DnsKind
  | cloudflare
  | webhook
  | memory
deriving DecidableEq, Repr

instance : Inhabited DnsKind := ⟨.memory⟩

namespace DnsKind

/-- All of them. -/
def all : List DnsKind := [cloudflare, webhook, memory]

/-- The written form. -/
def text : DnsKind → String
  | cloudflare => "cloudflare"
  | webhook => "webhook"
  | memory => "memory"

/-- Reads the written form. -/
def ofText? (s : String) : Option DnsKind := all.find? (·.text == s)

/-- Reads a service in any case. -/
def parse (s : String) : Except String DnsKind :=
  let name := Text.lower s
  match ofText? name with
  | some kind => .ok kind
  | none => .error ("invalid dns-provider type '" ++ name ++
    "'. Valid types: cloudflare, webhook, memory")

end DnsKind

/-- The form of log lines. -/
inductive LogFormat
  | pretty
  | json
deriving DecidableEq, Repr, Inhabited

namespace LogFormat

/-- Reads a form. -/
def parse (s : String) : Except String LogFormat :=
  let name := Text.lower s
  if name = "pretty" ∨ name = "text" then .ok pretty
  else if name = "json" then .ok json
  else .error ("unknown log format '" ++ name ++ "', expected 'pretty' or 'json'")

end LogFormat

end CertSteward
