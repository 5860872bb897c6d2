import CertSteward.Dns.Http
import CertSteward.Dns.Memory

/-!
# DNS services

## Main definitions

* `DnsHandle` — a challenge record that was made
* `DnsService`, `DnsService.ofSettings` — the service that settings name
* `DnsRequest`, `DnsRequest.Reply` — what it can be asked
* `DnsService.answer` — what it answers
-/

namespace CertSteward

/-- A challenge record as its maker knows it. -/
structure DnsHandle where
  /-- The name of the record. -/
  name : String
  /-- Its value. -/
  value : String
  /-- What the DNS service calls it by. -/
  id : String
deriving DecidableEq, Repr

/-- A DNS service. -/
inductive DnsService
  | memory (m : MemoryDns)
  | cloudflare (c : Cloudflare)
  | webhook (w : Webhook)

/-- What a DNS service is asked. -/
inductive DnsRequest
  | create (name value : String)
  /-- The end of a call to make a record whose answer took time. -/
  | settle
  | delete (name id : String)
  | supports (domain : String)
deriving DecidableEq, Repr

/-- The answer to a request. The one to making a record may take time. -/
@[reducible] def DnsRequest.Reply : DnsRequest → Type
  | create .. => Except DnsError String × Option Duration
  | settle => Unit
  | delete .. => Except DnsError Unit
  | supports .. => Except DnsError Bool

namespace DnsService

/-- What the service is called. -/
def name : DnsService → String
  | memory _ => "memory"
  | cloudflare _ => "cloudflare"
  | webhook _ => "webhook"

/-- The service that settings name. -/
def ofSettings (d : DnsSettings) (file : String → Except FileFault String)
    (environment : String → Option String) : Except DnsError DnsService :=
  let timeout := Duration.ofSeconds d.apiTimeout
  match d.kind with
  | .cloudflare =>
    match d.zoneId with
    | none => .error (.configuration "cloudflare provider requires a zone-id")
    | some zone => do
      match ← d.credentials file environment with
      | none => throw (.credentials
          "no credentials configured; set credentials-file or credentials-env")
      | some c => return .cloudflare (← Cloudflare.make zone c d.url timeout)
  | .webhook =>
    match d.url with
    | none => .error (.configuration "webhook provider requires a url")
    | some location => do
      return .webhook (.make location d.authHeader (← d.credentials file environment) timeout)
  | .memory => .ok (.memory {})

/-- Answers a request. -/
def answer (transport : HttpTransport) (s : DnsService) :
    (r : DnsRequest) → r.Reply × DnsService
  | .create name value =>
    match s with
    | memory m => (m.create name value).map id memory
    | cloudflare c => ((c.create transport name value, none), s)
    | webhook w => ((w.create transport name value, none), s)
  | .settle =>
    match s with
    | memory m => ((), memory m.settle)
    | _ => ((), s)
  | .delete name id =>
    match s with
    | memory m => (m.delete name id).map (fun r => r) memory
    | cloudflare c => (c.delete transport id, s)
    | webhook w => (w.delete transport name id, s)
  | .supports domain =>
    match s with
    | memory m => (.ok (m.supports domain), s)
    | cloudflare c => (c.supports transport domain).map (fun r => r) cloudflare
    | webhook w => (w.supports transport domain, s)

end DnsService

end CertSteward
