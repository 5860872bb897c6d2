import CertSteward.Dns.Credentials
import CertSteward.Dns.Error
import CertSteward.Domain.Name
import CertSteward.Net.Http
import CertSteward.Time.Instant

/-!
# DNS services reached by web requests

Records are made behind a web service of one's own or at Cloudflare. Cloudflare is asked once for
the name of a zone, which is then remembered.

## Main definitions

* `DnsError.ofStatus` — what a status that is no success means
* `DnsHttp.exchange` — sends a request and takes the reply
* `Webhook`, `Webhook.create`, `Webhook.delete`, `Webhook.supports` — a web service of one's own
* `Cloudflare`, `Cloudflare.create`, `Cloudflare.delete`, `Cloudflare.supports` — a zone there
-/

namespace CertSteward

/-- What a status that is no success means; `rejected` says what a plain refusal means. -/
def DnsError.ofStatus (status : Nat) (body : String) (rejected : String → DnsError) : DnsError :=
  let detail := "HTTP " ++ HttpStatus.text status ++ " - " ++ body
  if status = 401 ∨ status = 403 then .authentication detail
  else if status = 429 then .rateLimited 60
  else if HttpStatus.isServerFault status then .apiRequest detail
  else rejected detail

namespace DnsHttp

/-- Sends a request, which may have failed to be made, and takes the status and the body of the
reply. -/
def exchange (transport : HttpTransport) (timeout : Duration)
    (request : Except String HttpRequest) : Except DnsError (Nat × String) :=
  match request with
  | .error fault => .error (.apiRequest ("request failed: " ++ fault))
  | .ok r =>
    match transport r with
    | .reply status body => .ok (status, body)
    | .late => .error (.timeout timeout.seconds)
    | .unreachable =>
      .error (.apiRequest ("request failed: error sending request for url (" ++ r.url.text ++ ")"))

/-- A base location without slashes at its end. -/
def baseOf (location : String) : String :=
  String.ofList (Chars.dropEndWhile (· == '/') location.toList)

/-- How long a record may be kept, in seconds. -/
def recordTtl : Nat := 60

/-- The record may be gone already when it is to be deleted. -/
def deletion (id : String) : Except DnsError (Nat × String) → Except DnsError Unit
  | .error e => .error e
  | .ok (status, body) =>
    if status = 404 ∨ HttpStatus.isSuccess status then .ok ()
    else .error (.ofStatus status body (.recordDeletion id))

end DnsHttp

/-! ### Records behind a web service of one's own -/

/-- A web service that makes records. -/
structure Webhook where
  /-- Where the service is reached. -/
  base : String
  /-- The header that carries the credentials, if it is not the usual one. -/
  header : Option String
  credentials : Option Credentials
  /-- The time that a request may take. -/
  timeout : Duration

namespace Webhook

/-- A service at a location. -/
def make (location : String) (header : Option String) (credentials : Option Credentials)
    (timeout : Duration) : Webhook :=
  { base := DnsHttp.baseOf location, header, credentials, timeout }

/-- The header that carries the credentials, if there are any. -/
def headers (w : Webhook) : List (String × String) :=
  match w.header, w.credentials with
  | some name, some c => [(name, c.bearer)]
  | none, some c => [("authorization", "Bearer " ++ c.bearer)]
  | _, none => []

/-- The domain that a challenge record is for. -/
def domainOf (name : String) : String :=
  match Chars.stripStart? (Domain.challengeLabel ++ ".").toList name.toList with
  | some domain => String.ofList domain
  | none => name

/-- Reads the one member that is asked for. -/
def member? (name body : String) (read : Json → Option α) : Option α := do
  let ms ← Json.fields? [name] (← Json.parse? body)
  read (← ms.lookup name)

/-- What is wrong with a reply that cannot be read. -/
def unreadable : String := "failed to parse webhook response: error decoding response body"

/-- Makes a record and gives what it is called by. -/
def create (w : Webhook) (transport : HttpTransport) (name value : String) :
    Except DnsError String := do
  let (status, body) ← DnsHttp.exchange transport w.timeout
    (HttpRequest.build "POST" (w.base ++ "/records") none w.headers (some (.object
      [("domain", .string (domainOf name)), ("record_name", .string name),
        ("record_type", .string "TXT"), ("record_value", .string value),
        ("ttl", .nat DnsHttp.recordTtl)])))
  if !HttpStatus.isSuccess status then throw (.ofStatus status body (.recordCreation name))
  match member? "record_id" body Json.string? with
  | some id => return id
  | none => throw (.recordCreation name unreadable)

/-- Deletes a record. -/
def delete (w : Webhook) (transport : HttpTransport) (name id : String) : Except DnsError Unit :=
  DnsHttp.deletion id (DnsHttp.exchange transport w.timeout
    (HttpRequest.build "DELETE" (w.base ++ "/records/" ++ id) (some ("domain", domainOf name))
      w.headers))

/-- Whether the service answers for a domain. -/
def supports (w : Webhook) (transport : HttpTransport) (domain : String) :
    Except DnsError Bool := do
  let (status, body) ← DnsHttp.exchange transport w.timeout
    (HttpRequest.build "GET" (w.base ++ "/domains/" ++ domain ++ "/supported") none w.headers)
  if status = 404 then return false
  if !HttpStatus.isSuccess status then throw (.ofStatus status body .apiRequest)
  match member? "supported" body Json.bool? with
  | some b => return b
  | none => throw (.apiRequest unreadable)

end Webhook

/-! ### Records at Cloudflare -/

/-- A zone at Cloudflare. -/
structure Cloudflare where
  /-- Where the service is reached. -/
  base : String
  zoneId : String
  credentials : Credentials
  /-- The time that a request may take. -/
  timeout : Duration
  /-- The name of the zone, once it is known. -/
  zoneName : Option String := none

namespace Cloudflare

/-- Where the service is reached unless the settings say otherwise. -/
def usualBase : String := "https://api.cloudflare.com/client/v4"

/-- A zone; it has to be named. -/
def make (zoneId : String) (credentials : Credentials) (location : Option String)
    (timeout : Duration) : Except DnsError Cloudflare :=
  if Text.isBlank zoneId then .error (.configuration "cloudflare provider requires a zone-id")
  else .ok { base := DnsHttp.baseOf (location.getD usualBase), zoneId, credentials, timeout }

/-- Where the zone is. -/
def zoneLocation (c : Cloudflare) : String := c.base ++ "/zones/" ++ c.zoneId

/-- Where its records are. -/
def recordsLocation (c : Cloudflare) : String := c.zoneLocation ++ "/dns_records"

/-- The header that carries the credentials. -/
def headers (c : Cloudflare) : List (String × String) :=
  [("authorization", "Bearer " ++ c.credentials.bearer)]

/-- A fault in a reply. -/
def fault? (v : Json) : Option (Int × String) := do
  let ms ← Json.fields? ["code", "message"] v
  return (← Json.fieldOr? ms "code" Json.whole? 0, ← Json.fieldOr? ms "message" Json.string? "")

/-- Reads a reply whose result has the one member that is asked for: whether all went well, the
faults otherwise, and that member. -/
def envelope (member body : String) : Except DnsError (Bool × List (Int × String) × String) :=
  let read := do
    let ms ← Json.fields? ["success", "errors", "result"] (← Json.parse? body)
    let success ← Json.fieldOr? ms "success" Json.bool? false
    let faults ← Json.fieldOr? ms "errors" (fun v => v.array?.bind fun vs => vs.mapM fault?) []
    let result ← Json.fields? [member] (← ms.lookup "result")
    return (success, faults, ← (← result.lookup member).string?)
  match read with
  | some e => .ok e
  | none => .error (.apiRequest "failed to parse Cloudflare response: unexpected value")

/-- The wording of the faults in a reply. -/
def faultText (faults : List (Int × String)) : String :=
  Text.join "; " (faults.map fun (code, message) => message ++ " (" ++ toString code ++ ")")

/-- Makes a record and gives what it is called by. -/
def create (c : Cloudflare) (transport : HttpTransport) (name value : String) :
    Except DnsError String := do
  let (status, body) ← DnsHttp.exchange transport c.timeout
    (HttpRequest.build "POST" c.recordsLocation none c.headers (some (.object
      [("type", .string "TXT"), ("name", .string name), ("content", .string value),
        ("ttl", .nat DnsHttp.recordTtl)])))
  if !HttpStatus.isSuccess status then throw (.ofStatus status body (.recordCreation name))
  let (success, faults, id) ← envelope "id" body
  if !success then throw (.recordCreation name (faultText faults))
  return id

/-- Deletes a record. -/
def delete (c : Cloudflare) (transport : HttpTransport) (id : String) : Except DnsError Unit :=
  DnsHttp.deletion id (DnsHttp.exchange transport c.timeout
    (HttpRequest.build "DELETE" (c.recordsLocation ++ "/" ++ id) none c.headers))

/-- Asks for the name of the zone. -/
def askZone (c : Cloudflare) (transport : HttpTransport) : Except DnsError String := do
  let (status, body) ← DnsHttp.exchange transport c.timeout
    (HttpRequest.build "GET" c.zoneLocation none c.headers)
  if status = 404 then throw (.zoneNotFound c.zoneId)
  if !HttpStatus.isSuccess status then throw (.ofStatus status body .apiRequest)
  let (_, _, name) ← envelope "name" body
  return name

/-- Whether a domain lies in the zone. -/
def supports (c : Cloudflare) (transport : HttpTransport) (domain : String) :
    Except DnsError Bool × Cloudflare :=
  match c.zoneName with
  | some zone => (.ok (Domain.inZone domain zone), c)
  | none =>
    match c.askZone transport with
    | .ok zone => (.ok (Domain.inZone domain zone), { c with zoneName := some zone })
    | .error e => (.error e, c)

end Cloudflare

end CertSteward
