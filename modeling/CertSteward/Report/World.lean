import CertSteward.Authority.Authority
import CertSteward.Material.Details
import CertSteward.Report.Fault
import CertSteward.Run.World

/-!
# Reports of answers of an authority and of the state of a world

## Main definitions

* `Pem.report` — what a chain of certificates says
* `AuthorityRequest.report` — what an authority answered
* `World.report` — what stands in the DNS service, which domains are locked, and what is left to
  clean up
-/

namespace CertSteward

/-! ### Answers of an authority -/

/-- The seconds from the start to the end of a certificate. -/
def CertificateDetails.lifetime (d : CertificateDetails) : Int :=
  d.notAfter.seconds - d.notBefore.seconds

/-- The first certificate of a chain, and the next. -/
def Pem.firstTwo (pem : String) :
    Except MaterialError (CertificateDetails × CertificateDetails) := do
  let (leaf, chain) ← splitChain pem
  return (← CertificateDetails.inspect leaf, ← CertificateDetails.inspect chain)

/-- What a chain of certificates says, and whether it ends with a root certificate. -/
def Pem.report (root : Option String) (pem : String) : Json :=
  match firstTwo pem with
  | .error e => Reported.report e
  | .ok (d, c) =>
    .object ([("subject", .string d.subject), ("issuer", .string d.issuer),
      ("common_name", .optional d.commonName), ("serial", .string d.serial),
      ("san", .strings d.names), ("signature", .string d.signatureAlgorithm),
      ("lifetime_secs", .int d.lifetime), ("chain_subject", .string c.subject),
      ("chain_lifetime_secs", .int c.lifetime)] ++
      (root.map fun r => ("ends_with_root", Json.bool (pem.endsWith r))).toList)

/-- How long the digest is that follows the token of a challenge. -/
def DnsChallenge.boundLength? (c : DnsChallenge) : Option Nat :=
  (Chars.stripStart? (c.token ++ ".").toList c.keyAuthorization.toList).map List.length

instance : ToJson DnsChallenge :=
  ⟨fun c => .object [("url", .string c.url), ("token", .string c.token),
    ("bound", ToJson.toJson c.boundLength?)]⟩

instance : ToJson Authorization :=
  ⟨fun a => .object [("identifier", .string a.identifier), ("status", .string a.status.text),
    ("failed", .bool a.status.isFailed), ("error", .optional a.error),
    ("challenge", ToJson.toJson a.challenge)]⟩

instance : ToJson DevelopmentAuthority :=
  ⟨fun a => .object [("accounts", .nat a.accountCalls), ("ready", .nat a.readyCalls),
    ("finalized", .nat a.finalizeCalls), ("orders", .nat a.orders.length),
    ("revoked", .strings a.revokedSerials)]⟩

namespace AuthorityRequest

/-- What a request has given. -/
def valueReport (root : Option String) : (r : AuthorityRequest) → r.Value → Json
  | newOrder _, o => .object [("id", .string o.id), ("identifiers", .strings o.identifiers)]
  | authorizations _, as => ToJson.toJson as
  | orderState _, s => .object [("status", .string s.status.text), ("error", .optional s.error)]
  | certificate _, c => c.elim .null (Pem.report root)
  | release _, _ => .null
  | ensureAccount, _ | challengeReady .., _ | finalize .., _ | revoke .., _ => .bool true

/-- What an authority answered, nothing for a request that needs no answer. -/
def report (root : Option String) (r : AuthorityRequest) (reply : r.Reply) : Json :=
  if r.isCall then ToJson.toJson (reply.map (valueReport root r)) else .null

end AuthorityRequest

/-! ### The state of a world -/

instance : ToJson MemoryDns :=
  ⟨fun d => .object [("records", .nat d.entries.length), ("creates", .nat d.creates),
    ("deletes", .nat d.deletes), ("max_concurrent", .nat d.mostUnderWay)]⟩

namespace World

/-- The DNS service in memory, an empty one if records stand elsewhere. -/
def memoryDns (w : World) : MemoryDns :=
  match w.dns with
  | .memory d => d
  | _ => {}

/-- What an authority has been asked. -/
def authorityReport (w : World) : String × Json :=
  match w.authority with
  | .development a => ("ca", ToJson.toJson a)
  | .script s => ("calls", .strings s.calls)
  | .remote _ => ("ca", .null)

/-- How many challenge records stand, as far as they were made here. -/
def recordsStanding (w : World) : Nat := w.slots.countBusy Option.isSome

/-- The state of a world. -/
def report (w : World) : Json :=
  .object [("dns", ToJson.toJson w.memoryDns), ("active", .nat w.recordsStanding),
    ("slots", .nat w.slots.size), ("locks", .nat w.locks.size),
    ("locks_empty", .bool (w.locks.size == 0)), ("debt", .nat w.metrics.debt),
    ("sweeps", .nat w.metrics.sweeps), w.authorityReport]

end World

end CertSteward
