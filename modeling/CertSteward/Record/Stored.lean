import CertSteward.Json.Printer
import CertSteward.Json.Reader
import CertSteward.Record.Record
import CertSteward.Time.Rfc3339

/-!
# Records as they are stored

A stored record is a JSON object. The private key is no part of it. Names, dates of making and
change, status and unasked renewal have to be there; members that are not known are passed over,
and no known member may stand there twice.

## Main definitions

* `CertificateRecord.toJson`, `CertificateRecord.ofJson?`
* `CertificateRecord.ofText?` — from a text
* `CertificateRecord.InvariantFault.message`
-/

namespace CertSteward

namespace CertificateRecord

/-- The wording of a fault. -/
def InvariantFault.message : InvariantFault → String
  | .expiry status expiresAt => "status " ++ status.text ++ " with expires_at " ++
      match expiresAt with
      | some e => "Some(" ++ e.toRfc3339 ++ ")"
      | none => "None"
  | .validity => "ISSUED without a valid issued_at/expires_at"
  | .changedBeforeMade => "updated_at before created_at"

/-- A time or `null`. -/
def timeJson (a : Option Instant) : Json := .optional (a.map Instant.toRfc3339)

/-- The stored form. -/
def toJson (r : CertificateRecord) : Json :=
  .object [("id", .string r.id), ("domain_id", .string r.domainId),
    ("primary_domain", .string r.primaryDomain), ("san_domains", .strings r.sanDomains),
    ("wildcard", .bool r.wildcard), ("certificate_pem", .string r.certificate),
    ("chain_pem", .string r.chain), ("issued_at", timeJson r.issuedAt),
    ("expires_at", timeJson r.expiresAt), ("auto_renew", .bool r.autoRenew),
    ("status", .string r.status.text), ("last_error", .optional r.lastError),
    ("revocation_reason", .optional (r.revocation.map Revocation.stored)),
    ("created_at", .string r.createdAt.toRfc3339), ("updated_at", .string r.updatedAt.toRfc3339)]

/-- The members in their order. -/
def memberNames : List String :=
  ["id", "domain_id", "primary_domain", "san_domains", "wildcard", "certificate_pem", "chain_pem",
    "issued_at", "expires_at", "auto_renew", "status", "last_error", "revocation_reason",
    "created_at", "updated_at"]

/-- The known members of an object, or of an array that gives all of them in order. -/
def members? : Json → Option (List (String × Json))
  | .object ms =>
    let ms := ms.filter fun (name, _) => memberNames.contains name
    if (ms.map (·.1)).Nodup then some ms else none
  | .array vs => if vs.length = memberNames.length then some (memberNames.zip vs) else none
  | _ => none

/-- A member that has to be there. -/
def required? (ms : List (String × Json)) (name : String) (read : Json → Option α) : Option α :=
  (ms.lookup name).bind read

/-- A member that may be missing. -/
def usual? (ms : List (String × Json)) (name : String) (read : Json → Option α) (usual : α) :
    Option α :=
  match ms.lookup name with
  | some v => read v
  | none => some usual

/-- A value or `null`. -/
def nullable? (read : Json → Option α) : Json → Option (Option α)
  | .null => some none
  | v => (read v).map some

/-- A time. -/
def time? (v : Json) : Option Instant := v.string?.bind Instant.ofRfc3339?

/-- One of several words; an object with that one member, which is `null`, will do. -/
def word? (ofText? : String → Option α) : Json → Option α
  | .string s => ofText? s
  | .object [(s, .null)] => ofText? s
  | _ => none

/-- Reads the stored form. -/
def ofJson? (v : Json) : Option CertificateRecord := do
  let ms ← members? v
  return { id := ← required? ms "id" Json.string?
           domainId := ← usual? ms "domain_id" Json.string? ""
           primaryDomain := ← required? ms "primary_domain" Json.string?
           sanDomains :=
             ← usual? ms "san_domains" (fun v => v.array?.bind fun vs => vs.mapM Json.string?) []
           wildcard := ← usual? ms "wildcard" Json.bool? false
           certificate := ← usual? ms "certificate_pem" Json.string? ""
           chain := ← usual? ms "chain_pem" Json.string? ""
           issuedAt := ← usual? ms "issued_at" (nullable? time?) none
           expiresAt := ← usual? ms "expires_at" (nullable? time?) none
           autoRenew := ← required? ms "auto_renew" Json.bool?
           status := ← required? ms "status" (word? Status.ofText?)
           lastError := ← usual? ms "last_error" (nullable? Json.string?) none
           revocation :=
             ← usual? ms "revocation_reason" (nullable? (word? Revocation.ofStored?)) none
           createdAt := ← required? ms "created_at" time?
           updatedAt := ← required? ms "updated_at" time? }

/-- Reads a stored text. -/
def ofText? (text : String) : Option CertificateRecord := (Json.parse? text).bind ofJson?

/-- The description of a record for diagnosis: the stored form, and of the key only whether there
is one. -/
def described (r : CertificateRecord) : String := r.toJson.compact ++ " " ++ r.key.described

end CertificateRecord

end CertSteward
