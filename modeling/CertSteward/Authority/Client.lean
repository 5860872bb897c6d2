import CertSteward.Authority.Order
import CertSteward.Bytes.Base64
import CertSteward.Json.Reader
import CertSteward.Json.Value
import CertSteward.Material.Key

/-!
# Calls over the network

What is asked of a remote authority and what comes back, below the level of orders.

## Main definitions

* `AccountCredentials`, `AccountCredentials.ofText?` — how an account is kept
* `ClientFault` — why a call failed
* `ClientCall`, `ClientCall.Answer`, `AuthorityClient` — the calls and whatever answers them
* `AuthorityClient.unreachable` — no network
-/

namespace CertSteward

/-- How an account is kept. -/
structure AccountCredentials where
  /-- Where the account is. -/
  id : String
  /-- Its private key. -/
  key : List UInt8
  /-- The directory of the authority. -/
  directory : Option String
  /-- The locations in the directory, which older credentials hold. -/
  urls : Option Json
deriving Inhabited

namespace AccountCredentials

/-- The locations in a directory. -/
def urls? (v : Json) : Option (Option Json) :=
  let names := ["newNonce", "newAccount", "newOrder", "newAuthz", "revokeCert", "keyChange"]
  let optional : Json → Option (Option String)
    | .null => some none
    | v => v.string?.map some
  match v with
  | .null => some none
  | v => do
    let ms ← Json.fields? names v
    let _ ← (names.take 3).mapM fun n => (ms.lookup n).bind Json.string?
    let _ ← (names.drop 3).mapM fun n => Json.fieldOr? ms n optional none
    return some v

/-- Reads credentials. -/
def ofText? (text : String) : Option AccountCredentials := do
  let ms ← Json.fields? ["id", "key_pkcs8", "directory", "urls"] (← Json.parse? text)
  let optional : Json → Option (Option String)
    | .null => some none
    | v => v.string?.map some
  return { id := ← (ms.lookup "id").bind Json.string?
           key := ← ((ms.lookup "key_pkcs8").bind Json.string?).bind Base64.decodeUrl?
           directory := ← Json.fieldOr? ms "directory" optional none
           urls := ← Json.fieldOr? ms "urls" urls? none }

/-- Credentials as they are kept. -/
def toJson (c : AccountCredentials) : Json :=
  .object ([("id", .string c.id), ("key_pkcs8", .string (Base64.encodeUrl c.key)),
    ("directory", .optional c.directory)] ++ c.urls.elim [] fun u => [("urls", u)])

/-- Whether the key is a private key for P-256. -/
def hasKey (c : AccountCredentials) : Bool :=
  let read := do
    let (s, rest) ← Der.readTag? Der.sequenceTag c.key
    let (version, s) ← Der.readTag? Der.integerTag s
    let (algorithm, s) ← Der.readTag? Der.sequenceTag s
    let (inner, _) ← Der.readTag? Der.bytesTag s
    let (inner, _) ← Der.readTag? Der.sequenceTag inner
    let (_, inner) ← Der.readTag? Der.integerTag inner
    let (secret, _) ← Der.readTag? Der.bytesTag inner
    return rest == [] && version == [0] && secret.length == 32 &&
      algorithm == Der.writeAll [ObjectId.ellipticKey.toDer, ObjectId.curveP256.toDer]
  read.getD false

end AccountCredentials

/-- Why a call failed. -/
inductive ClientFault
  /-- The authority described a problem. -/
  | problem (status : Option Nat) (kind detail : Option String)
  /-- Anything else. -/
  | other (detail : String)
deriving DecidableEq, Repr

namespace ClientFault

/-- The problems after which the same call may succeed. -/
def transientProblems : List String :=
  ["urn:ietf:params:acme:error:badNonce", "urn:ietf:params:acme:error:rateLimited",
    "urn:ietf:params:acme:error:serverInternal"]

/-- The description of a problem. -/
def describe (kind detail : Option String) : String :=
  (detail.or kind).getD "unspecified problem"

/-- What a failed call means for an issuance. -/
def toIssuance (operation : String) : ClientFault → IssuanceError
  | problem status kind detail =>
    if status.any (500 ≤ ·) ∨ kind.any transientProblems.contains then
      .transient operation (describe kind detail)
    else .rejected operation (describe kind detail)
  | other detail => .transient operation detail

end ClientFault

/-- An account at a remote authority. -/
structure RemoteAccount where
  id : String
  /-- The directory that its calls go to. -/
  directory : Option String
deriving DecidableEq, Repr

/-- A challenge as a remote authority reports it. -/
structure RemoteChallenge where
  /-- Whether a TXT record answers it. -/
  isDns : Bool
  challenge : DnsChallenge
  /-- The description of its problem. -/
  problem : Option String
deriving DecidableEq, Repr

/-- An authorization as a remote authority reports it: for a wildcard without the wildcard. -/
structure RemoteAuthorization where
  name : String
  status : AuthorizationStatus
  challenges : List RemoteChallenge
deriving DecidableEq, Repr

/-- A call to a remote authority; orders go by their locations. -/
inductive ClientCall
  | load (credentials : AccountCredentials)
  | create (contact : List String) (directory : String)
  | newOrder (account : RemoteAccount) (identifiers : List String)
  | authorizations (order : String)
  | challengeReady (order url : String)
  | refresh (order : String)
  | finalize (order : String) (request : List UInt8)
  | certificate (order : String)
  | revoke (account : RemoteAccount) (certificate : List UInt8) (reason : Revocation)

/-- What a successful call gives. -/
@[reducible] def ClientCall.Value : ClientCall → Type
  | load _ => RemoteAccount
  | create .. => RemoteAccount × AccountCredentials
  | newOrder .. => String
  | authorizations _ => List RemoteAuthorization
  | refresh _ => OrderState
  | certificate _ => Option String
  | challengeReady .. | finalize .. | revoke .. => Unit

/-- What comes back from a call. -/
abbrev ClientCall.Answer (c : ClientCall) : Type := Except ClientFault c.Value

/-- Whatever answers calls, told how many came before. -/
abbrev AuthorityClient := Nat → (c : ClientCall) → c.Answer

namespace AuthorityClient

/-- The fault of a call that reaches nobody. -/
def noConnection : ClientFault := .other "client error (Connect)"

/-- No network: only what is checked before the first call can be seen. -/
def unreachable : AuthorityClient := fun _ c =>
  match c with
  | .load k =>
    if !k.hasKey then .error (.other "invalid key bytes: unexpected value")
    else
      match k.directory, k.urls with
      | some _, _ => .error noConnection
      | none, some _ => .ok { id := k.id, directory := none }
      | none, none => .error (.other "missing data: no server URLs found")
  | .create .. | .newOrder .. | .authorizations _ | .challengeReady .. | .refresh _
  | .finalize .. | .certificate _ | .revoke .. => .error noConnection

end AuthorityClient

end CertSteward
