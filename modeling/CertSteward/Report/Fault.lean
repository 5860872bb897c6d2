import CertSteward.Config.Fault
import CertSteward.Export.Export
import CertSteward.Issuance.Error
import CertSteward.Json.Convert
import CertSteward.Record.Check
import CertSteward.Service.Service

/-!
# Reports of faults

A fault is reported by its name, its wording, and by what follows from it for those who may try
again.

## Main definitions

* `Reported` — kinds of faults that are reported
* `Reported.report` — the report of a fault
-/

namespace CertSteward

/-- Faults that are reported. -/
class Reported (ε : Type) where
  /-- What the fault is called. -/
  name : ε → String
  /-- How the fault is worded. -/
  message : ε → String
  /-- What else is told of it. -/
  more : ε → List (String × Json) := fun _ => []

namespace Reported

/-- The report of a fault. -/
def report [Reported ε] (e : ε) : Json :=
  .object ([("error", .string (name e)), ("message", .string (message e))] ++ more e)

instance [Reported ε] : ToJson ε := ⟨report⟩

/-- A result, or the report of the fault. -/
instance [Reported ε] [ToJson α] : ToJson (Except ε α) :=
  ⟨fun
    | .ok a => .object [("ok", ToJson.toJson a)]
    | .error e => report e⟩

end Reported

/-! ### Names -/

/-- What a fault of material is called. -/
def MaterialError.name : MaterialError → String
  | invalidKeySize _ => "InvalidKeySize"
  | noNames => "EmptySanList"
  | malformedPem _ => "MalformedPem"
  | keyGeneration _ => "KeyGeneration"
  | request _ => "Csr"
  | certificate _ => "Certificate"
  | pkcs12 _ => "Pkcs12"

/-- What a fault of a record is called. -/
def RecordError.name : RecordError → String
  | invalidDomain .. => "InvalidDomain"
  | invalidTransition .. => "InvalidTransition"
  | invalidValidity .. => "InvalidValidity"
  | missingMaterial => "MissingMaterial"

/-- What a fault of a store is called. -/
def StoreError.name : StoreError → String
  | file _ => "Io"
  | unreadable => "Serialization"
  | notFound _ => "NotFound"
  | invalidId _ => "InvalidStructure"

/-- What a fault of a certificate is called. -/
def CheckFault.name : CheckFault → String
  | missingMaterial => "MissingMaterial"
  | unparseable _ => "Unparseable"
  | expired _ => "Expired"
  | identityMismatch .. => "IdentityMismatch"
  | chain _ => "Chain"

/-- What a fault of a DNS service is called. -/
def DnsError.name : DnsError → String
  | authentication _ => "Authentication"
  | zoneNotFound _ => "ZoneNotFound"
  | recordCreation .. => "RecordCreation"
  | recordDeletion .. => "RecordDeletion"
  | apiRequest _ => "ApiRequest"
  | rateLimited _ => "RateLimited"
  | timeout _ => "Timeout"
  | configuration _ => "Configuration"
  | credentials _ => "Credentials"
  | unsupportedDomain _ => "UnsupportedDomain"
  | propagationTimeout .. => "PropagationTimeout"

/-- What a fault of an issuance is called. -/
def IssuanceError.name : IssuanceError → String
  | invalidInput _ => "InvalidInput"
  | transient .. => "Transient"
  | timeout .. => "Timeout"
  | authorizationRejected .. => "AuthorizationRejected"
  | rejected .. => "Rejected"
  | noDnsChallenge _ => "NoDns01Challenge"
  | unknownOrder _ => "UnknownOrder"
  | alreadyInFlight _ => "AlreadyInFlight"
  | cancelled => "Cancelled"
  | failed .. => "IssuanceFailed"
  | material _ => "Crypto"
  | dns _ => "Dns"
  | record _ => "Record"
  | accountStorage _ => "AccountStorage"
  | misplaced _ => "StateMachine"

/-- What a fault of an export is called. -/
def ExportError.name : ExportError → String
  | missingCertificate _ => "MissingCertificate"
  | missingPrivateKey _ => "MissingPrivateKey"
  | unsupported _ => "UnsupportedFormat"
  | material e => e.name

/-! ### Reports -/

instance : Reported MaterialError where
  name := MaterialError.name
  message := MaterialError.message

instance : Reported RecordError where
  name := RecordError.name
  message := RecordError.message

instance : Reported StoreError where
  name := StoreError.name
  message := StoreError.message

instance : Reported CheckFault where
  name := CheckFault.name
  message := CheckFault.message

instance : Reported ExportError where
  name := ExportError.name
  message := ExportError.message

instance : Reported Misplaced where
  name _ := "InvalidTransition"
  message := Misplaced.message

instance : Reported ConfigFault where
  name _ := "Config"
  message := ConfigFault.message

/-- Whether another try may help is told as well. -/
instance : Reported DnsError where
  name := DnsError.name
  message := DnsError.message
  more e := [("retryable", .bool e.isRetryable)]

/-- What another try may help, and what is at the root of it, is told as well. -/
instance : Reported IssuanceError where
  name := IssuanceError.name
  message := IssuanceError.message
  more e := [("kind", .string e.kind), ("transient", .bool e.isTransient),
    ("retryable", .bool e.isRetryable), ("permanent", .bool e.isPermanent),
    ("root", .string e.root.name)]

/-- The wordings down to the cause are told as well. -/
instance : Reported ServiceFault where
  name _ := "App"
  message f := f.chain.headD ""
  more f := [("chain", .strings f.chain)]

end CertSteward
