/-!
# Faults of a DNS service

## Main definitions

* `DnsError` — the causes, their wording, and which of them are worth another try
-/

namespace CertSteward

/-- What went wrong at a DNS service. -/
inductive DnsError
  | authentication (detail : String)
  | zoneNotFound (domain : String)
  | recordCreation (name : String) (detail : String)
  | recordDeletion (id : String) (detail : String)
  | apiRequest (detail : String)
  | rateLimited (seconds : Nat)
  | timeout (seconds : Nat)
  | configuration (detail : String)
  | credentials (detail : String)
  | unsupportedDomain (domain : String)
  | propagationTimeout (name : String) (seconds : Nat)
deriving DecidableEq, Repr

namespace DnsError

/-- The wording. -/
def message : DnsError → String
  | authentication detail => "Authentication failed: " ++ detail
  | zoneNotFound domain => "Zone not found for domain '" ++ domain ++ "'"
  | recordCreation name detail => "Failed to create TXT record '" ++ name ++ "': " ++ detail
  | recordDeletion id detail => "Failed to delete TXT record '" ++ id ++ "': " ++ detail
  | apiRequest detail => "API request failed: " ++ detail
  | rateLimited seconds => "Rate limited by DNS provider, retry after " ++ toString seconds ++ "s"
  | timeout seconds => "Request timed out after " ++ toString seconds ++ "s"
  | configuration detail => "Invalid configuration: " ++ detail
  | credentials detail => "Failed to load credentials: " ++ detail
  | unsupportedDomain domain => "Domain '" ++ domain ++ "' is not supported by this provider"
  | propagationTimeout name seconds =>
    "TXT record '" ++ name ++ "' did not propagate within " ++ toString seconds ++ "s"

/-- Whether the same call may succeed later. -/
def isRetryable : DnsError → Bool
  | apiRequest _ | rateLimited _ | timeout _ | propagationTimeout _ _ => true
  | _ => false

end DnsError

end CertSteward
