import CertSteward.Challenge.Set
import CertSteward.Json.Convert

/-!
# Reports of challenges

## Main definitions

* `ChallengeSet.report` — how the challenges of an order stand
-/

namespace CertSteward

instance : ToJson ChallengeEntry :=
  ⟨fun e => .object [("identifier", .string e.identifier), ("token", .string e.token),
    ("key_authorization", .string e.keyAuthorization), ("record_name", .string e.recordName),
    ("record_value", .string e.recordValue), ("url", .string e.url),
    ("status", .string e.status.text), ("error", .optional e.error)]⟩

/-- The identifier and the status of a challenge. -/
def ChallengeEntry.short (e : ChallengeEntry) : String := e.identifier ++ "=" ++ e.status.text

/-- How the challenges of an order stand, after what was done last. -/
def ChallengeSet.report (c : ChallengeSet) (result : Json) : Json :=
  .object [("result", result), ("len", .nat c.size), ("empty", .bool c.isEmpty),
    ("all_valid", .bool c.allValid),
    ("first_invalid", .optional (c.firstInvalid?.map (·.identifier))),
    ("status", .strings (c.entries.map ChallengeEntry.short)),
    ("counts", .array (ChallengeStatus.all.map fun s => .nat (c.count s)))]

end CertSteward
