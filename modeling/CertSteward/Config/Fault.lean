import CertSteward.Json.Printer
import CertSteward.Store.FileTree

/-!
# Faults of a configuration text

## Main definitions

* `ConfigFault` — the causes and their wording
* `ConfigFault.chain` — the wordings from the fault down to its cause
-/

namespace CertSteward

/-- Why a configuration cannot be loaded. -/
inductive ConfigFault
  | unreadable (path : String) (fault : FileFault)
  | unsupported (extension : String)
  | json
  | toml
  | kdl
  | unknownBlock (name : String)
  | negative (block setting : String) (value : Int)
  | tooLarge (block setting : String) (value : Nat)
  | choice (detail : String)
deriving DecidableEq, Repr

namespace ConfigFault

/-- The wording. -/
def message : ConfigFault → String
  | unreadable path _ => "Failed to read config file: " ++ Json.quote path
  | unsupported extension => "Unsupported config format: " ++ extension
  | json => "Failed to parse JSON configuration"
  | toml => "Failed to parse TOML configuration"
  | kdl => "KDL configuration parse error:\n\n  Failed to parse KDL document\n\n" ++
      "  Note: booleans are written #true / #false in KDL v2\n"
  | unknownBlock name => "Unknown top-level configuration block: '" ++ name ++
      "'\nValid blocks are: acme, renewal, dns-provider, storage, logging"
  | negative block setting value => "'" ++ setting ++ "' in '" ++ block ++
      "' must be a non-negative integer, got " ++ toString value
  | tooLarge block setting value =>
    block ++ " " ++ setting ++ " is out of range: " ++ toString value
  | choice detail => detail

/-- The wordings of the fault and of what is behind it. -/
def chain (f : ConfigFault) : List String :=
  f.message :: match f with
    | unreadable _ fault => [fault.message]
    | json | toml => ["the text is no configuration"]
    | _ => []

end ConfigFault

end CertSteward
