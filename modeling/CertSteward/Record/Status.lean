import CertSteward.Text.Chars

/-!
# Certificate status and reasons for revocation

A reason for revocation is read by its name or its number; case and everything but ASCII letters and
digits is ignored.

## Main definitions

* `Status` — where a certificate stands
* `Revocation` — why a certificate is revoked, with its number, its two spellings and its reader
-/

namespace CertSteward

/-- Where a certificate stands. -/
inductive Status
  | pending
  | issued
  | expired
  | revoked
  | failed
deriving DecidableEq, Repr, Inhabited

namespace Status

/-- All of them. -/
def all : List Status := [pending, issued, expired, revoked, failed]

/-- The written form. -/
def text : Status → String
  | pending => "PENDING"
  | issued => "ISSUED"
  | expired => "EXPIRED"
  | revoked => "REVOKED"
  | failed => "FAILED"

/-- Reads the written form. -/
def ofText? (s : String) : Option Status := all.find? (·.text == s)

/-- Whether a certificate of this status has dates. -/
def hasExpiry : Status → Bool
  | issued | expired | revoked => true
  | pending | failed => false

end Status

/-- Why a certificate is revoked. -/
inductive Revocation
  | unspecified
  | keyCompromise
  | caCompromise
  | affiliationChanged
  | superseded
  | cessationOfOperation
  | certificateHold
  | removeFromCrl
  | privilegeWithdrawn
  | aaCompromise
deriving DecidableEq, Repr, Inhabited

namespace Revocation

/-- All of them. -/
def all : List Revocation :=
  [unspecified, keyCompromise, caCompromise, affiliationChanged, superseded, cessationOfOperation,
    certificateHold, removeFromCrl, privilegeWithdrawn, aaCompromise]

/-- The number of a reason; 7 is not in use. -/
def code : Revocation → Nat
  | unspecified => 0
  | keyCompromise => 1
  | caCompromise => 2
  | affiliationChanged => 3
  | superseded => 4
  | cessationOfOperation => 5
  | certificateHold => 6
  | removeFromCrl => 8
  | privilegeWithdrawn => 9
  | aaCompromise => 10

/-- The spelling of the certificate standard, used in messages. -/
def text : Revocation → String
  | unspecified => "unspecified"
  | keyCompromise => "keyCompromise"
  | caCompromise => "cACompromise"
  | affiliationChanged => "affiliationChanged"
  | superseded => "superseded"
  | cessationOfOperation => "cessationOfOperation"
  | certificateHold => "certificateHold"
  | removeFromCrl => "removeFromCRL"
  | privilegeWithdrawn => "privilegeWithdrawn"
  | aaCompromise => "aACompromise"

/-- The spelling in stored records. -/
def stored : Revocation → String
  | caCompromise => "caCompromise"
  | removeFromCrl => "removeFromCrl"
  | aaCompromise => "aaCompromise"
  | r => r.text

/-- Reads the spelling in stored records. -/
def ofStored? (s : String) : Option Revocation := all.find? (·.stored == s)

/-- The letters and digits of a text, in lower case. -/
def key (s : String) : List Char := Chars.lower (s.toList.filter Chars.isAlnum)

/-- Reads a reason, or says that there is none of that name. -/
def parse (s : String) : Except String Revocation :=
  match all.find? fun r => key r.text == key s || (toString r.code).toList == key s with
  | some r => .ok r
  | none => .error ("unknown revocation reason '" ++ s ++ "'")

end Revocation

end CertSteward
