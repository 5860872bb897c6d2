/-!
# Faults of keys, requests and certificates

## Main definitions

* `MaterialError` — the causes and their wording
-/

namespace CertSteward

/-- What went wrong with a key, a certificate request, a certificate or a file of them. -/
inductive MaterialError
  | invalidKeySize (bits : Nat)
  | noNames
  | malformedPem (detail : String)
  | keyGeneration (detail : String)
  | request (detail : String)
  | certificate (detail : String)
  | pkcs12 (detail : String)
deriving DecidableEq, Repr

/-- The wording. -/
def MaterialError.message : MaterialError → String
  | invalidKeySize bits =>
    "Invalid RSA key size " ++ toString bits ++ "; supported sizes are 2048, 3072 and 4096"
  | noNames => "Subject Alternative Name list is empty"
  | malformedPem detail => "Malformed PEM: " ++ detail
  | keyGeneration detail => "Key generation failed: " ++ detail
  | request detail => "CSR construction failed: " ++ detail
  | certificate detail => "Certificate parsing failed: " ++ detail
  | pkcs12 detail => "PKCS#12 encoding failed: " ++ detail

end CertSteward
