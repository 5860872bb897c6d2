import CertSteward.Material.Pkcs12
import CertSteward.Record.Record
import CertSteward.Text.Chars

/-!
# Handing out a certificate

As text, certificate, chain and key follow each other, each closed by one line feed, and blank
ones are left out. As a PKCS#12 file there has to be a key.

## Main definitions

* `ExportFormat` — PEM text or a PKCS#12 file, with names, file extension and reader
* `ExportError`, `ExportedFile`, `CertificateRecord.exportAs`
-/

namespace CertSteward

/-- The form in which a certificate is handed out. -/
inductive ExportFormat
  | pem
  | pkcs12
deriving DecidableEq, Repr, Inhabited

namespace ExportFormat

/-- The name of a format. -/
def text : ExportFormat → String
  | pem => "pem"
  | pkcs12 => "pkcs12"

/-- The file extension of a format. -/
def extension : ExportFormat → String
  | pem => "pem"
  | pkcs12 => "p12"

/-- Reads a format; an unknown one is given back in lower case. -/
def parse (s : String) : Except String ExportFormat :=
  let name := Text.lower s
  if name = "pem" then .ok pem
  else if name = "pkcs12" ∨ name = "p12" ∨ name = "pfx" then .ok pkcs12
  else .error name

end ExportFormat

/-- Why a certificate cannot be handed out. -/
inductive ExportError
  | missingCertificate (id : String)
  | missingPrivateKey (id : String)
  | unsupported (name : String)
  | material (e : MaterialError)
deriving DecidableEq, Repr

/-- The wording. -/
def ExportError.message : ExportError → String
  | missingCertificate id => "Certificate '" ++ id ++ "' has no certificate material"
  | missingPrivateKey id => "Certificate '" ++ id ++ "' has no private key"
  | unsupported name => "Unsupported export format '" ++ name ++ "'"
  | material e => e.message

/-- What is handed out. -/
inductive ExportedFile
  | text (s : String)
  | pkcs12 (p : Pkcs12)
deriving DecidableEq, Repr

/-- A part of the text: blanks at its end dropped and one line feed put there; nothing if it is
blank. -/
def exportedPart (part : String) : List Char :=
  if Text.isBlank part then [] else Chars.trimEnd part.toList ++ ['\n']

namespace CertificateRecord

/-- The record as text. -/
def exportText (r : CertificateRecord) : String :=
  String.ofList ([r.certificate, r.chain, r.key.text].flatMap exportedPart)

/-- Hands out the certificate of a record. -/
def exportAs (r : CertificateRecord) (format : ExportFormat) (passphrase : Option String) :
    Except ExportError ExportedFile :=
  if ¬ r.hasMaterial then .error (.missingCertificate r.id)
  else
    match format with
    | .pem => .ok (.text r.exportText)
    | .pkcs12 =>
      if r.key.isBlank then .error (.missingPrivateKey r.id)
      else
        match Pkcs12.build r.certificate r.key r.chain passphrase r.primaryDomain with
        | .ok p => .ok (.pkcs12 p)
        | .error e => .error (.material e)

end CertificateRecord

end CertSteward
