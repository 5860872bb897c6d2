import CertSteward.Config.Settings
import CertSteward.Issuance.Error
import CertSteward.Run.Jobs
import CertSteward.Store.Files

/-!
# A service that keeps certificates

A service is what a configuration describes: an authority, a DNS service, a store in files, and how
often what is done. What it does to certificates it keeps in its store.

## Main definitions

* `ServiceFault`, `ServiceFault.chain` — what goes wrong
* `Host` — what a service finds where it is started
* `Service`, `Service.start` — the service of a configuration
* `Service.issue`, `renew`, `revoke`, `find`, `list` — what it is asked to do
-/

namespace CertSteward

/-! ### Faults -/

/-- What goes wrong in a service. -/
inductive ServiceFault
  /-- The store cannot be opened. -/
  | closed (path : String) (e : StoreError)
  /-- There is no DNS service for the settings. -/
  | dnsService (e : DnsError)
  /-- The settings say nothing usable about challenge records. -/
  | dnsPractice (e : DnsError)
  /-- The store cannot be read. -/
  | unread (e : StoreError)
  /-- There is no record with that name or for that domain. -/
  | unknown (name : String)
  /-- What was done cannot be saved. -/
  | unsaved (what : String) (e : StoreError)
  /-- There is no new certificate. -/
  | failed (e : IssuanceError)
  /-- There is no new certificate, and that cannot be saved. -/
  | failedUnsaved (failure : IssuanceError) (e : StoreError)
deriving DecidableEq, Repr

/-- The wordings of the fault and of what is behind it. -/
def ServiceFault.chain : ServiceFault → List String
  | closed path e => ("Failed to open certificate storage at " ++ path) :: e.chain
  | dnsService e => ["Failed to create DNS provider", e.message]
  | dnsPractice e => ["Failed to configure challenge provisioning", e.message]
  | unread e => "Failed to read certificate storage" :: e.chain
  | unknown name => ["No certificate found for '" ++ name ++ "'"]
  | unsaved what e => ("Failed to save " ++ what) :: e.chain
  | failed e => e.message :: e.chain
  | failedUnsaved failure e => failure.message :: e.chain

/-! ### Services -/

/-- What a service finds where it is started. -/
structure Host where
  files : FileTree := {}
  /-- The directory from which paths are seen. -/
  directory : FilePath := []
  /-- The values of variables. -/
  environment : String → Option String := fun _ => none
  /-- What the clock shows. -/
  wall : Instant
  /-- Where fresh bytes come from. -/
  seed : List UInt8
  client : AuthorityClient := .unreachable
  transport : HttpTransport := .none

/-- The text of a file. -/
def Host.readText (h : Host) (path : String) : Except FileFault String :=
  h.files.readText (.resolve h.directory path)

/-- A service that keeps certificates. -/
structure Service where
  config : Config
  practice : RenewalPractice

namespace Service

/-! ### Starting -/

/-- The authority that a configuration names; a development authority gets a key of its own. -/
def authorityOf (c : Config) (wall : Instant) (seed : List UInt8) : Authority :=
  match c.acme.directory.url? with
  | some url => .remote (.make url c.acme.email)
  | none => .development (.make { spec := .ecdsaP256, secret := sha256 seed } wall)

/-- How renewals are made under a configuration. -/
def practiceOf (c : Config) (dns : DnsPractice) : RenewalPractice :=
  { issuance := { settings := .ofAcme c.acme, dns }
    window := { days := c.renewal.windowDays }
    workers := c.renewal.workers
    interval := c.renewal.interval
    runOnStart := c.renewal.runOnStart }

/-- Starts the service of a configuration over a store. -/
def startOver (h : Host) (c : Config) (store : RecordStore) :
    Except ServiceFault (Service × Machine) := do
  let dns ← (DnsService.ofSettings c.dns h.readText h.environment).mapError .dnsService
  let practice := practiceOf c (← (DnsPractice.ofSettings c.dns).mapError .dnsPractice)
  let world : World :=
    { wall := h.wall, seed := h.seed, authority := authorityOf c h.wall h.seed, client := h.client
      dns, transport := h.transport, store }
  return ({ config := c, practice }, { world, program := practice.program })

/-- Starts the service of a configuration, and tells how the files are then. -/
def start (h : Host) (c : Config) : Except ServiceFault (Service × Machine) × FileTree :=
  let (opened, store) := FileStore.openAt h.files (.resolve h.directory c.storage.path)
  match opened with
  | .error e => (.error (.closed c.storage.path e), store.tree)
  | .ok () => (startOver h c (.files store), store.tree)

/-! ### What it is asked to do -/

/-- Saves a record of which it then tells. -/
def saved (what : String) (r : CertificateRecord) : Steward (Except ServiceFault Unit) := do
  return (← perform (.records (.save r))).mapError (.unsaved what)

/-- Keeps the record of a failure, as far as there is one. -/
def keepFailure {α : Type} (f : RecordFailure) : Steward (Except ServiceFault α) := do
  match f.record with
  | none => return .error (.failed f.error)
  | some r =>
    match ← perform (.records (.save r)) with
    | .ok () => return .error (.failed f.error)
    | .error e => return .error (.failedUnsaved f.error e)

/-- All records. -/
def list : Steward (Except ServiceFault (List CertificateRecord)) := do
  return (← perform (.records .list)).mapError .unread

/-- The record with a name or for a domain. -/
def find (name : String) : Steward (Except ServiceFault CertificateRecord) := do
  match ← perform (.records (.resolve name)) with
  | .ok (some r) => return .ok r
  | .ok none => return .error (.unknown name)
  | .error e => return .error (.unread e)

/-- Issues a certificate. -/
def issue (s : Service) (domainId primary : String) (others : List String)
    (wildcard autoRenew : Bool) : Steward (Except ServiceFault CertificateRecord) := do
  match ← issueRecord s.practice.issuance domainId primary others wildcard autoRenew with
  | .ok r => return (← saved "certificate" r).map fun () => r
  | .error f => keepFailure f

/-- Renews the certificate of a record. -/
def renew (s : Service) (r : CertificateRecord) (o : RenewOptions) :
    Steward (Except ServiceFault Renewal) := do
  match ← renewRecord s.practice.issuance s.practice.window r o with
  | .ok (.notDue r) => return .ok (.notDue r)
  | .ok (.renewed r) => return (← saved "renewed certificate" r).map fun () => .renewed r
  | .error f => keepFailure f

/-- Revokes the certificate of a record, and says whether that was done. -/
def revoke (s : Service) (r : CertificateRecord) (reason : Revocation) :
    Steward (Except ServiceFault Bool) := do
  match ← revokeRecord s.practice.issuance r reason with
  | (false, _) => return .ok false
  | (true, r) => return (← saved "revoked certificate" r).map fun () => true

end Service

end CertSteward
