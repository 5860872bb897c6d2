import CertSteward.Command.Arguments
import CertSteward.Config.File
import CertSteward.Config.Validation
import CertSteward.Export.Export
import CertSteward.Json.Printer
import CertSteward.Material.Pkcs12
import CertSteward.Record.Check
import CertSteward.Record.Stored
import CertSteward.Service.Service

/-!
# Executing commands

A command starts the service, has it do what is asked for, and says what came of it. A service that
watches over certificates sweeps again and again. Between two sweeps real time passes, and the files
may be changed by others; what the service remembers of renewals that were put off stays with it.

## Main definitions

* `CommandFault`, `CommandFault.chain` — why a command fails
* `Command.program` — what a command does once the service is started
* `Host.serve` — what the program prints, how it ends, and how the files are then
* `Watch`, `Host.startWatch` — a service between two sweeps
* `Watch.sweep` — the next sweep, and the files after it
* `Host.configPaths`, `Host.commandPaths` — the places that a configuration and a command name
-/

namespace CertSteward

/-! ### Faults -/

/-- Why a command fails. -/
inductive CommandFault
  | config (path : String) (fault : ConfigFault)
  | invalid (violations : List Violation)
  | service (fault : ServiceFault)
  | reason (detail : String)
  | notRevoked (id : String)
  | unsound (domain : String) (fault : CheckFault)
  | notExported (e : ExportError)
  /-- The bytes are not fit to be printed. -/
  | binary
  | unwritten (path : String) (fault : FileFault)
deriving Repr

/-- One line for each violation. -/
def violationText (vs : List Violation) : String :=
  Text.join "\n" (vs.map fun v => v.path ++ ": " ++ v.message.getD v.rule)

/-- The wordings of the fault and of what is behind it. -/
def CommandFault.chain : CommandFault → List String
  | config path fault => ("Failed to load configuration file " ++ path) :: fault.chain
  | invalid vs =>
    ["Configuration validation failed", "Configuration validation failed: " ++ violationText vs]
  | service fault => fault.chain
  | reason detail => [detail]
  | notRevoked id => ["Failed to revoke certificate " ++ id]
  | unsound domain fault => [domain ++ ": invalid: " ++ fault.message]
  | notExported e => [e.message]
  | binary => ["PKCS#12 output is binary, use --output"]
  | unwritten path fault => ["Failed to write " ++ path, fault.message]

/-- Text whose lines after the first are moved to the right. -/
def indented (width : Nat) (s : String) : String :=
  let gap := String.ofList (List.replicate width ' ')
  Text.join ("\n" ++ gap) ((Chars.splitOn '\n' s.toList).map String.ofList)

/-- Several causes, each with its number. -/
def numberedCauses (causes : List String) : List String :=
  causes.zipIdx.map fun (cause, i) => Text.padLeft 5 (toString i) ++ ": " ++ indented 7 cause

/-- What is printed of a fault: its wording, and below it those of its causes, with numbers if
there are several. -/
def faultReport (chain : List String) : String :=
  match chain with
  | [] => "Error: \n"
  | [top] => "Error: " ++ top ++ "\n"
  | [top, cause] => "Error: " ++ top ++ "\n\nCaused by:\n    " ++ indented 4 cause ++ "\n"
  | top :: causes =>
    "Error: " ++ top ++ "\n\nCaused by:\n" ++ Text.join "\n" (numberedCauses causes) ++ "\n"

/-! ### What commands do -/

/-- What a command did. -/
structure CommandReport where
  /-- What is printed. -/
  out : String := ""
  /-- A file that is written. -/
  file : Option (String × List UInt8) := none
  fault : Option CommandFault := none

namespace CommandReport

/-- A command that only prints. -/
def printed (out : String) : CommandReport := { out }

/-- A command that fails. -/
def failed (fault : CommandFault) : CommandReport := { fault := some fault }

/-- What becomes of a result of the service. -/
def ofService {α : Type} (r : Except ServiceFault α) (f : α → CommandReport) : CommandReport :=
  match r with
  | .ok a => f a
  | .error fault => failed (.service fault)

end CommandReport

open CommandReport

/-- A value as it is printed. -/
def jsonLine (j : Json) : String := j.pretty ++ "\n"

/-- A date as it is printed in a list. -/
def listedDate (t : Instant) : String :=
  String.ofList (Chars.dropEndWhile (· == 'Z') t.toRfc3339.toList) ++ "+00:00"

/-- One line of the list of records. -/
def listLine (r : CertificateRecord) : String :=
  r.id ++ "  " ++ Text.padRight 40 r.primaryDomain ++ " " ++ Text.padRight 8 r.status.text ++ " " ++
    r.expiresAt.elim "-" listedDate ++ "\n"

/-- One line of the table of certificates. -/
def healthLine (h : CertificateHealth) : String :=
  "  " ++ Text.padRight 40 h.domain ++ " " ++ Text.padRight 8 h.status.text ++ " " ++
    Text.padLeft 6 (h.daysUntilExpiry.elim "-" fun d => toString d ++ "d") ++ "  " ++
    (if h.needsRenewal then "renew" else "") ++ "\n"

/-- The table of certificates. -/
def healthTable (s : HealthSummary) : String :=
  "total " ++ toString s.total ++ "  valid " ++ toString s.valid ++ "  expiring soon " ++
    toString s.expiring ++ "  expired " ++ toString s.expired ++ "  failed " ++ toString s.failed ++
    "\n" ++ Text.join "" (s.certificates.map healthLine)

/-- What is printed of a renewal. -/
def renewalText (now : Instant) : Renewal → String
  | .renewed r => jsonLine r.toJson
  | .notDue r => r.primaryDomain ++ ": not due for renewal (" ++
      toString ((r.daysUntilExpiry now).getD 0) ++ " day(s) left), use --force to renew now\n"

/-- What is printed of the check of a certificate. -/
def checkReport (r : CertificateRecord) (now : Instant) : CommandReport :=
  match r.check .lenient now with
  | .ok details => printed (jsonLine details.toJson ++ r.primaryDomain ++ ": valid\n")
  | .error fault =>
    let details :=
      if r.hasMaterial then (CertificateDetails.inspect r.certificate).toOption else none
    { out := details.elim "" fun d => jsonLine d.toJson
      fault := some (.unsound r.primaryDomain fault) }

/-- What becomes of a certificate that is handed out. -/
def exportReport (r : CertificateRecord) (format : ExportFormat)
    (passphrase output : Option String) : CommandReport :=
  match r.exportAs format passphrase, output with
  | .error e, _ => failed (.notExported e)
  | .ok (.text s), some path => { file := some (path, Utf8.encode s) }
  | .ok (.pkcs12 p), some path => { file := some (path, p.toBytes) }
  | .ok (.text s), none => printed s
  | .ok (.pkcs12 _), none => failed .binary

/-- Does something with the record that a command names. -/
def withRecord (name : String) (f : CertificateRecord → Steward CommandReport) :
    Steward CommandReport := do
  match ← Service.find name with
  | .ok r => f r
  | .error fault => return failed (.service fault)

/-- What a command does once the service is started. -/
def Command.program (s : Service) : Command → Steward CommandReport
  | test => return {}
  | issue domain others wildcard autoRenew domainId => do
    return ofService (← s.issue domainId domain others wildcard autoRenew) fun r =>
      printed (jsonLine r.toJson)
  | renew certificate force => withRecord certificate fun r => do
    let renewal ← s.renew r { force }
    let now ← perform .wallClock
    return ofService renewal fun n => printed (renewalText now n)
  | revoke certificate reason =>
    match Revocation.parse reason with
    | .error detail => return failed (.reason detail)
    | .ok reason => withRecord certificate fun r => do
      return ofService (← s.revoke r reason) fun
        | true => printed (r.primaryDomain ++ ": revoked (" ++ reason.text ++ ")\n")
        | false => failed (.notRevoked r.id)
  | validate certificate => withRecord certificate fun r => do
    return checkReport r (← perform .wallClock)
  | health asJson withCounts => do
    match ← Service.list with
    | .error fault => return failed (.service fault)
    | .ok records =>
      let summary ← checkHealth s.practice.window records
      let counts ← perform .counts
      return printed ((if asJson then jsonLine summary.toJson else healthTable summary) ++
        if withCounts then counts.text else "")
  | exportAs certificate format passphrase output =>
    match ExportFormat.parse format with
    | .error name => return failed (.notExported (.unsupported name))
    | .ok format => withRecord certificate fun r =>
      return exportReport r format passphrase output
  | run => do
    runDaemon s.practice
    return {}
  | list asJson => do
    return ofService (← Service.list) fun records =>
      printed (if asJson then jsonLine (.array (records.map CertificateRecord.toJson))
        else Text.join "" (records.map listLine))

/-! ### The program -/

/-- How the program ends. -/
structure Ending where
  /-- Zero if all went well. -/
  code : Nat := 0
  /-- What is printed. -/
  out : String := ""
  /-- What is printed of faults. -/
  err : String := ""
  /-- How the files are then. -/
  files : FileTree

namespace Host

/-- The configuration for a command. -/
def loadConfig (h : Host) (path : Option String) : Except CommandFault Config := do
  let c ← match path with
    | some path => (Config.ofFile path (h.readText path)).mapError (.config path)
    | none => pure .embedded
  if c.isValid then return c else throw (.invalid c.violations)

/-- Ends with a fault. -/
def endWith (h : Host) (fault : CommandFault) : Ending :=
  { code := 1, err := faultReport fault.chain, files := h.files }

/-- Writes the file of a command. -/
def writeFile (h : Host) (files : FileTree) :
    Option (String × List UInt8) → Except CommandFault FileTree
  | none => .ok files
  | some (path, content) =>
    (files.write (.resolve h.directory path) content).mapError (.unwritten path)

/-- Ends as the report of a command says. -/
def endAs (h : Host) (files : FileTree) (r : CommandReport) : Ending :=
  match r.fault, h.writeFile files r.file with
  | some fault, _ => { { h with files }.endWith fault with out := r.out }
  | none, .error fault => { { h with files }.endWith fault with out := r.out }
  | none, .ok files => { out := r.out, files }

/-- The files as a store leaves them. -/
def filesOf (files : FileTree) : RecordStore → FileTree
  | .files s => s.tree
  | .memory _ => files

/-- What is printed when a configuration has passed the test. -/
def testText (path : Option String) : String :=
  "certkeeper: configuration file " ++ path.getD "(embedded)" ++ " test is successful\n"

/-- Executes a command. -/
def execute (h : Host) (i : Invocation) : Ending :=
  match h.loadConfig i.config with
  | .error fault => h.endWith fault
  | .ok c =>
    if i.command = .test then { out := testText i.config, files := h.files }
    else
      match Service.start h c with
      | (.error fault, files) => { h with files }.endWith (.service fault)
      | (.ok (s, m), files) =>
        let (report, m) := m.run (i.command.program s)
        h.endAs (filesOf files m.world.store) (report.getD {})

/-- How the program is used. -/
def usage : String :=
  "Usage: certkeeper [--config <PATH>] [--verbose] <COMMAND>\n\n" ++
  "Commands:\n" ++
  "  test\n" ++
  "  issue <DOMAIN> [--san <NAME>]... [--wildcard] [--no-auto-renew] [--domain-id <ID>]\n" ++
  "  renew <CERTIFICATE> [--force]\n" ++
  "  revoke <CERTIFICATE> [--reason <REASON>]\n" ++
  "  validate <CERTIFICATE>\n" ++
  "  health [--json] [--metrics]\n" ++
  "  export <CERTIFICATE> [--format <FORMAT>] [--passphrase <TEXT>] [--output <PATH>]\n" ++
  "  run\n" ++
  "  list [--json]\n"

/-- Does what arguments ask for. -/
def serve (h : Host) (arguments : List String) : Ending :=
  match Invocation.read arguments h.environment with
  | .error fault =>
    { code := 2, err := "error: " ++ fault.message ++ "\n\n" ++ usage, files := h.files }
  | .ok .help => { out := usage, files := h.files }
  | .ok (.version command) =>
    { out := "certkeeper" ++ command.elim "" ("-" ++ ·) ++ " 0.2.0\n", files := h.files }
  | .ok (.invocation i) => h.execute i

end Host

/-! ### Watching over certificates -/

/-- A service between two sweeps. -/
structure Watch where
  service : Service
  machine : Machine

/-- Starts a service that watches over certificates. -/
def Host.startWatch (h : Host) (path : Option String) : Except CommandFault Watch := do
  let c ← h.loadConfig path
  let (service, machine) ← (Service.start h c).1.mapError .service
  return { service, machine }

namespace Watch

/-- The time from one sweep to the next. -/
def interval (w : Watch) : Duration := w.service.practice.sweepInterval

/-- A service finds its files and the time as they are. -/
def refresh (h : Host) (w : Watch) : Watch :=
  let world := w.machine.world
  let store := match world.store with
    | .files s => .files { s with tree := h.files }
    | .memory s => .memory s
  let world := { world with store, wall := h.wall, seed := h.seed }
  { w with machine := { w.machine with world } }

/-- The next sweep, and the files after it. -/
def sweep (h : Host) (w : Watch) : Watch × FileTree :=
  let w := w.refresh h
  let (_, machine) := w.machine.run (CertSteward.sweep w.service.practice)
  ({ w with machine }, Host.filesOf h.files machine.world.store)

end Watch

namespace Host

/-- The places that a configuration names. -/
def configPaths (c : Config) : List String :=
  c.storage.path :: c.dns.credentialsFile.toList

/-- The places that a command names. -/
def commandPaths : Command → List String
  | .exportAs _ _ _ output => output.toList
  | _ => []

/-- The variables that a configuration names. -/
def configVariables (c : Config) : List String := c.dns.credentialsVariable.toList

end Host

end CertSteward
