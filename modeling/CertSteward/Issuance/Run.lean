import CertSteward.Challenge.Set
import CertSteward.Dns.Provisioning
import CertSteward.Issuance.State
import CertSteward.Material.Details
import CertSteward.Material.Request
import CertSteward.Run.Act
import CertSteward.Run.Retry
import CertSteward.Text.Chars

/-!
# Issuing a certificate

A run places an order, makes the challenge records that the authority asks for, waits until it is
convinced and fetches the certificate. However the run ends, its challenge records are removed and
the order is given up before anything is reported. A run holds its primary domain from before its
first call to after its last: at most one issuance holds a domain, which has an entry in a table
while somebody holds it or waits for it.

## Main definitions

* `lockDomain`, `unlockDomain` — holding a domain
* `callAuthority` — a call that is made again while it fails in a way that may pass
* `RunState`, `Driving` — a run under way
* `drive`, `driveWatched` — from the account to the certificate
* `cleanUp` — what is done however a run ends
* `issueCertificate` — a whole run
-/

namespace CertSteward

/-! ### Holding a domain -/

/-- A step on the table of domains. -/
def lockStep (a : TableAct String Unit) : Steward a.Answer := perform (.locks a)

/-- Waits until a domain can be held, and gives up when it is cancelled. -/
def waitForDomain (domain : String) : Steward (Except IssuanceError Nat) := do
  if ← perform .watch then
    let lock ← lockStep (.obtain domain)
    match ← perform (.wait (.lock lock)) with
    | some () =>
      perform .unwatch
      return .ok lock
    | none =>
      perform .unwatch
      lockStep (.release lock)
      return .error .cancelled
  else return .error .cancelled

/-- Holds a domain unless it is held. -/
def tryDomain (domain : String) : Steward (Option Nat) := do
  let lock ← lockStep (.obtain domain)
  if ← lockStep (.tryEnter lock) then return some lock
  else
    lockStep (.release lock)
    return none

/-- Holds a domain, given in small letters. -/
def lockDomain (domain : String) : LockMode → Steward (Except IssuanceError Nat)
  | .wait => waitForDomain domain
  | .skip => do
    match ← tryDomain domain with
    | some lock => return .ok lock
    | none => return .error (.alreadyInFlight domain)

/-- Lets a domain go. -/
def unlockDomain (domain : String) (lock : Nat) : Steward Unit := do
  lockStep (.leave lock)
  lockStep (.release lock)
  lockStep (.tidy domain)

/-! ### Calls to the authority -/

/-- Asks the authority once. An answer that takes longer than `limit` is not waited for. -/
def callOnce (limit : Duration) (r : AuthorityRequest) : Watched r.Reply := do
  let (reply, time) ← perform (.authority r)
  if time ≤ limit then
    pause time
    return reply
  else
    pause limit
    return .error (.timeout r.operation limit)

/-- Asks the authority, and asks again at most `retries` times. -/
def callAuthority (s : IssuanceSettings) (retries : Nat) (r : AuthorityRequest) : Watched r.Reply :=
  retry s.retry retries IssuanceError.isRetryable (callOnce s.callTimeout r)

/-! ### Runs -/

/-- How runs are made. -/
structure IssuancePractice where
  settings : IssuanceSettings := {}
  dns : DnsPractice := {}
  /-- Whether challenge records that could not be removed are counted. -/
  countsDebt : Bool := true

/-- How far a run is. -/
structure RunState where
  machine : IssuanceMachine := {}
  challenges : ChallengeSet := {}
  /-- The order, once it is placed. -/
  order : Option OrderHandle := none
  /-- How many challenge records were made. -/
  recordsMade : Nat := 0

/-- A run under way: it may fail, and how far it came is known even then. -/
abbrev Driving := ExceptT IssuanceError (StateT RunState Steward)

namespace Driving

/-- Goes on with the result of a program that can be interrupted, or is cancelled. -/
def orCancelled {α : Type} (p : Watched α) : Driving α := do
  match ← p.run with
  | some a => return a
  | none => throw .cancelled

/-- Takes an event. -/
def advance (e : IssuanceEvent) : Driving Unit := do
  match (← get).machine.apply e with
  | .ok machine => modify fun s => { s with machine }
  | .error m => throw (.misplaced m)

/-- Changes the challenges. -/
def challenges (f : ChallengeSet → ChallengeSet) : Driving Unit :=
  modify fun s => { s with challenges := f s.challenges }

/-- Asks the authority, and asks again as often as `retries` says. -/
def call (settings : IssuanceSettings) (retries : Nat) (r : AuthorityRequest) :
    Driving r.Value := do
  match ← orCancelled (callAuthority settings retries r) with
  | .ok v => return v
  | .error e => throw e

/-- Goes on unless the DNS service failed. -/
def ofDns {α : Type} : Except DnsError α → Driving α
  | .ok a => return a
  | .error e => throw (.dns e)

/-! ### Challenges -/

/-- Takes the challenge of an authorization, unless it is valid already. -/
def takeChallenge (a : Authorization) : Driving Unit := do
  if a.status = .valid then return
  if a.status.isFailed then throw (.authorizationRejected a.identifier a.reason)
  match a.challenge with
  | none => throw (.noDnsChallenge a.identifier)
  | some c =>
    challenges fun set => set.insert
      { identifier := a.identifier, token := c.token, keyAuthorization := c.keyAuthorization
        url := c.url }

/-- Goes on if the DNS service serves a domain. -/
def checkServed (domain : String) : Driving Unit := do
  if !(← ofDns (← perform (.dns (.supports domain)))) then
    throw (.dns (.unsupportedDomain domain))

/-- Makes the records of challenges, all beside each other, and waits until they are seen. -/
def makeAll (p : DnsPractice) (entries : List ChallengeEntry) : Driving Unit := do
  let results ← orCancelled (DnsPractice.provisionAll
    (entries.map fun e => (e.recordName, e.recordValue)))
  for (e, result) in entries.zip results do
    if result.isOk then challenges (·.setStatus e.identifier .provisioned)
  modify fun s => { s with recordsMade := results.countP (·.isOk) }
  let handles ← ofDns (results.mapM id)
  ofDns (← orCancelled (p.awaitAll handles))

/-- Makes the challenge records of a run if all their domains are served. -/
def makeRecords (p : DnsPractice) : Driving Unit := do
  let entries := (← get).challenges.entries
  (entries.map fun e => Domain.base e.identifier).eraseDups.forM checkServed
  makeAll p entries

/-- Tells the authority that a challenge is ready. -/
def submit (settings : IssuanceSettings) (order : OrderHandle) (e : ChallengeEntry) :
    Driving Unit := do
  call settings settings.callRetries (.challengeReady order e.url)
  challenges (·.setStatus e.identifier .validating)

/-! ### Polling -/

/-- Pauses for the next of growing delays, unless there is none left. -/
def pauseOrTimeOut (operation : String) (start : Duration) (b : Backoff) : Driving Backoff := do
  let elapsed := (← perform .now) - start
  match b.next? elapsed with
  | some (delay, b) =>
    orCancelled (pause delay)
    return b
  | none => throw (.timeout operation elapsed)

/-- Notes what an authorization says of its challenge. -/
def settle (a : Authorization) (set : ChallengeSet) : ChallengeSet :=
  if a.status = .valid then set.setStatus a.identifier .valid
  else if a.status.isFailed then set.markInvalid a.identifier (a.error.getD "")
  else set

/-- Looks at the authorizations once. -/
def pollAuthorizations (settings : IssuanceSettings) (order : OrderHandle) (start : Duration)
    (b : Backoff) : Driving (Backoff ⊕ Unit) := do
  let authorizations ← call settings settings.callRetries (.authorizations order)
  challenges fun set => authorizations.foldl (fun set a => settle a set) set
  match authorizations.find? fun a => a.status.isFailed with
  | some a => throw (.authorizationRejected a.identifier a.reason)
  | none =>
    if authorizations.all fun a => a.status = .valid then return .inr ()
    else return .inl (← pauseOrTimeOut "authorization polling" start b)

/-- Waits until all authorizations are valid. -/
def awaitAuthorizations (settings : IssuanceSettings) (order : OrderHandle) : Driving Unit := do
  let start ← perform .now
  Program.loop (pollAuthorizations settings order start)
    (throw (.timeout "authorization polling" 0)) Program.manyRounds (.start settings.validation)

/-- Looks for the certificate once. -/
def pollCertificate (settings : IssuanceSettings) (order : OrderHandle) (start : Duration)
    (b : Backoff) : Driving (Backoff ⊕ String) := do
  let state ← call settings settings.callRetries (.orderState order)
  if state.status = .invalid then
    throw (.rejected "finalize" (state.error.getD "order became invalid"))
  let pem ← if state.status = .valid
    then call settings settings.callRetries (.certificate order) else pure none
  match pem with
  | some pem => return .inr pem
  | none => return .inl (← pauseOrTimeOut "order finalization" start b)

/-- Waits until the certificate is there. -/
def awaitCertificate (settings : IssuanceSettings) (order : OrderHandle) : Driving String := do
  let start ← perform .now
  Program.loop (pollCertificate settings order start)
    (throw (.timeout "order finalization" 0)) Program.manyRounds (.start settings.finalize)

end Driving

open Driving in
/-- Gets from the account to the certificate for a list of names. -/
def drive (p : IssuancePractice) (names : List String) (request : List UInt8) :
    Driving String := do
  let retries := p.settings.callRetries
  call p.settings retries .ensureAccount
  advance .accountEnsured
  let order ← call p.settings retries (.newOrder names)
  modify fun s => { s with order := some order }
  advance .orderPlaced
  let authorizations ← call p.settings retries (.authorizations order)
  advance .authorizationsFetched
  authorizations.forM takeChallenge
  makeRecords p.dns
  advance .challengesProvisioned
  (← get).challenges.entries.forM (submit p.settings order)
  advance .challengesSubmitted
  awaitAuthorizations p.settings order
  advance .authorizationsValid
  call p.settings 0 (.finalize order request)
  let chain ← awaitCertificate p.settings order
  advance .certificateDownloaded
  return chain

/-- Removes the challenge records of a run, gives its order up and tells how many records are
left. -/
def cleanUp (p : IssuancePractice) (s : RunState) : Steward Nat := do
  let tracked ← s.challenges.entries.mapM fun e => DnsPractice.tracked e.recordName e.recordValue
  let failures ← DnsPractice.deprovisionAll (tracked.filterMap id)
  if p.countsDebt then perform (.note (.debt failures))
  if let some order := s.order then
    let _ ← perform (.authority (.release order))
  return failures

/-- What the authority handed out, as it is kept. -/
def materialOf (chain : String) (key : KeyPair) (now : Instant) :
    Except IssuanceError IssuedMaterial := do
  let (certificate, above) ← (Pem.splitChain chain).mapError .material
  let (_, expiresAt) ← (certificateValidity certificate).mapError .material
  if expiresAt ≤ now then
    throw (IssuanceError.rejected "certificate"
      ("issued certificate already expired at " ++ expiresAt.toText))
  return { certificate, chain := above, key := key.privateKey, issuedAt := now, expiresAt }

/-- Drives until there is a certificate, an error or an interruption, and tells how far the run
came. Nothing is begun if it is cancelled already. -/
def driveWatched (p : IssuancePractice) (names : List String) (request : List UInt8) :
    Steward (Except IssuanceError String × RunState) := do
  if ← perform .watch then (drive p names request).run.run {} else return (.error .cancelled, {})

/-- A run while its domain is held. -/
def issueHeld (p : IssuancePractice) (domain : String) (names : List String) (request : List UInt8)
    (key : KeyPair) : Steward (Except IssuanceError IssuedCertificate) := do
  let started ← perform .now
  let (result, s) ← driveWatched p names request
  perform .unwatch
  let stage := s.machine.state
  let machine := if result.isOk then s.machine else s.machine.fail
  let cleanupFailures ← cleanUp p s
  let duration := (← perform .now) - started
  let report : IssuanceReport :=
    { visited := machine.visited, recordsMade := s.recordsMade, cleanupFailures, duration }
  match result with
  | .ok chain =>
    return (materialOf chain key (← perform .wallClock)).map fun material =>
      { material, names, report }
  | .error .cancelled => return .error .cancelled
  | .error cause => return .error (.failed domain stage cause)

/-- The domains of a request as they are ordered. -/
def IssuanceRequest.normal (r : IssuanceRequest) : Except IssuanceError IssuanceRequest :=
  ((do
    let primary ← CertificateRecord.domain r.primary false
    let others ← r.others.mapM fun name => CertificateRecord.domain name true
    return { r with primary, others } : Except RecordError IssuanceRequest)).mapError
      fun e => .invalidInput e.message

/-- A key with the request for the names of `r`. -/
def IssuanceRequest.signed (r : IssuanceRequest) (key : Except MaterialError KeyPair) :
    Except IssuanceError (KeyPair × List String × List UInt8) :=
  ((do
    let key ← key
    let (names, request) ← CertificateRequest.build r.primary r.others r.wildcard key
    return (key, names, (request.toDer key).write) :
      Except MaterialError (KeyPair × List String × List UInt8))).mapError .material

/-- Issues a certificate. -/
def issueCertificate (p : IssuancePractice) (r : IssuanceRequest) (mode : LockMode) :
    Steward (Except IssuanceError IssuedCertificate) := do
  match r.normal with
  | .error e => return .error e
  | .ok r =>
    match r.signed (← perform (.freshKey p.settings.key)) with
    | .error e => return .error e
    | .ok (key, names, request) =>
      match ← lockDomain r.primary mode with
      | .error e => return .error e
      | .ok lock =>
        let result ← issueHeld p r.primary names request key
        unlockDomain r.primary lock
        return result

end CertSteward
