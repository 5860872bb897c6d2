import CertSteward.Authority.Order
import CertSteward.Domain.Name
import CertSteward.Material.Details
import CertSteward.Material.Request

/-!
# An authority for trying things out

The development authority believes every challenge it is told is ready, unless it was told to
reject the name, and signs at once. An authorization is looked at when it is asked for: it stays
pending for as many looks as the order was given, and is settled at the next.

## Main definitions

* `DevelopmentAuthority`, `DevelopmentAuthority.make`
* `DevelopmentAuthority.answer` — what it answers
-/

namespace CertSteward

namespace DevelopmentAuthority

/-- One name of an order. -/
structure Entry where
  identifier : String
  token : String
  url : String
  status : AuthorizationStatus := .pending
  /-- Whether the challenge was said to be ready. -/
  isReady : Bool := false
  /-- How many looks still find it pending. -/
  pollsLeft : Nat
  error : Option String := none
deriving DecidableEq, Repr

/-- An order. -/
structure Order where
  id : String
  entries : List Entry
  status : OrderStatus := .pending
  certificate : Option String := none
deriving DecidableEq, Repr

namespace Order

/-- Whether the status no longer follows from the names. -/
def isSettled (o : Order) : Bool := o.status = .valid ∨ o.status = .processing

/-- The order with the status that follows from its names. -/
def refresh (o : Order) : Order :=
  if o.isSettled then o
  else if o.entries.any fun e => e.status.isFailed then { o with status := .invalid }
  else if o.entries.all fun e => e.status = .valid then { o with status := .ready }
  else o

end Order

end DevelopmentAuthority

/-- The development authority: its key and root certificate, its orders, and what it was told to do
wrong. -/
structure DevelopmentAuthority where
  key : KeyPair
  /-- The root certificate as text. -/
  rootPem : String
  orders : List DevelopmentAuthority.Order := []
  /-- The names that are rejected, in small letters. -/
  rejected : List String := []
  /-- How many looks find the authorizations of a new order pending. -/
  validationPolls : Nat := 0
  /-- How many of the next calls fail. -/
  failingCalls : Nat := 0
  /-- Seconds from signing to the end of a certificate. -/
  lifetime : Nat := 90 * 24 * 60 * 60
  /-- Whether challenges for TXT records are offered. -/
  offersDns : Bool := true
  /-- The serial numbers of the certificates that were revoked. -/
  revokedSerials : List String := []
  /-- The number of names given so far. -/
  named : Nat := 0
  accountCalls : Nat := 0
  finalizeCalls : Nat := 0
  readyCalls : Nat := 0

namespace DevelopmentAuthority

/-- Who signs. -/
def issuer : DistinguishedName :=
  .ofTexts [(.commonName, "certkeeper development root"), (.organization, "certkeeper")]

/-- A certificate is good from a minute before it is signed. -/
def startOf (now : Instant) : Instant := { now with seconds := now.seconds - 60 }

/-- A certificate is good for some seconds after it is signed. -/
def endOf (now : Instant) (lifetime : Nat) : Instant :=
  { now with seconds := now.seconds + lifetime }

/-- Ten years in seconds. -/
def rootLifetime : Nat := 10 * 365 * 24 * 60 * 60

/-- A new authority with a key pair. -/
def make (key : KeyPair) (now : Instant) : DevelopmentAuthority :=
  let root : Certificate :=
    { serial := (Der.integerOfBytes (key.derive "root" 16)).contents
      signature := key.signatureKind, issuer, subject := issuer, publicKey := key.publicKey
      notBefore := startOf now, notAfter := endOf now rootLifetime, extensions := [] }
  let der := (root.toDer (key.sign key.publicKey.write)).write
  { key, rootPem := Pem.ofCertificates [der] }

/-- What binds a token to the account. -/
def keyAuthorization (a : DevelopmentAuthority) (token : String) : String :=
  token ++ "." ++ Base64.encodeUrl (sha256 (Utf8.encode a.rootPem))

/-- A name that was not given before. -/
def nameNumber (kind : String) (n : Nat) : String := kind ++ "-" ++ toString n

/-- A name of a new order: its token and its challenge are named by two numbers. -/
def newEntry (polls : Nat) (identifier : String) (token url : Nat) : Entry where
  identifier := Text.lower identifier
  pollsLeft := polls
  token := Base64.encodeUrl (sha256 (Utf8.encode (nameNumber "token" token)))
  url := "dev://challenge/" ++ nameNumber "chall" url

/-- The names of an order, and the number of names given. -/
def newEntries (polls : Nat) : List String → Nat → List Entry × Nat
  | [], named => ([], named)
  | identifier :: rest, named =>
    let entry := newEntry polls identifier (named + 1) (named + 2)
    let (entries, named) := newEntries polls rest (named + 2)
    (entry :: entries, named)

/-- The order with that name. -/
def order? (a : DevelopmentAuthority) (id : String) : Option Order :=
  a.orders.find? fun o => o.id = id

/-- Changes the order with that name. -/
def change (a : DevelopmentAuthority) (id : String) (f : Order → Order) : DevelopmentAuthority :=
  { a with orders := a.orders.map fun o => if o.id = id then f o else o }

/-- Looks at a name whose challenge is ready. -/
def look (rejected : List String) (e : Entry) : Entry :=
  if !e.isReady || e.status ≠ .pending then e
  else if e.pollsLeft ≠ 0 then { e with pollsLeft := e.pollsLeft - 1 }
  else if rejected.contains e.identifier then
    { e with
      status := .invalid
      error := some ("incorrect TXT record found at " ++ Domain.challengeName e.identifier) }
  else { e with status := .valid }

/-- What is said of a name. -/
def report (a : DevelopmentAuthority) (e : Entry) : Authorization :=
  { identifier := e.identifier, status := e.status, error := e.error
    challenge := if a.offersDns
      then some { url := e.url, token := e.token, keyAuthorization := a.keyAuthorization e.token }
      else none }

/-- The certificate that a request asks for, in front of the root certificate. The number names its
serial number. -/
def certify (a : DevelopmentAuthority) (now : Instant) (n : Nat) (r : CertificateRequest) : String :=
  let serial := (sha256 (Utf8.encode (nameNumber "serial" n))).take 16
  let leaf : Certificate :=
    { serial := (Der.integerOfBytes serial).contents, signature := a.key.signatureKind, issuer
      subject := r.subject, publicKey := r.publicKey, notBefore := startOf now
      notAfter := endOf now a.lifetime
      extensions := if r.names = [] then [] else [.subjectNames r.names] }
  let der := (leaf.toDer (a.key.sign serial)).write
  Pem.ofCertificates [der] ++ a.rootPem

/-- Signs what a request asks for. -/
def sign (a : DevelopmentAuthority) (now : Instant) (request : List UInt8) :
    Except IssuanceError String × DevelopmentAuthority :=
  match CertificateRequest.ofBytes? request with
  | none => (.error (.rejected "finalize" "badCSR: malformed request"), a)
  | some r => (.ok (a.certify now (a.named + 1) r), { a with named := a.named + 1 })

/-- Opens an order. -/
def newOrder (a : DevelopmentAuthority) (identifiers : List String) :
    Except IssuanceError OrderHandle × DevelopmentAuthority :=
  if identifiers = [] then (.error (.rejected "new_order" "malformed: no identifiers"), a)
  else
    let (entries, named) := newEntries a.validationPolls identifiers a.named
    let id := nameNumber "order" (named + 1)
    (.ok { id, identifiers },
      { a with named := named + 1, orders := a.orders ++ [{ id, entries : Order }] })

/-- Looks at the names of an order and reports them. -/
def authorizations (a : DevelopmentAuthority) (id : String) :
    Except IssuanceError (List Authorization) × DevelopmentAuthority :=
  let a := a.change id fun o => Order.refresh { o with entries := o.entries.map (look a.rejected) }
  match a.order? id with
  | none => (.error (.unknownOrder id), a)
  | some o => (.ok (o.entries.map a.report), a)

/-- Hears that a challenge is ready. -/
def challengeReady (a : DevelopmentAuthority) (id url : String) :
    Except IssuanceError Unit × DevelopmentAuthority :=
  let a := { a with readyCalls := a.readyCalls + 1 }
  match a.order? id with
  | none => (.error (.unknownOrder id), a)
  | some o =>
    if o.entries.any fun e => e.url = url then
      (.ok (), a.change id fun o => { o with
        entries := o.entries.map fun e => if e.url = url then { e with isReady := true } else e })
    else (.error (.rejected "challenge_ready" "unknown challenge"), a)

/-- Says where an order stands. -/
def orderState (a : DevelopmentAuthority) (id : String) :
    Except IssuanceError OrderState × DevelopmentAuthority :=
  let a := a.change id Order.refresh
  match a.order? id with
  | none => (.error (.unknownOrder id), a)
  | some o =>
    (.ok { status := o.status
           error := if o.status = .invalid then o.entries.findSome? (·.error) else none }, a)

/-- Signs the request for an order that is ready. -/
def finalize (a : DevelopmentAuthority) (now : Instant) (id : String) (request : List UInt8) :
    Except IssuanceError Unit × DevelopmentAuthority :=
  let a := { a with finalizeCalls := a.finalizeCalls + 1 }.change id Order.refresh
  match a.order? id with
  | none => (.error (.unknownOrder id), a)
  | some o =>
    if o.status ≠ .ready then (.error (.rejected "finalize" "orderNotReady"), a)
    else
      match a.sign now request with
      | (.ok pem, a) =>
        (.ok (), a.change id fun o => { o with status := .valid, certificate := some pem })
      | (.error e, a) => (.error e, a.change id fun o => { o with status := .invalid })

/-- Revokes a certificate. -/
def revoke (a : DevelopmentAuthority) (der : List UInt8) :
    Except IssuanceError Unit × DevelopmentAuthority :=
  match Certificate.ofBytes? der with
  | none => (.error (.rejected "revoke" "malformed certificate: unexpected value"), a)
  | some c =>
    if a.revokedSerials.contains c.serialText then
      (.error (.rejected "revoke" "alreadyRevoked"), a)
    else (.ok (), { a with revokedSerials := a.revokedSerials ++ [c.serialText] })

/-- Answers a request that does not fail by command. -/
def serve (a : DevelopmentAuthority) (now : Instant) :
    (r : AuthorityRequest) → r.Reply × DevelopmentAuthority
  | .ensureAccount => (.ok (), a)
  | .newOrder identifiers => a.newOrder identifiers
  | .authorizations o => a.authorizations o.id
  | .challengeReady o url => a.challengeReady o.id url
  | .orderState o => a.orderState o.id
  | .finalize o request => a.finalize now o.id request
  | .certificate o =>
    match a.order? o.id with
    | none => (.error (.unknownOrder o.id), a)
    | some order => (.ok order.certificate, a)
  | .revoke der _ => a.revoke der
  | .release o => (.ok (), { a with orders := a.orders.filter fun x => x.id ≠ o.id })

/-- Answers a request. -/
def answer (a : DevelopmentAuthority) (now : Instant) (r : AuthorityRequest) :
    r.Reply × DevelopmentAuthority :=
  let a := if r = .ensureAccount then { a with accountCalls := a.accountCalls + 1 } else a
  if r.isCall ∧ a.failingCalls ≠ 0 then
    (.error (.transient r.operation "injected service unavailable"),
      { a with failingCalls := a.failingCalls - 1 })
  else a.serve now r

end DevelopmentAuthority

end CertSteward
