import CertSteward.Authority.Client
import CertSteward.Store.Store

/-!
# An authority behind the network

The account is loaded from the store once, or made and kept there. Orders are held by names of
their own. A remote authority reports a wildcard under the name below it, so reported names are
matched with the names that were ordered.

## Main definitions

* `RemoteAuthority`, `RemoteAuthority.make`
* `RemoteAuthority.matchNames` — the ordered names behind reported ones
* `RemoteAuthority.answer` — what it answers
-/

namespace CertSteward

/-- An authority behind the network. -/
structure RemoteAuthority where
  directory : String
  /-- How its owner can be reached. -/
  contact : List String
  account : Option RemoteAccount := none
  /-- The orders that are held: their names and their locations. -/
  orders : List (String × String) := []
  /-- The number of orders so far. -/
  ordered : Nat := 0
  /-- The number of calls so far. -/
  calls : Nat := 0

namespace RemoteAuthority

/-- An authority with that directory, for an owner with that address. -/
def make (directory : String) (email : Option String) : RemoteAuthority :=
  { directory, contact := (email.map ("mailto:" ++ ·)).toList }

/-- Takes the first name out of a list that a test picks. -/
def takeFirst (p : String → Bool) : List String → Option (String × List String)
  | [] => none
  | x :: xs =>
    if p x then some (x, xs) else (takeFirst p xs).map fun (y, ys) => (y, x :: ys)

/-- The ordered name behind a reported one, and the names that are left: the name itself, or else
its wildcard, or else what was reported. -/
def matchName (left : List String) (reported : String) : String × List String :=
  match takeFirst (Text.sameIgnoringCase · reported) left with
  | some found => found
  | none =>
    match takeFirst (Text.sameIgnoringCase · (Domain.wildcardOf reported)) left with
    | some found => found
    | none => (reported, left)

/-- The ordered names behind reported ones, each ordered name at most once. -/
def matchNames (left : List String) : List String → List String
  | [] => []
  | reported :: rest =>
    let (name, left) := matchName left reported
    name :: matchNames left rest

/-- A computation that calls the authority and uses the store. -/
abbrev Call (α : Type) :=
  ExceptT IssuanceError (StateM (RemoteAuthority × RecordStore)) α

/-- Makes a call. -/
def call (client : AuthorityClient) (operation : String) (c : ClientCall) : Call c.Value := do
  let (a, store) ← get
  set ({ a with calls := a.calls + 1 }, store)
  match client a.calls c with
  | .ok v => return v
  | .error fault => throw (fault.toIssuance operation)

/-- The account: the one that is there, the stored one, or a new one. -/
def ensureAccount (client : AuthorityClient) : Call RemoteAccount := do
  let (a, store) ← get
  match a.account with
  | some account => return account
  | none =>
    match store.account with
    | .error e => throw (.accountStorage e.message)
    | .ok (some text) =>
      match AccountCredentials.ofText? text with
      | none => throw (.accountStorage "failed to deserialize credentials: unexpected value")
      | some c =>
        let account ← call client "load_account" (.load c)
        modify fun (a, s) => ({ a with account := some account }, s)
        return account
    | .ok none =>
      let (account, c) ← call client "create_account" (.create a.contact a.directory)
      let (a, store) ← get
      let (saved, store) := store.saveAccount c.toJson.pretty
      set (a, store)
      match saved with
      | .error e => throw (.accountStorage e.message)
      | .ok () =>
        set ({ a with account := some account }, store)
        return account

/-- Where an order is. -/
def location (o : OrderHandle) : Call String := do
  match (← get).1.orders.lookup o.id with
  | some l => return l
  | none => throw (.unknownOrder o.id)

/-- A reported authorization under the name that was ordered. -/
def report (r : RemoteAuthorization) (identifier : String) : Authorization :=
  let challenge := r.challenges.find? (·.isDns)
  { identifier, status := r.status, challenge := challenge.map (·.challenge)
    error := challenge.bind (·.problem) }

/-- Serves a request. -/
def serve (client : AuthorityClient) : (r : AuthorityRequest) → Call r.Value
  | .ensureAccount => do
    let _ ← ensureAccount client
  | .newOrder identifiers => do
    let account ← ensureAccount client
    let place ← call client "new_order" (.newOrder account identifiers)
    let (a, store) ← get
    let id := "order-" ++ toString (a.ordered + 1)
    set ({ a with ordered := a.ordered + 1, orders := a.orders ++ [(id, place)] }, store)
    return { id, identifiers }
  | .authorizations o => do
    let found ← call client "authorizations" (.authorizations (← location o))
    return List.zipWith report found (matchNames o.identifiers (found.map (·.name)))
  | .challengeReady o url => do
    call client "challenge_ready" (.challengeReady (← location o) url)
  | .orderState o => do call client "refresh_order" (.refresh (← location o))
  | .finalize o request => do call client "finalize" (.finalize (← location o) request)
  | .certificate o => do call client "download_certificate" (.certificate (← location o))
  | .revoke der reason => do
    let account ← ensureAccount client
    call client "revoke" (.revoke account der reason)
  | .release o =>
    modify fun (a, s) => ({ a with orders := a.orders.filter fun (id, _) => id ≠ o.id }, s)

/-- Answers a request. -/
def answer (client : AuthorityClient) (a : RemoteAuthority) (store : RecordStore)
    (r : AuthorityRequest) : r.Reply × RemoteAuthority × RecordStore :=
  (serve client r).run (a, store)

end RemoteAuthority

end CertSteward
