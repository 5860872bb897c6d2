import CertSteward.Issuance.Run
import CertSteward.Proofs.Challenge.Set
import CertSteward.Proofs.Dns.Errand

/-!
# What a run may ask, and when

A run is known from outside by its requests and the answers to them. Its *journal* is what can be
read off these: which answers of the authority it has waited for, which domains are served, what
its jobs came to. The *protocol* says, in terms of the journal alone, which request may come next.
It knows nothing of the program: that the program keeps to it is a theorem, and what it promises
can be read off the definition of `Standing.May`.

## Main definitions

* `Standing`, `Journal` — how far a run is, and what it is about to learn
* `Journal.learn`, `Journal.note` — the journal after an answer
* `Standing.May` — the requests that may come next
* `protocol` — the conduct of a run
-/

namespace CertSteward

/-- The states of a run that succeeds, in their order. -/
def IssuanceState.wholeCourse : List IssuanceState :=
  [start, accountReady, orderCreated, authorizationsPending, challengesProvisioned,
    challengesValidating, finalizing, certificateReady]

/-- The entry of an authorization that is to be answered. -/
def Authorization.entry? (a : Authorization) : Option ChallengeEntry :=
  if a.status = .valid then none
  else a.challenge.map fun c =>
    { identifier := a.identifier, token := c.token, keyAuthorization := c.keyAuthorization
      url := c.url }

/-- The challenges of authorizations, in the order in which a run takes them. -/
def ChallengeSet.ofAuthorizations (as : List Authorization) : ChallengeSet :=
  as.foldl (fun set a => a.entry?.elim set set.insert) {}

/-- The job that makes the record of a challenge. -/
def ChallengeEntry.provision (e : ChallengeEntry) : Job := .provision e.recordName e.recordValue

/-- The key of the slot of the record that a job makes. -/
def Job.provisionKey? : Job → Option SlotKey
  | provision name value => some (slotKey name value)
  | _ => none

/-- Whether a job removes a challenge record. -/
def Job.isRemoval : Job → Bool
  | deprovision _ => true
  | _ => false

/-- How far a run is, as the answers to its requests tell. -/
structure Standing where
  /-- The key that it was given. -/
  key : Option (Except MaterialError KeyPair) := none
  /-- It has held its domain. -/
  hasDomain : Bool := false
  /-- The orders that the authority placed. -/
  orders : List OrderHandle := []
  /-- The authorizations that the authority told of, the first answer first. -/
  authorizations : List (List Authorization) := []
  /-- Domains that the DNS service serves. -/
  served : List String := []
  /-- The slots that it sent jobs to, to make records. -/
  asked : List SlotKey := []
  /-- The slots that it looked at itself, with the records that it found. -/
  looked : List (SlotKey × Option String) := []
  /-- The jobs that it waited for, with their outcomes. -/
  ended : List (Job × Outcome) := []
  /-- How often the order was to be finalized. -/
  finalizes : Nat := 0
  /-- The orders that were given up. -/
  releases : List OrderHandle := []
  /-- The numbers of records left that were noted. -/
  debts : List Nat := []

namespace Standing

/-- What a good answer of the authority adds. -/
def hear (k : Standing) : (r : AuthorityRequest) → r.Value → Standing
  | .newOrder _, o => { k with orders := k.orders ++ [o] }
  | .authorizations _, as => { k with authorizations := k.authorizations ++ [as] }
  | _, _ => k

/-- What a request to the authority adds, whatever the answer. -/
def ask (k : Standing) : AuthorityRequest → Standing
  | .finalize .. => { k with finalizes := k.finalizes + 1 }
  | .release o => { k with releases := k.releases ++ [o] }
  | _ => k

/-- What a look at a slot adds. -/
def look (k : Standing) (key : SlotKey) (id : Option String) : Standing :=
  { k with looked := k.looked ++ [(key, id)] }

/-- What jobs add that are to be waited for, whether they end or not. -/
def send (k : Standing) (jobs : List Job) : Standing :=
  { k with asked := k.asked ++ jobs.filterMap Job.provisionKey? }

/-- What jobs that were waited for add. -/
def gather (k : Standing) (jobs : List Job) (outcomes : List Outcome) : Standing :=
  { k with ended := k.ended ++ jobs.zip outcomes }

/-- How many records could not be removed. -/
def failures (k : Standing) : Nat :=
  k.ended.countP fun (j, o) => j.isRemoval && !(DnsPractice.resultOf o).isOk

/-- The input was accepted: the names can be normalized, and there is a key that signs for them. -/
def Accepted (r : IssuanceRequest) (k : Standing) : Prop :=
  ∃ normal key, r.normal = .ok normal ∧ k.key = some key ∧ (normal.signed key).isOk

/-- The first authorizations can be met: none has failed, and of each that is not valid yet there
is a challenge for a domain that is served. -/
def Cleared (k : Standing) : Prop :=
  ∃ as, k.authorizations.head? = some as ∧ ∀ a ∈ as, a.status.isFailed = false ∧
    (a.status ≠ .valid → a.challenge.isSome ∧ Domain.base a.identifier ∈ k.served)

/-- The record of each challenge of the first authorizations was made. -/
def Provisioned (k : Standing) : Prop :=
  ∃ as, k.authorizations.head? = some as ∧ ∀ e ∈ (ChallengeSet.ofAuthorizations as).entries,
    ∃ h, (e.provision, .provisioned (.ok h)) ∈ k.ended

/-- There was an answer by which all authorizations are valid. -/
def Validated (k : Standing) : Prop :=
  ∃ as ∈ k.authorizations, ∀ a ∈ as, a.status = .valid

/-- The requests to the authority that may come next. -/
def MayAsk (k : Standing) : AuthorityRequest → Prop
  | .newOrder _ => k.orders = []
  | .challengeReady .. => k.Provisioned
  | .finalize .. => k.finalizes = 0 ∧ k.Validated
  | .release o => k.orders = [o] ∧ k.releases = []
  | _ => True

/-- The jobs that may be waited for, if waits can be interrupted as `b` says. Records are made
before the first look at a slot, and those that were found there are removed. -/
def MaySend (b : Bool) (k : Standing) : Job → Prop
  | .provision .. => k.Cleared ∧ k.looked = []
  | .deprovision h => b = false ∧ (h.key, some h.id) ∈ k.looked
  | .propagate .. => True
  | _ => False

/-- The requests that may come next in a run for `r`. -/
def May (r : IssuanceRequest) (b : Bool) (k : Standing) : Act → Prop
  | .freshKey _ => k.key = none
  | .locks (.tryEnter _) => k.Accepted r
  | .wait (.lock _) => k.Accepted r
  | .authority q => k.hasDomain = true ∧ k.MayAsk q
  | .dns (.supports _) => k.hasDomain = true
  | .wait (.all jobs) => k.hasDomain = true ∧ ∀ j ∈ jobs, k.MaySend b j
  | .note (.debt n) => n = k.failures
  | .dns _ | .spawn _ | .halt => False
  | _ => True

end Standing

/-- The journal of a run. -/
structure Journal where
  standing : Standing := {}
  /-- The good answer that is to be waited for. -/
  awaited : Option ((q : AuthorityRequest) × q.Value) := none
  /-- The errors that the authority answered with. -/
  errors : List IssuanceError := []
  /-- How far it is with a slot. -/
  errand : Errand := .blank

namespace Journal

/-- What an answer tells. An answer of the authority counts once it was waited for, and it is waited
for if it takes no longer than `limit`. -/
def learn (limit : Duration) (j : Journal) : (a : Act) → a.Answer → Journal
  | .freshKey _, key => { j with standing := { j.standing with key := some key } }
  | .locks (.tryEnter _), true => { j with standing := { j.standing with hasDomain := true } }
  | .wait (.lock _), some () => { j with standing := { j.standing with hasDomain := true } }
  | .authority q, (.ok v, time) =>
    { j with standing := j.standing.ask q
             awaited := if time ≤ limit then some ⟨q, v⟩ else none }
  | .authority q, (.error e, _) =>
    { j with standing := j.standing.ask q, awaited := none, errors := e :: j.errors }
  | .wait (.sleep _), some () =>
    match j.awaited with
    | some ⟨q, v⟩ => { j with standing := j.standing.hear q v, awaited := none }
    | none => j
  | .wait (.sleep _), none => { j with awaited := none }
  | .dns (.supports domain), .ok true =>
    { j with standing := { j.standing with served := domain :: j.standing.served } }
  | .slots (.find key), none => { j with standing := j.standing.look key none }
  | .slots (.value _), v =>
    match j.errand with
    | .held key _ => { j with standing := j.standing.look key v.join }
    | _ => j
  | .wait (.all jobs), some outcomes =>
    { j with standing := (j.standing.send jobs).gather jobs outcomes }
  | .wait (.all jobs), none => { j with standing := j.standing.send jobs }
  | .note (.debt n), () =>
    { j with standing := { j.standing with debts := j.standing.debts ++ [n] } }
  | _, _ => j

/-- The journal after an answer. -/
def note (limit : Duration) (j : Journal) (a : Act) (answer : a.Answer) : Journal :=
  { j.learn limit a answer with errand := j.errand.next a answer }

end Journal

/-- The conduct of a run for `r` whose calls may take `limit` each. -/
def protocol (limit : Duration) (r : IssuanceRequest) : Conduct Journal where
  may b j a := j.standing.May r b a ∧ j.errand.May none b a
  next := Journal.note limit

end CertSteward
