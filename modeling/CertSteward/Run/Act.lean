import CertSteward.Authority.Order
import CertSteward.Dns.Service
import CertSteward.Metrics.Metrics
import CertSteward.Renewal.Result
import CertSteward.Run.Program
import CertSteward.Store.Store

/-!
# What programs ask of their surroundings

Programs of this library read clocks, talk to the authority and the DNS service, keep records and
counts, hold domains and slots of challenge records, start jobs, and wait. Everything but waiting is
one atomic step. A wait can be interrupted while the program watches for its cancellation.

## Main definitions

* `Job`, `Outcome` — what runs beside other things, and what comes of it
* `TableAct` — steps on a table of guarded values
* `Wait`, `Act`, `Act.Answer` — requests and their answers
* `Steward`, `Watched` — programs, and programs that can be interrupted
-/

namespace CertSteward

/-- What runs beside other things. -/
inductive Job
  /-- Makes a challenge record for a slot that is held for it. -/
  | createRecord (slot : Nat) (name value : String)
  | provision (name value : String)
  | deprovision (handle : DnsHandle)
  | propagate (name value : String)
  | renew (record : CertificateRecord) (options : RenewOptions)
  /-- A renewal of a sweep, under one of its permits. -/
  | renewDue (permits : Nat) (task : RenewalTask)
  /-- Cancels what it was started by, after a time. -/
  | cancelAfter (time : Duration)
  /-- Lets a domain go, after a time. -/
  | unlockAfter (time : Duration) (lock : Nat) (domain : String)
deriving DecidableEq

/-- What comes of a job. -/
inductive Outcome
  | finished
  | interrupted
  | created (result : Except DnsError String)
  | provisioned (result : Except DnsError DnsHandle)
  | dns (result : Except DnsError Unit)
  | renewal (result : Except RecordFailure Renewal)
  | due (outcome : RenewalOutcome)

/-- One step on a table of guarded values. -/
inductive TableAct (κ ν : Type)
  /-- The cell of a key, new if there is none, with one more user. -/
  | obtain (key : κ)
  /-- The cell of a key, if there is one, with one more user. -/
  | find (key : κ)
  /-- One more user of a cell. -/
  | share (cell : Nat)
  /-- One user less. -/
  | release (cell : Nat)
  /-- Takes a cell if nobody holds it. -/
  | tryEnter (cell : Nat)
  /-- Lets a cell go. -/
  | leave (cell : Nat)
  | value (cell : Nat)
  | put (cell : Nat) (value : ν)
  /-- Removes a key that leads to the cell if nobody else uses it. -/
  | discard (key : κ) (cell : Nat)
  /-- Removes a key whose cell nobody uses. -/
  | tidy (key : κ)
  | remove (key : κ)
deriving DecidableEq

/-- The answer to a step on a table. -/
@[reducible] def TableAct.Answer {κ ν : Type} : TableAct κ ν → Type
  | obtain _ => Nat
  | find _ => Option Nat
  | tryEnter _ => Bool
  | value _ => Option ν
  | share _ | release _ | leave _ | put .. | discard .. | tidy _ | remove _ => Unit

/-- The key of a slot: the name of a challenge record in small letters, and its value. -/
abbrev SlotKey := String × String

/-- What a program waits for. -/
inductive Wait
  | sleep (time : Duration)
  /-- To hold a slot. -/
  | slot (cell : Nat)
  /-- To hold a domain. -/
  | lock (cell : Nat)
  | permit (permits : Nat)
  /-- The end of a job that was started. -/
  | join (fiber : Nat)
  /-- The end of jobs that run as a part of the program itself. -/
  | all (jobs : List Job)

/-- What there is when the wait is over. -/
@[reducible] def Wait.Answer : Wait → Type
  | sleep _ | slot _ | lock _ | permit _ => Unit
  | join _ => Outcome
  | all _ => List Outcome

/-- What a program asks of its surroundings. -/
inductive Act
  /-- The time since the start, which only moves forward. -/
  | now
  | wallClock
  /-- A name for a record. -/
  | freshName
  | freshKey (spec : KeySpec)
  /-- The answer of the authority, and the time that it takes. -/
  | authority (r : AuthorityRequest)
  | dns (r : DnsRequest)
  /-- The values of a TXT record that name servers see, and the time that the look takes. -/
  | lookUp (nameservers : List String) (name : String)
  | records (r : StoreRequest)
  | note (n : Note)
  /-- All counts so far. -/
  | counts
  /-- How often the renewal of a record was put off in a row. -/
  | attempts (id : String)
  | setAttempts (id : String) (n : Nat)
  /-- Slots of challenge records. A slot holds the id of its record, if there is one. -/
  | slots (a : TableAct SlotKey (Option String))
  /-- Domains. -/
  | locks (a : TableAct String Unit)
  | newPermits (n : Nat)
  | givePermit (permits : Nat)
  | isCancelled
  | cancel
  /-- Lets waits be interrupted from now on, unless the program is cancelled already. -/
  | watch
  /-- Lets no wait be interrupted any more. -/
  | unwatch
  /-- Starts a job. -/
  | spawn (j : Job)
  /-- Stops for good: a date is beyond the calendar. -/
  | halt
  | wait (w : Wait)

/-- The answer to a request; that to a wait is `none` if it was interrupted. -/
@[reducible] def Act.Answer : Act → Type
  | now => Duration
  | wallClock => Instant
  | freshName => String
  | freshKey _ => Except MaterialError KeyPair
  | authority r => r.Reply × Duration
  | dns r => r.Reply
  | lookUp .. => Except String (List String) × Duration
  | records r => r.Reply
  | counts => Metrics
  | attempts _ => Nat
  | slots a => a.Answer
  | locks a => a.Answer
  | newPermits _ => Nat
  | isCancelled => Bool
  | watch => Bool
  | spawn _ => Nat
  | halt => Empty
  | wait w => Option w.Answer
  | note _ | setAttempts .. | givePermit _ | cancel | unwatch => Unit

/-- Programs of this library. -/
abbrev Steward := Program Act Act.Answer

/-- Asks for one thing. -/
def perform (a : Act) : Steward a.Answer := .request a

/-- A program that ends without a result when it is interrupted. -/
structure Watched (α : Type) where
  /-- The program with the result that it has, if any. -/
  run : Steward (Option α)

instance : Monad Watched where
  pure a := { run := pure (some a) }
  bind p f := { run := do
    match ← p.run with
    | some a => (f a).run
    | none => return none }

instance : MonadLift Steward Watched where
  monadLift p := { run := do return some (← p) }

/-- Waits. -/
def await (w : Wait) : Watched w.Answer := { run := perform (.wait w) }

/-- Waits for some time. -/
def pause (time : Duration) : Watched Unit := await (.sleep time)

/-- Stops for good if there is no date. -/
def dated {α : Type} : Option α → Steward α
  | some a => pure a
  | none => .ask .halt nofun

end CertSteward
